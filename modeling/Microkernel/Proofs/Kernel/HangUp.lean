import Microkernel.Proofs.Kernel.Writing

/-!
# When a pipe is hung up

A pipe is open until its owner lets go of it, or the last of its writers does, or all but one of its
holders have.  In that call everybody who waits for the pipe wakes.  From then on until it is gone
nothing is put into the pipe and nobody comes to hold it, and whoever reads it takes out what was in
it at that time.
-/

namespace Microkernel

variable {slots : Nat}

/-- Whether a call is the end of a pipe if that is still open: the caller lets go of the pipe, and
it is the owner, or the last who has written, or leaves a single holder. -/
structure Call.Severs (call : Call slots) (traps : List (Trap slots)) (id : PipeId) : Prop where
  /-- The caller holds the pipe. -/
  held : call.entered.processes[call.caller].Holds id
  /-- Afterwards it does not, since it has closed the pipe, has ended, or has been ended. -/
  gone : ¬ call.left.processes[call.caller].Holds id
  /-- The pipe has a reason to end with that. -/
  reason : (∃ pipe, call.entered.pipes.get? id = some pipe ∧
      pipe.owner = call.entered.processes[call.caller].pid) ∨
    (HasWritten traps id call.caller ∧ ∀ slot, HasWritten traps id slot → slot = call.caller) ∨
    call.left.processes.holders id = 1

/-- Whether one of some traps, which come after others, was the end of a pipe. -/
def Severed (earlier during : List (Trap slots)) (id : PipeId) : Prop :=
  ∃ before severing after, during = before ++ severing :: after ∧
    severing.Severs (earlier ++ before) id

theorem not_severed_nil (earlier : List (Trap slots)) (id : PipeId) : ¬ Severed earlier [] id := by
  rintro ⟨before, severing, after, nothing, _⟩
  exact absurd nothing (by simp)

theorem severed_append_iff {earlier during : List (Trap slots)} {trap : Trap slots} {id : PipeId} :
    Severed earlier (during ++ [trap]) id ↔
      Severed earlier during id ∨ trap.Severs (earlier ++ during) id := by
  constructor
  · rintro ⟨before, severing, after, all, severs⟩
    rcases append_singleton_eq_split all with ⟨rfl, rfl, _⟩ | ⟨rest, rfl, _⟩
    · exact .inr severs
    · exact .inl ⟨before, severing, rest, rfl, severs⟩
  · rintro (⟨before, severing, after, rfl, severs⟩ | severs)
    · exact ⟨before, severing, after ++ [trap], by simp, severs⟩
    · exact ⟨during, trap, [], rfl, severs⟩

/-! ## In a call -/

variable {before after : System slots} {caller slot : Fin slots} {hint : Hint}
  {layout : Layout slots} {author : Fin slots → Prop} {id : PipeId}

/-- A pipe has a reason to end in a call in which its holder lets go of it, just if the writers that
it lists and the references that it counts give one. -/
theorem Call.severs_iff_endsWith {call : Call slots} {traps : List (Trap slots)}
    (sound : call.entered.toTables.Sound layout author)
    (left_sound : call.left.toTables.Sound layout author) (tidy : call.entered.toTables.Tidy)
    (identified : call.entered.Identified)
    (written : ∀ slot, HasWritten traps id slot ↔ call.entered.toTables.HasNoted id slot)
    {pipe : Pipe} (found : call.entered.pipes.get? id = some pipe)
    (held : call.entered.processes[call.caller].Holds id)
    (left : call.left.pipes.get? id = pipe.letGo call.entered.processes[call.caller].pid)
    (gone : ¬ call.left.processes[call.caller].Holds id) :
    call.Severs traps id ↔ pipe.endsWith call.entered.processes[call.caller].pid = true := by
  have live {slot : Fin slots} (holds : call.entered.processes[slot].Holds id) :
      call.entered.processes[slot].state ≠ .vacant := fun vacant =>
    Process.not_holds_of_vacant (sound.slot slot) vacant holds
  have owner : (∃ other, call.entered.pipes.get? id = some other ∧
      other.owner = call.entered.processes[call.caller].pid) ↔
        pipe.owner = call.entered.processes[call.caller].pid := by
    simp only [found, Option.some.injEq, exists_eq_left']
  have writer : (HasWritten traps id call.caller ∧
      ∀ slot, HasWritten traps id slot → slot = call.caller) ↔
        (pipe.dropWriter call.entered.processes[call.caller].pid).2 = true := by
    rw [Pipe.dropWriter_last_iff (tidy.listed id pipe found).distinct, written,
      Tables.hasNoted_iff found held]
    refine and_congr_right fun _ => ⟨fun alone other listed => ?_, fun alone slot wrote => ?_⟩
    · obtain ⟨slot, rfl, holds⟩ := (tidy.listed id pipe found).hold other listed
      rw [alone slot ((written slot).2 ((Tables.hasNoted_iff found holds).2 listed))]
    · have noted := (written slot).1 wrote
      exact identified.distinct slot call.caller (live noted.1) (live held)
        (alone _ ((Tables.hasNoted_iff found noted.1).1 noted))
  have single : call.left.processes.holders id = 1 ↔ pipe.references = 2 := by
    have counted := left_sound.counted id
    have some_left := sound.held id pipe found
    rw [PipeTable.references, left, Pipe.letGo] at counted
    split at counted
    next last =>
        rw [Option.map_none, Option.getD_none] at counted
        omega
    next =>
        simp only [Option.map_some, Option.getD_some] at counted
        omega
  simp only [Pipe.endsWith, Bool.or_eq_true, beq_iff_eq, or_assoc]
  constructor
  · rintro ⟨_, _, owns | last | alone⟩
    · exact .inl (owner.1 owns)
    · exact .inr (.inl (writer.1 last))
    · exact .inr (.inr (single.1 alone))
  · rintro (owns | last | alone)
    · exact ⟨held, gone, .inl (owner.2 owns)⟩
    · exact ⟨held, gone, .inr (.inl (writer.2 last))⟩
    · exact ⟨held, gone, .inr (.inr (single.2 alone))⟩

theorem Call.not_severs_of_holds {call : Call slots} {traps : List (Trap slots)}
    (keeps : call.entered.processes[call.caller].Holds id →
      call.left.processes[call.caller].Holds id) : ¬ call.Severs traps id :=
  fun severs => severs.gone (keeps severs.held)

/-- Nothing is put into a pipe that is hung up. -/
theorem Call.accepted_of_hungUp {call : Call slots}
    (fate : call.entered.Fate call.caller call.left id) {held : Pipe}
    (found : call.entered.pipes.get? id = some held) (closed : held.hungUp = true) :
    call.accepted id = [] := by
  cases fate with
  | left quiet parts =>
      cases parts with
      | kept same _ =>
          refine Call.accepted_of_same ?_
          rw [PipeTable.bytesIn, PipeTable.bytesIn, same]
      | parted pipe here _ left _ =>
          cases found.symm.trans here
          refine Call.accepted_of_le ?_
          cases kept : held.letGo call.entered.processes[call.caller].pid with
          | none =>
              rw [PipeTable.bytesIn, left, kept]
              exact Nat.zero_le _
          | some pipe =>
              rw [PipeTable.bytesIn_eq (left.trans kept), PipeTable.bytesIn_eq found]
              exact Nat.le_of_eq (by rw [Pipe.letGo_eq_some kept])
  | opened _ _ _ absent => cases absent.symm.trans found
  | joined _ pipe here open_eq =>
      cases here.symm.trans found
      cases open_eq.symm.trans closed
  | read asked =>
      rw [Call.accepted, if_neg (Call.not_completes_of_call? asked (by simp))]
  | written _ pipe here open_eq =>
      cases here.symm.trans found
      cases open_eq.symm.trans closed

/-! ## In a run -/

namespace Run

variable {launch : Launch slots} {traps : List (Trap slots)} {system : System slots}
  {call : Call slots}

theorem fate (run : Run launch traps system) (current : call.caller.val = system.current)
    (user : system.UserStep call.caller call.entered)
    (handled : KernelM.handleCall call.caller call.entered = .ok call.hint call.left)
    (id : PipeId) : call.entered.Fate call.caller call.left id := by
  obtain ⟨runnable, handled, _⟩ := run.invariant.handled current user handled
  exact handled.fate (user.tidy run.tidy) runnable id

/-- A pipe that is there before and after a call has the same owner, and it is hung up afterwards
just if it was before, or the call is the end of it. -/
theorem hungUp_iff (run : Run launch traps system) (few : slots ≤ Config.maxProcesses)
    (current : call.caller.val = system.current)
    (user : system.UserStep call.caller call.entered)
    (handled : KernelM.handleCall call.caller call.entered = .ok call.hint call.left)
    {held pipe : Pipe} (found : call.entered.pipes.get? id = some held)
    (here : call.left.pipes.get? id = some pipe) :
    pipe.owner = held.owner ∧
      (pipe.hungUp = true ↔ held.hungUp = true ∨ call.Severs traps id) := by
  -- As long as the caller does not let go of the pipe, nothing changes.
  have unchanged (same : pipe.hungUp = held.hungUp)
      (keeps : call.entered.processes[call.caller].Holds id →
        call.left.processes[call.caller].Holds id) :
      pipe.hungUp = true ↔ held.hungUp = true ∨ call.Severs traps id := by
    rw [same, or_iff_left (Call.not_severs_of_holds keeps)]
  cases run.fate current user handled id with
  | left quiet parts =>
      cases parts with
      | kept same holds =>
          cases here.symm.trans (same.trans found)
          exact ⟨rfl, unchanged rfl holds.2⟩
      | parted other there held_before left gone =>
          cases found.symm.trans there
          have severs_iff := Call.severs_iff_endsWith (user.sound run.invariant.sound)
            (run.invariant.handled current user handled).2.2.sound (user.tidy run.tidy)
            (user.identified (run.identified few))
            (fun slot => (run.hasWritten_iff few id slot).trans user.hasNoted_iff.symm)
            found held_before left gone
          rw [severs_iff, Pipe.letGo_eq_some (left.symm.trans here), Bool.or_eq_true]
          exact ⟨rfl, .rfl⟩
  | opened _ _ _ absent => cases absent.symm.trans found
  | joined _ other there _ _ result holds =>
      cases there.symm.trans found
      cases result.symm.trans here
      exact ⟨rfl, unchanged rfl fun _ => holds⟩
  | read _ other there ring _ result holds =>
      cases there.symm.trans found
      cases result.symm.trans here
      exact ⟨rfl, unchanged rfl fun _ => holds⟩
  | written _ other there _ ring _ result holds =>
      cases there.symm.trans found
      cases result.symm.trans here
      exact ⟨(held.noteWriter_named _).1,
        unchanged (held.noteWriter_fields _).2.2 fun _ => holds⟩

end Run

/-! ## The life of a pipe -/

/-- The life of a pipe, from the call that opened it up to what it is now. -/
structure Life (earlier : List (Trap slots)) (opening : Trap slots) (during : List (Trap slots))
    (id : PipeId) (pipe : Pipe) : Prop where
  /-- The first call opened a pipe. -/
  opened : opening.entered.processes[opening.caller].call? = some .pipeOpen
  /-- Before, there was none. -/
  absent : opening.entered.pipes.get? id = none
  /-- The pipe has been there since. -/
  there : ∀ trap ∈ opening :: during, (trap.left.pipes.get? id).isSome
  /-- Its owner is the process that has opened it. -/
  owner : pipe.owner = opening.entered.processes[opening.caller].pid
  /-- The pipe is hung up if one of the later calls was the end of it. -/
  hungUp_iff : pipe.hungUp = true ↔ Severed (earlier ++ [opening]) during id
  /-- From such a call on nothing has been put into the pipe, and what was in it then has been taken
  out, up to what is still in it. -/
  drained : ∀ before severing after, during = before ++ severing :: after →
    severing.Severs (earlier ++ [opening] ++ before) id →
    (∀ trap ∈ after, trap.accepted id = []) ∧
    ∃ left, severing.left.pipes.get? id = some left ∧
      left.ring.contents = after.flatMap (·.delivered id) ++ pipe.ring.contents

theorem Life.new {earlier : List (Trap slots)} {opening : Trap slots}
    (asked : opening.entered.processes[opening.caller].call? = some .pipeOpen)
    (absent : opening.entered.pipes.get? id = none) {name : List UInt8}
    (here : opening.left.pipes.get? id =
      some (.create opening.entered.processes[opening.caller].pid name)) :
    Life earlier opening [] id (.create opening.entered.processes[opening.caller].pid name) where
  opened := asked
  absent := absent
  there trap member := by
    cases List.mem_singleton.1 member
    rw [here]
    rfl
  owner := rfl
  hungUp_iff := iff_of_false Bool.false_ne_true (not_severed_nil _ _)
  drained before severing after nothing := absurd nothing (by simp)

theorem Life.append {earlier during : List (Trap slots)} {opening trap : Trap slots}
    {held pipe : Pipe} (life : Life earlier opening during id held)
    (here : trap.left.pipes.get? id = some pipe) (owner : pipe.owner = held.owner)
    (hungUp_iff : pipe.hungUp = true ↔
      held.hungUp = true ∨ trap.Severs (earlier ++ [opening] ++ during) id)
    (moved : held.ring.contents ++ trap.accepted id = trap.delivered id ++ pipe.ring.contents)
    (shut : held.hungUp = true → trap.accepted id = []) :
    Life earlier opening (during ++ [trap]) id pipe where
  opened := life.opened
  absent := life.absent
  there other member := by
    rcases List.mem_append.1 (List.cons_append ▸ member) with earlier | last
    · exact life.there other earlier
    · cases List.mem_singleton.1 last
      rw [here]
      rfl
  owner := owner.trans life.owner
  hungUp_iff := by rw [severed_append_iff, hungUp_iff, life.hungUp_iff]
  drained before severing after split severs := by
    rcases append_singleton_eq_split split with ⟨rfl, rfl, rfl⟩ | ⟨between, rfl, rfl⟩
    · exact ⟨fun other member => absurd member List.not_mem_nil, pipe, here, rfl⟩
    · obtain ⟨silent, left, was_there, stream⟩ :=
        life.drained before severing between rfl severs
      have nothing := shut (life.hungUp_iff.2 ⟨before, severing, between, rfl, severs⟩)
      refine ⟨fun other member => ?_, left, was_there, ?_⟩
      · rcases List.mem_append.1 member with earlier | last
        · exact silent other earlier
        · cases List.mem_singleton.1 last
          exact nothing
      · rw [nothing, List.append_nil] at moved
        rw [stream, moved, List.flatMap_append, List.flatMap_singleton, List.append_assoc]

/-- Every pipe of a table has lived since one of some traps. -/
def Lives (traps : List (Trap slots)) (pipes : PipeTable) : Prop :=
  ∀ id pipe, pipes.get? id = some pipe →
    ∃ earlier opening during, traps = earlier ++ opening :: during ∧
      Life earlier opening during id pipe

theorem Run.lives {launch : Launch slots} {traps : List (Trap slots)} {system : System slots}
    (run : Run launch traps system) (few : slots ≤ Config.maxProcesses) :
    Lives traps system.pipes := by
  induction run with
  | start started =>
      intro id pipe found
      cases ((launch.begins started).no_pipes id).symm.trans found
  | advance _ ticks passes induction =>
      cases passes
      exact induction
  | trap run trap current user call switch induction =>
      intro id pipe here
      rw [run.pipes_after current user call switch] at here
      have fate := run.fate current user call id
      cases found : trap.entered.pipes.get? id with
      | none =>
          cases fate with
          | opened asked name _ _ _ new =>
              cases new.symm.trans here
              exact ⟨_, trap, [], rfl, Life.new asked found new⟩
          | left _ parts =>
              cases parts with
              | kept same => cases (here.symm.trans same).trans found
              | parted _ there => cases found.symm.trans there
          | joined _ _ there => cases found.symm.trans there
          | read _ _ there => cases found.symm.trans there
          | written _ _ there => cases found.symm.trans there
      | some held =>
          obtain ⟨earlier, opening, during, rfl, life⟩ := induction id held (user.pipes_eq ▸ found)
          obtain ⟨owner, hungUp_iff⟩ := run.hungUp_iff few current user call found here
          refine ⟨earlier, opening, during ++ [trap], by simp, life.append here owner ?_ ?_ ?_⟩
          · simpa using hungUp_iff
          · rcases (run.faithful current user call).pipe id pipe here with
              ⟨_, absent, _⟩ | ⟨_, there, moved⟩
            · cases absent.symm.trans found
            · cases there.symm.trans found
              exact moved
          · exact Call.accepted_of_hungUp fate found

/-! ## A pipe that is hung up -/

/-- Whether a call treats a pipe as one that is hung up. -/
structure Call.KeepsShut (call : Call slots) (id : PipeId) (pipe : Pipe) : Prop where
  /-- As long as the pipe is there it is hung up, and what the caller has taken is missing. -/
  stays : ∀ left, call.left.pipes.get? id = some left → left.hungUp = true ∧
    pipe.ring.contents = call.delivered id ++ left.ring.contents
  /-- Nobody comes to hold the pipe. -/
  unjoined : ∀ slot : Fin slots, call.left.processes[slot].Holds id →
    call.entered.processes[slot].Holds id
  /-- Whoever wants to put bytes into the pipe is told that it is closed, and that no byte has
  been moved. -/
  write : ∀ transfer : CallM.Transfer,
    call.entered.processes[call.caller].call? = some .pipeWrite →
    transfer.ValidFor call.entered.processes[call.caller] .read → transfer.pipe = id →
    transfer.size ≠ 0 → call.left = { call.entered with
      memory := transfer.reported call.entered.memory 0
      processes := call.entered.processes.answer call.caller ErrorCode.pipeClosed.code }
  /-- Whoever reads gets as many as it wants of the bytes that are left, possibly none, and does
  not wait. -/
  read : ∀ transfer : CallM.Transfer,
    call.entered.processes[call.caller].call? = some .pipeRead →
    transfer.ValidFor call.entered.processes[call.caller] .write → transfer.pipe = id →
    call.Completes .pipeRead id ∧
      call.delivered id = pipe.ring.contents.take transfer.size ∧
      call.left.memory = transfer.reported
        (call.entered.memory.write transfer.buffer (call.delivered id)) (call.delivered id).length

theorem Handled.turns_away (handled : Handled before caller hint after)
    {transfer : CallM.Transfer} (asked : before.processes[caller].call? = some .pipeWrite)
    (valid : transfer.ValidFor before.processes[caller] .read) (wanted : transfer.size ≠ 0)
    {pipe : Pipe} (found : before.pipes.get? transfer.pipe = some pipe)
    (closed : pipe.hungUp = true) :
    after = { before with
      memory := transfer.reported before.memory 0
      processes := before.processes.answer caller ErrorCode.pipeClosed.code } := by
  cases handled with
  | done outcome =>
      simp only [CallOutcome, asked] at outcome
      cases outcome with
      | idle other requested nothing =>
          cases valid.toRequestedBy.unique requested
          exact absurd nothing wanted
      | blocked other requested _ here _ open_eq =>
          cases valid.toRequestedBy.unique requested
          cases here.symm.trans found
          cases open_eq.symm.trans closed
      | put other requested _ here _ open_eq =>
          cases valid.toRequestedBy.unique requested
          cases here.symm.trans found
          cases open_eq.symm.trans closed
  | failed error memory outcome =>
      obtain ⟨told, _, reported, _⟩ := outcome.of_turned_away asked valid
      cases told
      rw [← reported]
  | ended fault memory outcome => cases (outcome.of_turned_away asked valid).1

/-- A read from a pipe that is hung up does not wait. -/
theorem Handled.reads_on (handled : Handled before caller hint after)
    (sound : before.toTables.Sound layout author)
    (runnable : before.processes[caller].state = .live .runnable)
    {transfer : CallM.Transfer} (asked : before.processes[caller].call? = some .pipeRead)
    (valid : transfer.ValidFor before.processes[caller] .write)
    {pipe : Pipe} (found : before.pipes.get? transfer.pipe = some pipe)
    (closed : pipe.hungUp = true) :
    Call.Completes ⟨caller, before, hint, after⟩ .pipeRead transfer.pipe ∧
      ∃ kept, after.pipes.get? transfer.pipe = some kept ∧
        kept.ring.contents = pipe.ring.contents.drop transfer.size := by
  cases handled with
  | failed _ _ outcome => exact absurd outcome (CallOutcome.not_turned_away asked valid)
  | ended _ _ outcome => exact absurd outcome (CallOutcome.not_turned_away asked valid)
  | done outcome =>
      simp only [CallOutcome, asked] at outcome
      cases outcome with
      | blocked other requested _ here _ open_eq =>
          cases valid.toRequestedBy.unique requested
          cases here.symm.trans found
          cases open_eq.symm.trans closed
      | idle other requested nothing =>
          cases valid.toRequestedBy.unique requested
          refine ⟨⟨asked, valid.pipe, ?_, ?_⟩, pipe, found, ?_⟩
          · rw [ProcessTable.getElem_answer_self]
            exact runnable
          · rw [ProcessTable.getElem_answer_self, Process.respond, Registers.response_respond]
          · rcases nothing with nothing | ⟨other, here, empty, _⟩
            · rw [nothing, List.drop_zero]
            · cases here.symm.trans found
              rw [(Ring.isEmpty_iff _).1 empty, List.drop_nil]
      | took other requested _ here _ ring bytes run =>
          cases valid.toRequestedBy.unique requested
          cases here.symm.trans found
          obtain ⟨smaller, read, _, rest⟩ := (sound.ring _ _ found).read transfer.size
          cases read.symm.trans run
          have caller_left :=
            getElem_wake_answer runnable Response.ok (·.isWriting transfer.pipe) rfl
          refine ⟨⟨asked, valid.pipe, ?_, ?_⟩, { pipe with ring }, ?_, rest⟩
          · exact (congrArg Process.state caller_left).trans runnable
          · rw [caller_left]
            exact Registers.response_respond _ _
          · exact (PipeTable.get?_put _ (PipeTable.index_lt_of_get?_eq_some found) _).trans
              (if_pos rfl)

namespace Run

variable {launch : Launch slots} {traps : List (Trap slots)} {system : System slots}

/-- Every call of the current process treats a pipe that is hung up as such. -/
theorem keepsShut (run : Run launch traps system) (few : slots ≤ Config.maxProcesses)
    (call : Call slots) (current : call.caller.val = system.current)
    (user : system.UserStep call.caller call.entered)
    (handled : KernelM.handleCall call.caller call.entered = .ok call.hint call.left)
    {pipe : Pipe} (found : call.entered.pipes.get? id = some pipe) (closed : pipe.hungUp = true) :
    call.KeepsShut id pipe := by
  have fate := run.fate current user handled id
  have faithful := run.faithful current user handled
  have shut := Call.accepted_of_hungUp fate found closed
  obtain ⟨runnable, outcome, preserved⟩ := run.invariant.handled current user handled
  have sound := user.sound run.invariant.sound
  have moved {left : Pipe} (here : call.left.pipes.get? id = some left) :
      pipe.ring.contents = call.delivered id ++ left.ring.contents := by
    rcases faithful.pipe id left here with ⟨_, absent, _⟩ | ⟨held, there, moved⟩
    · cases absent.symm.trans found
    · cases there.symm.trans found
      rwa [shut, List.append_nil] at moved
  constructor
  · intro left here
    exact ⟨(run.hungUp_iff few current user handled found here).2.2 (.inl closed), moved here⟩
  · intro slot holds
    by_cases itself : slot = call.caller
    · subst itself
      cases fate with
      | left _ parts =>
          cases parts with
          | kept _ still => exact still.1 holds
          | parted _ _ held => exact held
      | opened _ _ _ absent => cases absent.symm.trans found
      | joined _ _ there open_eq =>
          cases there.symm.trans found
          cases open_eq.symm.trans closed
      | read _ _ _ _ held => exact held
      | written _ _ _ _ _ held => exact held
    · exact (outcome.holds_iff sound preserved.sound runnable itself).1 holds
  · rintro transfer asked valid rfl wanted
    exact outcome.turns_away asked valid wanted found closed
  · rintro transfer asked valid rfl
    obtain ⟨completes, left, here, rest⟩ :=
      outcome.reads_on sound runnable asked valid found closed
    have delivered : call.delivered transfer.pipe = pipe.ring.contents.take transfer.size := by
      have split := moved here
      rw [rest] at split
      exact List.append_cancel_right (split.symm.trans (List.take_append_drop _ _).symm)
    refine ⟨completes, delivered, ?_⟩
    rw [Call.reported_eq valid.toRequestedBy, ← valid.buffer]
    exact (faithful.read transfer.pipe completes).2

/-- Whoever waits for a pipe wakes in the call that is the end of the pipe. -/
theorem wakes_of_severs (run : Run launch traps system) (few : slots ≤ Config.maxProcesses)
    (call : Call slots) (current : call.caller.val = system.current)
    (user : system.UserStep call.caller call.entered)
    (handled : KernelM.handleCall call.caller call.entered = .ok call.hint call.left)
    (severs : call.Severs traps id) {slot : Fin slots}
    (blocked : call.entered.processes[slot].state.isBlockedOn id = true) :
    call.left.processes[slot].state = .live .runnable := by
  obtain ⟨runnable, outcome, preserved⟩ := run.invariant.handled current user handled
  have sound := user.sound run.invariant.sound
  have different : slot ≠ call.caller := by
    rintro rfl
    rw [runnable] at blocked
    cases blocked
  have live : call.entered.processes[slot].state ≠ .vacant := by
    intro vacant
    rw [vacant] at blocked
    cases blocked
  rcases ((outcome.confines sound runnable).others slot different live).state with
    same | ⟨_, _, woken, _⟩
  · -- Whoever still waits does so for an open pipe, but this one is hung up or gone.
    rw [← same] at blocked
    obtain ⟨_, left, here, stalls⟩ := preserved.waiting slot id blocked
    obtain ⟨pipe, found⟩ := sound.pipe_of_holds severs.held
    have closed := (run.hungUp_iff few current user handled found here).2.2 (.inr severs)
    cases stalls.open_eq.symm.trans closed
  · exact woken

/-- Every pipe is open from the call that opened it up to the first call in which its owner lets go
of it, or the last of those who have written to it since they came to hold it does, or a single
holder is left.  In that call everybody who waits for the pipe wakes.  From then on the pipe is hung
up as long as it is there: nothing is put into it and nobody comes to hold it, whoever wants to put
bytes into it is told that it is closed, and whoever reads takes out, without waiting, what was in
the pipe at that time. -/
theorem hangs_up (run : Run launch traps system) (few : slots ≤ Config.maxProcesses) :
    (∀ id pipe, system.pipes.get? id = some pipe → ∃ earlier opening during,
      traps = earlier ++ opening :: during ∧ Life earlier opening during id pipe) ∧
    ∀ (caller : Fin slots) (entered : System slots), caller.val = system.current →
      system.UserStep caller entered →
      ∃ hint left, KernelM.handleCall caller entered = .ok hint left ∧
        ∀ id, (Call.Severs ⟨caller, entered, hint, left⟩ traps id → ∀ slot : Fin slots,
            entered.processes[slot].state.isBlockedOn id = true →
              left.processes[slot].state = .live .runnable) ∧
          ∀ pipe, entered.pipes.get? id = some pipe → pipe.hungUp = true →
            Call.KeepsShut ⟨caller, entered, hint, left⟩ id pipe := by
  refine ⟨run.lives few, fun caller entered current user => ?_⟩
  obtain ⟨hint, left, call⟩ := run.invariant.ends current user
  refine ⟨hint, left, call, fun id => ⟨fun severs slot blocked => ?_, fun pipe found closed => ?_⟩⟩
  · exact run.wakes_of_severs few ⟨caller, entered, hint, left⟩ current user call severs blocked
  · exact run.keepsShut few ⟨caller, entered, hint, left⟩ current user call found closed

/-- The second process waits for bytes and goes on when the first closes the pipe, which it owns;
the pipe is hung up then. -/
theorem hangs_up_small : ∃ traps system closing pipe, Run Launch.small traps system ∧
    closing.Follows system ∧ closing.Severs traps ⟨0⟩ ∧
    closing.entered.processes[(1 : Fin 2)].state = .live (.readingPipe ⟨0⟩) ∧
    closing.left.processes[(1 : Fin 2)].state = .live .runnable ∧
    closing.after.pipes.get? ⟨0⟩ = some pipe ∧ pipe.hungUp = true ∧
    ∃ earlier opening during, traps ++ [closing] = earlier ++ opening :: during ∧
      Life earlier opening during ⟨0⟩ pipe := by
  have evaluated : (Launch.small.play? (Launch.familyScript 1 ++ Launch.readerWaits)).any
      (fun final => (final.2.perform? (Launch.calling 0x80010 .pipeClose 1 0 0)).any fun closing =>
        decide (some ⟨0⟩ ∈ closing.entered.processes[closing.caller].handles ∧
          some ⟨0⟩ ∉ closing.left.processes[closing.caller].handles ∧
          (closing.entered.pipes.get? ⟨0⟩).map (·.owner) =
            some closing.entered.processes[closing.caller].pid ∧
          closing.entered.processes[(1 : Fin 2)].state = .live (.readingPipe ⟨0⟩) ∧
          (closing.after.pipes.get? ⟨0⟩).map (·.hungUp) = some true)) = true := by
    decide +kernel
  simp only [Option.any_eq_true, decide_eq_true_eq, Option.map_eq_some_iff] at evaluated
  obtain ⟨⟨traps, system⟩, played, closing, performed, held, gone, owns, waits, pipe, here,
    closed⟩ := evaluated
  have run := Run.play played
  obtain ⟨current, user, call, switch⟩ := System.of_perform?_eq_some performed
  have follows : closing.Follows system := ⟨current, user, call, switch⟩
  have severs : closing.Severs traps ⟨0⟩ := ⟨held, gone, .inl owns⟩
  obtain ⟨hint, left, called, after⟩ :=
    (run.hangs_up (by decide)).2 closing.caller closing.entered current user
  cases call.symm.trans called
  have blocked : closing.entered.processes[(1 : Fin 2)].state.isBlockedOn ⟨0⟩ = true := by
    rw [waits]
    rfl
  exact ⟨traps, system, closing, pipe, run, follows, severs, waits, (after ⟨0⟩).1 severs 1 blocked,
    here, closed, ((run.follow follows).hangs_up (by decide)).1 ⟨0⟩ pipe here⟩

/-- A pipe is hung up when one of its three holders lets go of it, who does not own it, although
another one has written to it, closed it, and come back.  Whoever then wants to put no byte at all
into the pipe succeeds. -/
theorem hangs_up_early_wide : (∃ (traps : List (Trap 4)) (system : System 4) (closing : Trap 4),
      Run Launch.wide traps system ∧ closing.Follows system ∧
      closing.left.processes.holders ⟨0⟩ = 2 ∧
      (∃ writing ∈ traps, writing.caller ≠ closing.caller ∧ writing.accepted ⟨0⟩ ≠ [] ∧
        closing.left.processes[writing.caller].pid = writing.left.processes[writing.caller].pid ∧
        closing.left.processes[writing.caller].Holds ⟨0⟩) ∧
      (∃ pipe, closing.entered.pipes.get? ⟨0⟩ = some pipe ∧ pipe.hungUp = false ∧
        pipe.owner ≠ closing.entered.processes[closing.caller].pid) ∧
      ∃ pipe, closing.left.pipes.get? ⟨0⟩ = some pipe ∧ pipe.hungUp = true) ∧
    ∃ (traps : List (Trap 4)) (system : System 4) (writing : Trap 4),
      Run Launch.wide traps system ∧ writing.Follows system ∧
      (∃ pipe, writing.entered.pipes.get? ⟨0⟩ = some pipe ∧ pipe.hungUp = true) ∧
      writing.Completes .pipeWrite ⟨0⟩ := by
  have evaluated : (Launch.wide.play? Launch.writersScript).any (fun final =>
      (final.2.perform? (Launch.calling 0x147000 .pipeClose 1 0 0)).any fun closing =>
        decide (closing.left.processes.holders ⟨0⟩ = 2 ∧
          (∃ writing ∈ final.1, writing.caller ≠ closing.caller ∧ writing.accepted ⟨0⟩ ≠ [] ∧
            closing.left.processes[writing.caller].pid =
              writing.left.processes[writing.caller].pid ∧
            some ⟨0⟩ ∈ closing.left.processes[writing.caller].handles) ∧
          ((closing.entered.pipes.get? ⟨0⟩).any fun pipe => decide (pipe.hungUp = false ∧
            pipe.owner ≠ closing.entered.processes[closing.caller].pid)) = true ∧
          (closing.left.pipes.get? ⟨0⟩).any (·.hungUp) = true) &&
        (Launch.playFrom? (final.1 ++ [closing]) closing.after
            [Launch.calling 0x147000 .setPriority 1 30 0]).any fun later =>
          (later.2.perform? (Launch.calling 0x80010 .pipeWrite 1 0x80010 0)).any fun writing =>
            decide ((writing.entered.pipes.get? ⟨0⟩).any (·.hungUp) = true ∧
              writing.Completes .pipeWrite ⟨0⟩)) = true := by
    decide +kernel
  simp only [Option.any_eq_true, Bool.and_eq_true, decide_eq_true_eq] at evaluated
  obtain ⟨⟨traps, system⟩, played, closing, performed, ⟨two, another, was_open, closed⟩,
    ⟨later, final⟩, continued, writing, written, shut, completes⟩ := evaluated
  have run := Run.play played
  obtain ⟨current, user, call, switch⟩ := System.of_perform?_eq_some performed
  have follows : closing.Follows system := ⟨current, user, call, switch⟩
  obtain ⟨still_current, still_user, next_call, next_switch⟩ := System.of_perform?_eq_some written
  exact ⟨⟨traps, system, closing, run, follows, two, another, was_open, closed⟩,
    later, final, writing, (run.follow follows).playFrom continued,
      ⟨still_current, still_user, next_call, next_switch⟩, shut, completes⟩

end Run

end Microkernel
