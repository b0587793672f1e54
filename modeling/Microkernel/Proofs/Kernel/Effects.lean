import Microkernel.Proofs.Kernel.Integrity
import Microkernel.Proofs.Kernel.Stream
import Microkernel.Proofs.Tables.Bystanders

/-!
# Whom a call affects

A call affects other processes through pipes and priorities only.  Someone who waits for a pipe goes
on if the call moves bytes through that pipe or hangs it up, and a process gets another priority if
the call names it for this.  The caller finds its registers as it left them, with a response, or
makes its call again once it runs.
-/

namespace Microkernel

variable {slots : Nat}

/-- Whether a pipe has changed in a way that is a reason to go on for who waits for it: bytes have
moved, or the pipe was open and is hung up or gone. -/
def PipeTable.Stirs (before after : PipeTable) (id : PipeId) : Prop :=
  after.bytesIn id ≠ before.bytesIn id ∨ before.HangsUp after id

namespace System

/-- What a call leaves of a process that has not made it. -/
structure Spares (before after : System slots) (caller slot : Fin slots) : Prop where
  /-- Nothing but the priority and the state can change. -/
  kept : after.processes[slot] = { before.processes[slot] with
    priority := after.processes[slot].priority
    state := after.processes[slot].state }
  /-- The priority changes as a call wants that names the process and succeeds. -/
  priority : after.processes[slot].priority = before.processes[slot].priority ∨
    (before.processes[caller].call? = some .setPriority ∧
      before.processes[caller].registers.argument 0 = before.processes[slot].pid.number ∧
      after.processes[slot].priority = ⟨before.processes[caller].registers.argument 1⟩ ∧
      after.processes[caller].registers =
        before.processes[caller].registers.respond Response.ok)
  /-- The state changes if the process waits for a pipe that the call stirs, and then the process
  can run. -/
  state : after.processes[slot].state = before.processes[slot].state ∨ ∃ id,
    (before.processes[slot].state = .live (.readingPipe id) ∨
      before.processes[slot].state = .live (.writingPipe id)) ∧
    after.processes[slot].state = .live .runnable ∧ before.pipes.Stirs after.pipes id

/-- What a call leaves of the registers of the process that has made it: it waits for a pipe and
makes the call again, or it does not wait and has a response. -/
def Replies (before after : System slots) (caller : Fin slots) : Prop :=
  ((∃ id, after.processes[caller].state.isBlockedOn id = true) ∧
      after.processes[caller].registers = before.processes[caller].registers.rewind) ∨
    ((∀ id, after.processes[caller].state.isBlockedOn id = false) ∧ ∃ response,
      after.processes[caller].registers = before.processes[caller].registers.respond response)

/-- Whether a call spares whoever lives and has not made it, and replies to the caller. -/
structure Confines (before : System slots) (caller : Fin slots) (after : System slots) :
    Prop where
  /-- The others are spared. -/
  others : ∀ slot : Fin slots, slot ≠ caller → before.processes[slot].state ≠ .vacant →
    before.Spares after caller slot
  /-- The caller gets a reply. -/
  replies : before.Replies after caller

end System

/-! ## Single processes -/

theorem Registers.respond_response (registers : Registers) :
    registers.respond registers.response = registers := by
  rw [respond, response, Vector.set_getElem_self]

theorem PipeTable.bytesIn_put_ne {pipes : PipeTable} {id : PipeId} {pipe changed : Pipe}
    (found : pipes.get? id = some pipe)
    (differs : changed.ring.contents.length ≠ pipe.ring.contents.length) :
    (pipes.put id (some changed)).bytesIn id ≠ pipes.bytesIn id := by
  rw [bytesIn_put found, bytesIn_eq found]
  exact fun same => differs (congrArg List.length same)

namespace System

variable {before after : System slots} {caller slot : Fin slots}

theorem spares_of_wokenFor (woken : before.processes[slot].WokenFor
    (before.pipes.Stirs after.pipes) after.processes[slot]) : before.Spares after caller slot := by
  rcases woken with same | ⟨id, waits, stirs, woken⟩
  · exact ⟨by rw [same], .inl (by rw [same]), .inl (by rw [same])⟩
  · refine ⟨by rw [woken], .inl (by rw [woken]), .inr ⟨id, ?_, by rw [woken], stirs⟩⟩
    exact (ProcessState.isBlockedOn_iff _ _).1 waits

theorem replies_of_respond (response : UInt64)
    (clear : ∀ id, after.processes[caller].state.isBlockedOn id = false)
    (registers : after.processes[caller].registers =
      before.processes[caller].registers.respond response) : before.Replies after caller :=
  .inr ⟨clear, response, registers⟩

theorem replies_of_answer {processes : ProcessTable slots} {response : UInt64}
    (runnable : processes[caller].state = .live .runnable)
    (registers : processes[caller].registers = before.processes[caller].registers)
    (answered : after.processes = processes.answer caller response) :
    before.Replies after caller := by
  refine replies_of_respond response (fun id => ?_) ?_
  · rw [answered, ProcessTable.getElem_answer_self, Process.respond, runnable]
    rfl
  · rw [answered, ProcessTable.getElem_answer_self, Process.respond, registers]

theorem confines_of_same (same : ∀ slot : Fin slots, slot ≠ caller →
      before.processes[slot].state ≠ .vacant → after.processes[slot] = before.processes[slot])
    (replies : before.Replies after caller) : before.Confines caller after :=
  ⟨fun slot different live => spares_of_wokenFor (.inl (same slot different live)), replies⟩

theorem confines_of_letsGo {released : Tables slots}
    (letsGo : Tables.LetsGo before.toTables released caller)
    (others : ∀ slot : Fin slots, slot ≠ caller →
      after.processes[slot] = released.processes[slot])
    (pipes : after.pipes = released.pipes) (replies : before.Replies after caller) :
    before.Confines caller after := by
  refine ⟨fun slot different _ => spares_of_wokenFor ?_, replies⟩
  rw [others slot different, pipes]
  exact (letsGo.others slot different).mono fun _ => .inr

/-- A process that ends spares whom it does not wake, and its registers stay as they are. -/
theorem confines_of_reap {reaped : Tables slots} {hint : Hint}
    (run : before.toTables.reap caller = .ok (reaped, hint))
    (others : ∀ slot : Fin slots, slot ≠ caller → after.processes[slot] = reaped.processes[slot])
    (pipes : after.pipes = reaped.pipes)
    (gone : after.processes[caller].state = reaped.processes[caller].state)
    (registers : after.processes[caller].registers = reaped.processes[caller].registers) :
    before.Confines caller after := by
  obtain ⟨released, letsGo, rfl⟩ := Tables.letsGo_reap run
  have departed : (released.modifyProcess caller (·.depart)).processes[caller] =
      released.processes[caller].depart := getElem_set_self _ _ _
  refine confines_of_letsGo letsGo (fun slot different => ?_) pipes ?_
  · rw [others slot different, Tables.modifyProcess, getElem_set, if_neg (Ne.symm different)]
  · refine replies_of_respond before.processes[caller].registers.response
      (fun id => ?_) ?_
    · rw [gone, departed]
      rfl
    · rw [registers, departed, Registers.respond_response]
      exact letsGo.registers

end System

/-! ## Every outcome -/

variable {before after : System slots} {caller : Fin slots} {hint : Hint} {layout : Layout slots}
  {author : Fin slots → Prop}

theorem Tables.confines_addHandle {position : Fin Config.maxHandles} {id : PipeId} {pipe : Pipe}
    (runnable : before.processes[caller].state = .live .runnable) {response : UInt64}
    (answered : after.processes =
      (before.toTables.addHandle caller position id pipe).processes.answer caller response) :
    before.Confines caller after := by
  have changed : (before.toTables.addHandle caller position id pipe).processes[caller] =
      { before.processes[caller] with
        handles := before.processes[caller].handles.set position (some id) position.isLt } :=
    getElem_set_self _ _ _
  refine System.confines_of_same (fun slot different _ => ?_)
    (System.replies_of_answer ?_ ?_ answered)
  · rw [answered, ProcessTable.getElem_answer_of_ne different, addHandle, getElem_set,
      if_neg (Ne.symm different)]
  · rw [changed]
    exact runnable
  · rw [changed]

theorem System.confines_prioritised {target : Fin slots} {priority : Priority}
    (runnable : before.processes[caller].state = .live .runnable)
    (asked : before.processes[caller].call? = some .setPriority)
    (named : target = caller ∨ before.processes.findPid?
      ⟨before.processes[caller].registers.argument 0⟩ = some target)
    (wanted : priority = ⟨before.processes[caller].registers.argument 1⟩) :
    before.Confines caller { before with
      processes := ProcessTable.answer
        (before.processes.set target { before.processes[target] with priority } target.isLt)
        caller Response.ok } := by
  have changed (slot : Fin slots) :
      (before.processes.set target { before.processes[target] with priority }
        target.isLt)[slot] = { before.processes[slot] with
          priority := if target = slot then priority else before.processes[slot].priority } := by
    rw [getElem_set]
    split
    next same => rw [same]
    next => rfl
  constructor
  · intro slot different _
    have others : (ProcessTable.answer (before.processes.set target
        { before.processes[target] with priority } target.isLt) caller Response.ok)[slot] = _ :=
      (ProcessTable.getElem_answer_of_ne different Response.ok).trans (changed slot)
    refine ⟨?_, ?_, .inl ?_⟩
    · rw [others]
    · rw [others]
      by_cases same : target = slot
      · subst same
        rcases named with itself | named
        · exact absurd itself different
        · have found := of_findFinIdx?_eq_some named
          simp only [Bool.and_eq_true, beq_iff_eq] at found
          refine .inr ⟨asked, ?_, ?_, ?_⟩
          · rw [found.2]
          · rw [if_pos rfl]
            exact wanted
          · rw [ProcessTable.getElem_answer_self, changed]
            rfl
      · rw [if_neg same]
        exact .inl rfl
    · rw [others]
  · refine System.replies_of_answer ?_ ?_ rfl
    · rw [changed]
      exact runnable
    · rw [changed]

theorem Outcome.confines (outcome : Outcome before caller (.ok hint) after)
    (runnable : before.processes[caller].state = .live .runnable) :
    before.Confines caller after := by
  have live := Process.live_of_runnable runnable
  cases outcome with
  | answered log memory response hint plain =>
      exact System.confines_of_same
        (fun slot different _ => ProcessTable.getElem_answer_of_ne different response)
        (System.replies_of_answer runnable rfl rfl)
  | exited log reaped hint run =>
      exact System.confines_of_reap run (fun _ _ => rfl) rfl rfl rfl
  | slept deadline in_time asleep run =>
      obtain ⟨_, rfl⟩ := Process.sleepUntil_eq_ok_iff.1 run
      refine System.confines_of_same (fun slot different _ => ?_)
        (System.replies_of_respond Response.ok (fun id => ?_) ?_)
      · rw [getElem_set, if_neg (Ne.symm different)]
      · rw [getElem_set_self]
        rfl
      · rw [getElem_set_self]
        rfl
  | prioritised target priority valid asked named wanted =>
      exact System.confines_prioritised runnable asked named wanted
  | moved brk admits process run =>
      obtain ⟨_, rfl⟩ := Process.setBreak_eq_ok_iff.1 run
      refine System.confines_of_same (fun slot different _ => ?_)
        (System.replies_of_respond before.processes[caller].heap.brk.toUInt64 (fun id => ?_) ?_)
      · rw [getElem_set, if_neg (Ne.symm different)]
      · rw [getElem_set_self, Process.respond, runnable]
        rfl
      · rw [getElem_set_self]
        rfl
  | opened asked name tables handle found =>
      obtain ⟨position, id, _, _, _, _, rfl⟩ := Tables.openPipe?_eq_some found
      exact Tables.confines_addHandle runnable rfl
  | shared owner name tables handle found =>
      rcases Tables.sharePipe?_eq_some found with
        rfl | ⟨position, id, pipe, _, _, _, _, rfl⟩
      · exact System.confines_of_same
          (fun slot different _ => ProcessTable.getElem_answer_of_ne different _)
          (System.replies_of_answer runnable rfl rfl)
      · exact Tables.confines_addHandle runnable rfl
  | closed handle process id tables hint removed run =>
      obtain ⟨position, named, rfl⟩ := Process.removeHandle?_eq_some removed
      obtain ⟨pipe, found, leaves⟩ := Tables.released_of_release run
      have letsGo := (Tables.letsGo_dropHandle before.toTables caller position).trans
        (leaves.letsGo found)
      exact System.confines_of_letsGo letsGo
        (fun slot different => ProcessTable.getElem_answer_of_ne different _) rfl
        (System.replies_of_answer (letsGo.runnable runnable) letsGo.registers rfl)

/-! ## Reading, writing and spawning -/

/-- A call that wakes who waits for a pipe, because bytes have moved through it, spares the
others. -/
theorem System.confines_of_wake {blocked : ProcessState → Bool} {id : PipeId}
    (runnable : before.processes[caller].state = .live .runnable)
    (only : ∀ state, blocked state = true → state.isBlockedOn id = true)
    (woken : after.processes =
      ((before.processes.answer caller Response.ok).wake caller blocked).1)
    (moved : after.pipes.bytesIn id ≠ before.pipes.bytesIn id) :
    before.Confines caller after := by
  have awake : blocked (.live .runnable) = false := by
    apply Bool.eq_false_iff.2
    intro asked
    cases only _ asked
  constructor
  · intro slot different _
    refine System.spares_of_wokenFor ?_
    rw [woken, ProcessTable.wake, getElem_map, ProcessTable.getElem_answer_of_ne different]
    exact Process.wokenFor_wakeIf _ only (.inl moved)
  · have caller_left := getElem_wake_answer runnable Response.ok blocked awake
    refine System.replies_of_respond Response.ok (fun id => ?_) ?_
    · rw [woken, caller_left, Process.respond, runnable]
      rfl
    · rw [woken, caller_left]
      rfl

theorem System.confines_of_block {activity : Activity} {waiting : Process} (id : PipeId)
    (waits : ProcessState.isBlockedOn (.live activity) id = true)
    (run : before.processes[caller].block activity = .ok waiting)
    (blocked : after.processes = before.processes.set caller waiting caller.isLt) :
    before.Confines caller after := by
  obtain ⟨_, rfl⟩ := Process.block_eq_ok_iff.1 run
  refine System.confines_of_same (fun slot different _ => ?_) (.inl ⟨⟨id, ?_⟩, ?_⟩)
  · rw [blocked, getElem_set, if_neg (Ne.symm different)]
  · rw [blocked, getElem_set_self]
    exact waits
  · rw [blocked, getElem_set_self]

theorem CallM.ReadOutcome.confines (outcome : ReadOutcome before caller (.ok hint) after)
    (sound : before.toTables.Sound layout author)
    (runnable : before.processes[caller].state = .live .runnable) :
    before.Confines caller after := by
  cases outcome with
  | idle transfer requested =>
      exact System.confines_of_same
        (fun slot different _ => ProcessTable.getElem_answer_of_ne different _)
        (System.replies_of_answer runnable rfl rfl)
  | blocked transfer requested pipe found empty open_eq waiting run =>
      exact System.confines_of_block transfer.pipe
        ((ProcessState.isBlockedOn_iff _ _).2 (.inl rfl)) run rfl
  | took transfer requested pipe found some_byte ring bytes run wanted =>
      refine System.confines_of_wake runnable
        (fun _ => ProcessState.isBlockedOn_of_isWriting) rfl ?_
      obtain ⟨smaller, read, _, rest⟩ := (sound.ring _ _ found).read transfer.size
      rw [read] at run
      cases run
      have shorter : ring.contents.length < pipe.ring.contents.length := by
        have filled := List.length_pos_iff.2 ((Ring.isEmpty_eq_false_iff _).1 some_byte)
        rw [rest, List.length_drop]
        omega
      exact PipeTable.bytesIn_put_ne found (Nat.ne_of_lt shorter)

theorem CallM.WriteOutcome.confines (outcome : WriteOutcome before caller (.ok hint) after)
    (sound : before.toTables.Sound layout author)
    (runnable : before.processes[caller].state = .live .runnable) :
    before.Confines caller after := by
  cases outcome with
  | idle transfer requested =>
      exact System.confines_of_same
        (fun slot different _ => ProcessTable.getElem_answer_of_ne different _)
        (System.replies_of_answer runnable rfl rfl)
  | blocked transfer requested pipe found full open_eq waiting run =>
      exact System.confines_of_block transfer.pipe
        ((ProcessState.isBlockedOn_iff _ _).2 (.inr rfl)) run rfl
  | put transfer requested pipe found room open_eq ring count run wanted =>
      refine System.confines_of_wake runnable
        (fun _ => ProcessState.isBlockedOn_of_isReading) rfl ?_
      obtain ⟨larger, written, _, grown⟩ := (sound.ring _ _ found).write
        (before.memory.read transfer.buffer (min transfer.size Config.pipeCapacity))
      rw [written] at run
      cases run
      have longer : pipe.ring.contents.length < ring.contents.length := by
        have some_room := (sound.ring _ _ found).isFull_eq_false_iff.1 room
        rw [Ring.length_contents] at some_room
        rw [grown, List.length_append, List.length_take, Memory.length_read, Ring.length_contents]
        omega
      exact PipeTable.bytesIn_put_ne found (Nat.ne_of_gt longer)

theorem SpawnOutcome.confines (outcome : SpawnOutcome before caller (.ok hint) after)
    (runnable : before.processes[caller].state = .live .runnable) :
    before.Confines caller after := by
  cases outcome with
  | started slot free between log hint started =>
      have vacant := CallM.vacant_of_vacantSlot?_eq_some free
      have kept {other : Fin slots} (live : before.processes[other].state ≠ .vacant) :
          between.processes[other] = before.processes[other] := by
        refine started.getElem_of_ne ?_
        rintro rfl
        exact live vacant
      have caller_kept := kept (Process.live_of_runnable runnable)
      refine System.confines_of_same (fun other different live => ?_)
        (System.replies_of_answer ?_ ?_ rfl)
      · rw [ProcessTable.getElem_answer_of_ne different, kept live]
      · rw [caller_kept]
        exact runnable
      · rw [caller_kept]

theorem CallOutcome.confines (outcome : CallOutcome before caller (.ok hint) after)
    (sound : before.toTables.Sound layout author)
    (runnable : before.processes[caller].state = .live .runnable) :
    before.Confines caller after := by
  rw [CallOutcome] at outcome
  split at outcome
  · exact outcome.confines sound runnable
  · exact outcome.confines sound runnable
  · exact outcome.confines runnable
  · exact outcome.confines runnable

/-- Every call that the kernel handles spares the others and replies to the caller. -/
theorem Handled.confines (handled : Handled before caller hint after)
    (sound : before.toTables.Sound layout author)
    (runnable : before.processes[caller].state = .live .runnable) :
    before.Confines caller after := by
  cases handled with
  | done outcome => exact outcome.confines sound runnable
  | failed error memory outcome =>
      exact System.confines_of_same
        (fun slot different _ => ProcessTable.getElem_answer_of_ne different _)
        (System.replies_of_answer runnable rfl rfl)
  | ended fault memory outcome log reaped hint run =>
      refine System.confines_of_reap run (fun slot different => ?_) rfl ?_ ?_
      · rw [getElem_set, if_neg (Ne.symm different)]
      · rw [getElem_set_self]
      · rw [getElem_set_self]

/-! ## In a run -/

/-- Whatever the current process does with its registers and its memory, its call is handled, and
affects other live processes through pipes and priorities only: not their memory, and nothing that
the kernel keeps about them but the priority and the state, which change as `System.Spares` says.
The caller gets a response, or waits and makes its call again. -/
theorem Run.call_spares {launch : Launch slots} {traps : List (Trap slots)}
    {system entered : System slots} (run : Run launch traps system)
    (current : caller.val = system.current) (user : system.UserStep caller entered) :
    ∃ hint left, KernelM.handleCall caller entered = .ok hint left ∧
      entered.Replies left caller ∧
      ∀ other : Fin slots, other ≠ caller → entered.processes[other].state ≠ .vacant →
        entered.Spares left caller other ∧
        ∀ address, entered.processes[other].memory.Owns address →
          left.memory.get address = entered.memory.get address := by
  have invariant := run.invariant
  have sound := user.sound invariant.sound
  have calls := user.calls_eq.trans invariant.calls
  obtain ⟨slot, slot_current, runnable⟩ := invariant.current
  cases Fin.ext (current.trans slot_current.symm)
  have still_runnable := (user.state_eq caller).trans runnable
  obtain ⟨hint, left, call, handled, changes⟩ :=
    KernelM.handleCall_run sound calls (.inl (Process.live_of_runnable still_runnable))
  obtain ⟨others, replies⟩ := handled.confines sound still_runnable
  refine ⟨hint, left, call, replies, fun other different live =>
    ⟨others other different live, fun address owned => ?_⟩⟩
  apply Classical.byContradiction
  intro changed
  exact sound.not_owns_of_reaches (changes address changed) different live owned

/-- The first process wakes a reader, and nothing else happens to that. -/
theorem call_spares_small : ∃ traps system entered hint left, Run Launch.small traps system ∧
    system.UserStep 0 entered ∧ KernelM.handleCall 0 entered = .ok hint left ∧
    entered.processes[(1 : Fin 2)].state = .live (.readingPipe ⟨0⟩) ∧
    left.processes[(1 : Fin 2)].state = .live .runnable ∧
    entered.Replies left 0 ∧ entered.Spares left 0 1 := by
  have evaluated : (Launch.small.play?
    (Launch.familyScript 1 ++ Launch.readerWaits)).any (fun final =>
      (final.2.perform? Launch.writeMove).any fun trap => decide (
        trap.caller = 0 ∧
        trap.entered.processes[(1 : Fin 2)].state = .live (.readingPipe ⟨0⟩) ∧
        trap.left.processes[(1 : Fin 2)].state = .live .runnable)) = true := by
    decide +kernel
  simp only [Option.any_eq_true, decide_eq_true_eq] at evaluated
  obtain ⟨final, played, trap, performed, first, waits, woken⟩ := evaluated
  have run := Run.play played
  obtain ⟨current, user, call, _⟩ := System.of_perform?_eq_some performed
  rw [first] at current user call
  obtain ⟨hint, left, called, replies, others⟩ := run.call_spares current user
  cases call.symm.trans called
  have live : trap.entered.processes[(1 : Fin 2)].state ≠ .vacant := by
    rw [waits]
    simp
  exact ⟨_, _, _, _, _, run, user, called, waits, woken, replies, (others 1 (by decide) live).1⟩

end Microkernel
