import Microkernel.Proofs.Kernel.Script

/-!
# A pipe is a queue of bytes

What readers take out of a pipe, followed by what is still in it, is what writers put into it, in
this order.  Nothing else moves bytes: calls that fail, block, or are about something else leave
every pipe as it was, or make a new and empty one.
-/

namespace Microkernel

variable {slots : Nat}

namespace PipeTable

/-- The bytes in the pipe at a position, none if there is no pipe. -/
def bytesIn (pipes : PipeTable) (id : PipeId) : List UInt8 :=
  ((pipes.get? id).map (·.ring.contents)).getD []

theorem bytesIn_eq {pipes : PipeTable} {id : PipeId} {pipe : Pipe}
    (found : pipes.get? id = some pipe) : pipes.bytesIn id = pipe.ring.contents := by
  rw [bytesIn, found]
  rfl

theorem bytesIn_put {pipes : PipeTable} {id : PipeId} {pipe : Pipe}
    (found : pipes.get? id = some pipe) (changed : Pipe) :
    (pipes.put id (some changed)).bytesIn id = changed.ring.contents := by
  apply bytesIn_eq
  rw [get?_put _ (index_lt_of_get?_eq_some found), if_pos rfl]

/-- Whether every pipe of a table holds what it held before, or is new and empty, which takes a call
that opens pipes. -/
def CarriesOn (before after : PipeTable) (opens : Prop) : Prop :=
  ∀ id pipe, after.get? id = some pipe →
    (opens ∧ before.get? id = none ∧ pipe.ring.contents = []) ∨
      ∃ held, before.get? id = some held ∧ pipe.ring = held.ring

theorem CarriesOn.refl (pipes : PipeTable) (opens : Prop) : pipes.CarriesOn pipes opens :=
  fun _ pipe found => .inr ⟨pipe, found, rfl⟩

theorem carriesOn_put {pipes : PipeTable} {id : PipeId} {pipe : Pipe}
    (found : pipes.get? id = some pipe) (changed : Pipe) (ring : changed.ring = pipe.ring)
    (opens : Prop) :
    pipes.CarriesOn (pipes.put id (some changed)) opens := by
  intro other kept here
  rw [get?_put _ (index_lt_of_get?_eq_some found)] at here
  split at here
  next same =>
      cases here
      exact .inr ⟨pipe, same ▸ found, ring⟩
  next => exact .inr ⟨kept, here, rfl⟩

end PipeTable

/-- A call that neither moves bytes nor starts a process leaves the pipes as they are, or opens
one. -/
theorem Outcome.carriesOn {before after : System slots} {layout : Layout slots}
    {author : Fin slots → Prop} {caller : Fin slots} {hint : Hint}
    (outcome : Outcome before caller (.ok hint) after)
    (sound : before.toTables.Sound layout author) :
    before.pipes.CarriesOn after.pipes
      (before.processes[caller].call? = some .pipeOpen) := by
  cases outcome with
  | answered => exact .refl _ _
  | slept => exact .refl _ _
  | prioritised => exact .refl _ _
  | moved => exact .refl _ _
  | exited log reaped hint run =>
      obtain ⟨found, _, found_run, _, _, ring, _⟩ := sound.reap caller
      rw [found_run] at run
      cases run
      exact fun id pipe here => .inr (ring id pipe here)
  | opened asked name tables handle found =>
      obtain ⟨position, id, free, absent, inside, _, rfl⟩ := Tables.openPipe?_eq_some found
      intro other pipe here
      simp only [Tables.addHandle, PipeTable.get?_put _ inside] at here
      split at here
      next same =>
          cases here
          exact .inl ⟨asked, same ▸ absent, Ring.contents_empty⟩
      next => exact .inr ⟨pipe, here, rfl⟩
  | shared owner name tables handle found =>
      rcases Tables.sharePipe?_eq_some found with
        rfl | ⟨position, id, pipe, free, _, here, _, rfl⟩
      · exact .refl _ _
      · exact PipeTable.carriesOn_put here { pipe with references := pipe.references + 1 } rfl _
  | closed handle process id tables hint removed run =>
      obtain ⟨position, named, rfl⟩ := Process.removeHandle?_eq_some removed
      obtain ⟨released, _, found_run, _, _, loosened, _⟩ := sound.letGo named
      have same : Except.ok (released, _) = Except.ok (tables, hint) := found_run.symm.trans run
      cases same
      exact fun id pipe here => .inr (loosened.ring id pipe here)

/-! ## What a call moves -/

namespace Call

variable (call : Call slots)

/-- The registers of the caller when it enters the kernel. -/
def registers : Registers :=
  call.entered.processes[call.caller].registers

/-- Whether the caller completes a call on a pipe: its registers name the pipe, and it goes on with
the response for success. -/
structure Completes (number : Syscall) (id : PipeId) : Prop where
  /-- The caller makes the call. -/
  asked : call.entered.processes[call.caller].call? = some number
  /-- The first argument is a handle on the pipe. -/
  pipe : call.entered.processes[call.caller].pipeOf? ⟨call.registers.argument 0⟩ = some id
  /-- The caller can go on. -/
  runnable : call.left.processes[call.caller].state = .live .runnable
  /-- The call has succeeded. -/
  response : call.left.processes[call.caller].registers.response = Response.ok

instance (number : Syscall) (id : PipeId) : Decidable (call.Completes number id) :=
  decidable_of_iff (_ ∧ _ ∧ _ ∧ _)
    ⟨fun ⟨asked, pipe, runnable, response⟩ => ⟨asked, pipe, runnable, response⟩,
      fun completes =>
        ⟨completes.asked, completes.pipe, completes.runnable, completes.response⟩⟩

/-- The bytes that the caller takes out of a pipe: those at the front that are gone afterwards. -/
def delivered (id : PipeId) : List UInt8 :=
  if call.Completes .pipeRead id then
    (call.entered.pipes.bytesIn id).take
      ((call.entered.pipes.bytesIn id).length - (call.left.pipes.bytesIn id).length)
  else []

/-- The bytes that the caller puts into a pipe: as many from the start of its buffer as the pipe
holds more afterwards. -/
def accepted (id : PipeId) : List UInt8 :=
  if call.Completes .pipeWrite id then
    call.entered.memory.read (call.registers.argument 1)
      ((call.left.pipes.bytesIn id).length - (call.entered.pipes.bytesIn id).length)
  else []

/-- Memory with a number of bytes stored at the fourth argument, unless that is zero. -/
def reported (memory : Memory) (count : Nat) : Memory :=
  if call.registers.argument 3 = 0 then memory
  else memory.write (call.registers.argument 3) (Process.elementBytes .word64 count)

/-- Whether a call treats pipes as queues, and moves bytes between them and the buffer of the caller
faithfully. -/
structure Faithful : Prop where
  /-- A pipe is new and empty, or goes on where it was. -/
  pipe : ∀ id pipe, call.left.pipes.get? id = some pipe →
    (call.entered.processes[call.caller].call? = some .pipeOpen ∧
      call.entered.pipes.get? id = none ∧ pipe.ring.contents = []) ∨
    ∃ held, call.entered.pipes.get? id = some held ∧
      held.ring.contents ++ call.accepted id = call.delivered id ++ pipe.ring.contents
  /-- Bytes that are taken out of a pipe go into the buffer of the caller. -/
  read : ∀ id, call.Completes .pipeRead id →
    (call.delivered id).length ≤ call.registers.argument 2 ∧
      call.left.memory = call.reported
        (call.entered.memory.write (call.registers.argument 1) (call.delivered id))
        (call.delivered id).length
  /-- Bytes that are put into a pipe come from the buffer of the caller. -/
  written : ∀ id, call.Completes .pipeWrite id →
    (call.accepted id).length ≤ call.registers.argument 2 ∧
      call.left.memory = call.reported call.entered.memory (call.accepted id).length

variable {call : Call slots}

theorem delivered_of_same {id : PipeId}
    (same : call.left.pipes.bytesIn id = call.entered.pipes.bytesIn id) :
    call.delivered id = [] := by
  rw [delivered, same, Nat.sub_self, List.take_zero, ite_self]

theorem accepted_of_le {id : PipeId}
    (few : (call.left.pipes.bytesIn id).length ≤ (call.entered.pipes.bytesIn id).length) :
    call.accepted id = [] := by
  have nothing (address : Nat) : call.entered.memory.read address 0 = [] :=
    List.length_eq_zero_iff.1 (Memory.length_read _ _ _)
  rw [accepted, Nat.sub_eq_zero_of_le few, nothing, ite_self]

theorem accepted_of_same {id : PipeId}
    (same : call.left.pipes.bytesIn id = call.entered.pipes.bytesIn id) :
    call.accepted id = [] :=
  accepted_of_le (Nat.le_of_eq (congrArg List.length same))

theorem pipe_of_carriesOn (carriesOn : call.entered.pipes.CarriesOn call.left.pipes
      (call.entered.processes[call.caller].call? = some .pipeOpen)) (id : PipeId) (pipe : Pipe)
    (found : call.left.pipes.get? id = some pipe) :
    (call.entered.processes[call.caller].call? = some .pipeOpen ∧
      call.entered.pipes.get? id = none ∧ pipe.ring.contents = []) ∨
    ∃ held, call.entered.pipes.get? id = some held ∧
      held.ring.contents ++ call.accepted id = call.delivered id ++ pipe.ring.contents := by
  rcases carriesOn id pipe found with new | ⟨held, here, ring⟩
  · exact .inl new
  · have same : call.left.pipes.bytesIn id = call.entered.pipes.bytesIn id := by
      rw [PipeTable.bytesIn_eq found, PipeTable.bytesIn_eq here, ring]
    refine .inr ⟨held, here, ?_⟩
    rw [accepted_of_same same, delivered_of_same same, List.append_nil, List.nil_append, ring]

theorem faithful_of_quiet (carriesOn : call.entered.pipes.CarriesOn call.left.pipes
      (call.entered.processes[call.caller].call? = some .pipeOpen))
    (reads : ∀ id, ¬ call.Completes .pipeRead id)
    (writes : ∀ id, ¬ call.Completes .pipeWrite id) : call.Faithful :=
  ⟨pipe_of_carriesOn carriesOn, fun id completes => absurd completes (reads id),
    fun id completes => absurd completes (writes id)⟩

theorem not_completes_of_call? {number other : Syscall} {id : PipeId}
    (asked : call.entered.processes[call.caller].call? = some other) (different : other ≠ number) :
    ¬ call.Completes number id := by
  intro completes
  have same := completes.asked
  rw [asked] at same
  exact different (Option.some.inj same)

theorem not_completes_of_state {number : Syscall} {id : PipeId}
    (state : call.left.processes[call.caller].state ≠ .live .runnable) :
    ¬ call.Completes number id :=
  fun completes => state completes.runnable

theorem reported_eq {transfer : CallM.Transfer}
    (requested : transfer.RequestedBy call.entered.processes[call.caller]) (memory : Memory)
    (count : Nat) : transfer.reported memory count = call.reported memory count := by
  have report := requested.report
  rw [CallM.Transfer.reported, reported]
  split at report
  next absent =>
      rw [report]
      exact (if_pos absent).symm
  next present =>
      rw [report]
      exact (if_neg present).symm

theorem Completes.eq_of_pipe {number : Syscall} {id other : PipeId}
    (completes : call.Completes number other)
    (named : call.entered.processes[call.caller].pipeOf? ⟨call.registers.argument 0⟩ = some id) :
    other = id :=
  Option.some.inj (completes.pipe.symm.trans named)

/-- A call that exchanges one pipe treats the others as queues, which it leaves alone. -/
theorem pipe_of_exchanged {id : PipeId} {held kept : Pipe}
    (found : call.entered.pipes.get? id = some held)
    (exchanged : ∀ other, call.left.pipes.get? other =
      if other = id then some kept else call.entered.pipes.get? other)
    (moved : held.ring.contents ++ call.accepted id = call.delivered id ++ kept.ring.contents)
    (other : PipeId) (pipe : Pipe) (here : call.left.pipes.get? other = some pipe) :
    ∃ held, call.entered.pipes.get? other = some held ∧
      held.ring.contents ++ call.accepted other = call.delivered other ++ pipe.ring.contents := by
  have looked := exchanged other
  split at looked
  next same =>
      subst same
      cases looked.symm.trans here
      exact ⟨held, found, moved⟩
  next =>
      have same : call.left.pipes.bytesIn other = call.entered.pipes.bytesIn other := by
        rw [PipeTable.bytesIn, PipeTable.bytesIn, looked]
      refine ⟨pipe, looked.symm.trans here, ?_⟩
      rw [accepted_of_same same, delivered_of_same same, List.append_nil, List.nil_append]

/-- A completed read takes bytes off the front of the pipe. -/
theorem faithful_of_read {id : PipeId} {held kept : Pipe}
    (found : call.entered.pipes.get? id = some held)
    (exchanged : ∀ other, call.left.pipes.get? other =
      if other = id then some kept else call.entered.pipes.get? other)
    (completes : call.Completes .pipeRead id)
    (rest : kept.ring.contents = held.ring.contents.drop (call.registers.argument 2))
    (stored : call.left.memory = call.reported
      (call.entered.memory.write (call.registers.argument 1)
        (held.ring.contents.take (call.registers.argument 2)))
      (held.ring.contents.take (call.registers.argument 2)).length) : call.Faithful := by
  have writes (other : PipeId) : ¬ call.Completes .pipeWrite other :=
    not_completes_of_call? completes.asked (by simp)
  have taken : call.delivered id = held.ring.contents.take (call.registers.argument 2) := by
    rw [delivered, if_pos completes, PipeTable.bytesIn_eq found,
      PipeTable.bytesIn_eq ((exchanged id).trans (if_pos rfl)), rest, List.length_drop,
      List.take_eq_take_iff]
    omega
  refine ⟨fun other pipe here => .inr (pipe_of_exchanged found exchanged ?_ other pipe here),
    fun other other_completes => ?_, fun other completes => absurd completes (writes other)⟩
  · rw [accepted, if_neg (writes id), List.append_nil, taken, rest, List.take_append_drop]
  · cases other_completes.eq_of_pipe completes.pipe
    rw [taken]
    exact ⟨List.length_take_le _ _, stored⟩

/-- A completed write puts bytes behind those that were there. -/
theorem faithful_of_write {id : PipeId} {held kept : Pipe}
    (found : call.entered.pipes.get? id = some held)
    (exchanged : ∀ other, call.left.pipes.get? other =
      if other = id then some kept else call.entered.pipes.get? other)
    (completes : call.Completes .pipeWrite id) {count : Nat}
    (few : count ≤ call.registers.argument 2)
    (grown : kept.ring.contents =
      held.ring.contents ++ call.entered.memory.read (call.registers.argument 1) count)
    (stored : call.left.memory = call.reported call.entered.memory count) : call.Faithful := by
  have reads (other : PipeId) : ¬ call.Completes .pipeRead other :=
    not_completes_of_call? completes.asked (by simp)
  have taken : call.accepted id =
      call.entered.memory.read (call.registers.argument 1) count := by
    rw [accepted, if_pos completes, PipeTable.bytesIn_eq found,
      PipeTable.bytesIn_eq ((exchanged id).trans (if_pos rfl)), grown, List.length_append,
      Memory.length_read, Nat.add_sub_cancel_left]
  refine ⟨fun other pipe here => .inr (pipe_of_exchanged found exchanged ?_ other pipe here),
    fun other completes => absurd completes (reads other), fun other other_completes => ?_⟩
  · rw [taken, delivered, if_neg (reads id), List.nil_append, grown]
  · cases other_completes.eq_of_pipe completes.pipe
    rw [taken, Memory.length_read]
    exact ⟨few, stored⟩

end Call

/-! ## Reading and writing -/

variable {before after : System slots} {caller : Fin slots} {hint : Hint} {layout : Layout slots}
  {author : Fin slots → Prop}

theorem getElem_wake_answer {processes : ProcessTable slots}
    (runnable : processes[caller].state = .live .runnable) (response : UInt64)
    (blocked : ProcessState → Bool) (awake : blocked (.live .runnable) = false) :
    ((processes.answer caller response).wake caller blocked).1[caller] =
      processes[caller].respond response := by
  have answered : (processes.answer caller response)[caller] =
      processes[caller].respond response := getElem_set_self _ _ _
  rw [ProcessTable.wake, getElem_map, answered]
  apply Process.wakeIf_of_not
  rw [Process.respond, runnable]
  exact awake

theorem CallM.ReadOutcome.faithful (outcome : CallM.ReadOutcome before caller (.ok hint) after)
    (asked : before.processes[caller].call? = some .pipeRead)
    (sound : before.toTables.Sound layout author)
    (runnable : before.processes[caller].state = .live .runnable) :
    Call.Faithful ⟨caller, before, hint, after⟩ := by
  have writes {after : System slots} {hint : Hint} (id : PipeId) :
      ¬ Call.Completes ⟨caller, before, hint, after⟩ .pipeWrite id :=
    Call.not_completes_of_call? asked (by simp)
  cases outcome with
  | idle transfer requested =>
      refine ⟨Call.pipe_of_carriesOn (.refl _ _), fun id _ => ?_,
        fun id completes => absurd completes (writes id)⟩
      rw [Call.delivered_of_same rfl, Memory.write_nil]
      exact ⟨Nat.zero_le _, Call.reported_eq requested _ _⟩
  | blocked transfer requested pipe found empty open_eq process run =>
      refine Call.faithful_of_quiet (.refl _ _) (fun id => Call.not_completes_of_state ?_) writes
      obtain ⟨_, rfl⟩ := Process.block_eq_ok_iff.1 run
      rw [getElem_set_self]
      simp
  | took transfer requested pipe found some_byte ring bytes run =>
      obtain ⟨smaller, read, _, rest⟩ := (sound.ring _ _ found).read transfer.size
      rw [read] at run
      cases run
      have caller_left :=
        getElem_wake_answer runnable Response.ok (·.isWriting transfer.pipe) rfl
      refine Call.faithful_of_read found
        (PipeTable.get?_put (some { pipe with ring }) (PipeTable.index_lt_of_get?_eq_some found))
        ⟨asked, requested.pipe, ?_, ?_⟩ ?_ ?_
      · exact (congrArg Process.state caller_left).trans runnable
      · rw [caller_left]
        exact Registers.response_respond _ _
      · rw [← requested.size] at rest
        exact rest
      · simp only [← requested.size, ← requested.buffer]
        exact Call.reported_eq requested _ _

theorem CallM.WriteOutcome.faithful (outcome : CallM.WriteOutcome before caller (.ok hint) after)
    (asked : before.processes[caller].call? = some .pipeWrite)
    (sound : before.toTables.Sound layout author)
    (runnable : before.processes[caller].state = .live .runnable) :
    Call.Faithful ⟨caller, before, hint, after⟩ := by
  have reads {after : System slots} {hint : Hint} (id : PipeId) :
      ¬ Call.Completes ⟨caller, before, hint, after⟩ .pipeRead id :=
    Call.not_completes_of_call? asked (by simp)
  cases outcome with
  | idle transfer requested =>
      refine ⟨Call.pipe_of_carriesOn (.refl _ _),
        fun id completes => absurd completes (reads id), fun id _ => ?_⟩
      rw [Call.accepted_of_same rfl]
      exact ⟨Nat.zero_le _, Call.reported_eq requested _ _⟩
  | blocked transfer requested pipe found full open_eq process run =>
      have ring := (Pipe.noteWriter_fields pipe before.processes[caller].pid).1
      refine Call.faithful_of_quiet (PipeTable.carriesOn_put found _ ring _) reads
        fun id => Call.not_completes_of_state ?_
      obtain ⟨_, rfl⟩ := Process.block_eq_ok_iff.1 run
      rw [getElem_set_self]
      simp
  | put transfer requested pipe found room open_eq ring count run =>
      obtain ⟨larger, written, _, grown⟩ := (sound.ring _ _ found).write
        (before.memory.read transfer.buffer (min transfer.size Config.pipeCapacity))
      rw [written] at run
      cases run
      have caller_left :=
        getElem_wake_answer runnable Response.ok (·.isReading transfer.pipe) rfl
      rw [Memory.length_read] at *
      refine Call.faithful_of_write found
        (PipeTable.get?_put _ (PipeTable.index_lt_of_get?_eq_some found))
        ⟨asked, requested.pipe, ?_, ?_⟩ ?_ ?_ (Call.reported_eq requested _ _)
      · exact (congrArg Process.state caller_left).trans runnable
      · rw [caller_left]
        exact Registers.response_respond _ _
      · simp only [Call.registers, requested.size]
        omega
      · rw [Memory.take_read, ← requested.buffer, Nat.min_eq_left (Nat.min_le_left _ _)] at grown
        exact grown

/-! ## Every call -/

theorem ErrorCode.code_ne_ok (error : ErrorCode) : error.code ≠ Response.ok := by
  intro same
  have known := Response.error?_code error
  rw [same, Response.error?, if_pos rfl] at known
  cases known

theorem CallOutcome.faithful (outcome : CallOutcome before caller (.ok hint) after)
    (sound : before.toTables.Sound layout author)
    (runnable : before.processes[caller].state = .live .runnable) :
    Call.Faithful ⟨caller, before, hint, after⟩ := by
  rw [CallOutcome] at outcome
  split at outcome
  next asked => exact outcome.faithful asked sound runnable
  next asked => exact outcome.faithful asked sound runnable
  next asked =>
      cases outcome with
      | started slot vacant between log hint started =>
          obtain ⟨_, _, _, rfl⟩ := started.keeps
          exact Call.faithful_of_quiet (.refl _ _)
            (fun id => Call.not_completes_of_call? asked (by simp))
            (fun id => Call.not_completes_of_call? asked (by simp))
  next not_read not_write not_spawn =>
      exact Call.faithful_of_quiet (outcome.carriesOn sound)
        (fun id completes => not_read completes.asked)
        (fun id completes => not_write completes.asked)

/-- Every call that the kernel handles treats pipes as queues. -/
theorem Handled.faithful (handled : Handled before caller hint after)
    (sound : before.toTables.Sound layout author)
    (runnable : before.processes[caller].state = .live .runnable) :
    Call.Faithful ⟨caller, before, hint, after⟩ := by
  cases handled with
  | done outcome => exact outcome.faithful sound runnable
  | failed error memory outcome =>
      have answered : (before.processes.answer caller error.code)[caller] =
          before.processes[caller].respond error.code := getElem_set_self _ _ _
      have fails {number : Syscall} (id : PipeId) : ¬ Call.Completes ⟨caller, before, .same,
          { before with memory, processes := before.processes.answer caller error.code }⟩
          number id := by
        intro completes
        have response := completes.response
        rw [answered] at response
        exact error.code_ne_ok ((Registers.response_respond _ _).symm.trans response)
      exact Call.faithful_of_quiet (.refl _ _) fails fails
  | ended fault memory outcome log reaped hint run =>
      obtain ⟨found, found_hint, found_run, _, _, ring, vacated, _⟩ := sound.reap caller
      rw [found_run] at run
      cases run
      have gone : reaped.processes[caller].state = .vacant := (vacated caller).2 (.inl rfl)
      have ends : (reaped.processes.set caller
          { reaped.processes[caller] with lastFault := some fault })[caller].state ≠
            .live .runnable := by
        rw [getElem_set_self, gone]
        simp
      exact Call.faithful_of_quiet (fun id pipe here => .inr (ring id pipe here))
        (fun id => Call.not_completes_of_state ends) (fun id => Call.not_completes_of_state ends)

/-! ## The history of a pipe -/

/-- Whether every pipe of a table was opened by one of some traps, has been there since, and holds
what was put into it after what was taken out of it. -/
def Streams (traps : List (Trap slots)) (pipes : PipeTable) : Prop :=
  ∀ id pipe, pipes.get? id = some pipe →
    ∃ earlier opening during, traps = earlier ++ opening :: during ∧
      opening.entered.processes[opening.caller].call? = some .pipeOpen ∧
      opening.entered.pipes.get? id = none ∧
      (∀ trap ∈ opening :: during, (trap.left.pipes.get? id).isSome) ∧
      during.flatMap (·.delivered id) ++ pipe.ring.contents = during.flatMap (·.accepted id)

/-- A faithful call continues the history of every pipe that it leaves. -/
theorem Streams.trap {traps : List (Trap slots)} {trap : Trap slots}
    (streams : Streams traps trap.entered.pipes) (faithful : trap.Faithful) :
    Streams (traps ++ [trap]) trap.left.pipes := by
  intro id pipe here
  have there : (trap.left.pipes.get? id).isSome := by
    rw [here]
    rfl
  rcases faithful.pipe id pipe here with ⟨asked, new, empty⟩ | ⟨held, found, moved⟩
  · refine ⟨traps, trap, [], rfl, asked, new, ?_, ?_⟩
    · intro other member
      cases List.mem_singleton.1 member
      exact there
    · rw [empty]
      rfl
  · obtain ⟨earlier, opening, during, rfl, asked, new, lives, stream⟩ := streams id held found
    refine ⟨earlier, opening, during ++ [trap], by simp, asked, new, ?_, ?_⟩
    · intro other member
      rw [← List.cons_append, List.mem_append] at member
      rcases member with earlier | last
      · exact lives other earlier
      · cases List.mem_singleton.1 last
        exact there
    · simp only [List.flatMap_append, List.flatMap_singleton]
      calc during.flatMap (·.delivered id) ++ trap.delivered id ++ pipe.ring.contents
          = during.flatMap (·.delivered id) ++ (held.ring.contents ++ trap.accepted id) := by
            rw [List.append_assoc, ← moved]
        _ = during.flatMap (·.accepted id) ++ trap.accepted id := by
            rw [← List.append_assoc, stream]

namespace Run

variable {launch : Launch slots} {traps : List (Trap slots)} {system : System slots}

theorem faithful (run : Run launch traps system) {call : Call slots}
    (current : call.caller.val = system.current) (user : system.UserStep call.caller call.entered)
    (handled : KernelM.handleCall call.caller call.entered = .ok call.hint call.left) :
    call.Faithful := by
  obtain ⟨runnable, handled, _⟩ := run.invariant.handled current user handled
  exact handled.faithful (user.sound run.invariant.sound) runnable

theorem pipes_after (run : Run launch traps system) {trap : Trap slots}
    (current : trap.caller.val = system.current) (user : system.UserStep trap.caller trap.entered)
    (call : KernelM.handleCall trap.caller trap.entered = .ok trap.hint trap.left)
    (switch : KernelM.switchAfter trap.caller trap.hint trap.left = .ok trap.next trap.after) :
    trap.after.pipes = trap.left.pipes := by
  obtain ⟨_, _, preserved⟩ := run.invariant.handled current user call
  obtain ⟨_, _, after_eq, _⟩ := preserved.resumes trap.caller.isLt switch
  rw [after_eq]

/-- Every call of a run moves bytes faithfully.  A pipe that is there was opened by one of them, has
been there since, and what was taken out of it, followed by what is still in it, is what was put
into it. -/
theorem pipe_stream (run : Run launch traps system) :
    (∀ trap ∈ traps, trap.Faithful) ∧
    ∀ id pipe, system.pipes.get? id = some pipe →
      ∃ earlier opening during, traps = earlier ++ opening :: during ∧
        opening.entered.processes[opening.caller].call? = some .pipeOpen ∧
        opening.entered.pipes.get? id = none ∧
        (∀ trap ∈ opening :: during, (trap.left.pipes.get? id).isSome) ∧
        during.flatMap (·.delivered id) ++ pipe.ring.contents =
          during.flatMap (·.accepted id) := by
  change _ ∧ Streams traps system.pipes
  induction run with
  | start started =>
      refine ⟨fun trap member => absurd member List.not_mem_nil, fun id pipe here => ?_⟩
      rw [(launch.begins started).no_pipes] at here
      cases here
  | advance _ ticks passes induction =>
      cases passes
      exact induction
  | trap before trap current user call switch induction =>
      obtain ⟨all_faithful, streams⟩ := induction
      have trap_faithful : trap.Faithful := before.faithful current user call
      constructor
      · intro other member
        rcases List.mem_append.1 member with earlier | last
        · exact all_faithful other earlier
        · cases List.mem_singleton.1 last
          exact trap_faithful
      · rw [before.pipes_after current user call switch]
        rw [← user.pipes_eq] at streams
        exact streams.trap trap_faithful

/-- Of three bytes that were put into a pipe, a reader got two, and the third is still there. -/
theorem pipe_stream_small : ∃ traps system pipe, Run Launch.small traps system ∧
    system.pipes.get? ⟨0⟩ = some pipe ∧
    traps.flatMap (·.accepted ⟨0⟩) = [1, 2, 3] ∧ traps.flatMap (·.delivered ⟨0⟩) = [1, 2] ∧
    ∃ earlier opening during, traps = earlier ++ opening :: during ∧
      during.flatMap (·.delivered ⟨0⟩) ++ pipe.ring.contents =
        during.flatMap (·.accepted ⟨0⟩) := by
  have evaluated : (Launch.small.play? (Launch.writerScript ++ [Launch.readMove])).any
      (fun final => (final.2.pipes.get? ⟨0⟩).isSome &&
        (final.1.flatMap (·.accepted ⟨0⟩) == [1, 2, 3] &&
          final.1.flatMap (·.delivered ⟨0⟩) == [1, 2])) = true := by
    decide +kernel
  rw [Option.any_eq_true] at evaluated
  obtain ⟨⟨traps, system⟩, played, holds⟩ := evaluated
  simp only [Bool.and_eq_true, beq_iff_eq] at holds
  obtain ⟨there, accepted, delivered⟩ := holds
  obtain ⟨pipe, found⟩ := Option.isSome_iff_exists.1 there
  have run := Run.play played
  obtain ⟨earlier, opening, during, same, _, _, _, stream⟩ := run.pipe_stream.2 ⟨0⟩ pipe found
  exact ⟨traps, system, pipe, run, found, accepted, delivered, earlier, opening, during, same,
    stream⟩

end Run

end Microkernel
