import Microkernel.Proofs.Kernel.Script

/-!
# Failed calls change nothing

A call fails without harm to the caller by an error code, by a null handle, or by a break that is
refused.  Nothing but the response tells of such a call afterwards: no pipe, handle, reference or
process is left over.  Bytes are left in two cases, in the argument page of a vacant slot after a
process could not be spawned, and in the report of a write to a pipe that is hung up.
-/

namespace Microkernel

variable {slots : Nat}

/-! ## Successes that look like no failure -/

namespace PipeHandle

theorem word_ofSlot_ne_null {position : Nat} (small : position < Config.maxHandles) :
    (ofSlot position).word.toUInt64 ≠ null.word.toUInt64 := by
  intro same
  have words := congrArg UInt64.toNat same
  have few : position + 1 < 2 ^ 64 := by
    simp only [Config.maxHandles] at small
    omega
  simp only [ofSlot, null, Nat.toUInt64, UInt64.toNat_ofNat', Nat.mod_eq_of_lt few] at words
  omega

end PipeHandle

namespace CallM

variable {tables changed : Tables slots} {caller : Fin slots} {name : List UInt8}
  {handle : PipeHandle}

theorem handle_ne_null_of_openPipe?
    (found : openPipe? tables caller name = some (changed, handle)) :
    handle.word.toUInt64 ≠ PipeHandle.null.word.toUInt64 := by
  simp only [openPipe?, Option.ite_none_left_eq_some, Option.bind_eq_bind,
    Option.bind_eq_some_iff, Option.pure_def, Option.some.injEq, Prod.mk.injEq, Prod.exists,
    Process.addHandle?] at found
  obtain ⟨_, _, _, _, _, _, ⟨position, _, _, rfl⟩, _, rfl⟩ := found
  exact PipeHandle.word_ofSlot_ne_null position.isLt

theorem handle_ne_null_of_sharePipe? {owner : Pid}
    (found : sharePipe? tables caller owner name = some (changed, handle)) :
    handle.word.toUInt64 ≠ PipeHandle.null.word.toUInt64 := by
  simp only [sharePipe?, Option.bind_eq_bind, Option.bind_eq_some_iff] at found
  obtain ⟨id, _, found⟩ := found
  split at found
  next held here =>
      cases found
      obtain ⟨position, _, rfl⟩ := Option.map_eq_some_iff.1 here
      exact PipeHandle.word_ofSlot_ne_null position.isLt
  next =>
      simp only [Option.bind_eq_some_iff, Option.pure_def, Option.some.injEq, Prod.mk.injEq,
        Prod.exists, Process.addHandle?, Option.bind_eq_bind] at found
      obtain ⟨_, _, ⟨position, _, _, rfl⟩, _, rfl⟩ := found
      exact PipeHandle.word_ofSlot_ne_null position.isLt

end CallM

/-- No break that a heap can have looks like a refusal: the heap ends at a page, inside the address
space. -/
theorem Process.Sound.brk_ne_breakRefused {process : Process} {memory : SlotMemory}
    {image : Extent} {author : Prop} (sound : process.Sound memory image author)
    (houses : memory.Houses image) : process.heap.brk.toUInt64 ≠ Response.breakRefused := by
  intro same
  have words := congrArg UInt64.toNat same
  have aligned := houses.sound.aligned _ memory.heap_mem_parts
  have inside := houses.sound.bounded _ memory.heap_mem_parts
  obtain ⟨_, admits⟩ := sound.admits
  rw [sound.heap_base, sound.heap_limit] at admits
  have breakRefused : Response.breakRefused.toNat = 2 ^ 64 - 1 := rfl
  simp only [Nat.toUInt64, UInt64.toNat_ofNat', breakRefused] at words
  simp only [Extent.stop, Word.limit, Config.heapLimit, Config.heapPages, Config.pageSize] at *
  omega

/-! ## Failures -/

namespace System

/-- What the handler for the call of a process comes to, before the kernel settles it. -/
def callResult (system : System slots) (caller : Fin slots) :
    EStateM.Result Crash (System slots) (Except Refusal Hint) :=
  (CallM.handle (system.calls.lookup? system.processes[caller].registers.callNumber) caller).run
    system

/-- Whether a call fails without harm to the caller, and with which response: with an error code,
with the null handle if a pipe was to be opened or obtained, or with a break that is refused. -/
inductive Fails (system : System slots) (caller : Fin slots) :
    Except Refusal Hint → System slots → UInt64 → Prop where
  | refused (error : ErrorCode) (hint : Hint) (between : System slots) :
      Fails system caller (.error (.code error hint)) between error.code
  | noHandle (hint : Hint) (between : System slots)
      (asked : system.processes[caller].call? = some .pipeOpen ∨
        system.processes[caller].call? = some .pipeGet)
      (null : between.processes[caller].registers.response = PipeHandle.null.word.toUInt64) :
      Fails system caller (.ok hint) between PipeHandle.null.word.toUInt64
  | breakRefused (hint : Hint) (between : System slots)
      (asked : system.processes[caller].call? = some .moveBreak)
      (refused : between.processes[caller].registers.response = Response.breakRefused) :
      Fails system caller (.ok hint) between Response.breakRefused

/-- What a failed call leaves in memory: nothing new, arguments that were copied for a process that
was not spawned, or a report that no byte was written to a pipe that is hung up. -/
inductive Leftover (system : System slots) (caller : Fin slots) : Memory → Prop where
  | nothing : Leftover system caller system.memory
  | arguments (asked : system.processes[caller].call? = some .spawn) (memory : Memory)
      (changes : system.memory.ChangesOnly memory system.InBlock) :
      Leftover system caller memory
  | report (asked : system.processes[caller].call? = some .pipeWrite) (id : PipeId) (pipe : Pipe)
      (named : system.processes[caller].pipeOf?
        ⟨system.processes[caller].registers.argument 0⟩ = some id)
      (found : system.pipes.get? id = some pipe) (hungUp : pipe.hungUp = true)
      (wanted : system.processes[caller].registers.argument 3 ≠ 0) :
      Leftover system caller (system.memory.write
        (system.processes[caller].registers.argument 3) (Process.elementBytes .word64 0))

variable {system between : System slots} {caller : Fin slots} {result : Except Refusal Hint}

theorem handleCall_eq_settle (ended : system.callResult caller = .ok result between) :
    KernelM.handleCall caller system = KernelM.settle caller result between :=
  bind_of_ok ended

end System

variable {before after : System slots} {caller : Fin slots} {hint : Hint} {refusal : Refusal}
  {layout : Layout slots} {author : Fin slots → Prop}

/-- A call that is turned away leaves the tables as they are, and nothing new in memory but in the
two cases. -/
theorem CallOutcome.leftover (outcome : CallOutcome before caller (.error refusal) after) :
    ∃ memory, after = { before with memory } ∧ before.Leftover caller memory := by
  rw [CallOutcome] at outcome
  split at outcome
  · cases outcome with
    | refused refusal hint => exact ⟨_, rfl, .nothing⟩
  next asked =>
      cases outcome with
      | refused refusal hint => exact ⟨_, rfl, .nothing⟩
      | hungUp transfer requested pipe found closed =>
          refine ⟨_, rfl, ?_⟩
          rw [CallM.Transfer.reported, requested.report]
          by_cases wanted : before.processes[caller].registers.argument 3 = 0
          · rw [if_pos wanted]
            exact .nothing
          · rw [if_neg wanted]
            exact .report asked transfer.pipe pipe requested.pipe found closed wanted
  next asked =>
      cases outcome with
      | refused refusal memory hint block => exact ⟨_, rfl, .arguments asked memory block⟩
  · cases outcome with
    | refused refusal hint => exact ⟨_, rfl, .nothing⟩

private theorem answered_eq {log : List String} {memory : Memory} {response expected : UInt64}
    (logged : log = before.log ∨ before.processes[caller].call? = some .print ∨
      before.processes[caller].call? = some .debug)
    (stored : memory = before.memory ∨ before.processes[caller].call? = some .getPriority)
    (silent : before.processes[caller].call? ≠ some .print ∧
      before.processes[caller].call? ≠ some .debug ∧
        before.processes[caller].call? ≠ some .getPriority)
    (told : (before.processes.answer caller response)[caller].registers.response = expected) :
    ({ before with log, memory, processes := before.processes.answer caller response } :
      System slots) = { before with processes := before.processes.answer caller expected } := by
  rw [ProcessTable.getElem_answer_self, Process.respond, Registers.response_respond] at told
  subst told
  rcases logged with rfl | print | debug
  · rcases stored with rfl | asked
    · rfl
    · exact absurd asked silent.2.2
  · exact absurd print silent.1
  · exact absurd debug silent.2.1

/-- A call that ends with the null handle has told this to the caller and done nothing else. -/
theorem CallOutcome.of_noHandle (outcome : CallOutcome before caller (.ok hint) after)
    (asked : before.processes[caller].call? = some .pipeOpen ∨
      before.processes[caller].call? = some .pipeGet)
    (null : after.processes[caller].registers.response = PipeHandle.null.word.toUInt64) :
    after = { before with
      processes := before.processes.answer caller PipeHandle.null.word.toUInt64 } := by
  have plain : Outcome before caller (.ok hint) after := by
    rcases asked with asked | asked
    · rwa [CallOutcome, asked] at outcome
    · rwa [CallOutcome, asked] at outcome
  clear outcome
  cases plain with
  | answered log memory response hint plain logged stored =>
      refine answered_eq logged stored ?_ null
      rcases asked with asked | asked
      · simp [asked]
      · simp [asked]
  | exited log reaped hint run called => simp [called] at asked
  | slept deadline in_time asleep run called => simp [called] at asked
  | prioritised slot priority valid called named wanted => simp [called] at asked
  | moved brk admits process run called => simp [called] at asked
  | opened called name tables handle found =>
      rw [ProcessTable.getElem_answer_self, Process.respond, Registers.response_respond] at null
      exact absurd null (CallM.handle_ne_null_of_openPipe? found)
  | shared owner name tables handle found called =>
      rw [ProcessTable.getElem_answer_self, Process.respond, Registers.response_respond] at null
      exact absurd null (CallM.handle_ne_null_of_sharePipe? found)
  | closed handle process id tables hint removed run called => simp [called] at asked

/-- A call that ends with a break that is refused has told this to the caller and done nothing
else. -/
theorem CallOutcome.of_breakRefused (outcome : CallOutcome before caller (.ok hint) after)
    (sound : before.toTables.Sound layout author)
    (asked : before.processes[caller].call? = some .moveBreak)
    (refused : after.processes[caller].registers.response = Response.breakRefused) :
    after = { before with
      processes := before.processes.answer caller Response.breakRefused } := by
  have plain : Outcome before caller (.ok hint) after := by
    rwa [CallOutcome, asked] at outcome
  clear outcome
  cases plain with
  | answered log memory response hint plain logged stored =>
      exact answered_eq logged stored (by simp [asked]) refused
  | exited log reaped hint run called => simp [called] at asked
  | slept deadline in_time asleep run called => simp [called] at asked
  | prioritised slot priority valid called named wanted => simp [called] at asked
  | moved brk admits process run called =>
      rw [getElem_set_self, Process.respond, Registers.response_respond] at refused
      exact absurd refused ((sound.slot caller).brk_ne_breakRefused (layout.houses caller))
  | opened called name tables handle found => simp [called] at asked
  | shared owner name tables handle found called => simp [called] at asked
  | closed handle process id tables hint removed run called => simp [called] at asked

/-- A call that fails without harm to the caller is handled, and the system is as before but for
the response, which reports the failure, and what is left over in memory.  So no pipe, handle or
reference is lost or left over, and no slot is taken. -/
theorem Reached.failure_keeps {launch : Launch slots} {system between : System slots}
    (reached : Reached launch system) {caller : Fin slots}
    (live : system.processes[caller].state ≠ .vacant) {result : Except Refusal Hint}
    {response : UInt64} (ended : system.callResult caller = .ok result between)
    (fails : system.Fails caller result between response) :
    ∃ hint memory, system.Leftover caller memory ∧
      KernelM.handleCall caller system = .ok hint { system with
        memory
        processes := system.processes.answer caller response } := by
  obtain ⟨⟨author, sound⟩, _⟩ := reached.sound_and_waiting
  obtain ⟨found, left, run, outcome, _⟩ :=
    CallM.handle_run sound reached.calls_eq (.inl live)
  cases ended.symm.trans run
  rw [System.handleCall_eq_settle ended]
  cases fails with
  | refused error hint between =>
      obtain ⟨memory, rfl, leftover⟩ := outcome.leftover
      exact ⟨hint, memory, leftover, rfl⟩
  | noHandle hint between asked null =>
      rw [outcome.of_noHandle asked null]
      exact ⟨hint, system.memory, .nothing, rfl⟩
  | breakRefused hint between asked refused =>
      rw [outcome.of_breakRefused sound asked refused]
      exact ⟨hint, system.memory, .nothing, rfl⟩

/-- The first process cannot open a pipe under a name that it has given to another. -/
theorem failure_keeps_small : ∃ system between hint, Reached Launch.small system ∧
    system.processes[(0 : Fin 2)].state ≠ .vacant ∧
    system.callResult 0 = .ok (.ok hint) between ∧
    system.Fails 0 (.ok hint) between PipeHandle.null.word.toUInt64 ∧
    ∃ left memory, system.Leftover 0 memory ∧
      KernelM.handleCall 0 system = .ok left { system with
        memory
        processes := system.processes.answer 0 PipeHandle.null.word.toUInt64 } := by
  have evaluated : (Launch.small.play? Launch.writerScript).any (fun final =>
      let entered := final.2.entering 0 Launch.openMove
      final.2.processes[(0 : Fin 2)].writes
          ⟨Launch.openMove.place, Launch.openMove.bytes.length⟩ &&
        decide (final.2.current = 0 ∧ entered.processes[(0 : Fin 2)].state ≠ .vacant ∧
          entered.processes[(0 : Fin 2)].call? = some .pipeOpen) &&
        match entered.callResult 0 with
        | .ok (.ok _) between => decide (between.processes[(0 : Fin 2)].registers.response =
            PipeHandle.null.word.toUInt64)
        | .ok (.error _) _ => false
        | .error _ _ => false) = true := by
    decide +kernel
  rw [Option.any_eq_true] at evaluated
  obtain ⟨final, played, holds⟩ := evaluated
  obtain ⟨known, ended⟩ := Bool.and_eq_true_iff.1 holds
  obtain ⟨writes, here⟩ := Bool.and_eq_true_iff.1 known
  obtain ⟨current, live, asked⟩ := of_decide_eq_true here
  have reached : Reached Launch.small (final.2.entering 0 Launch.openMove) :=
    .entered (Run.play played) current.symm (System.userStep_entering writes)
  split at ended
  next hint between run =>
      have fails : (final.2.entering 0 Launch.openMove).Fails 0 (.ok hint) between _ :=
        .noHandle hint between (.inl asked) (of_decide_eq_true ended)
      exact ⟨_, between, hint, reached, live, run, fails, reached.failure_keeps live run fails⟩
  next => cases ended
  next => cases ended

end Microkernel
