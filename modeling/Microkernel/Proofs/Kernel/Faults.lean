import Microkernel.Proofs.Kernel.Accounting
import Microkernel.Proofs.Kernel.Failure
import Microkernel.Proofs.Tables.Parting
import Microkernel.Proofs.Tables.Registers

/-!
# Faults

A process that commits an offence in a call ends as if it had asked to exit.  Nothing else is left
of the call, wherever in its work the offence was found, but arguments that were copied for a
process that was not spawned.
-/

namespace Microkernel

variable {slots : Nat}

/-- Whether nothing is left in a slot of what the process there had. -/
structure Process.Gone (process : Process) : Prop where
  /-- The slot is vacant. -/
  vacant : process.state = .vacant
  /-- Nothing is to wake. -/
  no_deadline : process.deadline = none
  /-- No memory may be touched. -/
  no_regions : process.regions = []
  /-- No pipe is held. -/
  no_handles : process.handles = Process.noHandles

theorem Process.Sound.gone {process : Process} {memory : SlotMemory} {image : Extent}
    {author : Prop} (sound : process.Sound memory image author) (vacant : process.state = .vacant) :
    process.Gone where
  vacant := vacant
  no_deadline := sound.timed.deadline_eq_none (by rw [vacant]; simp)
  no_regions := (sound.vacant vacant).1
  no_handles := (sound.vacant vacant).2

namespace System

/-- The system with other registers for one process. -/
def withRegisters (system : System slots) (slot : Fin slots) (registers : Registers) :
    System slots :=
  { system with processes := system.processes.withRegisters slot registers }

end System

namespace KernelM

variable {caller : Fin slots} {reaped : Tables slots} {hint : Hint}

theorem handleCall_exit (system : System slots) (calls : system.calls = .withBuiltins .builtin)
    (asked : system.processes[caller].call? = some .exit)
    (run : system.toTables.reap caller = .ok (reaped, hint)) :
    ∃ log, handleCall caller system = .ok hint { system with log, toTables := reaped } := by
  have ends : (handleCall caller).Ends system fun found left =>
      found = hint ∧ ∃ log, left = { system with log, toTables := reaped } := by
    rw [ends_handleCall calls asked]
    simp only [CallM.builtin, CallM.exit, ends_run_bind, CallM.ends_callProcess,
      CallM.ends_kernel, ends_logLine, KernelM.reap, ends_onTables, settle, ends_pure]
    exact ⟨reaped, hint, run, rfl, _, rfl⟩
  obtain ⟨found, left, handled, rfl, log, rfl⟩ := ends
  exact ⟨log, handled⟩

theorem endForFault_run (system : System slots)
    (run : system.toTables.reap caller = .ok (reaped, hint)) (fault : Fault) :
    ∃ log, endForFault caller fault system = .ok hint { system with
      log
      toTables := reaped.modifyProcess caller fun process =>
        { process with lastFault := some fault } } := by
  have ends : (endForFault caller fault).Ends system fun found left =>
      found = hint ∧ ∃ log, left = { system with
        log
        toTables := reaped.modifyProcess caller fun process =>
          { process with lastFault := some fault } } := by
    simp only [endForFault, ends_bind, ends_process, ends_logLine, KernelM.reap, ends_onTables,
      ends_modifyProcess, ends_pure]
    exact ⟨reaped, hint, run, rfl, _, rfl⟩
  obtain ⟨found, left, handled, rfl, log, rfl⟩ := ends
  exact ⟨log, handled⟩

end KernelM

/-- A call that ends in an offence has changed nothing, except that it may have begun to write the
arguments of a process that was to be spawned. -/
theorem CallOutcome.of_fault {before after : System slots} {caller : Fin slots} {fault : Fault}
    (outcome : CallOutcome before caller (.error (.fault fault)) after) :
    ∃ memory, after = { before with memory } ∧
      before.memory.ChangesOnly memory fun address =>
        before.processes[caller].call? = some .spawn ∧ before.InBlock address := by
  rw [CallOutcome] at outcome
  split at outcome
  · cases outcome with
    | refused => exact ⟨_, rfl, .refl _ _⟩
  · cases outcome with
    | refused => exact ⟨_, rfl, .refl _ _⟩
  next asked =>
      cases outcome with
      | refused refusal memory hint block =>
          exact ⟨_, rfl, block.mono fun address inside => ⟨asked, inside⟩⟩
  · cases outcome with
    | refused => exact ⟨_, rfl, .refl _ _⟩

/-- If the call of a process ends in an offence, the processes, the pipes and what the scheduler is
told are as if the process had asked to exit instead, whatever its registers would be then, except
that its slot tells of the offence.  The process is gone, and has let go of what it held.  Nothing
else has changed but the log and, if a process was to be spawned, the argument page of the slot that
it would have got. -/
theorem Reached.fault_ends_as_exit {launch : Launch slots} {system between : System slots}
    (reached : Reached launch system) {caller : Fin slots}
    (live : system.processes[caller].state ≠ .vacant) {fault : Fault}
    (faults : system.callResult caller = .ok (.error (.fault fault)) between)
    (registers : Registers) (asked : registers.callNumber = Syscall.exit.number) :
    ∃ hint ended exitLog log memory,
      KernelM.handleCall caller (system.withRegisters caller registers) =
        .ok hint { system with log := exitLog, toTables := ended } ∧
      KernelM.handleCall caller system = .ok hint { system with
        memory, log
        toTables := ended.modifyProcess caller fun process => { process with
          registers := system.processes[caller].registers
          lastFault := some fault } } ∧
      (system.memory.ChangesOnly memory fun address =>
        system.processes[caller].call? = some .spawn ∧ system.InBlock address) ∧
      ended.processes[caller].Gone ∧
      ∀ id, Tables.PartsWith system.toTables ended caller id := by
  obtain ⟨⟨author, sound⟩, _⟩ := reached.sound_and_waiting
  obtain ⟨found, left, run, outcome, _⟩ :=
    CallM.handle_run sound reached.calls_eq (.inl live)
  cases faults.symm.trans run
  obtain ⟨memory, rfl, changes⟩ := outcome.of_fault
  obtain ⟨reaped, hint, ends, _, reaped_sound, _, vacant, _⟩ := sound.reap caller
  have gone := (reaped_sound.slot caller).gone ((vacant caller).2 (.inl rfl))
  -- The exit ends the process just so, apart from its registers.
  have exits := Tables.reap_withRegisters ends registers
  have here : (reaped.withRegisters caller registers).processes[caller] =
      { reaped.processes[caller] with registers } := ProcessTable.getElem_withRegisters_self
  have asks : (system.withRegisters caller registers).processes[caller].call? = some .exit := by
    rw [System.withRegisters, ProcessTable.getElem_withRegisters_self, Process.call?, asked]
    rfl
  obtain ⟨exitLog, exited⟩ := KernelM.handleCall_exit
    (system.withRegisters caller registers) reached.calls_eq asks exits
  obtain ⟨log, faulted⟩ := KernelM.endForFault_run { system with memory } ends fault
  refine ⟨hint, reaped.withRegisters caller registers, exitLog, log, memory, exited, ?_, changes,
    ?_, fun id => (Tables.partsWith_reap reached.tidy ends id).congr rfl ?_⟩
  · rw [System.handleCall_eq_settle faults]
    have same : (reaped.withRegisters caller registers).modifyProcess caller (fun process =>
        { process with
          registers := system.processes[caller].registers
          lastFault := some fault }) =
        reaped.modifyProcess caller fun process => { process with lastFault := some fault } := by
      rw [Tables.modifyProcess, here, ← Tables.registers_reap ends]
      simp only [Tables.withRegisters, ProcessTable.withRegisters, Vector.set_set,
        Tables.modifyProcess]
    rw [same]
    exact faulted
  · rw [here]
    exact ⟨gone.vacant, gone.no_deadline, gone.no_regions, gone.no_handles⟩
  · rw [here]

/-- The first process writes bytes into a pipe, for which another process waits, from where it may
not read. -/
theorem fault_ends_as_exit_small : ∃ system between fault, Reached Launch.small system ∧
    system.processes[(0 : Fin 2)].state ≠ .vacant ∧
    system.processes[(0 : Fin 2)].call? = some .pipeWrite ∧
    system.callResult 0 = .ok (.error (.fault fault)) between ∧
    Registers.zero.callNumber = Syscall.exit.number ∧
    ∃ hint left exited, KernelM.handleCall 0 system = .ok hint left ∧
      KernelM.handleCall 0 (system.withRegisters 0 .zero) = .ok hint exited ∧
      left.pipes = exited.pipes ∧ left.processes[(0 : Fin 2)].state = .vacant ∧
      left.processes[(0 : Fin 2)].lastFault = some fault := by
  have evaluated : (Launch.small.play? (Launch.familyScript 1 ++ Launch.readerWaits)).any
      (fun final =>
        let entered := final.2.entering 0 Launch.wildMove
        final.2.processes[(0 : Fin 2)].writes
            ⟨Launch.wildMove.place, Launch.wildMove.bytes.length⟩ &&
          decide (final.2.current = 0 ∧ entered.processes[(0 : Fin 2)].state ≠ .vacant ∧
            entered.processes[(0 : Fin 2)].call? = some .pipeWrite) &&
          match entered.callResult 0 with
          | .ok (.error (.fault _)) _ => true
          | .ok (.error (.code _ _)) _ => false
          | .ok (.ok _) _ => false
          | .error _ _ => false) = true := by
    decide +kernel
  rw [Option.any_eq_true] at evaluated
  obtain ⟨final, played, holds⟩ := evaluated
  obtain ⟨known, ended⟩ := Bool.and_eq_true_iff.1 holds
  obtain ⟨writes, here⟩ := Bool.and_eq_true_iff.1 known
  obtain ⟨current, live, asked⟩ := of_decide_eq_true here
  have reached : Reached Launch.small (final.2.entering 0 Launch.wildMove) :=
    .entered (Run.play played) current.symm (System.userStep_entering writes)
  split at ended
  next fault between faults =>
      obtain ⟨hint, _, _, _, _, exits, run, _, gone, _⟩ :=
        reached.fault_ends_as_exit live faults .zero rfl
      refine ⟨_, between, fault, reached, live, asked, faults, rfl, hint, _, _, run, exits, rfl,
        ?_, ?_⟩
      · exact (congrArg Process.state (getElem_set_self _ _ _)).trans gone.vacant
      · exact congrArg Process.lastFault (getElem_set_self _ _ _)
  next => cases ended
  next => cases ended
  next => cases ended

end Microkernel
