import Microkernel.Proofs.Calls.Spawn

/-!
# What a start leaves, if it ends

A process takes the slot that it is started in, with a map of its memory, or the slot stays vacant
since the program does not fit in beside the pages of the slot.  This holds of any system, sound or
not.
-/

namespace Microkernel

open KernelM

/-- The process that takes a slot. -/
def Process.occupant (process : Process) (pid : Pid) (priority : Priority)
    (regions : List Region) : Process :=
  { process with
    regions, pid, priority
    heap := process.heap.reset
    deadline := none
    handles := noHandles
    lastFault := none
    state := .live .runnable }

/-- A slot is taken, or does not change but for its regions and its heap. -/
theorem Process.occupy_cases {process taken : Process} {pid : Pid} {priority : Priority}
    {program : List Region} {granted : Bool}
    (run : process.occupy pid priority program = .ok (taken, granted)) :
    (granted = false ∧ ∃ regions heap, taken = { process with regions, heap }) ∨
      (granted = true ∧ ∃ regions, taken = process.occupant pid priority regions) := by
  simp only [occupy, Checked.bind_eq_ok_iff, Prod.exists] at run
  obtain ⟨regions, fits, _, run⟩ := run
  split at run
  · rw [Checked.bind_eq_ok_iff] at run
    obtain ⟨found, _, run⟩ := run
    cases found with
    | none =>
        cases run
        exact .inl ⟨rfl, regions, process.heap.reset, rfl⟩
    | some larger =>
        cases run
        exact .inr ⟨rfl, larger, rfl⟩
  · cases run
    exact .inl ⟨rfl, regions, process.heap, rfl⟩

theorem Process.heap_of_occupy {process taken : Process} {pid : Pid} {priority : Priority}
    {program : List Region} (run : process.occupy pid priority program = .ok (taken, true)) :
    taken.heap = process.heap.reset := by
  rcases occupy_cases run with ⟨impossible, _⟩ | ⟨_, regions, rfl⟩
  · cases impossible
  · rfl

namespace StartM

variable {slots : Nat} {before after : System slots} {slot : Fin slots} {entry : Nat}
  {program : List Region} {result : Except ErrorCode Pid}

/-- A process is started in a vacant slot, with a map in the tables of the slot that opens the
blocks of its memory, or the slot stays vacant. -/
theorem startProcess_cases
    (run : (startProcess slot entry program).run before = .ok result after) :
    before.processes[slot].state = .vacant ∧ ∃ pid nextPid,
      (result = .error .outOfMemory ∧ ∃ regions heap, after = { before with
        nextPid
        processes := before.processes.set slot
          { before.processes[slot] with regions, heap } slot.isLt }) ∨
      (result = .ok pid ∧ ∃ taken regions cleared accesses registers,
        taken = before.processes[slot].occupant pid .default regions ∧
        taken.blockAccess Config.deviceBase = .ok accesses ∧ after = { before with
          nextPid
          memory := Paging.writeProcessMap cleared taken.memory.tables Config.deviceBase
            taken.memory.arguments fun base => accesses.toArray.getD (base / Paging.block) .none
          processes := before.processes.set slot
            { taken with rootTable := taken.memory.tables, registers } slot.isLt }) := by
  have ends := run_eq_ok_iff.1 run
  simp only [startProcess, ends_run_bind, ends_startKernel, ends_process, ends_startChecked,
    ends_allocatePid, ends_setProcess] at ends
  obtain ⟨_, vacant, ⟨taken, granted⟩, occupied, ends⟩ := ends
  refine ⟨(Process.isVacant_iff _).1 (require_eq_ok_iff.1 vacant),
    before.processes.freshPid slots before.nextPid,
    (before.processes.freshPid slots before.nextPid).next, ?_⟩
  rcases Process.occupy_cases occupied with ⟨rfl, regions, heap, rfl⟩ | ⟨rfl, regions, rfl⟩
  · simp only [Bool.false_eq_true, if_false, ends_run_throw] at ends
    obtain ⟨rfl, rfl⟩ := ends
    exact .inl ⟨rfl, regions, heap, rfl⟩
  · simp only [if_true, ends_run_bind, ends_startKernel, KernelM.zeroPages, ends_bind, ends_get,
      ends_ofChecked, ends_modify, writeMap, ends_modifyMemory, ends_pure, ends_startChecked,
      ends_setProcess, ends_run_pure, Vector.set_set] at ends
    obtain ⟨_, _, _, _, cleared, _, accesses, opened, stackTop, _, rfl, rfl⟩ := ends
    refine .inr ⟨rfl, _, regions, cleared, accesses, .start entry.toUInt64 stackTop.toUInt64, rfl,
      opened, ?_⟩
    -- Unfolding more than the fields of records would write the map out.
    with_reducible rfl

end StartM
end Microkernel
