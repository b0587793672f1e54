import Microkernel.Proofs.Tables.LettingGo

/-!
# Registers while a process ends

What becomes of the tables when a process lets go of pipes, or ends, does not depend on the
registers of any process: with other registers, the same happens.
-/

namespace Microkernel

/-- A fold of steps that can fail ends alike from states that stay alike in each of its steps. -/
theorem foldlM_alike {State Step : Type} {step : State → Step → Checked State}
    (change : State → State)
    (alike : ∀ before element after, step before element = .ok after →
      step (change before) element = .ok (change after))
    {elements : List Step} {before after : State} (run : elements.foldlM step before = .ok after) :
    elements.foldlM step (change before) = .ok (change after) := by
  induction elements generalizing before with
  | nil =>
      cases run
      rfl
  | cons element rest induction =>
      rw [List.foldlM_cons, Checked.bind_eq_ok_iff] at run ⊢
      obtain ⟨between, first, run⟩ := run
      exact ⟨change between, alike before element between first, induction run⟩

variable {slots : Nat}

namespace ProcessTable

variable {processes : ProcessTable slots} {slot : Fin slots} {registers : Registers}

/-- The slots with other registers for one process. -/
def withRegisters (processes : ProcessTable slots) (slot : Fin slots) (registers : Registers) :
    ProcessTable slots :=
  processes.set slot { processes[slot] with registers } slot.isLt

theorem getElem_withRegisters (other : Fin slots) :
    (processes.withRegisters slot registers)[other] =
      if slot = other then { processes[other] with registers } else processes[other] := by
  rw [withRegisters, getElem_set]
  split
  next same => rw [same]
  next => rfl

theorem getElem_withRegisters_self :
    (processes.withRegisters slot registers)[slot] = { processes[slot] with registers } :=
  getElem_set_self _ _ _

theorem eq_of_withRegisters {α : Type} (look : Process → α)
    (blind : ∀ process : Process, look { process with registers } = look process)
    (other : Fin slots) :
    look (processes.withRegisters slot registers)[other] = look processes[other] := by
  rw [getElem_withRegisters]
  split
  · exact blind _
  · rfl

theorem withRegisters_self :
    processes.withRegisters slot processes[slot].registers = processes := by
  apply eq_of_getElem
  intro other
  rw [getElem_withRegisters]
  split
  next same => rw [same]
  next => rfl

theorem map_withRegisters {change : Process → Process}
    (blind : ∀ process : Process, change { process with registers } =
      { change process with registers }) :
    (processes.withRegisters slot registers).map change =
      ProcessTable.withRegisters (processes.map change) slot registers := by
  apply eq_of_getElem
  intro other
  rw [getElem_map, getElem_withRegisters, getElem_withRegisters, getElem_map]
  split
  · exact blind _
  · rfl

theorem wake_withRegisters (caller : Fin slots) (blocked : ProcessState → Bool) :
    (processes.withRegisters slot registers).wake caller blocked =
      ((processes.wake caller blocked).1.withRegisters slot registers,
        (processes.wake caller blocked).2) := by
  have waking : (processes.withRegisters slot registers).map (·.wakeIf blocked) =
      ProcessTable.withRegisters (processes.map (·.wakeIf blocked)) slot registers := by
    refine map_withRegisters fun process => ?_
    simp only [Process.wakeIf]
    split
    · rfl
    · rfl
  have state (other : Fin slots) : (processes.withRegisters slot registers)[other].state =
      processes[other].state := eq_of_withRegisters Process.state (fun _ => rfl) other
  have priority (other : Fin slots) : (processes.withRegisters slot registers)[other].priority =
      processes[other].priority := eq_of_withRegisters Process.priority (fun _ => rfl) other
  simp only [wake, waking, slotsWhere, state, priority]

end ProcessTable

namespace Tables

variable {tables left reaped : Tables slots} {slot holder : Fin slots} {hint later : Hint}
  {id : PipeId}

/-- The tables with other registers for one process. -/
def withRegisters (tables : Tables slots) (slot : Fin slots) (registers : Registers) :
    Tables slots :=
  { tables with processes := tables.processes.withRegisters slot registers }

theorem modifyProcess_withRegisters {registers : Registers} {change : Process → Process}
    (blind : ∀ process : Process, change { process with registers } =
      { change process with registers }) :
    (tables.withRegisters slot registers).modifyProcess holder change =
      (tables.modifyProcess holder change).withRegisters slot registers := by
  have same : (tables.processes.withRegisters slot registers).set holder
      (change (tables.processes.withRegisters slot registers)[holder]) holder.isLt =
        (tables.modifyProcess holder change).processes.withRegisters slot registers := by
    apply eq_of_getElem
    intro other
    rw [getElem_set, ProcessTable.getElem_withRegisters, ProcessTable.getElem_withRegisters,
      ProcessTable.getElem_withRegisters, modifyProcess, getElem_set]
    by_cases here : holder = other
    · subst here
      simp only [if_true]
      split
      · exact blind _
      · rfl
    · simp only [if_neg here]
  simp only [withRegisters, modifyProcess] at same ⊢
  rw [same]

theorem release_withRegisters (run : tables.release holder id = .ok (left, hint))
    (registers : Registers) :
    (tables.withRegisters slot registers).release holder id =
      .ok (left.withRegisters slot registers, hint) := by
  have named : (tables.processes.withRegisters slot registers)[holder].pid =
      tables.processes[holder].pid :=
    ProcessTable.eq_of_withRegisters Process.pid (fun _ => rfl) holder
  simp only [release, withRegisters, named, ProcessTable.wake_withRegisters] at run ⊢
  split at run
  next => cases run
  next pipe found =>
      rw [Checked.bind_eq_ok_iff] at run ⊢
      obtain ⟨references, fewer, run⟩ := run
      refine ⟨references, fewer, ?_⟩
      split at run
      next hangs =>
          cases run
          exact if_pos hangs
      next quiet =>
          cases run
          exact if_neg quiet

theorem releaseHandle_withRegisters {position : Fin Config.maxHandles}
    (run : releaseHandle holder (tables, hint) position = .ok (left, later))
    (registers : Registers) :
    releaseHandle holder (tables.withRegisters slot registers, hint) position =
      .ok (left.withRegisters slot registers, later) := by
  have handles : (tables.withRegisters slot registers).processes[holder].handles =
      tables.processes[holder].handles :=
    ProcessTable.eq_of_withRegisters Process.handles (fun _ => rfl) holder
  cases named : tables.processes[holder].handles[position] with
  | none =>
      simp only [releaseHandle, handles, named] at run ⊢
      cases run
      rfl
  | some id =>
      simp only [releaseHandle, handles, named, Checked.bind_eq_ok_iff] at run ⊢
      obtain ⟨⟨between, asked⟩, gone, run⟩ := run
      cases run
      refine ⟨(between.withRegisters slot registers, asked), ?_, rfl⟩
      rw [modifyProcess_withRegisters fun _ => rfl]
      exact release_withRegisters gone registers

/-- What becomes of the tables when a process ends does not depend on registers. -/
theorem reap_withRegisters (run : tables.reap slot = .ok (reaped, hint))
    (registers : Registers) :
    (tables.withRegisters slot registers).reap slot =
      .ok (reaped.withRegisters slot registers, hint) := by
  simp only [reap, Checked.bind_eq_ok_iff, Prod.exists] at run ⊢
  obtain ⟨released, _, all, run⟩ := run
  cases run
  refine ⟨released.withRegisters slot registers, hint, ?_, ?_⟩
  · exact foldlM_alike (fun found => (found.1.withRegisters slot registers, found.2))
      (fun before position after step => releaseHandle_withRegisters step registers) all
  · rw [modifyProcess_withRegisters fun _ => rfl]
    rfl

theorem registers_reap (run : tables.reap slot = .ok (reaped, hint)) :
    reaped.processes[slot].registers = tables.processes[slot].registers := by
  have again := reap_withRegisters run tables.processes[slot].registers
  rw [withRegisters, ProcessTable.withRegisters_self] at again
  have same := (Prod.mk.inj (Except.ok.inj (run.symm.trans again))).1
  have registers := congrArg (fun tables : Tables slots => tables.processes[slot].registers) same
  simpa only [withRegisters, ProcessTable.getElem_withRegisters_self] using registers

end Tables
end Microkernel
