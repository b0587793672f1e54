import Microkernel.Proofs.Schedule.Tally
import Microkernel.Proofs.Tables.LettingGo

/-!
# The hints of letting go

Letting go of pipes wakes processes that waited for them, on any number of pipes.  The hint that is
left speaks for all of them who are more important than the process that let go.
-/

namespace Microkernel

namespace ProcessState

theorem isRunnable_of_isBlockedOn {state : ProcessState} {id : PipeId}
    (waits : state.isBlockedOn id = true) : state.isRunnable = false := by
  rcases (isBlockedOn_iff state id).1 waits with rfl | rfl <;> rfl

end ProcessState

namespace Tables

variable {slots : Nat} {tables after reaped : Tables slots} {holder slot : Fin slots}
  {id : PipeId} {pipe : Pipe} {position : Fin Config.maxHandles} {hint : Hint}

theorem Released.wakes (leaves : Released tables holder id pipe after hint) :
    tables.processes.Wakes after.processes tables.processes[holder].priority hint ∧
      tables.processes.Rises after.processes := by
  cases leaves with
  | hungUp =>
      exact ProcessTable.wakes_wake _ holder fun state => ProcessState.isRunnable_of_isBlockedOn
  | quiet =>
      exact ⟨(ProcessTable.Calm.refl _).wakes _, .refl _⟩

theorem calm_dropHandle (tables : Tables slots) (holder : Fin slots)
    (position : Fin Config.maxHandles) :
    tables.processes.Calm (tables.dropHandle holder position).processes :=
  ProcessTable.calm_set _ holder rfl rfl rfl

/-- A process that could run and ends leaves a hint for all whom it wakes. -/
theorem wakes_reap (runs : tables.processes[slot].isRunnable = true)
    (run : tables.reap slot = .ok (reaped, hint)) :
    tables.processes.Wakes reaped.processes tables.processes[slot].priority hint := by
  have start : tables.processes.Wakes tables.processes tables.processes[slot].priority .other :=
    ProcessTable.wakes_of_falls (fun _ => rfl) (fun _ _ due => due) (.refl _) (.inr rfl)
  obtain ⟨released, ⟨wakes, rises⟩, rfl⟩ := reap_ok
    (fun released merged =>
      tables.processes.Wakes released.processes tables.processes[slot].priority merged ∧
        tables.processes.Rises released.processes)
    run ⟨start, .refl _⟩ fun before _ position _ _ _ _ ⟨wakes, rises⟩ _ _ leaves => by
      have calm := calm_dropHandle before slot position
      obtain ⟨more, more_rises⟩ := leaves.wakes
      rw [(calm slot).2.1, wakes.priority_eq] at more
      have stays := calm.rises.trans more_rises
      exact ⟨wakes.trans rises (more.after_calm calm) fun slot _ => stays slot,
        rises.trans stays⟩
  have departs (other : Fin slots) : (released.modifyProcess slot (·.depart)).processes[other] =
      if slot = other then released.processes[slot].depart else released.processes[other] :=
    getElem_set _ _ _ _
  rw [← Hint.combine_same hint]
  refine wakes.trans rises (ProcessTable.wakes_of_falls (fun other => ?_) (fun other now due => ?_)
    (fun other runs_on => ?_) (.inl rfl)) fun other idle woken => ?_
  · rw [departs]
    split
    next same =>
        rw [← same]
        rfl
    next => rfl
  · rw [departs] at due
    split at due
    · cases due
    · exact due
  · rw [departs] at runs_on
    split at runs_on
    · cases runs_on
    · exact runs_on
  · rw [departs, if_neg]
    · exact woken
    · rintro rfl
      rw [runs] at idle
      cases idle

end Tables
end Microkernel
