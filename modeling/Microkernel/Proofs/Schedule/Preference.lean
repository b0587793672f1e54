import Microkernel.Proofs.Schedule.Choice

/-!
# The scheduler chooses the most important

Whoever is chosen by looking at all candidates has no more important one beside it.  This holds of
any table of processes, whatever the order of the turns.
-/

namespace Microkernel

namespace ProcessTable

variable {slots : Nat} {processes : ProcessTable slots}

/-- Whether no process that can run is more important than one of the table's. -/
def Tops (processes : ProcessTable slots) (slot : Fin slots) : Prop :=
  ∀ other : Fin slots, processes[other].isRunnable = true →
    processes[other].priority.moreImportant processes[slot].priority = false

instance (slot : Fin slots) : Decidable (processes.Tops slot) :=
  inferInstanceAs (Decidable (∀ other : Fin slots, processes[other].isRunnable = true →
    processes[other].priority.moreImportant processes[slot].priority = false))

theorem scan?_le {previous : Nat} {eligible : Process → Bool} {choice : Fin slots}
    (found : processes.scan? previous eligible = some choice) (slot : Fin slots)
    (candidate : eligible processes[slot] = true) :
    processes[slot].priority.level ≤ processes[choice].priority.level :=
  (leads_of_scan? found).le (mem_candidates.2 candidate)

theorem tops_of_select? {previous : Nat} {choice : Fin slots}
    (found : processes.select? previous = some choice) :
    processes[choice].isRunnable = true ∧ processes.Tops choice := by
  refine ⟨of_scan?_eq_some found, fun other runs => ?_⟩
  rw [Priority.moreImportant_eq_false_iff]
  exact scan?_le found other runs

/-- Whoever the scheduler ends with, at once or after a wait, is most important. -/
theorem tops_of_reschedule {clock previous time : Nat} {final : ProcessTable slots}
    {next : Fin slots} (run : processes.reschedule clock previous = .ok (final, time, next)) :
    final[next].isRunnable = true ∧ final.Tops next := by
  simp only [reschedule, Checked.bind_eq_ok_iff, Prod.exists] at run
  obtain ⟨woken, _, _, run⟩ := run
  split at run
  next choice chosen =>
      cases run
      exact tops_of_select? chosen
  next =>
      split at run
      next => cases run
      next deadline earliest =>
          simp only [Checked.bind_eq_ok_iff, Prod.exists] at run
          obtain ⟨late, _, _, run⟩ := run
          split at run
          next choice chosen =>
              cases run
              exact tops_of_select? chosen
          next => cases run

end ProcessTable
end Microkernel
