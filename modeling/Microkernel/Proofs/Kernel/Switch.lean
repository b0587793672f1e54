import Microkernel.Proofs.Execution
import Microkernel.Proofs.Schedule.Idle

/-!
# Leaving the kernel

After a call the kernel puts a runnable process on the processor.  It stops only if nobody runs and
nobody is asleep, since then nobody ever will run.
-/

namespace Microkernel
namespace KernelM

variable {slots : Nat} {system : System slots}

theorem isRunnable_eq {position : Nat} (small : position < slots) :
    isRunnable position system =
      .ok system.processes[(⟨position, small⟩ : Fin slots)].isRunnable system := by
  rw [isRunnable, slotAt, dif_pos small]
  rfl

private theorem asked_run (system : System slots) {position : Nat} (small : position < slots) :
    (do
      if ← isRunnable position then return some (← slotAt position) else return none :
        KernelM slots (Option (Fin slots))) system =
      .ok (if system.processes[(⟨position, small⟩ : Fin slots)].isRunnable
        then some ⟨position, small⟩ else none) system := by
  rw [bind_of_ok (isRunnable_eq small)]
  split
  · rw [slotAt, dif_pos small]
    rfl
  · rfl

theorem hinted?_run (system : System slots) {previous : Nat} {hint : Hint}
    (small : hint = .same → previous < slots) (within : hint.Within slots) :
    ∃ choice, hinted? previous hint system = .ok choice system ∧
      ∀ next, choice = some next → system.processes[next].isRunnable = true := by
  have followed {position : Nat} (inside : position < slots) :
      ∃ choice, (do
        if ← isRunnable position then return some (← slotAt position) else return none :
          KernelM slots (Option (Fin slots))) system = .ok choice system ∧
        ∀ next, choice = some next → system.processes[next].isRunnable = true := by
    refine ⟨_, asked_run system inside, fun next chosen => ?_⟩
    rw [Option.ite_none_right_eq_some, Option.some.injEq] at chosen
    obtain ⟨runs, rfl⟩ := chosen
    exact runs
  cases hint with
  | same => exact followed (small rfl)
  | specific position => exact followed (within position rfl)
  | other =>
      refine ⟨none, rfl, ?_⟩
      rintro _ ⟨⟩

private theorem of_asked {position : Nat} {choice : Option (Fin slots)} {left : System slots}
    (asked : (do
      if ← isRunnable position then return some (← slotAt position) else return none :
        KernelM slots (Option (Fin slots))) system = .ok choice left) :
    left = system ∧ ∃ slot : Fin slots, slot.val = position ∧
      choice = if system.processes[slot].isRunnable then some slot else none := by
  by_cases inside : position < slots
  · rw [asked_run system inside] at asked
    cases asked
    exact ⟨rfl, ⟨position, inside⟩, rfl, rfl⟩
  · have crash : isRunnable position system = .error .outOfRange system := by
      rw [isRunnable, slotAt, dif_neg inside]
      rfl
    rw [bind_of_error crash] at asked
    cases asked

theorem of_hinted?_eq_some {previous : Nat} {hint : Hint} {left : System slots} {next : Fin slots}
    (run : hinted? previous hint system = .ok (some next) left) :
    left = system ∧ system.processes[next].isRunnable = true ∧
      (hint = .same ∧ next.val = previous ∨ hint = .specific next.val) := by
  have followed {position : Nat} (asked : (do
      if ← isRunnable position then return some (← slotAt position) else return none :
        KernelM slots (Option (Fin slots))) system = .ok (some next) left) :
      left = system ∧ system.processes[next].isRunnable = true ∧ next.val = position := by
    obtain ⟨same, slot, here, chosen⟩ := of_asked asked
    rw [eq_comm, Option.ite_none_right_eq_some, Option.some.injEq] at chosen
    obtain ⟨runs, rfl⟩ := chosen
    exact ⟨same, runs, here⟩
  cases hint with
  | same =>
      obtain ⟨same, runs, here⟩ := followed run
      exact ⟨same, runs, .inl ⟨rfl, here⟩⟩
  | specific position =>
      obtain ⟨same, runs, here⟩ := followed run
      exact ⟨same, runs, .inr (here ▸ rfl)⟩
  | other => cases run

/-- A hint is followed if it leads to a process that can run. -/
theorem of_hinted?_eq_none {previous : Nat} {hint : Hint} {left : System slots}
    (run : hinted? previous hint system = .ok none left) :
    left = system ∧ ∀ named : Fin slots, hint = .specific named.val →
      system.processes[named].isRunnable = false := by
  have not_followed {position : Nat} (asked : (do
      if ← isRunnable position then return some (← slotAt position) else return none :
        KernelM slots (Option (Fin slots))) system = .ok none left) :
      left = system ∧ ∀ named : Fin slots, named.val = position →
        system.processes[named].isRunnable = false := by
    obtain ⟨same, slot, here, chosen⟩ := of_asked asked
    refine ⟨same, fun named there => ?_⟩
    cases Fin.ext (here.trans there.symm)
    rw [eq_comm, ite_eq_right_iff] at chosen
    exact Bool.eq_false_iff.2 fun runs => nomatch chosen runs
  cases hint with
  | same =>
      refine ⟨(not_followed run).1, ?_⟩
      rintro _ ⟨⟩
  | specific position =>
      obtain ⟨same, idle⟩ := not_followed run
      refine ⟨same, ?_⟩
      rintro named ⟨⟩
      exact idle named rfl
  | other =>
      cases run
      refine ⟨rfl, ?_⟩
      rintro _ ⟨⟩

/-- Whoever runs next was asked for and can run, or was chosen by the scheduler because nobody who
can run was asked for. -/
theorem of_switchAfter {previous : Nat} {hint : Hint} {left after : System slots}
    {next : Fin slots} (switch : switchAfter previous hint left = .ok next after) :
    ∃ woken wakeHint asked, left.processes.wakeSleepers left.clock = .ok (woken, wakeHint) ∧
      asked = (if wakeHint = .same then hint else hint.combine .other) ∧
      ((∃ final clock, woken.reschedule left.clock previous = .ok (final, clock, next) ∧
          after = { left with processes := final, clock, current := next.val } ∧
          ∀ named : Fin slots, asked = .specific named.val → woken[named].isRunnable = false) ∨
        after = { left with processes := woken, current := next.val } ∧
          woken[next].isRunnable = true ∧
          (asked = .same ∧ next.val = previous ∨ asked = .specific next.val)) := by
  have ends := run_eq_ok_iff.1 switch
  simp only [switchAfter, ends_bind, ends_get, wakeSleepers, ends_ofChecked, ends_set, ends_pure,
    Prod.exists] at ends
  obtain ⟨woken, wakeHint, woke, choice, system, asked, ends⟩ := ends
  refine ⟨woken, wakeHint, _, woke, rfl, ?_⟩
  cases choice with
  | some choice =>
      simp only [ends_bind, ends_pure, ends_modify] at ends
      obtain ⟨rfl, rfl⟩ := ends
      obtain ⟨rfl, runs, followed⟩ := of_hinted?_eq_some asked
      exact .inr ⟨rfl, runs, followed⟩
  | none =>
      simp only [reschedule, ends_bind, ends_get, ends_ofChecked, ends_set, ends_pure,
        ends_modify, Prod.exists] at ends
      obtain ⟨final, clock, chosen, run, rfl, rfl⟩ := ends
      obtain ⟨rfl, idle⟩ := of_hinted?_eq_none asked
      exact .inl ⟨final, clock, run, rfl, idle⟩

/-- The scheduler ends with somebody who can run, having woken those whose deadline has come by
then, or gives up because nobody ever will run. -/
theorem switchAfter_wakes (timed : ∀ slot : Fin slots, system.processes[slot].Timed)
    {previous : Nat} (small : previous < slots) {hint : Hint} (within : hint.Within slots) :
    (∃ next clock, switchAfter previous hint system = .ok next { system with
        processes := system.processes.map (·.wakeIfDue clock), clock, current := next.val } ∧
      system.clock ≤ clock ∧ (system.processes[next].wakeIfDue clock).isRunnable = true) ∨
    ((∃ left, switchAfter previous hint system = .error (.died .noRunnableProcess) left) ∧
      ∀ slot : Fin slots, ¬ system.processes[slot].WillRun) := by
  obtain ⟨woken, woken_hint, wake, woken_within, roused⟩ :=
    ProcessTable.wakeSleepers_run timed system.clock
  have woken_eq := (ProcessTable.of_wakeSleepers wake).1
  have woke : wakeSleepers system.clock system =
      .ok woken_hint { system with processes := woken } := by
    rw [wakeSleepers, bind_of_ok (run_get system), wake]
    rfl
  have asked_within : Hint.Within slots
      (if woken_hint = .same then hint else hint.combine .other) := by
    split
    · exact within
    · exact within.combine Hint.within_other
  obtain ⟨choice, chosen, chosen_runs⟩ :=
    hinted?_run { system with processes := woken } (fun _ => small) asked_within
  cases choice with
  | some next =>
      refine .inl ⟨next, system.clock, ?_, Nat.le_refl _, ?_⟩
      · rw [switchAfter, bind_of_ok (run_get system), bind_of_ok woke, ← woken_eq]
        exact bind_of_ok chosen
      · have runs := chosen_runs next rfl
        rwa [woken_eq, getElem_map] at runs
  | none =>
      have still_timed (slot : Fin slots) : woken[slot].Timed := (roused slot).timed (timed slot)
      have idles := ProcessTable.idles_reschedule still_timed system.clock previous
      rcases idles.outcome still_timed with
        ⟨final, clock, next, run, _, runs⟩ | ⟨run, none_will⟩
      · rw [run] at idles
        obtain ⟨final_eq, later⟩ := idles.wakes still_timed
        rw [woken_eq, ProcessTable.map_wakeIfDue_map_wakeIfDue _ later] at final_eq
        have rescheduled : reschedule previous { system with processes := woken } =
            .ok next { system with processes := final, clock } := by
          rw [reschedule, bind_of_ok (run_get _), run]
          rfl
        refine .inl ⟨next, clock, ?_, later, ?_⟩
        · rw [switchAfter, bind_of_ok (run_get system), bind_of_ok woke, ← final_eq]
          exact (bind_of_ok chosen).trans (bind_of_ok rescheduled)
        · rwa [final_eq, getElem_map] at runs
      · refine .inr ⟨⟨{ system with processes := woken }, ?_⟩, fun slot willRun => ?_⟩
        · have rescheduled : reschedule previous { system with processes := woken } =
              .error (.died .noRunnableProcess) { system with processes := woken } := by
            rw [reschedule, bind_of_ok (run_get _), run]
            rfl
          rw [switchAfter, bind_of_ok (run_get system), bind_of_ok woke]
          exact (bind_of_ok chosen).trans (bind_of_error rescheduled)
        · exact none_will slot ((roused slot).willRun_iff.2 willRun)

theorem switchAfter_run (timed : ∀ slot : Fin slots, system.processes[slot].Timed)
    {previous : Nat} (small : previous < slots) {hint : Hint} (within : hint.Within slots) :
    (∃ next woken clock, switchAfter previous hint system =
        .ok next { system with processes := woken, clock, current := next.val } ∧
      system.processes.RousedTo woken ∧ woken[next].isRunnable = true) ∨
    ((∃ left, switchAfter previous hint system = .error (.died .noRunnableProcess) left) ∧
      ∀ slot : Fin slots, ¬ system.processes[slot].WillRun) := by
  rcases switchAfter_wakes timed small within with ⟨next, clock, switch, _, runs⟩ | stops
  · refine .inl ⟨next, _, clock, switch, ProcessTable.rousedTo_map_wakeIfDue timed clock, ?_⟩
    rw [getElem_map]
    exact runs
  · exact .inr stops

theorem switchAfter_ok (timed : ∀ slot : Fin slots, system.processes[slot].Timed)
    {previous : Nat} (small : previous < slots) {hint : Hint} (within : hint.Within slots)
    {next : Fin slots} {after : System slots}
    (switch : switchAfter previous hint system = .ok next after) :
    ∃ woken clock, after = { system with processes := woken, clock, current := next.val } ∧
      system.processes.RousedTo woken ∧ woken[next].isRunnable = true := by
  rcases switchAfter_run timed small within with
    ⟨found, woken, clock, run, roused, runs⟩ | ⟨⟨_, died⟩, _⟩
  · rw [switch] at run
    cases run
    exact ⟨woken, clock, rfl, roused, runs⟩
  · rw [switch] at died
    cases died

theorem processes_of_switchAfter (timed : ∀ slot : Fin slots, system.processes[slot].Timed)
    {previous : Nat} (small : previous < slots) {hint : Hint} (within : hint.Within slots)
    {next : Fin slots} {after : System slots}
    (switch : switchAfter previous hint system = .ok next after) :
    after.processes = system.processes.map (·.wakeIfDue after.clock) ∧
      system.clock ≤ after.clock := by
  rcases switchAfter_wakes timed small within with ⟨found, clock, run, later, _⟩ | ⟨⟨_, died⟩, _⟩
  · rw [switch] at run
    cases run
    exact ⟨rfl, later⟩
  · rw [switch] at died
    cases died

end KernelM
end Microkernel
