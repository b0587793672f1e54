import Microkernel.Clock
import Microkernel.Proofs.Schedule.Choice

/-!
# The scheduler finds a process if there is one

While nobody can run, the scheduler idles from tick to tick.  Since deadlines come before the end of
time, the earliest one ends this, and `ProcessTable.reschedule` gives what comes out without going
through the ticks one by one.  The scheduler gives up only if nobody can run and nobody is asleep.
-/

namespace Microkernel
namespace ProcessTable

variable {slots : Nat} {processes : ProcessTable slots}

/-- Whether somebody can run at a tick, perhaps after being woken. -/
def Ready (processes : ProcessTable slots) (now : Nat) : Prop :=
  ∃ slot : Fin slots, processes[slot].isRunnable = true ∨ processes[slot].isDue now = true

instance (now : Nat) : Decidable (processes.Ready now) :=
  inferInstanceAs (Decidable (∃ slot : Fin slots,
    processes[slot].isRunnable = true ∨ processes[slot].isDue now = true))

theorem ready_of_deadline {slot : Fin slots} {deadline now : Nat}
    (here : processes[slot].deadline = some deadline) (passed : deadline ≤ now) :
    processes.Ready now :=
  ⟨slot, .inr (by simpa [Process.isDue, here] using passed)⟩

theorem late_of_unready {slot : Fin slots} {deadline now : Nat} (unready : ¬ processes.Ready now)
    (here : processes[slot].deadline = some deadline) : now < deadline :=
  Nat.not_le.1 fun passed => unready (ready_of_deadline here passed)

theorem unready_of_select?_eq_none {previous clock : Nat} {woken : ProcessTable slots} {hint : Hint}
    (wake : processes.wakeSleepers clock = .ok (woken, hint))
    (nobody : woken.select? previous = none) : woken = processes ∧ ¬ processes.Ready clock := by
  have idle (slot : Fin slots) : woken[slot].isRunnable = false := scan?_eq_none_iff.1 nobody slot
  have early (slot : Fin slots) : processes[slot].isDue clock = false := by
    refine Bool.eq_false_iff.2 fun due => ?_
    have runs := isRunnable_of_wakeSleepers wake due
    rw [idle slot] at runs
    cases runs
  obtain rfl : woken = processes := by
    cases wake.symm.trans (wakeSleepers_of_nobody_due early)
    rfl
  refine ⟨rfl, ?_⟩
  rintro ⟨slot, runs | due⟩
  · cases (idle slot).symm.trans runs
  · cases (early slot).symm.trans due

/-- What comes of idling: at each tick, the scheduler wakes whoever is due and selects somebody.  It
goes on if nobody can run and somebody has a deadline, and stops if nobody has. -/
inductive Idles (previous : Nat) :
    ProcessTable slots → Nat → Checked (ProcessTable slots × Nat × Fin slots) → Prop where
  | found {processes woken : ProcessTable slots} {clock : Nat} {hint : Hint} {next : Fin slots}
      (wake : processes.wakeSleepers clock = .ok (woken, hint))
      (selected : woken.select? previous = some next) :
      Idles previous processes clock (.ok (woken, clock, next))
  | stuck {processes woken : ProcessTable slots} {clock : Nat} {hint : Hint}
      (wake : processes.wakeSleepers clock = .ok (woken, hint))
      (nobody : woken.select? previous = none)
      (no_deadline : ∀ slot : Fin slots, woken[slot].deadline = none) :
      Idles previous processes clock (.error (.died .noRunnableProcess))
  | idle {processes woken : ProcessTable slots} {clock : Nat} {hint : Hint} {sleeper : Fin slots}
      {result : Checked (ProcessTable slots × Nat × Fin slots)}
      (wake : processes.wakeSleepers clock = .ok (woken, hint))
      (nobody : woken.select? previous = none) (asleep : woken[sleeper].deadline.isSome = true)
      (later : Idles previous woken (Clock.after clock 1) result) :
      Idles previous processes clock result

theorem earliestDeadline?_le {deadline other : Nat} {slot : Fin slots}
    (earliest : processes.earliestDeadline? = some deadline)
    (here : processes[slot].deadline = some other) : deadline ≤ other := by
  have member : other ∈ processes.toList.filterMap (·.deadline) :=
    List.mem_filterMap.2 ⟨processes[slot], by simp, here⟩
  exact (List.min?_eq_some_iff.1 earliest).2 other member

theorem wakeSleepers_of_early {deadline now : Nat}
    (earliest : processes.earliestDeadline? = some deadline) (early : now < deadline) :
    processes.wakeSleepers now = .ok (processes, .same) := by
  refine wakeSleepers_of_nobody_due fun slot => ?_
  rw [Process.isDue]
  cases here : processes[slot].deadline with
  | none => rfl
  | some other =>
      have := earliestDeadline?_le earliest here
      simp only [Option.any_some, decide_eq_false_iff_not]
      omega

/-- Idling from any earlier tick ends at the earliest deadline. -/
theorem idles_until {previous deadline : Nat} (timed : ∀ slot : Fin slots, processes[slot].Timed)
    (nobody : processes.select? previous = none)
    (earliest : processes.earliestDeadline? = some deadline) {awake : ProcessTable slots}
    {hint : Hint} (wake : processes.wakeSleepers deadline = .ok (awake, hint)) {next : Fin slots}
    (selected : awake.select? previous = some next) {now : Nat} (before : now ≤ deadline) :
    Idles previous processes now (.ok (awake, deadline, next)) := by
  obtain ⟨sleeper, here⟩ := of_earliestDeadline?_eq_some earliest
  have in_time := (timed sleeper).in_time deadline here
  -- the number of ticks that are left goes down until the sleeper is due
  obtain ⟨ticks, left⟩ : ∃ ticks, ticks + now = deadline := ⟨deadline - now, by omega⟩
  induction ticks generalizing now with
  | zero =>
      have due : now = deadline := by omega
      subst due
      exact .found wake selected
  | succ ticks induction =>
      have tick : Clock.after now 1 = now + 1 := Nat.min_eq_left (by omega)
      have early := wakeSleepers_of_early earliest (show now < deadline by omega)
      refine .idle early nobody (Option.isSome_of_eq_some here) ?_
      rw [tick]
      exact induction (by omega) (by omega)

/-- What the scheduler computes comes of idling, which therefore ends. -/
theorem idles_reschedule (timed : ∀ slot : Fin slots, processes[slot].Timed)
    (clock previous : Nat) :
    Idles previous processes clock (processes.reschedule clock previous) := by
  obtain ⟨woken, hint, wake, _⟩ := wakeSleepers_run timed clock
  cases chosen : woken.select? previous with
  | some next =>
      have run : processes.reschedule clock previous = .ok (woken, clock, next) := by
        simp only [reschedule, wake, chosen, bind, Except.bind]
        rfl
      rw [run]
      exact .found wake chosen
  | none =>
      obtain ⟨rfl, unready⟩ := unready_of_select?_eq_none wake chosen
      cases earliest : woken.earliestDeadline? with
      | none =>
          have run : woken.reschedule clock previous = .error (.died .noRunnableProcess) := by
            simp only [reschedule, wake, chosen, earliest, bind, Except.bind]
            rfl
          rw [run]
          exact .stuck wake chosen (earliestDeadline?_eq_none_iff.1 earliest)
      | some deadline =>
          obtain ⟨sleeper, here⟩ := of_earliestDeadline?_eq_some earliest
          obtain ⟨awake, _, later_wake, _⟩ := wakeSleepers_run timed deadline
          have due : woken[sleeper].isDue deadline = true := by
            rw [Process.isDue, here]
            simp
          obtain ⟨next, selected⟩ :=
            exists_select? previous (isRunnable_of_wakeSleepers later_wake due)
          have run : woken.reschedule clock previous = .ok (awake, deadline, next) := by
            simp only [reschedule, wake, chosen, earliest, later_wake, selected, bind, Except.bind]
            rfl
          rw [run]
          exact idles_until timed chosen earliest later_wake selected
            (Nat.le_of_lt (late_of_unready unready here))

/-- Idling ends with somebody who can run, having woken nobody but sleepers, or without anybody
because nobody runs or sleeps. -/
theorem Idles.outcome {previous clock : Nat}
    {result : Checked (ProcessTable slots × Nat × Fin slots)}
    (idles : Idles previous processes clock result)
    (timed : ∀ slot : Fin slots, processes[slot].Timed) :
    (∃ woken now next, result = .ok (woken, now, next) ∧ processes.RousedTo woken ∧
        woken[next].isRunnable = true) ∨
      (result = .error (.died .noRunnableProcess) ∧
        ∀ slot : Fin slots, ¬ processes[slot].WillRun) := by
  induction idles with
  | found wake selected =>
      exact .inl ⟨_, _, _, rfl, rousedTo_of_wakeSleepers timed wake, of_scan?_eq_some selected⟩
  | stuck wake nobody no_deadline =>
      obtain ⟨rfl, unready⟩ := unready_of_select?_eq_none wake nobody
      refine .inr ⟨rfl, ?_⟩
      rintro slot (runs | sleeps)
      · exact unready ⟨slot, .inl ((Process.isRunnable_iff _).2 runs)⟩
      · have asleep := (timed slot).asleep_iff.2 sleeps
        rw [no_deadline slot] at asleep
        cases asleep
  | idle wake nobody asleep later induction =>
      obtain ⟨rfl, _⟩ := unready_of_select?_eq_none wake nobody
      exact induction timed

/-- Idling wakes those whose deadline has come when it ends, and time does not run backwards. -/
theorem Idles.wakes {previous clock now : Nat} {woken : ProcessTable slots} {next : Fin slots}
    (idles : Idles previous processes clock (.ok (woken, now, next)))
    (timed : ∀ slot : Fin slots, processes[slot].Timed) :
    woken = processes.map (·.wakeIfDue now) ∧ clock ≤ now := by
  generalize ends : Except.ok (woken, now, next) = result at idles
  induction idles with
  | found wake selected =>
      cases ends
      exact ⟨(of_wakeSleepers wake).1, Nat.le_refl _⟩
  | stuck wake nobody no_deadline => cases ends
  | idle wake nobody asleep later induction =>
      obtain ⟨rfl, unready⟩ := unready_of_select?_eq_none wake nobody
      obtain ⟨deadline, here⟩ := Option.isSome_iff_exists.1 asleep
      have early := late_of_unready unready here
      have in_time := (timed _).in_time deadline here
      obtain ⟨woken_eq, ordered⟩ := induction timed ends
      -- the clock has not stopped, since a deadline is still to come
      rw [Clock.after, Word.saturatingSum, Nat.min_eq_left (by omega)] at ordered
      exact ⟨woken_eq, Nat.le_of_succ_le ordered⟩

end ProcessTable
end Microkernel
