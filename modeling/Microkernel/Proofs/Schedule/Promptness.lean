import Microkernel.Proofs.Schedule.Idle
import Microkernel.Proofs.Schedule.Preference

/-!
# The scheduler waits no longer than needed

At every tick before the one at which the scheduler ends, nobody can run and nobody's deadline has
come.  It therefore ends at once or at the earliest deadline, also at the end of time, where the
clock stays.
-/

namespace Microkernel
namespace ProcessTable

variable {slots : Nat} {processes : ProcessTable slots}

/-- What the scheduler ends with when it waits no longer than needed. -/
structure Awaited (processes : ProcessTable slots) (clock : Nat) (woken : ProcessTable slots)
    (now : Nat) (next : Fin slots) : Prop where
  /-- No time passes if somebody can run at once. -/
  at_once : processes.Ready clock → now = clock
  /-- Otherwise time passes until the earliest deadline. -/
  at_deadline : ¬ processes.Ready clock →
    (∃ slot : Fin slots, processes[slot].deadline = some now) ∧
      ∀ (slot : Fin slots) (deadline : Nat), processes[slot].deadline = some deadline →
        now ≤ deadline
  /-- Those whose deadline has come were asleep and have woken. -/
  wakes : ∀ slot : Fin slots, processes[slot].isDue now = true →
    processes[slot].state = .live .sleeping ∧ woken[slot] = processes[slot].roused
  /-- All others are as they were. -/
  keeps : ∀ slot : Fin slots, processes[slot].isDue now = false → woken[slot] = processes[slot]
  runs : woken[next].isRunnable = true
  tops : woken.Tops next

/-- Idling comes to one end only. -/
theorem Idles.unique {previous clock : Nat}
    {first second : Checked (ProcessTable slots × Nat × Fin slots)}
    (one : Idles previous processes clock first) (other : Idles previous processes clock second) :
    first = second := by
  induction one with
  | found wake selected =>
      rcases other with ⟨again, chosen⟩ | ⟨again, nobody, _⟩ | ⟨again, nobody, _, _⟩ <;>
        cases wake.symm.trans again
      · cases selected.symm.trans chosen
        rfl
      · cases selected.symm.trans nobody
      · cases selected.symm.trans nobody
  | stuck wake nobody no_deadline =>
      rcases other with ⟨again, chosen⟩ | ⟨again, _, _⟩ | ⟨again, _, asleep, _⟩ <;>
        cases wake.symm.trans again
      · cases nobody.symm.trans chosen
      · rfl
      · rw [no_deadline] at asleep
        cases asleep
  | idle wake nobody asleep later induction =>
      rcases other with ⟨again, chosen⟩ | ⟨again, _, no_deadline⟩ | ⟨again, _, _, also_later⟩ <;>
        cases wake.symm.trans again
      · cases nobody.symm.trans chosen
      · rw [no_deadline] at asleep
        cases asleep
      · exact induction also_later

theorem Idles.unready_before {previous clock now : Nat} {woken : ProcessTable slots}
    {next : Fin slots} (idles : Idles previous processes clock (.ok (woken, now, next)))
    {tick : Nat} (begun : clock ≤ tick) (before : tick < now) : ¬ processes.Ready tick := by
  generalize ends : Except.ok (woken, now, next) = result at idles
  induction idles with
  | found wake selected =>
      cases ends
      omega
  | stuck wake nobody no_deadline => cases ends
  | idle wake nobody asleep later induction =>
      obtain ⟨rfl, unready⟩ := unready_of_select?_eq_none wake nobody
      rcases Nat.lt_or_eq_of_le begun with after | rfl
      · exact induction (Nat.le_trans (Nat.min_le_left _ _) after) ends
      · exact unready

theorem Idles.le_deadline {previous clock now : Nat} {woken : ProcessTable slots}
    {next : Fin slots} (idles : Idles previous processes clock (.ok (woken, now, next)))
    (unready : ¬ processes.Ready clock) {slot : Fin slots} {deadline : Nat}
    (here : processes[slot].deadline = some deadline) : now ≤ deadline := by
  have ahead := late_of_unready unready here
  exact Nat.not_lt.1 fun before =>
    idles.unready_before (Nat.le_of_lt ahead) before (ready_of_deadline here (Nat.le_refl _))

/-- The scheduler waits no longer than needed. -/
theorem awaited_of_reschedule (timed : ∀ slot : Fin slots, processes[slot].Timed)
    {clock previous now : Nat} {woken : ProcessTable slots} {next : Fin slots}
    (run : processes.reschedule clock previous = .ok (woken, now, next)) :
    processes.Awaited clock woken now next := by
  have idles : Idles previous processes clock (.ok (woken, now, next)) :=
    run ▸ idles_reschedule timed clock previous
  obtain ⟨rfl, ordered⟩ := idles.wakes timed
  obtain ⟨runs, tops⟩ := tops_of_reschedule run
  refine ⟨fun ready => ?_, fun unready => ?_, fun slot due => ?_, fun slot early => ?_, runs, tops⟩
  · refine Nat.le_antisymm (Nat.not_lt.1 fun more => ?_) ordered
    exact idles.unready_before (Nat.le_refl _) more ready
  · -- whoever runs next could not run before, so that its deadline has just come
    refine ⟨⟨next, ?_⟩, fun _ _ => idles.le_deadline unready⟩
    rw [getElem_map] at runs
    cases due : processes[next].isDue now with
    | false =>
        rw [Process.wakeIfDue_of_not_due due] at runs
        exact absurd ⟨next, .inl runs⟩ unready
    | true =>
        simp only [Process.isDue, Option.any_eq_true, decide_eq_true_eq] at due
        obtain ⟨deadline, here, passed⟩ := due
        rw [here, Nat.le_antisymm passed (idles.le_deadline unready here)]
  · refine ⟨Process.asleep_of_isDue (timed slot) due, ?_⟩
    rw [getElem_map, Process.wakeIfDue_of_due due]
    rfl
  · rw [getElem_map, Process.wakeIfDue_of_not_due early]

/-- The scheduler's wait comes to exactly one end.  If nobody runs or sleeps, the kernel stops
because there is nobody to run, and otherwise the wait is no longer than needed. -/
theorem reschedule_waits_no_longer (timed : ∀ slot : Fin slots, processes[slot].Timed)
    (clock previous : Nat) :
    (∀ result, Idles previous processes clock result ↔
        processes.reschedule clock previous = result) ∧
      ((∃ death, processes.reschedule clock previous = .error (.died death) ∧
          death.reason = "no runnable processes") ↔
        ∀ slot : Fin slots, ¬ processes[slot].WillRun) ∧
      ((∃ slot : Fin slots, processes[slot].WillRun) →
        ∃ woken now next, processes.reschedule clock previous = .ok (woken, now, next) ∧
          processes.Awaited clock woken now next) := by
  have idles := idles_reschedule timed clock previous
  refine ⟨fun result => ⟨idles.unique, fun run => run ▸ idles⟩, ?_⟩
  rcases idles.outcome timed with ⟨woken, now, next, run, roused, runs⟩ | ⟨run, none_will⟩
  · have will_run : processes[next].WillRun :=
      (roused next).willRun_iff.1 (.inl ((Process.isRunnable_iff _).1 runs))
    refine ⟨iff_of_false ?_ fun none_will => none_will next will_run, fun _ =>
      ⟨woken, now, next, run, awaited_of_reschedule timed run⟩⟩
    rintro ⟨death, died, _⟩
    cases run.symm.trans died
  · exact ⟨iff_of_true ⟨_, run, rfl⟩ none_will, fun ⟨slot, will_run⟩ =>
      absurd will_run (none_will slot)⟩

/-- Two processes that sleep until the end of time, and one that waits for a pipe. -/
def lateRisers : ProcessTable 3 :=
  let blocked (activity : Activity) (deadline : Option Nat) : Process :=
    { Process.vacant ⟨0, 0, 0, 0⟩ 0 with state := .live activity, deadline }
  #v[blocked .sleeping (some Word.largest), blocked (.readingPipe ⟨0⟩) none,
    blocked .sleeping (some Word.largest)]

/-- The wait ends at the end of time, where the clock stays. -/
theorem lateRisers_wake : (∀ slot : Fin 3, lateRisers[slot].Timed) ∧
    ¬ lateRisers.Ready (Word.largest - 3) ∧
    ∃ woken next, lateRisers.reschedule (Word.largest - 3) 7 = .ok (woken, Word.largest, next) ∧
      lateRisers.Awaited (Word.largest - 3) woken Word.largest next := by
  have deadlines : ∀ slot : Fin 3, lateRisers[slot].deadline = none ∨
      lateRisers[slot].deadline = some Word.largest := by
    decide
  have at_the_end {slot : Fin 3} {deadline : Nat}
      (here : lateRisers[slot].deadline = some deadline) : deadline = Word.largest := by
    rcases deadlines slot with none_set | set
    · cases none_set.symm.trans here
    · exact Option.some.inj (here.symm.trans set)
  have timed (slot : Fin 3) : lateRisers[slot].Timed := by
    refine ⟨?_, fun deadline here => Nat.le_of_eq (at_the_end here)⟩
    revert slot
    decide
  have unready : ¬ lateRisers.Ready (Word.largest - 3) := by
    decide
  obtain ⟨_, _, waits⟩ := reschedule_waits_no_longer timed (Word.largest - 3) 7
  obtain ⟨woken, now, next, run, awaited⟩ := waits ⟨0, .inr rfl⟩
  obtain ⟨⟨slot, here⟩, _⟩ := awaited.at_deadline unready
  obtain rfl := at_the_end here
  exact ⟨timed, unready, woken, next, run, awaited⟩

end ProcessTable
end Microkernel
