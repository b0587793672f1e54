import Microkernel.Proofs.Schedule.Wake

/-!
# Sleepers, deadlines and candidates

Somebody is chosen whenever somebody can run.  Waking changes nobody but sleepers, and from the
earliest deadline on it makes one of them runnable.
-/

namespace Microkernel

namespace Process

/-- Whether the process runs or will run without anybody's help. -/
def WillRun (process : Process) : Prop :=
  process.state = .live .runnable ∨ process.state = .live .sleeping

theorem live_of_runnable {process : Process} (runnable : process.state = .live .runnable) :
    process.state ≠ .vacant := by
  rw [runnable]
  intro impossible
  cases impossible

theorem isRunnable_iff (process : Process) :
    process.isRunnable = true ↔ process.state = .live .runnable := by
  simp [isRunnable, ProcessState.isRunnable]

/-- Whether the deadline of a slot is that of a sleeper, whom time can wake. -/
structure Timed (process : Process) : Prop where
  /-- Sleepers and no others have a deadline. -/
  asleep_iff : process.deadline.isSome ↔ process.state = .live .sleeping
  /-- The deadline comes before the end of time. -/
  in_time : ∀ deadline, process.deadline = some deadline → deadline ≤ Word.largest

theorem timed_of_awake {process : Process} (no_deadline : process.deadline = none)
    (awake : process.state ≠ .live .sleeping) : process.Timed := by
  constructor
  · rw [no_deadline]
    exact iff_of_false Bool.false_ne_true awake
  · intro deadline here
    rw [no_deadline] at here
    cases here

theorem Timed.congr {process changed : Process} (timed : process.Timed)
    (deadline_eq : changed.deadline = process.deadline) (state_eq : changed.state = process.state) :
    changed.Timed := by
  constructor
  · rw [deadline_eq, state_eq]
    exact timed.asleep_iff
  · rw [deadline_eq]
    exact timed.in_time

theorem Timed.deadline_eq_none {process : Process} (timed : process.Timed)
    (awake : process.state ≠ .live .sleeping) : process.deadline = none :=
  Option.not_isSome_iff_eq_none.1 fun asleep => awake (timed.asleep_iff.1 asleep)

theorem isDue_mono {process : Process} {first second : Nat} (ordered : first ≤ second)
    (due : process.isDue first = true) : process.isDue second = true := by
  simp only [isDue, Option.any_eq_true, decide_eq_true_eq] at due ⊢
  obtain ⟨deadline, here, early⟩ := due
  exact ⟨deadline, here, Nat.le_trans early ordered⟩

theorem wakeIfDue_wakeIfDue (process : Process) {first second : Nat} (ordered : first ≤ second) :
    (process.wakeIfDue first).wakeIfDue second = process.wakeIfDue second := by
  cases due : process.isDue first with
  | true =>
      rw [wakeIfDue_of_due due, wakeIfDue_of_due (isDue_mono ordered due)]
      exact wakeIfDue_of_not_due rfl
  | false => rw [wakeIfDue_of_not_due due]

theorem asleep_of_isDue {process : Process} (timed : process.Timed) {now : Nat}
    (due : process.isDue now = true) : process.state = .live .sleeping := by
  rw [← timed.asleep_iff]
  simp only [isDue, Option.any_eq_true] at due
  obtain ⟨deadline, here, _⟩ := due
  simp [here]

/-- The process after it was woken from its sleep. -/
def roused (process : Process) : Process :=
  { process with deadline := none, state := .live .runnable }

/-- Whether a process is the same as before, or was asleep and is awake. -/
def RousedTo (before after : Process) : Prop :=
  after = before ∨ before.state = .live .sleeping ∧ after = before.roused

theorem Timed.wakeIfDue_of_awake {process : Process} (timed : process.Timed)
    (awake : process.state ≠ .live .sleeping) (now : Nat) : process.wakeIfDue now = process :=
  wakeIfDue_of_not_due (Bool.eq_false_iff.2 fun due => awake (asleep_of_isDue timed due))

theorem rousedTo_wakeIfDue {process : Process} (timed : process.Timed) (now : Nat) :
    process.RousedTo (process.wakeIfDue now) := by
  cases due : process.isDue now with
  | true => exact .inr ⟨asleep_of_isDue timed due, wakeIfDue_of_due due⟩
  | false => exact .inl (wakeIfDue_of_not_due due)

theorem RousedTo.timed {before after : Process} (roused : before.RousedTo after)
    (timed : before.Timed) : after.Timed := by
  rcases roused with rfl | ⟨_, rfl⟩
  · exact timed
  · exact timed_of_awake rfl (by simp [Process.roused])

theorem RousedTo.willRun_iff {before after : Process} (roused : before.RousedTo after) :
    after.WillRun ↔ before.WillRun := by
  rcases roused with rfl | ⟨asleep, rfl⟩
  · rfl
  · exact iff_of_true (.inl rfl) (.inr asleep)

theorem RousedTo.vacant_iff {before after : Process} (roused : before.RousedTo after) :
    after.state = .vacant ↔ before.state = .vacant := by
  rcases roused with rfl | ⟨asleep, rfl⟩
  · rfl
  · rw [asleep]
    exact iff_of_false (by simp [Process.roused]) (by simp)

end Process

namespace Priority

theorem moreImportant_eq_false_iff (first second : Priority) :
    first.moreImportant second = false ↔ first.level ≤ second.level := by
  simp [moreImportant]

theorem moreImportant_iff (first second : Priority) :
    first.moreImportant second = true ↔ second.level < first.level := by
  simp [moreImportant]

end Priority

namespace ProcessTable

variable {slots : Nat} {processes : ProcessTable slots}

/-- Whether a candidate is more important than those before it, and no less than those behind it. -/
def Leads (processes : ProcessTable slots) (candidates : List (Fin slots))
    (choice : Fin slots) : Prop :=
  ∃ before after, candidates = before ++ choice :: after ∧
    (∀ candidate ∈ before,
      processes[candidate].priority.level < processes[choice].priority.level) ∧
    ∀ candidate ∈ after, processes[candidate].priority.level ≤ processes[choice].priority.level

theorem Leads.mem {candidates : List (Fin slots)} {choice : Fin slots}
    (leads : processes.Leads candidates choice) : choice ∈ candidates := by
  obtain ⟨before, after, rfl, _⟩ := leads
  exact List.mem_append_right _ List.mem_cons_self

theorem Leads.le {candidates : List (Fin slots)} {choice : Fin slots}
    (leads : processes.Leads candidates choice) {candidate : Fin slots}
    (member : candidate ∈ candidates) :
    processes[candidate].priority.level ≤ processes[choice].priority.level := by
  obtain ⟨before, after, rfl, less, le⟩ := leads
  rcases List.mem_append.1 member with earlier | here
  · exact Nat.le_of_lt (less candidate earlier)
  · rcases List.mem_cons.1 here with rfl | later
    · exact Nat.le_refl _
    · exact le candidate later

/-- Whoever is left after each comparison leads. -/
private theorem leads_foldl_better (processes : ProcessTable slots)
    (candidates : List (Fin slots)) (first : Fin slots) :
    ∃ choice, candidates.foldl processes.better (some first) = some choice ∧
      processes.Leads (first :: candidates) choice := by
  induction candidates generalizing first with
  | nil => exact ⟨first, rfl, [], [], rfl, by simp, by simp⟩
  | cons candidate rest induction =>
      rw [List.foldl_cons, better]
      split
      next more =>
          -- the new candidate takes over, and everything so far is less important
          rw [Priority.moreImportant_iff] at more
          obtain ⟨choice, found, leads⟩ := induction candidate
          have reaches := leads.le List.mem_cons_self
          obtain ⟨before, after, shape, less, le⟩ := leads
          refine ⟨choice, found, first :: before, after, by rw [shape, List.cons_append], ?_, le⟩
          exact List.forall_mem_cons.2 ⟨by omega, less⟩
      next no_more =>
          rw [Bool.not_eq_true, Priority.moreImportant_eq_false_iff] at no_more
          obtain ⟨choice, found, before, after, shape, less, le⟩ := induction first
          cases before with
          | nil =>
              cases shape
              exact ⟨first, found, [], candidate :: rest, rfl, by simp,
                List.forall_mem_cons.2 ⟨no_more, le⟩⟩
          | cons other before =>
              cases shape
              obtain ⟨first_less, less⟩ := List.forall_mem_cons.1 less
              refine ⟨choice, found, first :: candidate :: before, after, rfl, ?_, le⟩
              exact List.forall_mem_cons.2
                ⟨first_less, List.forall_mem_cons.2 ⟨by omega, less⟩⟩

theorem mem_turns (previous : Nat) (slot : Fin slots) : slot ∈ turns slots previous := by
  rw [turns, List.mem_append, Or.comm, ← List.mem_append, List.take_append_drop]
  exact List.mem_finRange slot

/-- Those with a property, in the order of their turns after `previous`. -/
def candidates (processes : ProcessTable slots) (previous : Nat) (eligible : Process → Bool) :
    List (Fin slots) :=
  (turns slots previous).filter fun slot => eligible processes[slot]

theorem mem_candidates {previous : Nat} {eligible : Process → Bool} {slot : Fin slots} :
    slot ∈ processes.candidates previous eligible ↔ eligible processes[slot] = true := by
  rw [candidates, List.mem_filter]
  exact and_iff_right (mem_turns previous slot)

/-- Whoever is chosen leads the candidates, and nobody is chosen only if there are none. -/
theorem scan?_cases (processes : ProcessTable slots) (previous : Nat)
    (eligible : Process → Bool) :
    (processes.scan? previous eligible = none ∧ processes.candidates previous eligible = []) ∨
      ∃ choice, processes.scan? previous eligible = some choice ∧
        processes.Leads (processes.candidates previous eligible) choice := by
  rw [scan?, ← candidates]
  cases processes.candidates previous eligible with
  | nil => exact .inl ⟨rfl, rfl⟩
  | cons first rest => exact .inr (leads_foldl_better processes rest first)

theorem leads_of_scan? {previous : Nat} {eligible : Process → Bool} {choice : Fin slots}
    (found : processes.scan? previous eligible = some choice) :
    processes.Leads (processes.candidates previous eligible) choice := by
  rcases processes.scan?_cases previous eligible with ⟨nobody, _⟩ | ⟨other, chosen, leads⟩
  · rw [nobody] at found
    cases found
  · rw [chosen] at found
    cases found
    exact leads

theorem of_scan?_eq_some {previous : Nat} {eligible : Process → Bool} {choice : Fin slots}
    (found : processes.scan? previous eligible = some choice) :
    eligible processes[choice] = true :=
  mem_candidates.1 (leads_of_scan? found).mem

theorem scan?_eq_none_iff {previous : Nat} {eligible : Process → Bool} :
    processes.scan? previous eligible = none ↔
      ∀ slot : Fin slots, eligible processes[slot] = false := by
  rcases processes.scan?_cases previous eligible with ⟨nobody, empty⟩ | ⟨choice, chosen, leads⟩
  · refine iff_of_true nobody fun slot => Bool.eq_false_iff.2 fun candidate => ?_
    have member : slot ∈ processes.candidates previous eligible := mem_candidates.2 candidate
    rw [empty] at member
    cases member
  · refine iff_of_false (by simp [chosen]) fun none_eligible => ?_
    have candidate := of_scan?_eq_some chosen
    rw [none_eligible choice] at candidate
    cases candidate

theorem exists_select? (previous : Nat) {slot : Fin slots}
    (runs : processes[slot].isRunnable = true) :
    ∃ choice, processes.select? previous = some choice := by
  cases chosen : processes.select? previous with
  | some choice => exact ⟨choice, rfl⟩
  | none =>
      have idle := scan?_eq_none_iff.1 chosen slot
      rw [runs] at idle
      cases idle

theorem of_earliestDeadline?_eq_some {deadline : Nat}
    (found : processes.earliestDeadline? = some deadline) :
    ∃ slot : Fin slots, processes[slot].deadline = some deadline := by
  have member := List.min?_mem found
  rw [List.mem_filterMap] at member
  obtain ⟨process, inside, here⟩ := member
  rw [Vector.mem_toList_iff, Vector.mem_iff_getElem] at inside
  obtain ⟨slot, small, rfl⟩ := inside
  exact ⟨⟨slot, small⟩, here⟩

theorem earliestDeadline?_eq_none_iff :
    processes.earliestDeadline? = none ↔
      ∀ slot : Fin slots, processes[slot].deadline = none := by
  rw [earliestDeadline?, List.min?_eq_none_iff, List.filterMap_eq_nil_iff]
  constructor
  · intro none_left slot
    exact none_left _ (by simp)
  · intro none_left process member
    rw [Vector.mem_toList_iff, Vector.mem_iff_getElem] at member
    obtain ⟨slot, small, rfl⟩ := member
    exact none_left ⟨slot, small⟩

/-- Whether a table differs from an earlier one by sleepers that were woken. -/
def RousedTo (before after : ProcessTable slots) : Prop :=
  ∀ slot : Fin slots, before[slot].RousedTo after[slot]

theorem rousedTo_map_wakeIfDue (timed : ∀ slot : Fin slots, processes[slot].Timed) (now : Nat) :
    processes.RousedTo (processes.map (·.wakeIfDue now)) := by
  intro slot
  rw [getElem_map]
  exact Process.rousedTo_wakeIfDue (timed slot) now

theorem wakeSleepers_run (timed : ∀ slot : Fin slots, processes[slot].Timed) (now : Nat) :
    ∃ (woken : ProcessTable slots) (hint : Hint),
      processes.wakeSleepers now = .ok (woken, hint) ∧ hint.Within slots ∧
        processes.RousedTo woken := by
  refine ⟨_, _, wakeSleepers_eq (fun slot vacant => ?_) now, within_hintFor _,
    rousedTo_map_wakeIfDue timed now⟩
  exact (timed slot).deadline_eq_none (by simp [vacant])

theorem of_wakeSleepers {now : Nat} {woken : ProcessTable slots} {hint : Hint}
    (wake : processes.wakeSleepers now = .ok (woken, hint)) :
    woken = processes.map (·.wakeIfDue now) ∧
      hint = hintFor (processes.slotsWhere (·.isDue now)) := by
  rw [wakeSleepers, Checked.bind_eq_ok_iff] at wake
  obtain ⟨_, _, wake⟩ := wake
  cases wake
  exact ⟨rfl, rfl⟩

theorem isRunnable_of_wakeSleepers {now : Nat} {woken : ProcessTable slots} {hint : Hint}
    (wake : processes.wakeSleepers now = .ok (woken, hint)) {sleeper : Fin slots}
    (due : processes[sleeper].isDue now = true) : woken[sleeper].isRunnable = true := by
  rw [(of_wakeSleepers wake).1, getElem_map, Process.wakeIfDue_of_due due]
  rfl

theorem wakeSleepers_of_nobody_due {now : Nat}
    (early : ∀ slot : Fin slots, processes[slot].isDue now = false) :
    processes.wakeSleepers now = .ok (processes, .same) := by
  have checked :
      processes.all (fun process => !(process.isDue now && process.isVacant)) = true := by
    rw [Vector.all_eq_true]
    intro slot small
    have not_due := early ⟨slot, small⟩
    rw [getElem_position] at not_due
    rw [not_due]
    rfl
  have unchanged : processes.map (·.wakeIfDue now) = processes := by
    apply eq_of_getElem
    intro slot
    rw [getElem_map, Process.wakeIfDue_of_not_due (early slot)]
  have nobody : processes.slotsWhere (·.isDue now) = [] := by
    rw [slotsWhere, List.filter_eq_nil_iff]
    intro slot _
    simp [early slot]
  simp only [wakeSleepers, require, checked, unchanged, nobody, if_true, bind, Except.bind]
  rfl

theorem map_wakeIfDue_map_wakeIfDue (processes : ProcessTable slots) {first second : Nat}
    (ordered : first ≤ second) :
    (processes.map (·.wakeIfDue first)).map (·.wakeIfDue second) =
      processes.map (·.wakeIfDue second) := by
  apply eq_of_getElem
  intro slot
  rw [getElem_map, getElem_map, getElem_map, Process.wakeIfDue_wakeIfDue _ ordered]

theorem rousedTo_of_wakeSleepers (timed : ∀ slot : Fin slots, processes[slot].Timed) {now : Nat}
    {woken : ProcessTable slots} {hint : Hint}
    (wake : processes.wakeSleepers now = .ok (woken, hint)) : processes.RousedTo woken := by
  rw [(of_wakeSleepers wake).1]
  exact rousedTo_map_wakeIfDue timed now

end ProcessTable
end Microkernel
