import Microkernel.Proofs.Schedule.Preference
import Mathlib.Algebra.Ring.Parity
import Mathlib.Data.Finset.Card
import Mathlib.Data.Fintype.Basic

/-!
# What a hint tells about those who were woken

Whoever wakes processes leaves a hint that speaks for those among them who are more important than
the process that caused it.  Merging hints forgets how many have been named: what is left of them
is only whether their number is odd.
-/

namespace Microkernel

namespace Hint

variable {slots : Nat}

/-- Whether a hint is one that is left for certain processes: none of them for no switch, an even
number of them for a free choice, and an odd number, one of which is named, for a named slot. -/
def Tallies (hint : Hint) (woken : Finset (Fin slots)) : Prop :=
  match hint with
  | same => woken = ∅
  | other => Even woken.card
  | specific position => Odd woken.card ∧ ∃ slot ∈ woken, slot.val = position

theorem tallies_specific (slot : Fin slots) : Tallies (.specific slot.val) {slot} :=
  ⟨by simp, slot, Finset.mem_singleton_self _, rfl⟩

/-- A merged hint is one for all whom its parts are for. -/
theorem Tallies.combine {first second : Hint} {woken later : Finset (Fin slots)}
    (before : first.Tallies woken) (after : second.Tallies later)
    (apart : Disjoint woken later) : (first.combine second).Tallies (woken ∪ later) := by
  have total := Finset.card_union_of_disjoint apart
  cases first with
  | same =>
      have nobody : woken = ∅ := before
      rw [same_combine, nobody, Finset.empty_union]
      exact after
  | other =>
      have even : Even woken.card := before
      cases second with
      | same =>
          have nobody : later = ∅ := after
          rw [combine_same, nobody, Finset.union_empty]
          exact before
      | other =>
          change Even _
          rw [total]
          exact even.add after
      | specific position =>
          obtain ⟨odd, slot, member, named⟩ := after
          refine ⟨?_, slot, Finset.mem_union_right _ member, named⟩
          rw [total]
          exact even.add_odd odd
  | specific position =>
      obtain ⟨odd, slot, member, named⟩ := before
      cases second with
      | same =>
          have nobody : later = ∅ := after
          rw [combine_same, nobody, Finset.union_empty]
          exact ⟨odd, slot, member, named⟩
      | other =>
          have even : Even later.card := after
          refine ⟨?_, slot, Finset.mem_union_left _ member, named⟩
          rw [total]
          exact odd.add_even even
      | specific other =>
          obtain ⟨later_odd, later_slot, later_member, later_named⟩ := after
          have different : position ≠ other := by
            rintro rfl
            cases Fin.ext (named.trans later_named.symm)
            exact Finset.disjoint_left.1 apart member later_member
          rw [Hint.combine, if_neg different]
          change Even _
          rw [total]
          exact odd.add_odd later_odd

end Hint

namespace ProcessTable

variable {slots : Nat}

private theorem tallies_foldl {candidates : List (Fin slots)} (distinct : candidates.Nodup)
    {hint : Hint} {woken : Finset (Fin slots)} (tallies : hint.Tallies woken)
    (others : ∀ slot ∈ candidates, slot ∉ woken) :
    (candidates.foldl (fun hint slot => hint.combine (.specific slot.val)) hint).Tallies
      (woken ∪ candidates.toFinset) := by
  induction candidates generalizing hint woken with
  | nil =>
      rw [List.toFinset_nil, Finset.union_empty]
      exact tallies
  | cons slot rest induction =>
      obtain ⟨absent, distinct⟩ := List.nodup_cons.1 distinct
      obtain ⟨other, others⟩ := List.forall_mem_cons.1 others
      have merged := tallies.combine (Hint.tallies_specific slot)
        (Finset.disjoint_singleton_right.2 other)
      rw [List.foldl_cons, List.toFinset_cons, Finset.insert_eq, ← Finset.union_assoc]
      refine induction distinct merged fun later member => ?_
      rw [Finset.mem_union, Finset.mem_singleton, not_or]
      exact ⟨others later member, fun same => absent (same ▸ member)⟩

theorem tallies_hintFor {candidates : List (Fin slots)} (distinct : candidates.Nodup) :
    (hintFor candidates).Tallies candidates.toFinset := by
  have tallies : Hint.same.Tallies (∅ : Finset (Fin slots)) := rfl
  simpa [hintFor] using tallies_foldl distinct tallies fun _ _ => Finset.notMem_empty _

theorem nodup_slotsWhere (processes : ProcessTable slots) (eligible : Process → Bool) :
    (processes.slotsWhere eligible).Nodup :=
  (List.nodup_finRange slots).filter _

/-- The slots whose processes could not run before, can run afterwards, and are more important than
a given priority. -/
def woken (before after : ProcessTable slots) (bar : Priority) : Finset (Fin slots) :=
  Finset.univ.filter fun slot => before[slot].isRunnable = false ∧
    after[slot].isRunnable = true ∧ after[slot].priority.moreImportant bar = true

/-- What waking leaves: the same priorities, no deadline that was not there, and a hint for the more
important of those who were woken. -/
structure Wakes (before after : ProcessTable slots) (bar : Priority) (hint : Hint) : Prop where
  /-- Nobody gets another priority. -/
  priority_eq : ∀ slot : Fin slots, after[slot].priority = before[slot].priority
  /-- Nobody gets another deadline. -/
  isDue : ∀ (slot : Fin slots) (now : Nat), after[slot].isDue now = true →
    before[slot].isDue now = true
  /-- The hint speaks for those who were woken. -/
  tallies : hint.Tallies (before.woken after bar)

/-- Whether everybody who could run can run afterwards. -/
def Rises (before after : ProcessTable slots) : Prop :=
  ∀ slot : Fin slots, before[slot].isRunnable = true → after[slot].isRunnable = true

/-- Whether nothing has changed that the scheduler looks at. -/
def Calm (before after : ProcessTable slots) : Prop :=
  ∀ slot : Fin slots, after[slot].state = before[slot].state ∧
    after[slot].priority = before[slot].priority ∧ after[slot].deadline = before[slot].deadline

variable {before between after : ProcessTable slots} {bar : Priority} {hint later : Hint}

theorem Rises.refl (processes : ProcessTable slots) : processes.Rises processes :=
  fun _ runs => runs

theorem Rises.trans (first : before.Rises between) (second : between.Rises after) :
    before.Rises after :=
  fun slot runs => second slot (first slot runs)

theorem mem_woken {slot : Fin slots} : slot ∈ before.woken after bar ↔
    before[slot].isRunnable = false ∧ after[slot].isRunnable = true ∧
      after[slot].priority.moreImportant bar = true := by
  simp [woken]

theorem woken_eq_empty (falls : after.Rises before) : before.woken after bar = ∅ := by
  rw [Finset.eq_empty_iff_forall_notMem]
  rintro slot member
  obtain ⟨idle, runs, _⟩ := mem_woken.1 member
  rw [falls slot runs] at idle
  cases idle

theorem wakes_of_falls
    (priority_eq : ∀ slot : Fin slots, after[slot].priority = before[slot].priority)
    (isDue : ∀ (slot : Fin slots) (now : Nat), after[slot].isDue now = true →
      before[slot].isDue now = true)
    (falls : after.Rises before) (plain : hint = .same ∨ hint = .other) :
    before.Wakes after bar hint := by
  refine ⟨priority_eq, isDue, ?_⟩
  rw [woken_eq_empty falls]
  rcases plain with rfl | rfl
  · rfl
  · exact Even.zero

/-- Those who are woken in two steps are woken in one of them. -/
theorem Wakes.trans (first : before.Wakes between bar hint) (rises : before.Rises between)
    (second : between.Wakes after bar later)
    (stays : ∀ slot : Fin slots, before[slot].isRunnable = false →
      between[slot].isRunnable = true → after[slot].isRunnable = true) :
    before.Wakes after bar (hint.combine later) where
  priority_eq slot := (second.priority_eq slot).trans (first.priority_eq slot)
  isDue slot now due := first.isDue slot now (second.isDue slot now due)
  tallies := by
    have apart : Disjoint (before.woken between bar) (between.woken after bar) := by
      refine Finset.disjoint_left.2 fun slot member member_again => ?_
      have runs := (mem_woken.1 member).2.1
      rw [(mem_woken.1 member_again).1] at runs
      cases runs
    have union : before.woken after bar =
        before.woken between bar ∪ between.woken after bar := by
      ext slot
      have same := second.priority_eq slot
      have up := rises slot
      rw [Finset.mem_union, mem_woken, mem_woken, mem_woken, same]
      cases ran : before[slot].isRunnable with
      | true => simp [up ran]
      | false =>
          cases runs : between[slot].isRunnable with
          | true => simp [stays slot ran runs]
          | false => simp
    rw [union]
    exact first.tallies.combine second.tallies apart

theorem Calm.refl (processes : ProcessTable slots) : processes.Calm processes :=
  fun _ => ⟨rfl, rfl, rfl⟩

theorem Calm.trans (first : before.Calm between) (second : between.Calm after) :
    before.Calm after := by
  intro slot
  obtain ⟨state, priority, deadline⟩ := first slot
  obtain ⟨state_again, priority_again, deadline_again⟩ := second slot
  exact ⟨state_again.trans state, priority_again.trans priority, deadline_again.trans deadline⟩

theorem calm_set (processes : ProcessTable slots) (slot : Fin slots) {process : Process}
    (state : process.state = processes[slot].state)
    (priority : process.priority = processes[slot].priority)
    (deadline : process.deadline = processes[slot].deadline) :
    processes.Calm (processes.set slot process slot.isLt) := by
  intro other
  rw [getElem_set]
  split
  next same => exact same ▸ ⟨state, priority, deadline⟩
  next => exact ⟨rfl, rfl, rfl⟩

theorem Calm.isRunnable_eq (calm : before.Calm after) (slot : Fin slots) :
    after[slot].isRunnable = before[slot].isRunnable := by
  rw [Process.isRunnable, Process.isRunnable, (calm slot).1]

theorem Calm.rises (calm : before.Calm after) : before.Rises after :=
  fun slot runs => (calm.isRunnable_eq slot).trans runs

theorem Calm.falls (calm : before.Calm after) : after.Rises before :=
  fun slot runs => (calm.isRunnable_eq slot).symm.trans runs

theorem Calm.wakes (calm : before.Calm after) (bar : Priority) : before.Wakes after bar .same := by
  refine wakes_of_falls (fun slot => (calm slot).2.1) (fun slot now due => ?_) calm.falls (.inl rfl)
  rw [Process.isDue, (calm slot).2.2] at due
  exact due

theorem Wakes.after_calm (wakes : between.Wakes after bar hint) (calm : before.Calm between) :
    before.Wakes after bar hint where
  priority_eq slot := (wakes.priority_eq slot).trans (calm slot).2.1
  isDue slot now due := (calm.wakes bar).isDue slot now (wakes.isDue slot now due)
  tallies := by
    have same : before.woken after bar = between.woken after bar := by
      ext slot
      rw [mem_woken, mem_woken, calm.isRunnable_eq]
    exact same ▸ wakes.tallies

theorem Wakes.before_calm (wakes : before.Wakes between bar hint) (calm : between.Calm after) :
    before.Wakes after bar hint where
  priority_eq slot := (calm slot).2.1.trans (wakes.priority_eq slot)
  isDue slot now due := wakes.isDue slot now ((calm.wakes bar).isDue slot now due)
  tallies := by
    have same : before.woken after bar = before.woken between bar := by
      ext slot
      rw [mem_woken, mem_woken, calm.isRunnable_eq, (calm slot).2.1]
    exact same ▸ wakes.tallies

/-- Waking those who are blocked in a way in which nobody can run. -/
theorem wakes_wake (processes : ProcessTable slots) (caller : Fin slots)
    {blocked : ProcessState → Bool}
    (idle : ∀ state, blocked state = true → state.isRunnable = false) :
    processes.Wakes (processes.wake caller blocked).1 processes[caller].priority
        (processes.wake caller blocked).2 ∧
      processes.Rises (processes.wake caller blocked).1 := by
  have runs_iff (slot : Fin slots) :
      (processes.wake caller blocked).1[slot].isRunnable =
        (blocked processes[slot].state || processes[slot].isRunnable) := by
    change (processes.map (·.wakeIf blocked) : ProcessTable slots)[slot].isRunnable = _
    rw [getElem_map, Process.isRunnable, Process.wakeIf_state, Process.isRunnable]
    cases blocked processes[slot].state <;> rfl
  have priority_eq (slot : Fin slots) :
      (processes.wake caller blocked).1[slot].priority = processes[slot].priority := by
    change (processes.map (·.wakeIf blocked) : ProcessTable slots)[slot].priority = _
    rw [getElem_map, Process.wakeIf]
    split <;> rfl
  refine ⟨⟨priority_eq, fun slot now due => ?_, ?_⟩, fun slot runs => ?_⟩
  · change (processes.map (·.wakeIf blocked) : ProcessTable slots)[slot].isDue now = true at due
    rw [getElem_map, Process.isDue, Process.wakeIf_deadline] at due
    exact due
  · have members : processes.woken (processes.wake caller blocked).1 processes[caller].priority =
        (processes.slotsWhere fun process => blocked process.state &&
          process.priority.moreImportant processes[caller].priority).toFinset := by
      ext slot
      rw [mem_woken, runs_iff, priority_eq, List.mem_toFinset, slotsWhere, List.mem_filter]
      cases asked : blocked processes[slot].state with
      | false => simp_all
      | true =>
          have not_running : processes[slot].isRunnable = false := idle _ asked
          simp [not_running]
    rw [members]
    exact tallies_hintFor (nodup_slotsWhere _ _)
  · rw [runs_iff, runs, Bool.or_true]

/-! ## Following the hint -/

theorem Wakes.le_of_same (wakes : before.Wakes after bar .same)
    (top : ∀ slot : Fin slots, before[slot].isRunnable = true →
      before[slot].priority.moreImportant bar = false) (slot : Fin slots)
    (runs : after[slot].isRunnable = true) : after[slot].priority.moreImportant bar = false := by
  have nobody : before.woken after bar = ∅ := wakes.tallies
  cases ran : before[slot].isRunnable with
  | true =>
      rw [wakes.priority_eq]
      exact top slot ran
  | false =>
      apply Bool.eq_false_iff.2
      intro more
      have member := mem_woken.2 ⟨ran, runs, more⟩
      rw [nobody] at member
      exact Finset.notMem_empty _ member

/-- If a hint names a slot, nobody who can run is more important, unless an odd number of at least
three important processes was woken. -/
theorem Wakes.tops_or_odd {position : Nat} (wakes : before.Wakes after bar (.specific position))
    (top : ∀ slot : Fin slots, before[slot].isRunnable = true →
      before[slot].priority.moreImportant bar = false) :
    ∃ slot ∈ before.woken after bar, slot.val = position ∧
      (after.Tops slot ∨ Odd (before.woken after bar).card ∧
        3 ≤ (before.woken after bar).card) := by
  obtain ⟨odd, slot, member, named⟩ := wakes.tallies
  refine ⟨slot, member, named, ?_⟩
  by_cases alone : (before.woken after bar).card = 1
  · obtain ⟨only, woken_eq⟩ := Finset.card_eq_one.1 alone
    have above := (mem_woken.1 member).2.2
    rw [woken_eq, Finset.mem_singleton] at member
    subst member
    refine .inl fun other runs => ?_
    rw [Priority.moreImportant_iff] at above
    rw [Priority.moreImportant_eq_false_iff]
    cases more : after[other].priority.moreImportant bar with
    | false =>
        rw [Priority.moreImportant_eq_false_iff] at more
        omega
    | true =>
        cases ran : before[other].isRunnable with
        | true =>
            have lower := top other ran
            rw [← wakes.priority_eq, more] at lower
            cases lower
        | false =>
            have member := mem_woken.2 ⟨ran, runs, more⟩
            rw [woken_eq, Finset.mem_singleton] at member
            rw [member]
  · rw [Nat.odd_iff] at odd
    exact .inr ⟨Nat.odd_iff.2 odd, by omega⟩

end ProcessTable
end Microkernel
