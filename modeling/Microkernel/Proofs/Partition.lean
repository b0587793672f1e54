import Microkernel.Partition

/-!
# What binary search finds

A search whose test never crashes comes to an end.  On a list whose elements with a property come
first it finds the place where they end.
-/

namespace Microkernel
namespace Partition

variable {α : Type}

private theorem narrow_total (holds : α → Checked Bool) (elements : List α)
    (answers : ∀ element ∈ elements, ∃ answer, holds element = .ok answer) (base size : Nat)
    (some_left : 0 < size) (inside : base + size ≤ elements.length) :
    ∃ position, narrow holds elements base size = .ok position ∧ position < elements.length := by
  induction size using Nat.strongRecOn generalizing base with
  | _ size induction =>
      unfold narrow
      split
      next several =>
          have present : base + size / 2 < elements.length := by omega
          obtain ⟨answer, run⟩ := answers _ (List.getElem_mem present)
          have probed : probe holds elements (base + size / 2) = .ok answer := by
            rw [probe, List.getElem?_eq_getElem present]
            exact run
          simp only [probed, bind, Except.bind]
          split
          · exact induction _ (by omega) _ (by omega) (by omega)
          · exact induction _ (by omega) _ (by omega) (by omega)
      next => exact ⟨base, rfl, by omega⟩

theorem point_total (holds : α → Checked Bool) (elements : List α)
    (answers : ∀ element ∈ elements, ∃ answer, holds element = .ok answer) :
    ∃ position, point holds elements = .ok position := by
  unfold point
  split
  next => exact ⟨0, rfl⟩
  next nonempty =>
      have some_left : 0 < elements.length := by
        rw [List.length_pos_iff]
        simpa using nonempty
      obtain ⟨base, narrowed, present⟩ :=
        narrow_total holds elements answers 0 elements.length some_left (by omega)
      obtain ⟨answer, run⟩ := answers _ (List.getElem_mem present)
      have probed : probe holds elements base = .ok answer := by
        rw [probe, List.getElem?_eq_getElem present]
        exact run
      simp only [narrowed, probed, bind, Except.bind]
      cases answer
      · exact ⟨base, rfl⟩
      · exact ⟨base + 1, rfl⟩

/-! ## Where a property ends -/

variable {holds : α → Checked Bool} {answer : α → Bool} {elements : List α}

/-- Whether the place where the elements with a property end lies among the candidates: those before
them have the property, and those behind them do not. -/
structure Narrows (answer : α → Bool) (elements : List α) (base size : Nat) : Prop where
  before : ∀ index (small : index < elements.length), index < base →
    answer elements[index] = true
  behind : ∀ index (small : index < elements.length), base + size ≤ index →
    answer elements[index] = false

theorem probe_eq (answers : ∀ element ∈ elements, holds element = .ok (answer element))
    {position : Nat} (small : position < elements.length) :
    probe holds elements position = .ok (answer elements[position]) := by
  rw [probe, List.getElem?_eq_getElem small]
  exact answers _ (List.getElem_mem small)

/-- On a list whose elements with a property come first, halving goes on until one candidate is
left. -/
theorem Narrows.narrow (answers : ∀ element ∈ elements, holds element = .ok (answer element))
    (first : elements.Pairwise fun one other => answer other = true → answer one = true)
    {base size : Nat} (some_left : 0 < size) (inside : base + size ≤ elements.length)
    (narrows : Narrows answer elements base size) :
    ∃ position, narrow holds elements base size = .ok position ∧ position < elements.length ∧
      Narrows answer elements position 1 := by
  induction size using Nat.strongRecOn generalizing base with
  | _ size induction =>
      have spreads {one other : Nat} (small : other < elements.length) (less : one < other)
          (has : answer elements[other] = true) : answer elements[one] = true :=
        List.pairwise_iff_getElem.1 first one other (by omega) small less has
      unfold Partition.narrow
      split
      next several =>
          have present : base + size / 2 < elements.length := by omega
          simp only [probe_eq answers present, bind, Except.bind]
          split
          next upper =>
              refine induction _ (by omega) (by omega) (by omega) ⟨fun index small less => ?_,
                fun index small more => narrows.behind index small (by omega)⟩
              exact spreads present less upper
          next lower =>
              refine induction _ (by omega) (by omega) (by omega)
                ⟨narrows.before, fun index small more => ?_⟩
              rw [← Bool.not_eq_true]
              intro has
              rcases Nat.lt_or_eq_of_le (show base + size / 2 ≤ index by omega) with less | rfl
              · exact lower (spreads small less has)
              · exact lower has
      next single =>
          obtain rfl : size = 1 := by omega
          exact ⟨base, rfl, by omega, narrows⟩

/-- On a list whose elements with a property come first, the search finds where they end. -/
theorem point_eq (answers : ∀ element ∈ elements, holds element = .ok (answer element))
    (first : elements.Pairwise fun one other => answer other = true → answer one = true) :
    ∃ position, point holds elements = .ok position ∧ position ≤ elements.length ∧
      (∀ element ∈ elements.take position, answer element = true) ∧
      ∀ element ∈ elements.drop position, answer element = false := by
  unfold point
  split
  next empty =>
      cases List.isEmpty_iff.1 empty
      exact ⟨0, rfl, Nat.le_refl _, by simp, by simp⟩
  next nonempty =>
      have some_left : 0 < elements.length := by
        rw [List.length_pos_iff]
        simpa using nonempty
      have all : Narrows answer elements 0 elements.length :=
        ⟨fun _ _ less => absurd less (Nat.not_lt_zero _), fun _ small more => by omega⟩
      obtain ⟨base, narrowed, present, narrows⟩ :=
        all.narrow answers first some_left (Nat.le_of_eq (Nat.zero_add _))
      rw [narrowed]
      simp only [bind, Except.bind, probe_eq answers present]
      -- the candidate that is left is on one side or the other
      cases at_base : answer elements[base] with
      | true =>
          refine ⟨base + 1, rfl, present, fun element member => ?_, fun element member => ?_⟩
          · obtain ⟨index, small, rfl⟩ := List.mem_take_iff_getElem.1 member
            rcases Nat.lt_or_eq_of_le (show index ≤ base by omega) with less | rfl
            · exact narrows.before index _ less
            · exact at_base
          · obtain ⟨index, small, rfl⟩ := List.mem_drop_iff_getElem.1 member
            exact narrows.behind _ _ (Nat.le_add_right _ _)
      | false =>
          refine ⟨base, rfl, Nat.le_of_lt present, fun element member => ?_,
            fun element member => ?_⟩
          · obtain ⟨index, small, rfl⟩ := List.mem_take_iff_getElem.1 member
            exact narrows.before index _ (by omega)
          · obtain ⟨index, small, rfl⟩ := List.mem_drop_iff_getElem.1 member
            rcases Nat.eq_zero_or_pos index with rfl | pos
            · exact at_base
            · exact narrows.behind _ _ (by omega)

end Partition
end Microkernel
