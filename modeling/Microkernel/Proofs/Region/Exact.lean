import Microkernel.Proofs.Region.Order

/-!
# Access checks are exact

On a table that is in order, the binary search finds the first region that ends behind an address,
and walking on from there meets every region that matters.  A range therefore passes exactly if the
table gives the rights at each of its addresses.
-/

namespace Microkernel

namespace Region

variable {table : List Region} {needed : Rights}

/-- Regions in order that give the rights at each address of a range cover it, if none of them lies
before the range. -/
theorem cover_complete (bounded : ∀ region ∈ table, region.Bounded) (ordered : Ordered table)
    {cursor stop : Nat} (some_address : cursor < stop)
    (none_before : ∀ region ∈ table, cursor ≤ region.base ∨ cursor < region.extent.stop)
    (allows : ∀ address, cursor ≤ address → address < stop → Allows table needed address) :
    cover needed table cursor stop = .ok true := by
  induction table generalizing cursor with
  | nil =>
      obtain ⟨region, member, _⟩ := allows cursor (Nat.le_refl _) some_address
      cases member
  | cons region rest induction =>
      obtain ⟨lies_before, rest_ordered⟩ := List.pairwise_cons.1 ordered
      -- the first address can only lie in the first region
      obtain ⟨found, member, rights, covers⟩ := allows cursor (Nat.le_refl _) some_address
      have first : found = region := by
        rcases List.mem_cons.1 member with same | later
        · exact same
        · have before := lies_before found later
          have reached := covers.1
          simp only [extent] at reached
          rcases none_before region List.mem_cons_self with behind | inside <;> omega
      subst first
      have passes : ¬ (cursor < found.base ∨ found.rights.includes needed = false) := by
        rw [rights]
        exact fun fails => fails.elim (Nat.not_lt_of_le covers.1) (by simp)
      rw [cover, if_neg passes, (bounded found List.mem_cons_self).stop_eq]
      simp only [bind, Except.bind]
      split
      · rfl
      next further =>
          refine induction (fun other member => bounded other (List.mem_cons_of_mem _ member))
            rest_ordered (Nat.lt_of_not_le further)
            (fun other member => .inl (lies_before other member).2) fun address behind before => ?_
          have reached := Nat.le_trans (Nat.le_of_lt covers.2) behind
          obtain ⟨other, member, rights, there⟩ := allows address reached before
          rcases List.mem_cons.1 member with rfl | later
          · exact absurd there.2 (Nat.not_lt_of_le behind)
          · exact ⟨other, later, rights, there⟩

theorem Ordered.ends_first (ordered : Ordered table) (address : Nat) :
    table.Pairwise fun one other => decide (other.extent.stop ≤ address) = true →
      decide (one.extent.stop ≤ address) = true := by
  refine ordered.imp fun {one other} lies_before ends => decide_eq_true ?_
  calc one.extent.stop
      ≤ other.base := lies_before.2
    _ ≤ other.extent.stop := Nat.le_add_right _ _
    _ ≤ address := of_decide_eq_true ends

/-- Regions that end by an address can be left out when a later one is asked about. -/
theorem Allows.drop {position start address : Nat}
    (before : ∀ region ∈ table.take position, region.extent.stop ≤ start)
    (behind : start ≤ address) (allows : Allows table needed address) :
    Allows (table.drop position) needed address := by
  obtain ⟨region, member, rights, covers⟩ := allows
  rw [← List.take_append_drop position table] at member
  rcases List.mem_append.1 member with earlier | later
  · exact absurd covers.2 (Nat.not_lt_of_le (Nat.le_trans (before region earlier) behind))
  · exact ⟨region, later, rights, covers⟩

/-- A range may be touched if the table gives the needed rights at each of its addresses. -/
theorem canAccess_complete (bounded : ∀ region ∈ table, region.Bounded) (ordered : Ordered table)
    {span : Span} (proper : span.isEmpty = false → span.base < span.stop)
    (allows : ∀ address, span.base ≤ address → address < span.stop →
      Allows table needed address) : canAccess table span needed = .ok true := by
  rw [canAccess]
  split
  · rfl
  next nonempty =>
      have some_address := proper (Bool.eq_false_iff.2 nonempty)
      obtain ⟨position, found, _, before, behind⟩ := Partition.point_eq
        (fun region member => endsBy_eq (bounded region member) span.base)
        (ordered.ends_first span.base)
      rw [found]
      simp only [bind, Except.bind]
      refine cover_complete (fun region member => bounded region (List.mem_of_mem_drop member))
        (ordered.sublist (List.drop_sublist _ _)) some_address
        (fun region member => .inr ?_) fun address reached left => ?_
      · exact Nat.lt_of_not_le (of_decide_eq_false (behind region member))
      · exact (allows address reached left).drop
          (fun region member => of_decide_eq_true (before region member)) reached

/-- A range may be touched exactly if it has no address or the table gives the needed rights at each
of them. -/
theorem canAccess_iff (bounded : ∀ region ∈ table, region.Bounded) (ordered : Ordered table)
    {span : Span} (proper : span.isEmpty = false → span.base < span.stop) :
    canAccess table span needed = .ok true ↔ span.isEmpty = true ∨
      ∀ address, span.base ≤ address → address < span.stop → Allows table needed address := by
  constructor
  · intro passed
    cases empty : span.isEmpty with
    | true => exact .inl rfl
    | false => exact .inr fun address => canAccess_sound bounded passed empty
  · rintro (empty | allows)
    · rw [canAccess, empty]
      rfl
    · exact canAccess_complete bounded ordered proper allows

/-! ## How far the readable bytes go -/

theorem not_covers_of_stop_le {region : Region} {address : Nat}
    (ends : region.extent.stop ≤ address) : ¬ region.extent.Covers address :=
  fun covers => absurd covers.2 (Nat.not_lt_of_le ends)

theorem not_covers_of_lt_base {region : Region} {address : Nat} (ahead : address < region.base) :
    ¬ region.extent.Covers address :=
  fun covers => absurd covers.1 (Nat.not_le_of_lt ahead)

theorem not_allows_cons {region : Region} {rest : List Region} {address : Nat}
    (first : region.rights.includes needed = true → ¬ region.extent.Covers address)
    (others : ∀ other ∈ rest, ¬ other.extent.Covers address) :
    ¬ Allows (region :: rest) needed address := by
  rintro ⟨found, member, rights, covers⟩
  rcases List.mem_cons.1 member with rfl | later
  · exact first rights covers
  · exact others found later covers

/-- Regions in order are followed up to the first address that cannot be read, or to the limit, if
none of them lies before the cursor. -/
theorem readableUpTo_stops {limit : Nat} (bounded : ∀ region ∈ table, region.Bounded)
    (ordered : Ordered table) {cursor stop : Nat}
    (none_before : ∀ region ∈ table, cursor ≤ region.base ∨ cursor < region.extent.stop)
    (run : readableUpTo limit table cursor = .ok stop) (short : stop < limit) :
    ¬ Allows table .read stop := by
  induction table generalizing cursor with
  | nil => exact fun allows => List.not_mem_nil allows.choose_spec.1
  | cons region rest induction =>
      obtain ⟨lies_before, rest_ordered⟩ := List.pairwise_cons.1 ordered
      have region_bounded := bounded region List.mem_cons_self
      have rest_bounded : ∀ other ∈ rest, other.Bounded :=
        fun other member => bounded other (List.mem_cons_of_mem _ member)
      unfold readableUpTo at run
      split at run
      next reached =>
          cases run
          exact absurd short (by omega)
      next before_limit =>
          have here : min cursor limit = cursor := Nat.min_eq_left (by omega)
          rw [contains_eq region_bounded] at run
          simp only [bind, Except.bind, here] at run
          split at run
          next covered =>
              have covers := of_decide_eq_true covered
              split at run
              next readable =>
                  -- the walk goes on behind the region, so it stops behind it
                  rw [region_bounded.stop_eq] at run
                  change readableUpTo limit rest region.extent.stop = .ok stop at run
                  obtain ⟨found, again, behind, _⟩ :=
                    readableUpTo_total limit rest_bounded region.extent.stop
                  rw [run] at again
                  cases again
                  rintro ⟨other, member, rights, there⟩
                  rcases List.mem_cons.1 member with rfl | later
                  · exact not_covers_of_stop_le (by omega) there
                  · exact induction rest_bounded rest_ordered
                      (fun other member => .inl (lies_before other member).2) run
                      ⟨other, later, rights, there⟩
              next unreadable =>
                  cases run
                  refine not_allows_cons (fun rights => absurd rights unreadable)
                    fun other member => not_covers_of_lt_base ?_
                  exact Nat.lt_of_lt_of_le covers.2 (lies_before other member).2
          next uncovered =>
              cases run
              have misses : ¬ region.extent.Covers stop := by simpa using uncovered
              refine not_allows_cons (fun _ => misses) fun other member => not_covers_of_lt_base ?_
              refine Nat.lt_of_le_of_lt (Nat.le_of_not_lt fun inside => misses ⟨?_, ?_⟩)
                (lies_before other member).1
              · exact Nat.le_of_lt inside
              · rcases none_before region List.mem_cons_self with ahead | within
                · omega
                · exact within

theorem not_allows_largest (bounded : ∀ region ∈ table, region.Bounded) :
    ¬ Allows table needed Word.largest := by
  rintro ⟨region, member, _, covers⟩
  have ends := bounded region member
  have behind := covers.2
  simp only [Bounded, Word.largest] at ends behind
  omega

/-- Where the readable bytes from an address on have been counted up to, the next one cannot be
read, unless no more were asked for. -/
theorem readableExtent_stops (bounded : ∀ region ∈ table, region.Bounded) (ordered : Ordered table)
    {address most extent : Nat}
    (counted : readableExtent table address most = .ok extent) (short : extent < most) :
    ¬ Allows table .read (address + extent) := by
  obtain ⟨position, found, _, before, behind⟩ := Partition.point_eq
    (fun region member => endsBy_eq (bounded region member) address)
    (ordered.ends_first address)
  have rest_bounded : ∀ region ∈ table.drop position, region.Bounded :=
    fun region member => bounded region (List.mem_of_mem_drop member)
  simp only [readableExtent, found, Checked.bind_eq_ok_iff, Except.ok.injEq] at counted
  obtain ⟨_, rfl, stop, run, counted⟩ := counted
  obtain ⟨reached, rfl⟩ := (Word.difference_eq_ok_iff _ _ _).1 counted
  obtain ⟨_, again, _, stop_le⟩ :=
    readableUpTo_total (Word.saturatingSum address most) rest_bounded address
  cases run.symm.trans again
  rw [Nat.add_sub_cancel' reached]
  rcases Nat.lt_or_eq_of_le stop_le with early | late
  · intro allows
    refine readableUpTo_stops rest_bounded (ordered.sublist (List.drop_sublist _ _))
      (fun region member => .inr ?_) run early (allows.drop
        (fun region member => of_decide_eq_true (before region member)) reached)
    exact Nat.lt_of_not_le (of_decide_eq_false (behind region member))
  · -- the limit is short of what was asked for only at the end of the address space
    have limit_eq : Word.saturatingSum address most = min (address + most) Word.largest := rfl
    obtain rfl : stop = Word.largest := by omega
    exact not_allows_largest bounded

theorem readableExtent_exact (bounded : ∀ region ∈ table, region.Bounded) (ordered : Ordered table)
    {address : Nat} (most : Nat) (word : address < Word.limit) :
    ∃ extent, readableExtent table address most = .ok extent ∧
      ∀ number ≤ most, number ≤ extent ↔
        ∀ offset < number, Allows table .read (address + offset) := by
  obtain ⟨stop, counted, _⟩ := readableExtent_total bounded address most word
  refine ⟨_, counted, fun number few => ⟨fun within offset small => ?_, fun readable => ?_⟩⟩
  · exact readableExtent_sound bounded counted (Nat.lt_of_lt_of_le small within)
  · refine Nat.le_of_not_lt fun beyond => ?_
    exact readableExtent_stops bounded ordered counted (by omega) (readable _ beyond)

end Region
end Microkernel
