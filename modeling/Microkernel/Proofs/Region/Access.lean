import Microkernel.Process
import Microkernel.Proofs.Memory.Extent
import Microkernel.Proofs.Partition

/-!
# Access checks do not crash and are sound

Looking at a region table can only crash where the end of a region is not a word.  On a table
without such a region the checks give an answer, and a range that they let pass lies, address by
address, in regions with the rights that were asked for.
-/

namespace Microkernel

namespace Region

/-- The addresses of a region. -/
def extent (region : Region) : Extent :=
  ⟨region.base, region.size⟩

/-- Whether the end of a region is a word. -/
def Bounded (region : Region) : Prop :=
  region.extent.stop < Word.limit

instance (region : Region) : Decidable region.Bounded :=
  inferInstanceAs (Decidable (_ < _))

theorem Bounded.stop_eq {region : Region} (bounded : region.Bounded) :
    region.stop = .ok region.extent.stop :=
  (Word.sum_eq_ok_iff _ _ _).2 ⟨bounded, rfl⟩

/-- Whether a table gives rights at an address. -/
def Allows (table : List Region) (needed : Rights) (address : Nat) : Prop :=
  ∃ region ∈ table, region.rights.includes needed = true ∧ region.extent.Covers address

instance (table : List Region) (needed : Rights) (address : Nat) :
    Decidable (Allows table needed address) :=
  inferInstanceAs (Decidable (∃ region ∈ table, _ ∧ _))

theorem cover_total (needed : Rights) (table : List Region)
    (bounded : ∀ region ∈ table, region.Bounded) (cursor stop : Nat) :
    ∃ answer, cover needed table cursor stop = .ok answer := by
  induction table generalizing cursor with
  | nil => exact ⟨false, rfl⟩
  | cons region rest induction =>
      unfold cover
      split
      · exact ⟨false, rfl⟩
      · rw [(bounded region (by simp)).stop_eq]
        simp only [bind, Except.bind]
        split
        · exact ⟨true, rfl⟩
        · exact induction (fun other member => bounded other (by simp [member])) _

theorem cover_sound {needed : Rights} {table : List Region}
    (bounded : ∀ region ∈ table, region.Bounded) {cursor stop : Nat}
    (covered : cover needed table cursor stop = .ok true) {address : Nat}
    (behind : cursor ≤ address) (before : address < stop) : Allows table needed address := by
  induction table generalizing cursor with
  | nil => simp [cover] at covered
  | cons region rest induction =>
      unfold cover at covered
      split at covered
      · simp at covered
      next reached =>
          rw [(bounded region (by simp)).stop_eq] at covered
          simp only [bind, Except.bind] at covered
          by_cases within : address < region.extent.stop
          · exact ⟨region, by simp, by simpa using (not_or.1 reached).2,
              Nat.le_trans (Nat.le_of_not_lt (not_or.1 reached).1) behind, within⟩
          · split at covered
            · omega
            · obtain ⟨other, member, rights, covers⟩ :=
                induction (fun other member => bounded other (by simp [member])) covered
                  (by omega)
              exact ⟨other, by simp [member], rights, covers⟩

theorem endsBy_eq {region : Region} (bounded : region.Bounded) (address : Nat) :
    endsBy address region = .ok (decide (region.extent.stop ≤ address)) := by
  rw [endsBy, bounded.stop_eq]
  rfl

theorem canAccess_total {table : List Region} (bounded : ∀ region ∈ table, region.Bounded)
    (span : Span) (needed : Rights) : ∃ answer, canAccess table span needed = .ok answer := by
  unfold canAccess
  split
  · exact ⟨true, rfl⟩
  · obtain ⟨first, found⟩ := Partition.point_total (endsBy span.base) table
      fun region member => ⟨_, endsBy_eq (bounded region member) _⟩
    simp only [found, bind, Except.bind]
    exact cover_total needed _ (fun region member => bounded region (List.mem_of_mem_drop member))
      _ _

theorem canAccess_sound {table : List Region} (bounded : ∀ region ∈ table, region.Bounded)
    {span : Span} {needed : Rights} (allowed : canAccess table span needed = .ok true)
    (nonempty : span.isEmpty = false) {address : Nat} (behind : span.base ≤ address)
    (before : address < span.stop) : Allows table needed address := by
  simp only [canAccess, nonempty, Bool.false_eq_true, if_false] at allowed
  obtain ⟨first, found⟩ := Partition.point_total (endsBy span.base) table
    fun region member => ⟨_, endsBy_eq (bounded region member) _⟩
  simp only [found, bind, Except.bind] at allowed
  obtain ⟨region, member, rights, covers⟩ :=
    cover_sound (fun region member => bounded region (List.mem_of_mem_drop member)) allowed
      behind before
  exact ⟨region, List.mem_of_mem_drop member, rights, covers⟩

theorem contains_eq {region : Region} (bounded : region.Bounded) (address : Nat) :
    region.contains address = .ok (decide (region.extent.Covers address)) := by
  unfold contains
  split
  next behind =>
      rw [bounded.stop_eq]
      have covers : region.extent.Covers address ↔ address < region.extent.stop :=
        and_iff_right behind
      simp [covers, bind, Except.bind, pure, Except.pure]
  next ahead =>
      have not_covers : ¬ region.extent.Covers address := fun covers => ahead covers.1
      simp [not_covers, pure, Except.pure]

/-- The readable addresses from a cursor on end at or behind the cursor, or at the limit. -/
theorem readableUpTo_total (limit : Nat) {table : List Region}
    (bounded : ∀ region ∈ table, region.Bounded) (cursor : Nat) :
    ∃ stop, readableUpTo limit table cursor = .ok stop ∧ min cursor limit ≤ stop ∧
      stop ≤ limit := by
  induction table generalizing cursor with
  | nil => exact ⟨min cursor limit, rfl, by omega, by omega⟩
  | cons region rest induction =>
      have none_more : ∃ stop, Except.ok (ε := Crash) (min cursor limit) = .ok stop ∧
          min cursor limit ≤ stop ∧ stop ≤ limit := ⟨_, rfl, by omega, by omega⟩
      unfold readableUpTo
      split
      · exact none_more
      · rw [contains_eq (bounded region (by simp))]
        simp only [bind, Except.bind]
        split
        next covered =>
            split
            · rw [(bounded region (by simp)).stop_eq]
              obtain ⟨stop, run, behind, before⟩ :=
                induction (fun other member => bounded other (by simp [member]))
                  region.extent.stop
              have reached := (of_decide_eq_true covered).2
              exact ⟨stop, run, by omega, before⟩
            · exact none_more
        next => exact none_more

/-- The readable bytes from an address on are found to end at or behind that address, so that
their number is a difference of words. -/
theorem readableExtent_total {table : List Region}
    (bounded : ∀ region ∈ table, region.Bounded) (address most : Nat)
    (word : address < Word.limit) :
    ∃ stop, readableExtent table address most = .ok (stop - address) ∧ address ≤ stop ∧
      stop ≤ Word.saturatingSum address most := by
  obtain ⟨first, found⟩ := Partition.point_total (endsBy address) table
    fun region member => ⟨_, endsBy_eq (bounded region member) _⟩
  obtain ⟨stop, run, behind, before⟩ :=
    readableUpTo_total (Word.saturatingSum address most)
      (fun region member => bounded region (List.mem_of_mem_drop (i := first) member)) address
  have limit : address ≤ Word.saturatingSum address most := by
    simp only [Word.saturatingSum, Word.largest]
    omega
  have reached : address ≤ stop := by omega
  refine ⟨stop, ?_, reached, before⟩
  simp only [readableExtent, found, run, bind, Except.bind]
  exact (Word.difference_eq_ok_iff _ _ _).2 ⟨reached, rfl⟩

/-- From a cursor up to where the readable addresses are found to end, each address is readable. -/
theorem readableUpTo_sound {limit : Nat} {table : List Region}
    (bounded : ∀ region ∈ table, region.Bounded) {cursor stop : Nat}
    (run : readableUpTo limit table cursor = .ok stop) {address : Nat} (behind : cursor ≤ address)
    (before : address < stop) : Allows table .read address := by
  induction table generalizing cursor with
  | nil =>
      cases run
      omega
  | cons region rest induction =>
      have region_bounded := bounded region List.mem_cons_self
      unfold readableUpTo at run
      split at run
      · cases run
        omega
      · rw [contains_eq region_bounded] at run
        simp only [bind, Except.bind] at run
        split at run
        next covered =>
            have reached := of_decide_eq_true covered
            split at run
            next readable =>
                rw [region_bounded.stop_eq] at run
                by_cases within : address < region.extent.stop
                · exact ⟨region, List.mem_cons_self, readable,
                    Nat.le_trans reached.1 behind, within⟩
                · obtain ⟨other, member, rights, covers⟩ :=
                    induction (fun other member => bounded other (List.mem_cons_of_mem _ member))
                      run (Nat.le_of_not_lt within)
                  exact ⟨other, List.mem_cons_of_mem _ member, rights, covers⟩
            next =>
                cases run
                omega
        next =>
            cases run
            omega

theorem readableExtent_sound {table : List Region} (bounded : ∀ region ∈ table, region.Bounded)
    {address most extent : Nat} (run : readableExtent table address most = .ok extent)
    {offset : Nat} (inside : offset < extent) : Allows table .read (address + offset) := by
  simp only [readableExtent, Checked.bind_eq_ok_iff] at run
  obtain ⟨first, _, stop, found, run⟩ := run
  obtain ⟨_, rfl⟩ := (Word.difference_eq_ok_iff _ _ _).1 run
  have within : address + offset < stop := by omega
  obtain ⟨region, member, rights, covers⟩ :=
    readableUpTo_sound (fun region member => bounded region (List.mem_of_mem_drop member)) found
      (Nat.le_add_right _ _) within
  exact ⟨region, List.mem_of_mem_drop member, rights, covers⟩

end Region
end Microkernel
