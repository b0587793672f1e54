import Microkernel.Proofs.Region.Order

/-!
# What a sequence of grants keeps

Grants keep the regions of a table apart and in the order of their bases.  The access checks rely on
more: no region may end behind the beginning of one that follows it, for the binary search goes by
the ends.  A region that begins where an empty one does is apart from it and is put in front of it,
and then the empty region, which comes later, ends before it does.  This is the only way in which a
grant can break the order of the ends.
-/

namespace Microkernel
namespace Region

variable {table before behind : List Region} {region other : Region}

/-- Whether a table is kept as grants keep it. -/
structure Kept (table : List Region) : Prop where
  /-- The regions stand in the order of their bases. -/
  sorted : SortedByBase table
  /-- No region runs into another. -/
  apart : table.Pairwise fun first second => first.extent.Apart second.extent
  /-- The regions end inside the address space. -/
  bounded : ∀ region ∈ table, region.Bounded
  /-- There are not too many regions. -/
  few : table.length ≤ Config.maxRegions

/-- Whether each region of a table ends where the next ones begin, or before. -/
def Successive (table : List Region) : Prop :=
  table.Pairwise fun first second => first.extent.stop ≤ second.base

instance (table : List Region) : Decidable (Successive table) :=
  inferInstanceAs (Decidable (List.Pairwise _ _))

theorem Successive.stop_le (successive : Successive table) :
    table.Pairwise fun first second => first.extent.stop ≤ second.extent.stop :=
  successive.imp fun ends => Nat.le_trans ends (Nat.le_add_right _ _)

/-- Whether a region with addresses begins where an empty region of a table does. -/
def Buries (table : List Region) (region : Region) : Prop :=
  0 < region.size ∧ ∃ other ∈ table, other.size = 0 ∧ other.base = region.base

instance (table : List Region) (region : Region) : Decidable (Buries table region) :=
  inferInstanceAs (Decidable (_ ∧ _))

/-! ## One grant -/

theorem apart_of_not_conflicts (fits : ¬ Conflicts table region) :
    ∀ other ∈ table, other.extent.Apart region.extent :=
  fun other member => Classical.not_not.1 fun overlaps => fits (.inl ⟨other, member, overlaps⟩)

theorem Kept.insertByBase (kept : Kept table) (bounded : region.Bounded)
    (fits : ¬ Conflicts table region) : Kept (Region.insertByBase table region) := by
  obtain ⟨before, behind, rfl, inserted, early, late⟩ := kept.sorted.insertByBase_eq region
  have perm := insertByBase_perm (before ++ behind) region
  have apart := apart_of_not_conflicts fits
  constructor
  case sorted =>
    rw [inserted]
    exact pairwise_insert_iff.2
      ⟨kept.sorted, fun other member => Nat.le_of_lt (early other member), late⟩
  case apart =>
    rw [perm.pairwise_iff Extent.Apart.symm]
    exact List.pairwise_cons.2 ⟨fun other member => (apart other member).symm, kept.apart⟩
  case bounded =>
    intro other member
    rcases List.mem_cons.1 (perm.mem_iff.1 member) with rfl | old
    · exact bounded
    · exact kept.bounded other old
  case few =>
    rw [perm.length_eq]
    exact Nat.lt_of_not_le fun full => fits (.inr full)

theorem stop_le_of_apart (early : other.base < region.base)
    (apart : other.extent.Apart region.extent) : other.extent.stop ≤ region.base := by
  simp only [Extent.Apart, extent, Extent.stop] at apart ⊢
  omega

/-- A region ends where others begin that are apart from it and do not begin before it, or earlier,
unless one of them is empty and hides at its beginning. -/
theorem stop_le_iff_not_buries
    (apart : ∀ other ∈ before ++ behind, other.extent.Apart region.extent)
    (early : ∀ other ∈ before, other.base < region.base)
    (late : ∀ other ∈ behind, region.base ≤ other.base) :
    (∀ other ∈ behind, region.extent.stop ≤ other.base) ↔ ¬ Buries (before ++ behind) region := by
  constructor
  · rintro ends ⟨some_address, other, member, empty, same⟩
    rcases List.mem_append.1 member with mem_before | mem_behind
    · exact absurd same (Nat.ne_of_lt (early other mem_before))
    · have ends_first := ends other mem_behind
      simp only [extent, Extent.stop] at ends_first
      omega
  · intro not_buries other member
    have other_mem := List.mem_append_right before member
    have other_apart := apart other other_mem
    have other_late := late other member
    have proper : ¬ (0 < region.size ∧ other.size = 0 ∧ other.base = region.base) := by
      rintro ⟨some_address, hides⟩
      exact not_buries ⟨some_address, other, other_mem, hides⟩
    simp only [Extent.Apart, extent, Extent.stop] at other_apart ⊢
    omega

/-- Putting a region into a table leaves each region ending before the next ones begin exactly if
this was so and the region does not come in front of an empty one at the same place. -/
theorem SortedByBase.successive_insertByBase (sorted : SortedByBase table)
    (fits : ¬ Conflicts table region) :
    Successive (Region.insertByBase table region) ↔
      Successive table ∧ ¬ Buries table region := by
  obtain ⟨before, behind, rfl, inserted, early, late⟩ := sorted.insertByBase_eq region
  have apart := apart_of_not_conflicts fits
  have ends_early : ∀ other ∈ before, other.extent.stop ≤ region.base := fun other member =>
    stop_le_of_apart (early other member) (apart other (List.mem_append_left behind member))
  rw [inserted, ← stop_le_iff_not_buries apart early late]
  exact pairwise_insert_iff.trans (and_congr_right fun _ => and_iff_right ends_early)

/-! ## Grants in turn -/

/-- Whether one of several regions, tried in turn, is put in front of an empty one at the same
place. -/
def EverBuries : (table regions : List Region) → Prop
  | _, [] => False
  | table, region :: rest =>
      if Conflicts table region then EverBuries table rest
      else Buries table region ∨ EverBuries (insertByBase table region) rest

instance decidableEverBuries : ∀ table regions : List Region, Decidable (EverBuries table regions)
  | _, [] => inferInstanceAs (Decidable False)
  | table, region :: rest =>
      have := decidableEverBuries table rest
      have := decidableEverBuries (insertByBase table region) rest
      inferInstanceAs (Decidable (if Conflicts table region then EverBuries table rest
        else Buries table region ∨ EverBuries (insertByBase table region) rest))

theorem grantEach_append (table first rest : List Region) :
    grantEach table (first ++ rest) = do
      let (reached, answers) ← grantEach table first
      let (last, more) ← grantEach reached rest
      return (last, answers ++ more) := by
  induction first generalizing table with
  | nil =>
      change _ = grantEach table rest >>= pure
      rw [bind_pure]
      rfl
  | cons region others induction =>
      simp only [List.cons_append, Region.grantEach, induction, bind_assoc, pure_bind]

theorem Kept.grantEach_cons (kept : Kept table) (bounded : region.Bounded) (rest : List Region) :
    grantEach table (region :: rest) =
      if Conflicts table region then do
        let (last, answers) ← grantEach table rest
        return (last, false :: answers)
      else do
        let (last, answers) ← grantEach (Region.insertByBase table region) rest
        return (last, true :: answers) := by
  rw [Region.grantEach, kept.sorted.grant?_eq bounded kept.bounded]
  by_cases conflicts : Conflicts table region
  case pos =>
    rw [if_pos conflicts, if_pos conflicts]
    rfl
  case neg =>
    rw [if_neg conflicts, if_neg conflicts]
    rfl

/-- Grants in turn come to an end, and the regions of the table that they leave follow one another
exactly if they did so before and none of the grants buried an empty region. -/
theorem Kept.grantEach (kept : Kept table) {regions : List Region}
    (bounded : ∀ region ∈ regions, region.Bounded) :
    ∃ after answers, Region.grantEach table regions = .ok (after, answers) ∧ Kept after ∧
      (Successive after ↔ Successive table ∧ ¬ EverBuries table regions) := by
  induction regions generalizing table with
  | nil => exact ⟨table, [], rfl, kept, by simp [EverBuries]⟩
  | cons region rest induction =>
      obtain ⟨region_bounded, rest_bounded⟩ := List.forall_mem_cons.1 bounded
      rw [kept.grantEach_cons region_bounded, EverBuries]
      by_cases conflicts : Conflicts table region
      case pos =>
        obtain ⟨after, answers, run, kept_after, successive_iff⟩ := induction kept rest_bounded
        rw [if_pos conflicts, if_pos conflicts, run]
        exact ⟨after, _, rfl, kept_after, successive_iff⟩
      case neg =>
        obtain ⟨after, answers, run, kept_after, successive_iff⟩ :=
          induction (kept.insertByBase region_bounded conflicts) rest_bounded
        rw [if_neg conflicts, if_neg conflicts, run]
        refine ⟨after, _, rfl, kept_after, ?_⟩
        rw [successive_iff, kept.sorted.successive_insertByBase conflicts, not_or, and_assoc]

/-- Regions that are tried in turn are put into the table one by one.  The table stays in the order
of the bases and its regions stay apart; they follow one another, each ending where the next ones
begin or before, exactly if they did so at first and no region was put in front of an empty one at
the same place.  Whatever was tried so far, a region that conflicts with the table leaves it as it
is, and another one is added to it and nothing else changes. -/
theorem grants_add_regions (kept : Kept table) (regions : List Region)
    (bounded : ∀ region ∈ regions, region.Bounded) :
    ∃ after answers, grantEach table regions = .ok (after, answers) ∧ Kept after ∧
      (Successive after ↔ Successive table ∧ ¬ EverBuries table regions) ∧
      ∀ region, region.Bounded →
        if Conflicts after region then
          grantEach table (regions ++ [region]) = .ok (after, answers ++ [false])
        else
          ∃ before behind, after = before ++ behind ∧
            grantEach table (regions ++ [region]) =
              .ok (before ++ region :: behind, answers ++ [true]) := by
  obtain ⟨after, answers, run, kept_after, successive_iff⟩ := kept.grantEach bounded
  refine ⟨after, answers, run, kept_after, successive_iff, fun region region_bounded => ?_⟩
  have once_more {last : List Region} {answer : Bool}
      (tried : grantEach after [region] = .ok (last, [answer])) :
      grantEach table (regions ++ [region]) = .ok (last, answers ++ [answer]) := by
    simp only [grantEach_append, run, tried, bind, Except.bind, pure, Except.pure]
  by_cases conflicts : Conflicts after region
  case pos =>
    rw [if_pos conflicts]
    apply once_more
    rw [kept_after.grantEach_cons region_bounded, if_pos conflicts]
    rfl
  case neg =>
    rw [if_neg conflicts]
    obtain ⟨before, behind, parts, inserted, _⟩ := kept_after.sorted.insertByBase_eq region
    refine ⟨before, behind, parts, once_more ?_⟩
    rw [kept_after.grantEach_cons region_bounded, if_neg conflicts, inserted]
    rfl

theorem kept_nil : Kept [] :=
  ⟨.nil, .nil, nofun, Nat.zero_le _⟩

/-- A stack is granted in front of a program image, and an empty heap between the two, where it
buries nothing and is not buried.  A region that runs from the stack into the heap is not
granted. -/
theorem grants_add_regions_around_heap :
    let image : Region := ⟨0x3000, 0x2000, .read⟩
    let stack : Region := ⟨0x1000, 0x1000, .readWrite⟩
    let heap : Region := ⟨0x2000, 0, .readWrite⟩
    let inside : Region := ⟨0x1800, 0x1000, .read⟩
    (∀ region ∈ [image, stack, heap], region.Bounded) ∧
      ¬ EverBuries [] [image, stack, heap] ∧
      grantEach [] [image, stack, heap] = .ok ([stack, heap, image], [true, true, true]) ∧
      Kept [stack, heap, image] ∧ Successive [stack, heap, image] ∧
      grantEach [] [image, stack, heap, inside] =
        .ok ([stack, heap, image], [true, true, true, false]) := by
  intro image stack heap inside
  have bounded : ∀ region ∈ [image, stack, heap], region.Bounded := by decide
  have proper : ¬ EverBuries [] [image, stack, heap] := by decide
  have run : grantEach [] [image, stack, heap] =
      .ok ([stack, heap, image], [true, true, true]) := by cbv
  obtain ⟨after, answers, found, kept, successive_iff, one_more⟩ :=
    grants_add_regions kept_nil [image, stack, heap] bounded
  have rejected := one_more inside (by decide)
  cases run.symm.trans found
  have conflicts : Conflicts [stack, heap, image] inside := by decide
  rw [if_pos conflicts] at rejected
  exact ⟨bounded, proper, run, kept, successive_iff.2 ⟨.nil, proper⟩, rejected⟩

/-- A region that is granted where an empty one begins is put in front of it, so that the ends of
the two stand in the wrong order.  The binary search of the access check passes over both, and the
owner of the new region may not touch it. -/
theorem not_successive_of_buried_heap :
    let heap : Region := ⟨0x1000, 0, .readWrite⟩
    let data : Region := ⟨0x1000, 0x1000, .readWrite⟩
    (∀ region ∈ [heap, data], region.Bounded) ∧
      grantEach [] [heap, data] = .ok ([data, heap], [true, true]) ∧
      ¬ Successive [data, heap] ∧
      ¬ [data, heap].Pairwise (fun first second => first.extent.stop ≤ second.extent.stop) ∧
      Allows [data, heap] .read 0x1000 ∧
      canAccess [data, heap] ⟨0x1000, 0x1001, false⟩ .read = .ok false := by
  intro heap data
  have run : grantEach [] [heap, data] = .ok ([data, heap], [true, true]) := by cbv
  have unsorted : ¬ [data, heap].Pairwise
      (fun first second => first.extent.stop ≤ second.extent.stop) := by decide
  have not_successive : ¬ Successive [data, heap] :=
    fun successive => unsorted successive.stop_le
  have refused : canAccess [data, heap] ⟨0x1000, 0x1001, false⟩ .read = .ok false := by cbv
  exact ⟨by decide, run, not_successive, unsorted, by decide, refused⟩

end Region
end Microkernel
