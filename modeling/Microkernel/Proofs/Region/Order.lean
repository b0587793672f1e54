import Microkernel.Proofs.Region.Access

/-!
# Region tables in order

A table is in order if each region begins behind all that stand before it.  Granting a region that
is clear of the table succeeds and keeps the order, and so does resizing a region as long as it
stays clear of the others.
-/

namespace Microkernel
namespace Region

/-- Whether one of two regions lies before the other, and they begin at different addresses. -/
def Clear (first second : Region) : Prop :=
  (first.base < second.base ∧ first.extent.stop ≤ second.base) ∨
    (second.base < first.base ∧ second.extent.stop ≤ first.base)

/-- Whether each region of a table lies before those behind it. -/
def Ordered (table : List Region) : Prop :=
  table.Pairwise fun first second =>
    first.base < second.base ∧ first.extent.stop ≤ second.base

/-- Whether the regions of a table stand in the order of their bases. -/
def SortedByBase (table : List Region) : Prop :=
  table.Pairwise fun first second => first.base ≤ second.base

theorem Ordered.sortedByBase {table : List Region} (ordered : Ordered table) :
    SortedByBase table :=
  ordered.imp fun before => Nat.le_of_lt before.1

theorem Clear.symm {first second : Region} (clear : first.Clear second) : second.Clear first :=
  Or.symm clear

theorem Clear.base_ne {first second : Region} (clear : first.Clear second) :
    first.base ≠ second.base := by
  rcases clear with before | before <;> omega

theorem Clear.apart {first second : Region} (clear : first.Clear second) :
    first.extent.Apart second.extent :=
  clear.imp And.right And.right

/-- Regions overlap unless one of them ends before the other begins.  So an empty region overlaps
those that it stands inside of. -/
theorem overlaps_eq {first second : Region} (first_bounded : first.Bounded)
    (second_bounded : second.Bounded) :
    first.overlaps second = .ok (decide ¬ first.extent.Apart second.extent) := by
  have apart_iff : first.extent.Apart second.extent ↔
      ¬ (first.base < second.extent.stop ∧ second.base < first.extent.stop) := by
    simp only [Extent.Apart, extent, Extent.stop]
    omega
  rw [overlaps, second_bounded.stop_eq, first_bounded.stop_eq]
  simp only [bind, Except.bind, pure, Except.pure, apart_iff, Classical.not_not]
  split
  next before => simp [before]
  next behind => simp [behind]

/-- Whether a table is kept as the checks expect it.  A region without an address lies apart from
whatever it does not stand inside of, so that alone would not keep two regions from beginning at the
same address. -/
structure Spaced (table : List Region) : Prop where
  /-- The regions stand in the order of their bases. -/
  sorted : table.Pairwise fun first second => first.base ≤ second.base
  /-- No region runs into another. -/
  apart : table.Pairwise fun first second => first.extent.Apart second.extent
  /-- No other region begins where an empty one does. -/
  alone : table.Pairwise fun first second =>
    first.size = 0 ∨ second.size = 0 → first.base ≠ second.base
  /-- The regions end inside the address space. -/
  bounded : ∀ region ∈ table, region.Bounded

theorem Spaced.ordered {table : List Region} (spaced : Spaced table) : Ordered table := by
  refine ((spaced.sorted.and spaced.apart).and spaced.alone).imp ?_
  rintro first second ⟨⟨sorted, apart⟩, alone⟩
  simp only [Extent.Apart, Extent.stop, extent] at apart ⊢
  rcases Nat.eq_zero_or_pos first.size with empty | some_address
  · have distinct := alone (.inl empty)
    omega
  · rcases Nat.eq_zero_or_pos second.size with empty | _
    · have distinct := alone (.inr empty)
      omega
    · omega

theorem Ordered.spaced {table : List Region} (ordered : Ordered table)
    (bounded : ∀ region ∈ table, region.Bounded) : Spaced table where
  sorted := ordered.imp fun before => Nat.le_of_lt before.1
  apart := ordered.imp fun before => .inl before.2
  alone := ordered.imp fun before _ => Nat.ne_of_lt before.1
  bounded := bounded

theorem Ordered.pairwise_clear {table : List Region} (ordered : Ordered table) :
    table.Pairwise Clear :=
  List.Pairwise.imp (fun before => Or.inl before) ordered

theorem ordered_of_sorted {table : List Region} (sorted : (table.map base).Pairwise (· < ·))
    (clear : table.Pairwise Clear) : Ordered table := by
  rw [List.pairwise_map] at sorted
  refine List.Pairwise.imp ?_ (sorted.and clear)
  rintro first second ⟨before, apart | apart⟩
  · exact apart
  · omega

theorem Ordered.sorted {table : List Region} (ordered : Ordered table) :
    (table.map base).Pairwise (· < ·) :=
  List.pairwise_map.2 (List.Pairwise.imp And.left ordered)

/-! ## Granting -/

/-- A table with a region put in front of those that begin at or after it. -/
def insertByBase (table : List Region) (region : Region) : List Region :=
  table.takeWhile (fun other => other.base < region.base) ++
    region :: table.dropWhile (fun other => other.base < region.base)

theorem insertByBase_append {before behind : List Region} {region : Region}
    (early : ∀ other ∈ before, other.base < region.base)
    (late : ∀ other ∈ behind, region.base ≤ other.base) :
    insertByBase (before ++ behind) region = before ++ region :: behind := by
  have early' : ∀ other ∈ before, decide (other.base < region.base) = true :=
    fun other member => decide_eq_true (early other member)
  rw [insertByBase, List.takeWhile_append_of_pos early', List.dropWhile_append_of_pos early']
  cases behind with
  | nil => simp
  | cons first rest =>
      have not_before : ¬ first.base < region.base := Nat.not_lt.2 (late first List.mem_cons_self)
      simp [not_before]

theorem insertIdx_append (before behind : List Region) (region : Region) :
    (before ++ behind).insertIdx before.length region = before ++ region :: behind := by
  induction before with
  | nil => rfl
  | cons first rest induction =>
      rw [List.cons_append, List.length_cons, List.insertIdx_succ_cons, induction, List.cons_append]

/-- In a table that stands in the order of the bases, the binary search leads behind the regions
that begin before the new one. -/
theorem SortedByBase.point_eq {table : List Region} (sorted : SortedByBase table)
    (region : Region) :
    ∃ before behind, table = before ++ behind ∧
      Partition.point (beginsBefore region.base) table = .ok before.length ∧
      (∀ other ∈ before, other.base < region.base) ∧
      ∀ other ∈ behind, region.base ≤ other.base := by
  have first : table.Pairwise fun one other => decide (other.base < region.base) = true →
      decide (one.base < region.base) = true :=
    sorted.imp fun le less => decide_eq_true (Nat.lt_of_le_of_lt le (of_decide_eq_true less))
  have answers : ∀ other ∈ table,
      beginsBefore region.base other = .ok (decide (other.base < region.base)) := fun _ _ => rfl
  obtain ⟨place, found, inside, early, late⟩ := Partition.point_eq answers first
  refine ⟨table.take place, table.drop place, (List.take_append_drop place table).symm, ?_,
    fun other member => of_decide_eq_true (early other member),
    fun other member => Nat.le_of_not_lt (of_decide_eq_false (late other member))⟩
  rw [found, List.length_take_of_le inside]

theorem insertByBase_perm (table : List Region) (region : Region) :
    (insertByBase table region).Perm (region :: table) := by
  rw [insertByBase]
  refine List.perm_middle.trans (.cons _ ?_)
  rw [List.takeWhile_append_dropWhile]

theorem SortedByBase.insertByBase_eq {table : List Region} (sorted : SortedByBase table)
    (region : Region) :
    ∃ before behind, table = before ++ behind ∧
      insertByBase table region = before ++ region :: behind ∧
      (∀ other ∈ before, other.base < region.base) ∧
      ∀ other ∈ behind, region.base ≤ other.base := by
  obtain ⟨before, behind, rfl, _, early, late⟩ := sorted.point_eq region
  exact ⟨before, behind, rfl, insertByBase_append early late, early, late⟩

/-- A relation holds in order throughout a table with one more region if it did so before and the
new region stands in it to those on either side. -/
theorem pairwise_insert_iff {related : Region → Region → Prop} {before behind : List Region}
    {region : Region} :
    (before ++ region :: behind).Pairwise related ↔
      (before ++ behind).Pairwise related ∧ (∀ other ∈ before, related other region) ∧
        ∀ other ∈ behind, related region other := by
  simp only [List.pairwise_append, List.pairwise_cons, List.forall_mem_cons]
  constructor
  · rintro ⟨first, ⟨ahead, second⟩, across⟩
    exact ⟨⟨first, second, fun other member => (across other member).2⟩,
      fun other member => (across other member).1, ahead⟩
  · rintro ⟨⟨first, second, across⟩, early, ahead⟩
    exact ⟨first, ⟨ahead, second⟩, fun other member => ⟨early other member, across other member⟩⟩

/-- A region that is clear of an ordered table is put where it belongs. -/
theorem Ordered.insertByBase {table : List Region} (ordered : Ordered table) {region : Region}
    (clear : ∀ other ∈ table, other.Clear region) : Ordered (Region.insertByBase table region) := by
  obtain ⟨before, behind, rfl, inserted, early, late⟩ :=
    ordered.sortedByBase.insertByBase_eq region
  rw [inserted]
  apply pairwise_insert_iff.2
  constructor
  case left => exact ordered
  case right =>
    constructor
    case left =>
      intro other member
      have apart := clear other (List.mem_append_left behind member)
      have begins := early other member
      rcases apart with lies_before | lies_behind
      · exact lies_before
      · omega
    case right =>
      intro other member
      have apart := clear other (List.mem_append_right before member)
      have begins := late other member
      rcases apart with lies_before | lies_behind
      · omega
      · exact lies_behind

theorem anyM_overlaps_eq {table : List Region} {region : Region} (bounded : region.Bounded)
    (table_bounded : ∀ other ∈ table, other.Bounded) :
    table.anyM (·.overlaps region) =
      .ok (decide (∃ other ∈ table, ¬ other.extent.Apart region.extent)) := by
  induction table with
  | nil => rfl
  | cons first rest induction =>
      obtain ⟨first_bounded, rest_bounded⟩ := List.forall_mem_cons.1 table_bounded
      rw [List.anyM, overlaps_eq first_bounded bounded]
      by_cases apart : first.extent.Apart region.extent
      case pos => simpa [apart, bind, Except.bind] using induction rest_bounded
      case neg => simp [apart, bind, Except.bind, pure, Except.pure]

/-- Whether a table has no place for a region, because it overlaps one of its own regions or
because there are as many as can be. -/
def Conflicts (table : List Region) (region : Region) : Prop :=
  (∃ other ∈ table, ¬ other.extent.Apart region.extent) ∨ Config.maxRegions ≤ table.length

instance (table : List Region) (region : Region) : Decidable (Conflicts table region) :=
  inferInstanceAs (Decidable (_ ∨ _))

/-- A table in the order of the bases takes in a region that does not conflict with it. -/
theorem SortedByBase.grant?_eq {table : List Region} {region : Region}
    (sorted : SortedByBase table) (bounded : region.Bounded)
    (table_bounded : ∀ other ∈ table, other.Bounded) :
    grant? table region =
      .ok (if Conflicts table region then none else some (insertByBase table region)) := by
  obtain ⟨before, behind, table_eq, found, early, late⟩ := sorted.point_eq region
  have inserted : table.insertIdx before.length region = insertByBase table region := by
    rw [table_eq, insertIdx_append, insertByBase_append early late]
  rw [grant?, anyM_overlaps_eq bounded table_bounded, found]
  simp only [bind, Except.bind, pure, Except.pure, inserted]
  by_cases overlaps : ∃ other ∈ table, ¬ other.extent.Apart region.extent
  case pos =>
    have conflicts : Conflicts table region := .inl overlaps
    rw [if_pos conflicts, if_pos (decide_eq_true overlaps)]
  case neg =>
    rw [if_neg (by simpa using overlaps)]
    by_cases full : Config.maxRegions ≤ table.length
    case pos =>
      have conflicts : Conflicts table region := .inr full
      rw [if_pos conflicts, if_neg (Nat.not_lt.2 full)]
    case neg =>
      have fits : ¬ Conflicts table region := not_or.2 ⟨overlaps, full⟩
      rw [if_neg fits, if_pos (Nat.lt_of_not_le full)]

theorem Ordered.grant?_eq {table : List Region} {region : Region} (ordered : Ordered table)
    (bounded : region.Bounded) (table_bounded : ∀ other ∈ table, other.Bounded)
    (clear : ∀ other ∈ table, other.Clear region) (room : table.length < Config.maxRegions) :
    grant? table region = .ok (some (Region.insertByBase table region)) := by
  have fits : ¬ Conflicts table region := by
    rintro (⟨other, member, overlaps⟩ | full)
    · exact overlaps (clear other member).apart
    · exact Nat.not_lt.2 full room
  rw [ordered.sortedByBase.grant?_eq bounded table_bounded, if_neg fits]

/-- Regions that are clear of one another and of the table are all granted, in any order. -/
theorem grantAll_eq {regions table : List Region} (ordered : Ordered table)
    (bounded : ∀ region ∈ regions ++ table, region.Bounded)
    (clear : (regions ++ table).Pairwise Clear)
    (room : regions.length + table.length ≤ Config.maxRegions) :
    ∃ larger, grantAll table regions = .ok (larger, true) ∧ Ordered larger ∧
      larger.Perm (regions ++ table) := by
  induction regions generalizing table with
  | nil => exact ⟨table, rfl, ordered, .refl _⟩
  | cons region rest induction =>
      obtain ⟨region_clear, rest_clear⟩ := List.pairwise_cons.1 clear
      have clear_of_table : ∀ other ∈ table, other.Clear region :=
        fun other member => (region_clear other (by simp [member])).symm
      have granted := ordered.grant?_eq (bounded region (by simp))
        (fun other member => bounded other (by simp [member])) clear_of_table
        (by simp only [List.length_cons] at room; omega)
      have moved : (rest ++ insertByBase table region).Perm (region :: (rest ++ table)) :=
        ((insertByBase_perm table region).append_left rest).trans List.perm_middle
      obtain ⟨larger, run, larger_ordered, perm⟩ := induction (ordered.insertByBase clear_of_table)
        (fun other member => bounded other (by simpa using moved.mem_iff.1 member))
        ((moved.pairwise_iff fun apart => apart.symm).2 (by simpa using clear))
        (by
          have := (insertByBase_perm table region).length_eq
          simp only [List.length_cons] at *
          omega)
      refine ⟨larger, ?_, larger_ordered, perm.trans moved⟩
      rw [grantAll, granted]
      exact run

theorem grantAll_grant?_eq {regions : List Region} {last : Region}
    (bounded : ∀ region ∈ last :: regions, region.Bounded)
    (clear : (last :: regions).Pairwise Clear)
    (room : (last :: regions).length ≤ Config.maxRegions) :
    ∃ granted, grantAll [] regions = .ok (granted, true) ∧
      grant? granted last = .ok (some (insertByBase granted last)) ∧
      Ordered (insertByBase granted last) ∧
      (insertByBase granted last).Perm (last :: regions) := by
  obtain ⟨last_bounded, rest_bounded⟩ := List.forall_mem_cons.1 bounded
  obtain ⟨last_clear, rest_clear⟩ := List.pairwise_cons.1 clear
  obtain ⟨granted, run, ordered, perm⟩ := grantAll_eq .nil
    (by rwa [List.append_nil]) (by rwa [List.append_nil]) (Nat.le_of_succ_le room)
  rw [List.append_nil] at perm
  have clear_of_last : ∀ other ∈ granted, other.Clear last :=
    fun other member => (last_clear other (perm.mem_iff.1 member)).symm
  refine ⟨granted, run, ?_, ordered.insertByBase clear_of_last,
    (insertByBase_perm _ _).trans (perm.cons _)⟩
  exact ordered.grant?_eq last_bounded
    (fun other member => rest_bounded other (perm.mem_iff.1 member)) clear_of_last
    (perm.length_eq ▸ room)

/-! ## Resizing -/

theorem resize_eq_map (base size : Nat) {table : List Region}
    (distinct : (table.map Region.base).Pairwise (· ≠ ·)) :
    resize base size table =
      table.map fun region => if region.base = base then { region with size } else region := by
  induction table with
  | nil => rfl
  | cons first rest induction =>
      simp only [List.map_cons, List.pairwise_cons, List.mem_map, forall_exists_index, and_imp,
        forall_apply_eq_imp_iff₂] at distinct
      simp only [resize, List.map_cons]
      split
      next same =>
          subst same
          congr 1
          symm
          rw [List.map_congr_left (g := id), List.map_id]
          intro other member
          simp [Ne.symm (distinct.1 other member)]
      next => rw [induction distinct.2]

/-- In an ordered table a region is resized where it stands, and no other begins where it does. -/
theorem Ordered.resize_eq {before behind : List Region} {region : Region}
    (ordered : Ordered (before ++ region :: behind)) (size : Nat) :
    Region.resize region.base size (before ++ region :: behind) =
        before ++ { region with size } :: behind ∧
      ∀ other ∈ before ++ behind, other.base ≠ region.base := by
  have distinct : ∀ other ∈ before ++ behind, other.base ≠ region.base := by
    obtain ⟨_, rest, before_rest⟩ := List.pairwise_append.1 ordered
    rw [List.forall_mem_append]
    refine ⟨fun other member => ?_, fun other member => ?_⟩
    · exact Nat.ne_of_lt (before_rest other member region List.mem_cons_self).1
    · exact Nat.ne_of_gt ((List.pairwise_cons.1 rest).1 other member).1
  refine ⟨?_, distinct⟩
  clear ordered
  induction before with
  | nil => rw [List.nil_append, resize, if_pos rfl, List.nil_append]
  | cons first others induction =>
      obtain ⟨first_ne, others_ne⟩ := List.forall_mem_cons.1 distinct
      rw [List.cons_append, resize, if_neg first_ne, induction others_ne, List.cons_append]

/-- A region can be resized as long as it stays clear of the others. -/
theorem Ordered.resize {table others : List Region} (ordered : Ordered table) {region : Region}
    (perm : table.Perm (region :: others)) (size : Nat)
    (clear : ∀ other ∈ others, other.Clear { region with size }) :
    Ordered (resize region.base size table) ∧
      (resize region.base size table).Perm ({ region with size } :: others) := by
  have distinct : (table.map Region.base).Pairwise (· ≠ ·) :=
    List.Pairwise.imp (fun before => Nat.ne_of_lt before) ordered.sorted
  have others_clear := (perm.pairwise_iff fun apart => apart.symm).1 ordered.pairwise_clear
  obtain ⟨region_clear, others_clear⟩ := List.pairwise_cons.1 others_clear
  have resized : (Region.resize region.base size table).Perm ({ region with size } :: others) := by
    rw [resize_eq_map _ _ distinct]
    refine (perm.map _).trans ?_
    rw [List.map_cons, if_pos rfl]
    refine .cons _ (List.Perm.of_eq ?_)
    rw [List.map_congr_left (g := id), List.map_id]
    intro other member
    simp [(region_clear other member).symm.base_ne]
  refine ⟨ordered_of_sorted ?_ ?_, resized⟩
  · have same_bases : (Region.resize region.base size table).map Region.base =
        table.map Region.base := by
      rw [resize_eq_map _ _ distinct, List.map_map]
      refine List.map_congr_left fun other _ => ?_
      simp only [Function.comp]
      split <;> rfl
    rw [same_bases]
    exact ordered.sorted
  · rw [resized.pairwise_iff fun apart => apart.symm]
    exact List.pairwise_cons.2 ⟨fun other member => (clear other member).symm, others_clear⟩

end Region
end Microkernel
