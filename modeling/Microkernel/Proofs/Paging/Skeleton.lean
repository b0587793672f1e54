import Microkernel.Proofs.Memory.Words
import Microkernel.Proofs.Paging.Leaf

/-!
# What all maps share

The tables of a map are read back entry by entry, and a walk through them is followed from level to
level.  All maps share three tables, which map the first two gigabytes onto themselves: below the
devices to normal memory, with what programs may do in each block, and from there on to devices.
-/

namespace Microkernel
namespace Paging

/-! ## Entries of the tables -/

/-- The bytes of some entries of a table that follow each other. -/
def entriesAt (table index number : Nat) : Extent :=
  ⟨table + index * 8, number * 8⟩

section Store

variable (memory : Memory) {table other index place : Nat}

theorem descriptorAt_storeFrom_of_apart {descriptors : List Descriptor}
    (apart : (entriesAt other place 1).Apart (entriesAt table index descriptors.length)) :
    descriptorAt (storeFrom memory table index descriptors) other place =
      descriptorAt memory other place := by
  have changes := Memory.changesOnly_write memory (table + index * 8)
    ((descriptors.map (·.bits)).flatMap Word.bytes)
  rw [Word.length_flatMap_bytes, List.length_map] at changes
  apply congrArg Descriptor.mk
  apply Memory.readWord_of_changesOnly changes
  intro byte small
  apply apart.not_covers
  simp only [Extent.Covers, Extent.stop, entriesAt]
  omega

theorem descriptorAt_storeFrom_self {descriptors : List Descriptor} {descriptor : Descriptor}
    (behind : index ≤ place) (found : descriptors[place - index]? = some descriptor)
    (inside : (entriesAt table place 1).stop ≤ Word.limit) :
    descriptorAt (storeFrom memory table index descriptors) table place = descriptor := by
  have stored : (descriptors.map (·.bits))[place - index]? = some descriptor.bits := by
    rw [List.getElem?_map, found]
    rfl
  simp only [Extent.stop, entriesAt] at inside
  have address : table + place * 8 = table + index * 8 + (place - index) * 8 := by omega
  apply congrArg Descriptor.mk
  rw [address]
  exact Memory.readWord_writeWords memory _ stored (by omega)

theorem store_eq_storeFrom (descriptor : Descriptor) :
    store memory table index descriptor = storeFrom memory table index [descriptor] := by
  simp [store, storeFrom, Memory.writeWord, Memory.writeWords]

theorem descriptorAt_store_of_apart {descriptor : Descriptor}
    (apart : (entriesAt other place 1).Apart (entriesAt table index 1)) :
    descriptorAt (store memory table index descriptor) other place =
      descriptorAt memory other place := by
  rw [store_eq_storeFrom]
  exact descriptorAt_storeFrom_of_apart memory apart

theorem descriptorAt_store_self {descriptor : Descriptor}
    (inside : (entriesAt table index 1).stop ≤ Word.limit) :
    descriptorAt (store memory table index descriptor) table index = descriptor := by
  have found : [descriptor][index - index]? = some descriptor := by
    rw [Nat.sub_self]
    rfl
  rw [store_eq_storeFrom]
  exact descriptorAt_storeFrom_self memory (Nat.le_refl _) found inside

end Store

theorem descriptorAt_eq_zero {memory : Memory} {table index : Nat}
    (zero : ∀ address, (entriesAt table index 1).Covers address → memory.get address = 0) :
    descriptorAt memory table index = ⟨0⟩ := by
  have bytes : memory.read (table + index * 8) 8 = List.replicate 8 0 := by
    rw [Memory.read_eq_map_get, List.eq_replicate_iff]
    refine ⟨by simp, ?_⟩
    simp only [List.mem_map, List.mem_range, forall_exists_index, and_imp]
    rintro _ offset small rfl
    apply zero
    simp only [entriesAt, Extent.Covers, Extent.stop]
    omega
  rw [descriptorAt, Memory.readWord, bytes]
  rfl

/-! ## Walks -/

section Walk

variable {memory : Memory} {table index size : Nat} {rest : List (Nat × Nat)}

theorem walk_of_nextTable {next : Nat} (found : descriptorAt memory table index = .nextTable next)
    (more : rest.isEmpty = false) (fits : Descriptor.Fits next) :
    walk memory ((index, size) :: rest) table = walk memory rest next := by
  rw [walk, found, Descriptor.nextTable_includes_valid, Descriptor.nextTable_includes_table, more,
    Descriptor.nextTable_address fits]
  rfl

theorem walk_of_leaf {leaf : Descriptor} (found : descriptorAt memory table index = leaf)
    (valid : leaf.includes .valid = true)
    (last : rest.isEmpty = true ∨ leaf.includes .table = false) :
    walk memory ((index, size) :: rest) table = some (leaf, size) := by
  have ends : (rest.isEmpty || !leaf.includes .table) = true := by
    rcases last with empty | block
    · rw [empty, Bool.true_or]
    · rw [block, Bool.not_false, Bool.or_true]
  simp only [walk, found, valid, ends, if_true]

theorem walk_of_zero (found : descriptorAt memory table index = ⟨0⟩) :
    walk memory ((index, size) :: rest) table = none := by
  have invalid : Descriptor.includes ⟨0⟩ .valid = false := by decide
  rw [walk, found, invalid]
  rfl

end Walk

theorem blockEntry_includes {place : UInt64} (outside : Descriptor.Outside place) (deviceBase : Nat)
    (access : Nat → UserAccess) (index : Nat) :
    (blockEntry deviceBase access index).includes (.bit place) =
      if index * block < deviceBase then
        (Descriptor.normalBlock 0 (access (index * block))).includes (.bit place)
      else (Descriptor.deviceBlock 0).includes (.bit place) := by
  rw [blockEntry]
  split
  · exact Descriptor.normalBlock_includes outside _ _
  · exact Descriptor.deviceBlock_includes outside _

theorem blockEntry_includes_valid (deviceBase : Nat) (access : Nat → UserAccess) (index : Nat) :
    (blockEntry deviceBase access index).includes .valid = true := by
  refine (blockEntry_includes (by decide) _ _ _).trans ?_
  split
  · cases access (index * block) <;> decide
  · decide

theorem blockEntry_includes_table (deviceBase : Nat) (access : Nat → UserAccess) (index : Nat) :
    (blockEntry deviceBase access index).includes .table = false := by
  refine (blockEntry_includes (by decide) _ _ _).trans ?_
  split
  · cases access (index * block) <;> decide
  · decide

theorem fits_page {tables number pages : Nat} (aligned : tables % Config.pageSize = 0)
    (small : page tables pages ≤ 2 ^ 48) (inMap : number < pages) :
    Descriptor.Fits (page tables number) := by
  simp only [page, Config.pageSize] at *
  constructor
  · simp only [Config.pageSize]
    omega
  · omega

/-! ## Three tables -/

/-- The tables of a map, as far as they lead to the blocks of the first gigabyte that are not split
into pages. -/
structure MapsBlocks (memory : Memory) (tables deviceBase : Nat) (access : Nat → UserAccess)
    (whole : Nat → Prop) : Prop where
  /-- The first entry of the first table points to the second table. -/
  levelZero : descriptorAt memory tables 0 = .nextTable (page tables 1)
  /-- The first entry of the second table points to the third table. -/
  levelOne : descriptorAt memory (page tables 1) 0 = .nextTable (page tables 2)
  /-- The entries of the third table for whole blocks. -/
  blocks : ∀ index < entries, whole index →
    descriptorAt memory (page tables 2) index = blockEntry deviceBase access index

/-- The first three tables of a map, which hold nothing else. -/
structure MapsSkeleton (memory : Memory) (tables deviceBase : Nat) (access : Nat → UserAccess)
    (whole : Nat → Prop) : Prop extends MapsBlocks memory tables deviceBase access whole where
  /-- The second gigabyte is a block of devices. -/
  devices : descriptorAt memory (page tables 1) 1 = .deviceBlock largeBlock
  /-- The first table has one entry. -/
  zeroZero : ∀ index < entries, index ≠ 0 → descriptorAt memory tables index = ⟨0⟩
  /-- The second table has two entries. -/
  oneZero : ∀ index < entries, 1 < index → descriptorAt memory (page tables 1) index = ⟨0⟩

theorem mapsBlocks_writeSkeleton (memory : Memory) {tables : Nat} (deviceBase : Nat)
    (access : Nat → UserAccess) (inside : page tables bootPages ≤ Word.limit) :
    MapsBlocks (writeSkeleton memory tables deviceBase access) tables deviceBase access
      fun _ => True := by
  constructor
  case levelZero =>
    rw [writeSkeleton, descriptorAt_storeFrom_of_apart, descriptorAt_store_of_apart,
      descriptorAt_store_of_apart, descriptorAt_store_self]
    all_goals
      simp only [Extent.Apart, Extent.stop, entriesAt, page, bootPages, Config.pageSize] at *
      omega
  case levelOne =>
    rw [writeSkeleton, descriptorAt_storeFrom_of_apart, descriptorAt_store_of_apart,
      descriptorAt_store_self]
    all_goals
      simp only [Extent.Apart, Extent.stop, entriesAt, page, bootPages, Config.pageSize] at *
      omega
  case blocks =>
    intro index small _
    have found : ((List.range entries).map (blockEntry deviceBase access))[index - 0]? =
        some (blockEntry deviceBase access index) := by
      rw [List.getElem?_map, Nat.sub_zero, List.getElem?_range small]
      rfl
    rw [writeSkeleton, descriptorAt_storeFrom_self _ (Nat.zero_le _) found]
    simp only [Extent.stop, entriesAt, page, bootPages, entries, Config.pageSize] at *
    omega

/-- What all maps share, written into pages that are zero, holds nothing else. -/
theorem mapsSkeleton_writeSkeleton {memory : Memory} {tables : Nat} (deviceBase : Nat)
    (access : Nat → UserAccess) (inside : page tables bootPages ≤ Word.limit)
    (zero : ∀ address, Extent.Covers ⟨tables, bootPages * Config.pageSize⟩ address →
      memory.get address = 0) :
    MapsSkeleton (writeSkeleton memory tables deviceBase access) tables deviceBase access
      fun _ => True := by
  refine ⟨mapsBlocks_writeSkeleton memory deviceBase access inside, ?_, ?_, ?_⟩
  case refine_1 =>
    rw [writeSkeleton, descriptorAt_storeFrom_of_apart, descriptorAt_store_self]
    all_goals
      simp only [Extent.Apart, Extent.stop, entriesAt, page, bootPages, Config.pageSize] at *
      omega
  case refine_2 =>
    intro index small different
    rw [writeSkeleton, descriptorAt_storeFrom_of_apart, descriptorAt_store_of_apart,
      descriptorAt_store_of_apart, descriptorAt_store_of_apart, descriptorAt_eq_zero]
    · intro address covered
      apply zero
      simp only [Extent.Covers, Extent.stop, entriesAt, bootPages, entries,
        Config.pageSize] at *
      omega
    all_goals
      simp only [Extent.Apart, Extent.stop, entriesAt, page, entries, Config.pageSize] at *
      omega
  case refine_3 =>
    intro index small later
    rw [writeSkeleton, descriptorAt_storeFrom_of_apart, descriptorAt_store_of_apart,
      descriptorAt_store_of_apart, descriptorAt_store_of_apart, descriptorAt_eq_zero]
    · intro address covered
      apply zero
      simp only [Extent.Covers, Extent.stop, entriesAt, page, bootPages, entries,
        Config.pageSize] at *
      omega
    all_goals
      simp only [Extent.Apart, Extent.stop, entriesAt, page, entries, Config.pageSize] at *
      omega

variable {memory : Memory} {tables deviceBase address : Nat} {access : Nat → UserAccess}
  {whole : Nat → Prop}

/-- For an address of the first gigabyte, a walk comes to the third table. -/
theorem MapsBlocks.lookup_eq (maps : MapsBlocks memory tables deviceBase access whole)
    (fits : ∀ number < bootPages, Descriptor.Fits (page tables number))
    (near : address < largeBlock) :
    lookup memory tables address =
      walk memory [(address / block, block), (levelThreeIndex address, Config.pageSize)]
        (page tables 2) := by
  have levelZero : levelZeroIndex address = 0 := by
    simp only [levelZeroIndex, Nat.shiftRight_eq_div_pow, entries, largeBlock] at *
    omega
  have levelOne : levelOneIndex address = 0 := by
    simp only [levelOneIndex, Nat.shiftRight_eq_div_pow, entries, largeBlock] at *
    omega
  have levelTwo : levelTwoIndex address = address / block := by
    simp only [levelTwoIndex, Nat.shiftRight_eq_div_pow, entries, largeBlock, block] at *
    omega
  rw [lookup, levelZero, levelOne, levelTwo,
    walk_of_nextTable maps.levelZero rfl (fits 1 (by decide)),
    walk_of_nextTable maps.levelOne rfl (fits 2 (by decide))]

theorem MapsBlocks.lookup_block (maps : MapsBlocks memory tables deviceBase access whole)
    (fits : ∀ number < bootPages, Descriptor.Fits (page tables number))
    (near : address < largeBlock) (unsplit : whole (address / block)) :
    lookup memory tables address =
      some (blockEntry deviceBase access (address / block), block) := by
  have small : address / block < entries := by
    simp only [entries, largeBlock, block] at *
    omega
  rw [maps.lookup_eq fits near]
  exact walk_of_leaf (maps.blocks _ small unsplit) (blockEntry_includes_valid ..)
    (.inr (blockEntry_includes_table ..))

namespace MapsSkeleton

theorem lookup_devices (maps : MapsSkeleton memory tables deviceBase access whole)
    (fits : ∀ number < bootPages, Descriptor.Fits (page tables number))
    (far : largeBlock ≤ address) (inside : address < 2 * largeBlock) :
    lookup memory tables address = some (.deviceBlock largeBlock, largeBlock) := by
  have levelZero : levelZeroIndex address = 0 := by
    simp only [levelZeroIndex, Nat.shiftRight_eq_div_pow, entries, largeBlock] at *
    omega
  have levelOne : levelOneIndex address = 1 := by
    simp only [levelOneIndex, Nat.shiftRight_eq_div_pow, entries, largeBlock] at *
    omega
  have includes (place : UInt64) (outside : Descriptor.Outside place) :=
    Descriptor.deviceBlock_includes outside largeBlock
  rw [lookup, levelZero, walk_of_nextTable maps.levelZero rfl (fits 1 (by decide)), levelOne]
  exact walk_of_leaf maps.devices ((includes 0 (by decide)).trans (by decide))
    (.inr ((includes 1 (by decide)).trans (by decide)))

theorem lookup_beyond (maps : MapsSkeleton memory tables deviceBase access whole)
    (fits : ∀ number < bootPages, Descriptor.Fits (page tables number))
    (beyond : 2 * largeBlock ≤ address) (small : address < 2 ^ 48) :
    lookup memory tables address = none := by
  rw [lookup]
  by_cases levelZero : levelZeroIndex address = 0
  case neg => exact walk_of_zero (maps.zeroZero _ (Nat.mod_lt _ (by decide)) levelZero)
  case pos =>
    have later : 1 < levelOneIndex address := by
      simp only [levelZeroIndex, levelOneIndex, Nat.shiftRight_eq_div_pow, entries,
        largeBlock] at *
      omega
    rw [levelZero, walk_of_nextTable maps.levelZero rfl (fits 1 (by decide))]
    exact walk_of_zero (maps.oneZero _ (Nat.mod_lt _ (by decide)) later)

/-- Unless its block is split into pages, every address is mapped as it is meant. -/
theorem leaf_eq (maps : MapsSkeleton memory tables deviceBase access whole)
    (fits : ∀ number < bootPages, Descriptor.Fits (page tables number))
    (small : address < 2 ^ 48) (unsplit : address < largeBlock → whole (address / block)) :
    (lookup memory tables address).map Leaf.of = wholeLeaf? deviceBase access address := by
  rw [wholeLeaf?]
  by_cases near : address < largeBlock
  case pos =>
    have base_fits : Descriptor.Fits (address / block * block) := by
      simp only [largeBlock, block] at *
      constructor
      · simp only [Config.pageSize]
        omega
      · omega
    rw [maps.lookup_block fits near (unsplit near), if_pos near, Option.map_some, blockEntry]
    split
    · rw [Leaf.of_normalBlock base_fits]
    · rw [Leaf.of_deviceBlock base_fits]
  case neg =>
    rw [if_neg near]
    by_cases inside : address < 2 * largeBlock
    case pos =>
      rw [if_pos inside, maps.lookup_devices fits (Nat.le_of_not_lt near) inside,
        Option.map_some, Leaf.of_deviceBlock ⟨by decide, by decide⟩]
    case neg =>
      rw [if_neg inside, maps.lookup_beyond fits (Nat.le_of_not_lt inside) small,
        Option.map_none]

end MapsSkeleton
end Paging
end Microkernel
