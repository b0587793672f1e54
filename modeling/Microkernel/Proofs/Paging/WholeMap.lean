import Microkernel.Proofs.Memory.Agreement
import Microkernel.Proofs.Paging.ProcessMap

/-!
# All that the map of a process maps

The pages of a map are zero before it is written, so it has no entries but those that are meant: the
first gigabyte, which `MapsProcess` describes, and a block of devices behind it.  Whatever a program
can reach lies in the argument page or below the devices.
-/

namespace Microkernel
namespace Paging

/-- The tables of a map of a process, which hold nothing else. -/
structure MapsOnly (memory : Memory) (tables deviceBase argumentPage : Nat)
    (access : Nat → UserAccess) : Prop
    extends MapsProcess memory tables deviceBase argumentPage access where
  /-- The second gigabyte is a block of devices. -/
  devices : descriptorAt memory (page tables 1) 1 = .deviceBlock largeBlock
  /-- The first table has one entry. -/
  zeroZero : ∀ index < entries, index ≠ 0 → descriptorAt memory tables index = ⟨0⟩
  /-- The second table has two entries. -/
  oneZero : ∀ index < entries, 1 < index → descriptorAt memory (page tables 1) index = ⟨0⟩

/-- The map of a process that is written into pages that are zero holds nothing else. -/
theorem mapsOnly_writeProcessMap {memory : Memory} {tables : Nat} (deviceBase argumentPage : Nat)
    (access : Nat → UserAccess) (inside : page tables processPages ≤ Word.limit)
    (zero : ∀ address, (mapExtent tables).Covers address → memory.get address = 0) :
    MapsOnly (writeProcessMap memory tables deviceBase argumentPage access) tables deviceBase
      argumentPage access := by
  have windowIndex : levelTwoIndex Config.argumentAddress = 8 := by decide
  have skeleton := mapsSkeleton_writeSkeleton deviceBase access
    (Nat.le_trans (Nat.add_le_add_left (by decide) tables) inside)
    fun address covered => zero address ⟨covered.1, Nat.lt_of_lt_of_le covered.2 (by
      simp only [Extent.stop, mapExtent, bootPages, processPages]
      omega)⟩
  -- the third and the fourth table, which alone are written further, are no part of the rest
  have unwritten {table index : Nat} (small : index < entries)
      (earlier : table = tables ∨ table = page tables 1) :
      descriptorAt (writeProcessMap memory tables deviceBase argumentPage access) table index =
        descriptorAt (writeSkeleton memory tables deviceBase access) table index := by
    rw [writeProcessMap, descriptorAt_storeFrom_of_apart, descriptorAt_store_of_apart]
    all_goals
      simp only [Extent.Apart, Extent.stop, entriesAt, page, entries, Config.pageSize] at *
      omega
  constructor
  case toMapsProcess =>
      exact mapsProcess_writeProcessMap memory deviceBase argumentPage access inside
  case devices => exact (unwritten (by decide) (.inr rfl)).trans skeleton.devices
  case zeroZero =>
    intro index small different
    exact (unwritten small (.inl rfl)).trans (skeleton.zeroZero index small different)
  case oneZero =>
    intro index small later
    exact (unwritten small (.inr rfl)).trans (skeleton.oneZero index small later)

theorem MapsOnly.skeleton {memory : Memory} {tables deviceBase argumentPage : Nat}
    {access : Nat → UserAccess} (maps : MapsOnly memory tables deviceBase argumentPage access) :
    MapsSkeleton memory tables deviceBase access
      (· ≠ levelTwoIndex Config.argumentAddress) where
  toMapsBlocks := maps.mapsBlocks
  devices := maps.devices
  zeroZero := maps.zeroZero
  oneZero := maps.oneZero

theorem descriptorAt_of_agree {memory later : Memory} {tables number index : Nat}
    (agree : later.AgreeOn memory (mapExtent tables).Covers) (inMap : number < processPages)
    (small : index < entries) :
    descriptorAt later (page tables number) index =
      descriptorAt memory (page tables number) index := by
  refine congrArg Descriptor.mk (agree.readWord_eq fun offset inside => ?_)
  simp only [Extent.Covers, Extent.stop, mapExtent, page, processPages, entries,
    Config.pageSize] at *
  omega

/-- A map stays as it is as long as its pages do. -/
theorem MapsOnly.of_agree {memory later : Memory} {tables deviceBase argumentPage : Nat}
    {access : Nat → UserAccess} (maps : MapsOnly memory tables deviceBase argumentPage access)
    (agree : later.AgreeOn memory (mapExtent tables).Covers) :
    MapsOnly later tables deviceBase argumentPage access := by
  have same {number index : Nat} (inMap : number < processPages) (small : index < entries) :=
    descriptorAt_of_agree agree inMap small
  have first {index : Nat} (small : index < entries) :
      descriptorAt later tables index = descriptorAt memory tables index := by
    have zero : page tables 0 = tables := by simp [page]
    rw [← zero]
    exact same (by decide) small
  constructor
  case toMapsProcess =>
    constructor
    case levelZero => exact (first (by decide)).trans maps.levelZero
    case levelOne => exact (same (by decide) (by decide)).trans maps.levelOne
    case window => exact (same (by decide) (by decide)).trans maps.window
    case blocks =>
      intro index small different
      exact (same (by decide) small).trans (maps.blocks index small different)
    case arguments => exact (same (by decide) (by decide)).trans maps.arguments
    case pages =>
      intro index small different
      exact (same (by decide) small).trans (maps.pages index small different)
  case devices => exact (same (by decide) (by decide)).trans maps.devices
  case zeroZero =>
    intro index small different
    exact (first small).trans (maps.zeroZero index small different)
  case oneZero =>
    intro index small later_entry
    exact (same (by decide) small).trans (maps.oneZero index small later_entry)

/-! ## The argument page -/

theorem argumentEntry_eq (argumentPage : Nat) :
    argumentEntry argumentPage = Descriptor.ofAddress argumentPage ||| argumentEntry 0 := by
  simp only [argumentEntry, Descriptor.asPage, Descriptor.normalBlock, Descriptor.union_assoc,
    Descriptor.zero_union]

theorem argumentEntry_includes {place : UInt64} (outside : Descriptor.Outside place)
    (argumentPage : Nat) :
    (argumentEntry argumentPage).includes (.bit place) =
      (argumentEntry 0).includes (.bit place) := by
  rw [argumentEntry_eq]
  exact Descriptor.ofAddress_union_includes argumentPage _ outside

theorem argumentEntry_reads (argumentPage : Nat) :
    (argumentEntry argumentPage).includes .user = true ∧
      (argumentEntry argumentPage).includes .readOnly = true ∧
        (argumentEntry argumentPage).includes .device = false :=
  ⟨(argumentEntry_includes (by decide) argumentPage).trans (by decide),
    (argumentEntry_includes (by decide) argumentPage).trans (by decide),
    (argumentEntry_includes (by decide) argumentPage).trans (by decide)⟩

theorem argumentEntry_address {argumentPage : Nat} (fits : Descriptor.Fits argumentPage) :
    (argumentEntry argumentPage).address = argumentPage := by
  rw [argumentEntry_eq]
  exact Descriptor.ofAddress_union_address fits (by decide)

theorem Leaf.of_argumentEntry {argumentPage : Nat} (fits : Descriptor.Fits argumentPage) :
    of (argumentEntry argumentPage, Config.pageSize) = arguments argumentPage := by
  rw [argumentEntry_eq, of_ofAddress_union fits (by decide)]
  simp only [of, arguments, normal, mk.injEq, true_and]
  decide

/-! ## Every address -/

namespace MapsOnly

variable {memory : Memory} {tables deviceBase argumentPage address size : Nat}
  {access : Nat → UserAccess} {leaf : Descriptor}

theorem lookup_arguments
    (maps : MapsOnly memory tables deviceBase argumentPage access)
    (fits : ∀ number < processPages, Descriptor.Fits (page tables number))
    (seen : Extent.Covers ⟨Config.argumentAddress, Config.pageSize⟩ address) :
    lookup memory tables address = some (argumentEntry argumentPage, Config.pageSize) := by
  have inside : address / block = Config.argumentAddress / block := by
    simp only [Extent.Covers, Extent.stop, block, Config.argumentAddress, Config.pageSize] at *
    omega
  have near : address < largeBlock := by
    simp only [largeBlock, block, Config.argumentAddress] at *
    omega
  have first : levelThreeIndex address = 0 := by
    simp only [Extent.Covers, Extent.stop, levelThreeIndex, Nat.shiftRight_eq_div_pow, entries,
      Config.argumentAddress, Config.pageSize] at *
    omega
  rw [maps.mapsBlocks.lookup_eq (MapsProcess.fits_boot fits) near, inside, first,
    (by decide : Config.argumentAddress / block = levelTwoIndex Config.argumentAddress),
    walk_of_nextTable maps.window rfl (fits 3 (by decide))]
  refine walk_of_leaf maps.arguments ?_ (.inl rfl)
  exact (argumentEntry_includes (by decide) argumentPage).trans (by decide)

theorem user_of_far (maps : MapsOnly memory tables deviceBase argumentPage access)
    (fits : ∀ number < processPages, Descriptor.Fits (page tables number))
    (far : largeBlock ≤ address) (small : address < 2 ^ 48)
    (found : lookup memory tables address = some (leaf, size)) :
    leaf.includes .user = false := by
  by_cases inside : address < 2 * largeBlock
  case pos =>
    rw [maps.skeleton.lookup_devices (MapsProcess.fits_boot fits) far inside] at found
    cases found
    exact Descriptor.deviceBlock_includes_user _
  case neg =>
    rw [maps.skeleton.lookup_beyond (MapsProcess.fits_boot fits) (Nat.le_of_not_lt inside)
      small] at found
    cases found

/-- No program can reach a device. -/
theorem user_of_device (maps : MapsOnly memory tables Config.deviceBase argumentPage access)
    (fits : ∀ number < processPages, Descriptor.Fits (page tables number))
    (behind : Config.deviceBase ≤ address) (small : address < 2 ^ 48)
    (found : lookup memory tables address = some (leaf, size)) :
    leaf.includes .user = false := by
  by_cases near : address < largeBlock
  case neg => exact maps.user_of_far fits (Nat.le_of_not_lt near) small found
  case pos =>
    have base_behind : ¬ address / block * block < Config.deviceBase := by
      simp only [block, Config.deviceBase] at *
      omega
    have whole : address / block ≠ Config.argumentAddress / block := by
      simp only [block, Config.deviceBase, Config.argumentAddress] at *
      omega
    rw [maps.mapsBlocks.lookup_block (MapsProcess.fits_boot fits) near whole, blockEntry,
      if_neg base_behind] at found
    cases found
    exact Descriptor.deviceBlock_includes_user _

/-- Every address is mapped as it is meant. -/
theorem leaf_eq (maps : MapsOnly memory tables deviceBase argumentPage access)
    (fits : ∀ number < processPages, Descriptor.Fits (page tables number))
    (argument_fits : Descriptor.Fits argumentPage) (small : address < 2 ^ 48) :
    (lookup memory tables address).map Leaf.of =
      processLeaf? deviceBase argumentPage access address := by
  rw [processLeaf?]
  by_cases seen : Extent.Covers ⟨Config.argumentAddress, Config.pageSize⟩ address
  case pos =>
    rw [if_pos seen, maps.lookup_arguments fits seen, Option.map_some,
      Leaf.of_argumentEntry argument_fits]
  case neg =>
    rw [if_neg seen]
    by_cases window : Extent.Covers ⟨Config.argumentAddress, block⟩ address
    case pos =>
      have inside : address / block = Config.argumentAddress / block := by
        simp only [Extent.Covers, Extent.stop, block, Config.argumentAddress] at *
        omega
      have behind : Config.argumentAddress + Config.pageSize ≤ address := by
        simp only [Extent.Covers, Extent.stop, block, Config.argumentAddress,
          Config.pageSize] at *
        omega
      have here : page Config.argumentAddress (levelThreeIndex address) =
          address / Config.pageSize * Config.pageSize := page_levelThreeIndex inside
      have page_fits : Descriptor.Fits (address / Config.pageSize * Config.pageSize) :=
        ⟨Nat.mul_mod_left .., Nat.lt_of_le_of_lt (Nat.div_mul_le_self ..) small⟩
      rw [if_pos window, maps.lookup_window fits inside behind, Option.map_some, windowEntry, here,
        Leaf.of_asPage_normalBlock page_fits]
    case neg =>
      have outside : address < largeBlock →
          address / block ≠ levelTwoIndex Config.argumentAddress := by
        have index : levelTwoIndex Config.argumentAddress = 8 := by decide
        simp only [Extent.Covers, Extent.stop, block, Config.argumentAddress, index] at *
        omega
      rw [if_neg window]
      exact maps.skeleton.leaf_eq (MapsProcess.fits_boot fits) small outside

end MapsOnly

/-- For every address of the tables' address space, the map of a process that is written into four
pages of zeros says what it is meant to, and nothing but these pages changes.  In particular, where
programs have access, there is no device and the kernel executes nothing. -/
theorem writeProcessMap_leaves (memory : Memory) (tables deviceBase argumentPage : Nat)
    (access : Nat → UserAccess) (aligned : tables % Config.pageSize = 0)
    (small : page tables processPages ≤ 2 ^ 48)
    (zero : ∀ address, (mapExtent tables).Covers address → memory.get address = 0)
    (argument_fits : Descriptor.Fits argumentPage) :
    let written := writeProcessMap memory tables deviceBase argumentPage access
    memory.ChangesOnly written (mapExtent tables).Covers ∧
      ∀ address < 2 ^ 48,
        (lookup written tables address).map Leaf.of =
            processLeaf? deviceBase argumentPage access address ∧
          ∀ leaf size, lookup written tables address = some (leaf, size) →
            leaf.includes .user = true →
              leaf.includes .kernelExecuteNever = true ∧ leaf.includes .device = false := by
  intro written
  have fits (number : Nat) (inMap : number < processPages) : Descriptor.Fits (page tables number) :=
    fits_page aligned small inMap
  have maps : MapsOnly written tables deviceBase argumentPage access :=
    mapsOnly_writeProcessMap deviceBase argumentPage access (Nat.le_trans small (by decide)) zero
  refine ⟨changesOnly_writeProcessMap memory tables deviceBase argumentPage access,
    fun address near => ?_⟩
  have meant := maps.leaf_eq fits argument_fits near
  refine ⟨meant, fun leaf size found user => ?_⟩
  rw [found, Option.map_some] at meant
  exact (processLeaf?_guarded meant.symm).of_user user

/-- A map for a program with one block of its own, with its tables and its arguments behind the
kernel: the block is there to read and write, and the page behind it is the kernel's. -/
theorem writeProcessMap_leaves_small :
    let access := fun address => if address = 0x400000 then UserAccess.readWrite else .none
    let written := writeProcessMap .zero 0x143000 Config.deviceBase 0x102000 access
    (lookup written 0x143000 0x412345).map Leaf.of = some (.normal 0x400000 block .readWrite) ∧
      (lookup written 0x143000 0x1000123).map Leaf.of = some (.arguments 0x102000) ∧
        (lookup written 0x143000 0x1001123).map Leaf.of =
            some (.normal 0x1001000 Config.pageSize .none) ∧
          (lookup written 0x143000 0x3F201000).map Leaf.of =
              some (.devices 0x3F200000 block) ∧
            lookup written 0x143000 0x80000000 = none := by
  intro access written
  have exactly := (writeProcessMap_leaves .zero 0x143000 Config.deviceBase 0x102000 access
    (by decide) (by decide) (fun address _ => Memory.get_zero address) ⟨by decide, by decide⟩).2
  refine ⟨?_, ?_, ?_, ?_, ?_⟩
  · exact (exactly _ (by decide)).1.trans (by decide)
  · exact (exactly _ (by decide)).1.trans (by decide)
  · exact (exactly _ (by decide)).1.trans (by decide)
  · exact (exactly _ (by decide)).1.trans (by decide)
  · exact Option.map_eq_none_iff.1 ((exactly _ (by decide)).1.trans (by decide))

end Paging
end Microkernel
