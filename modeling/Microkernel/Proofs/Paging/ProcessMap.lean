import Microkernel.Proofs.Paging.Skeleton

/-!
# What the map of a process maps

Below the devices an address is mapped onto itself: by its block, or by its page if it lies in the
block at the argument address, whose first page is the argument page.
-/

namespace Microkernel
namespace Paging

/-- The tables of a map of a process, as far as addresses of the first gigabyte need them. -/
structure MapsProcess (memory : Memory) (tables deviceBase argumentPage : Nat)
    (access : Nat → UserAccess) : Prop where
  /-- The first entry of the first table points to the second table. -/
  levelZero : descriptorAt memory tables 0 = .nextTable (page tables 1)
  /-- The first entry of the second table points to the third table. -/
  levelOne : descriptorAt memory (page tables 1) 0 = .nextTable (page tables 2)
  /-- The entry of the block at the argument address points to the last table. -/
  window : descriptorAt memory (page tables 2) (levelTwoIndex Config.argumentAddress) =
    .nextTable (page tables 3)
  /-- The entries of the third table for other blocks. -/
  blocks : ∀ index < entries, index ≠ levelTwoIndex Config.argumentAddress →
    descriptorAt memory (page tables 2) index = blockEntry deviceBase access index
  /-- The first entry of the last table shows the argument page. -/
  arguments : descriptorAt memory (page tables 3) 0 = argumentEntry argumentPage
  /-- The other entries of the last table. -/
  pages : ∀ index < entries, index ≠ 0 →
    descriptorAt memory (page tables 3) index = windowEntry (access Config.argumentAddress) index

theorem mapsProcess_writeProcessMap (memory : Memory) {tables : Nat} (deviceBase argumentPage : Nat)
    (access : Nat → UserAccess) (inside : page tables processPages ≤ Word.limit) :
    MapsProcess (writeProcessMap memory tables deviceBase argumentPage access) tables deviceBase
      argumentPage access := by
  have windowIndex : levelTwoIndex Config.argumentAddress = 8 := by decide
  have skeleton := mapsBlocks_writeSkeleton memory deviceBase access
    (Nat.le_trans (Nat.add_le_add_left (by decide) tables) inside)
  constructor
  case levelZero =>
    rw [writeProcessMap, descriptorAt_storeFrom_of_apart, descriptorAt_store_of_apart,
      skeleton.levelZero]
    all_goals
      simp only [Extent.Apart, Extent.stop, entriesAt, page, Config.pageSize] at *
      omega
  case levelOne =>
    rw [writeProcessMap, descriptorAt_storeFrom_of_apart, descriptorAt_store_of_apart,
      skeleton.levelOne]
    all_goals
      simp only [Extent.Apart, Extent.stop, entriesAt, page, Config.pageSize] at *
      omega
  case window =>
    rw [writeProcessMap, descriptorAt_storeFrom_of_apart, descriptorAt_store_self]
    all_goals
      simp only [Extent.Apart, Extent.stop, entriesAt, page, processPages, Config.pageSize] at *
      omega
  case blocks =>
    intro index small different
    rw [writeProcessMap, descriptorAt_storeFrom_of_apart, descriptorAt_store_of_apart,
      skeleton.blocks index small trivial]
    all_goals
      simp only [Extent.Apart, Extent.stop, entriesAt, page, entries, Config.pageSize] at *
      omega
  case arguments =>
    rw [writeProcessMap, descriptorAt_storeFrom_self _ (Nat.le_refl _) rfl]
    simp only [Extent.stop, entriesAt, page, processPages, Config.pageSize] at *
    omega
  case pages =>
    intro index small different
    have found : (argumentEntry argumentPage :: (List.range (entries - 1)).map fun index =>
        windowEntry (access Config.argumentAddress) (index + 1))[index - 0]? =
          some (windowEntry (access Config.argumentAddress) index) := by
      obtain ⟨earlier, rfl⟩ : ∃ earlier, index = earlier + 1 :=
        ⟨index - 1, (Nat.succ_pred_eq_of_ne_zero different).symm⟩
      rw [Nat.sub_zero, List.getElem?_cons_succ, List.getElem?_map,
        List.getElem?_range (Nat.lt_sub_of_add_lt small)]
      rfl
    rw [writeProcessMap, descriptorAt_storeFrom_self _ (Nat.zero_le _) found]
    simp only [Extent.stop, entriesAt, page, processPages, entries, Config.pageSize] at *
    omega

/-! ## Walks -/

theorem windowEntry_includes_valid (access : UserAccess) (index : Nat) :
    (windowEntry access index).includes .valid = true := by
  refine (Descriptor.asPage_normalBlock_includes (by decide) _ _).trans ?_
  cases access <;> decide

theorem page_levelThreeIndex {address : Nat}
    (inside : address / block = Config.argumentAddress / block) :
    page Config.argumentAddress (levelThreeIndex address) =
      address / Config.pageSize * Config.pageSize := by
  simp only [page, levelThreeIndex, Nat.shiftRight_eq_div_pow, entries, block,
    Config.argumentAddress, Config.pageSize] at *
  omega

namespace MapsProcess

variable {memory : Memory} {tables deviceBase argumentPage address : Nat}
  {access : Nat → UserAccess}

theorem fits_boot (fits : ∀ number < processPages, Descriptor.Fits (page tables number)) :
    ∀ number < bootPages, Descriptor.Fits (page tables number) :=
  fun number inMap => fits number (Nat.lt_succ_of_lt inMap)

theorem mapsBlocks (maps : MapsProcess memory tables deviceBase argumentPage access) :
    MapsBlocks memory tables deviceBase access
      (· ≠ levelTwoIndex Config.argumentAddress) where
  levelZero := maps.levelZero
  levelOne := maps.levelOne
  blocks := maps.blocks

/-- An address of the block that is split into pages is mapped by its page, if that is not the
first. -/
theorem lookup_window (maps : MapsProcess memory tables deviceBase argumentPage access)
    (fits : ∀ number < processPages, Descriptor.Fits (page tables number))
    (inside : address / block = Config.argumentAddress / block)
    (unseen : Config.argumentAddress + Config.pageSize ≤ address) :
    lookup memory tables address =
      some (windowEntry (access Config.argumentAddress) (levelThreeIndex address),
        Config.pageSize) := by
  have near : address < largeBlock := by
    simp only [largeBlock, block, Config.argumentAddress] at *
    omega
  have later : levelThreeIndex address ≠ 0 := by
    simp only [levelThreeIndex, Nat.shiftRight_eq_div_pow, entries, block, Config.argumentAddress,
      Config.pageSize] at *
    omega
  have small : levelThreeIndex address < entries := Nat.mod_lt _ (by decide)
  rw [maps.mapsBlocks.lookup_eq (fits_boot fits) near, inside,
    (by decide : Config.argumentAddress / block = levelTwoIndex Config.argumentAddress),
    walk_of_nextTable maps.window rfl (fits 3 (by decide))]
  exact walk_of_leaf (maps.pages _ small later) (windowEntry_includes_valid ..) (.inl rfl)

/-- Below the devices and outside the argument page an address is mapped onto itself, and a program
can do there what it may do in the block. -/
theorem lookup_below (maps : MapsProcess memory tables deviceBase argumentPage access)
    (fits : ∀ number < processPages, Descriptor.Fits (page tables number))
    (near : deviceBase ≤ largeBlock) (below : address < deviceBase)
    (unseen : ¬ Extent.Covers ⟨Config.argumentAddress, Config.pageSize⟩ address) :
    ∃ leaf size, lookup memory tables address = some (leaf, size) ∧
      leaf.address = address / size * size ∧ leaf.Gives (access (address / block * block)) := by
  by_cases inside : address / block = Config.argumentAddress / block
  case pos =>
    have behind : Config.argumentAddress + Config.pageSize ≤ address := by
      simp only [Extent.Covers, Extent.stop, block, Config.argumentAddress, Config.pageSize] at *
      omega
    have base : address / block * block = Config.argumentAddress := by
      rw [inside]
      decide
    refine ⟨_, _, maps.lookup_window fits inside behind, ?_, ?_⟩
    · rw [windowEntry, page_levelThreeIndex inside, Descriptor.asPage_normalBlock_address]
      constructor
      · exact Nat.mul_mod_left ..
      · exact Nat.lt_of_le_of_lt (Nat.div_mul_le_self ..)
          (Nat.lt_of_lt_of_le below (Nat.le_trans near (by decide)))
    · rw [base, windowEntry]
      exact Descriptor.asPage_normalBlock_gives ..
  case neg =>
    have near_address : address < largeBlock := Nat.lt_of_lt_of_le below near
    have base_below : address / block * block < deviceBase :=
      Nat.lt_of_le_of_lt (Nat.div_mul_le_self ..) below
    have found := maps.mapsBlocks.lookup_block (fits_boot fits) near_address inside
    refine ⟨_, _, found, ?_, ?_⟩
    · rw [blockEntry, if_pos base_below, Descriptor.normalBlock_address]
      constructor
      · simp only [block, Config.pageSize]
        omega
      · exact Nat.lt_of_lt_of_le base_below (Nat.le_trans near (by decide))
    · rw [blockEntry, if_pos base_below]
      exact Descriptor.normalBlock_gives ..

end MapsProcess
end Paging
end Microkernel
