import Microkernel.Kernel.Start
import Microkernel.Proofs.Process.Checks

/-!
# Blocks that are opened to a program

The map of a process opens a whole block to the program as soon as one of its regions, or the
largest heap that it can have, meets the block.  The argument page does not count.
-/

namespace Microkernel

theorem Region.overlaps_ok {region other : Region} {answer : Bool}
    (run : region.overlaps other = .ok answer) :
    answer = false ↔ region.extent.Apart other.extent := by
  simp only [overlaps, stop, Checked.bind_eq_ok_iff, Word.sum_eq_ok_iff] at run
  obtain ⟨_, ⟨_, rfl⟩, run⟩ := run
  simp only [Extent.Apart, Extent.stop, extent]
  split at run
  · simp only [Checked.bind_eq_ok_iff, Word.sum_eq_ok_iff] at run
    obtain ⟨_, ⟨_, rfl⟩, run⟩ := run
    cases run
    simp only [decide_eq_false_iff_not]
    omega
  · cases run
    simp only [true_iff]
    omega

namespace Process

/-- The memory that counts when blocks are opened to a program: its regions except for the argument
page, and the largest heap that it can have. -/
def openExtents (process : Process) : List Extent :=
  ((process.regions.filter fun region => region.base != Config.argumentAddress).map (·.extent)) ++
    [⟨process.heap.base, process.heap.limit⟩]

/-- Whether memory of the process lies in the block of an address. -/
def Opens (process : Process) (address : Nat) : Prop :=
  ∃ extent ∈ process.openExtents,
    ¬ extent.Apart ⟨address / Paging.block * Paging.block, Paging.block⟩

instance (process : Process) (address : Nat) : Decidable (process.Opens address) :=
  inferInstanceAs (Decidable (∃ extent ∈ process.openExtents, _))

/-- The memory that counts when blocks are opened to a program that writes. -/
def writeExtents (process : Process) : List Extent :=
  ((process.regions.filter fun region => region.base != Config.argumentAddress &&
      region.rights.includes .write).map (·.extent)) ++
    [⟨process.heap.base, process.heap.limit⟩]

/-- Whether memory that the process may write, or may once write, lies in the block of an
address. -/
def OpensToWrite (process : Process) (address : Nat) : Prop :=
  ∃ extent ∈ process.writeExtents,
    ¬ extent.Apart ⟨address / Paging.block * Paging.block, Paging.block⟩

/-- No access is found if none was found before and no region meets the probed range. -/
theorem accessWithin_eq_none_iff {probe : Region} {regions : List Region}
    {found access : UserAccess} (run : accessWithin probe regions found = .ok access) :
    access = .none ↔ found = .none ∧ ∀ region ∈ regions, region.extent.Apart probe.extent := by
  induction regions generalizing found with
  | nil =>
      cases run
      simp
  | cons region rest induction =>
      rw [accessWithin, Checked.bind_eq_ok_iff] at run
      obtain ⟨overlapping, overlaps, run⟩ := run
      have apart := Region.overlaps_ok overlaps
      rw [List.forall_mem_cons, ← apart]
      cases overlapping with
      | false =>
          rw [if_neg (by decide)] at run
          simpa using induction run
      | true =>
          rw [if_pos rfl] at run
          have opened : access ≠ .none := by
            split at run
            · cases run
              decide
            · intro closed
              cases ((induction run).1 closed).1
          simp [opened]

theorem userAccess_eq_none_iff {process : Process} {start stop : Nat} {access : UserAccess}
    (run : process.userAccess start stop = .ok access) :
    access = .none ↔ ∀ extent ∈ process.openExtents, extent.Apart ⟨start, stop - start⟩ := by
  simp only [userAccess, Checked.bind_eq_ok_iff, Word.difference_eq_ok_iff] at run
  obtain ⟨_, ⟨_, rfl⟩, run⟩ := run
  rw [accessWithin_eq_none_iff run]
  simp only [openExtents, List.forall_mem_append, List.forall_mem_map, List.forall_mem_singleton,
    true_and]
  rfl

/-- All access is found if a region that can be written meets the probed range. -/
theorem accessWithin_eq_readWrite_iff {probe : Region} {regions : List Region}
    {found access : UserAccess} (run : accessWithin probe regions found = .ok access)
    (less : found ≠ .readWrite) :
    access = .readWrite ↔ ∃ region ∈ regions,
      region.rights.includes .write = true ∧ ¬ region.extent.Apart probe.extent := by
  induction regions generalizing found with
  | nil =>
      cases run
      simpa using less
  | cons region rest induction =>
      rw [accessWithin, Checked.bind_eq_ok_iff] at run
      obtain ⟨overlapping, overlaps, run⟩ := run
      have apart := Region.overlaps_ok overlaps
      simp only [List.mem_cons, or_and_right, exists_or, exists_eq_left, ← apart]
      cases overlapping with
      | false =>
          rw [if_neg (by decide)] at run
          simpa using induction run less
      | true =>
          rw [if_pos rfl] at run
          split at run
          next writable =>
              cases run
              simp [writable]
          next unwritable => simpa [unwritable] using induction run (by decide)

theorem userAccess_eq_readWrite_iff {process : Process} {start stop : Nat} {access : UserAccess}
    (run : process.userAccess start stop = .ok access) :
    access = .readWrite ↔ ∃ extent ∈ process.writeExtents,
      ¬ extent.Apart ⟨start, stop - start⟩ := by
  simp only [userAccess, Checked.bind_eq_ok_iff, Word.difference_eq_ok_iff] at run
  obtain ⟨_, ⟨_, rfl⟩, run⟩ := run
  have writable : Rights.readWrite.includes .write = true := by decide
  rw [accessWithin_eq_readWrite_iff run (by decide)]
  simp only [writeExtents, List.mem_append, List.mem_map, List.mem_filter, Bool.and_eq_true,
    List.mem_singleton]
  constructor
  · rintro ⟨region, ⟨member, outside⟩ | rfl, may, meets⟩
    · exact ⟨_, .inl ⟨region, ⟨member, outside, may⟩, rfl⟩, meets⟩
    · exact ⟨_, .inr rfl, meets⟩
  · rintro ⟨_, ⟨region, ⟨member, outside, may⟩, rfl⟩ | rfl, meets⟩
    · exact ⟨region, .inl ⟨member, outside⟩, may, meets⟩
    · exact ⟨_, .inr rfl, writable, meets⟩

private theorem getElem?_of_mapM {α β : Type} {action : α → Checked β} {elements : List α}
    {results : List β} (run : elements.mapM action = .ok results) {index : Nat} {element : α}
    (found : elements[index]? = some element) :
    ∃ result, results[index]? = some result ∧ action element = .ok result := by
  induction elements generalizing results index with
  | nil => cases found
  | cons first rest induction =>
      simp only [List.mapM_cons, Checked.bind_eq_ok_iff] at run
      obtain ⟨head, head_run, tail, tail_run, run⟩ := run
      cases run
      cases index with
      | zero =>
          cases found
          exact ⟨head, rfl, head_run⟩
      | succ index => exact induction tail_run found

private theorem userAccess_of_blockAccess {process : Process} {deviceBase : Nat}
    {accesses : List UserAccess} (run : process.blockAccess deviceBase = .ok accesses)
    {address : Nat} (near : address < Paging.largeBlock) (below : address < deviceBase) :
    process.userAccess (address / Paging.block * Paging.block)
        (address / Paging.block * Paging.block + Paging.block) =
      .ok (accesses.toArray.getD (address / Paging.block * Paging.block / Paging.block) .none) := by
  have small : address / Paging.block < Paging.entries := by
    simp only [Paging.largeBlock, Paging.block, Paging.entries] at *
    omega
  have base_below : address / Paging.block * Paging.block < deviceBase :=
    Nat.lt_of_le_of_lt (Nat.div_mul_le_self ..) below
  obtain ⟨access, found, access_run⟩ := getElem?_of_mapM run (List.getElem?_range small)
  rw [if_pos base_below] at access_run
  rw [Nat.mul_div_cancel _ (by decide : 0 < Paging.block), Array.getD_eq_getD_getElem?,
    List.getElem?_toArray, found, Option.getD_some]
  exact access_run

/-- A block below the devices is opened to a program if its memory lies there, and only then. -/
theorem blockAccess_opens {process : Process} {deviceBase : Nat} {accesses : List UserAccess}
    (run : process.blockAccess deviceBase = .ok accesses) {address : Nat}
    (near : address < Paging.largeBlock) (below : address < deviceBase) :
    accesses.toArray.getD (address / Paging.block * Paging.block / Paging.block) .none ≠ .none ↔
      process.Opens address := by
  rw [Ne, userAccess_eq_none_iff (userAccess_of_blockAccess run near below),
    Nat.add_sub_cancel_left, Opens]
  simp only [Classical.not_forall, exists_prop]

/-- The program can write in the block if it may write, or may once write, somewhere there. -/
theorem blockAccess_opensToWrite {process : Process} {deviceBase : Nat}
    {accesses : List UserAccess} (run : process.blockAccess deviceBase = .ok accesses)
    {address : Nat} (near : address < Paging.largeBlock) (below : address < deviceBase) :
    accesses.toArray.getD (address / Paging.block * Paging.block / Paging.block) .none =
      .readWrite ↔ process.OpensToWrite address := by
  rw [userAccess_eq_readWrite_iff (userAccess_of_blockAccess run near below),
    Nat.add_sub_cancel_left, OpensToWrite]

end Process
end Microkernel
