import Microkernel.Arguments.Writer
import Microkernel.Memory.Lemmas
import Microkernel.Paging.Map

/-!
# Where memory changes

An extent is a run of addresses.  Every store of the kernel changes bytes of one extent and no
others; `Memory.ChangesOnly` states this for a whole computation, by the set of addresses at which
a byte may differ afterwards.
-/

namespace Microkernel

/-- A run of addresses. -/
structure Extent where
  /-- The first address. -/
  start : Nat
  /-- The number of addresses. -/
  length : Nat
  deriving DecidableEq, Repr

namespace Extent

/-- The first address behind an extent. -/
def stop (extent : Extent) : Nat :=
  extent.start + extent.length

/-- Whether an address lies in an extent. -/
def Covers (extent : Extent) (address : Nat) : Prop :=
  extent.start ≤ address ∧ address < extent.stop

/-- Whether one of two extents ends before the other begins. -/
def Apart (first second : Extent) : Prop :=
  first.stop ≤ second.start ∨ second.stop ≤ first.start

instance (extent : Extent) (address : Nat) : Decidable (extent.Covers address) :=
  inferInstanceAs (Decidable (_ ∧ _))

instance (first second : Extent) : Decidable (first.Apart second) :=
  inferInstanceAs (Decidable (_ ∨ _))

theorem Apart.symm {first second : Extent} (apart : first.Apart second) :
    second.Apart first :=
  Or.symm apart

theorem Apart.not_covers {first second : Extent} (apart : first.Apart second) {address : Nat}
    (covered : first.Covers address) : ¬ second.Covers address := by
  simp only [Apart, Covers, stop] at *
  omega

end Extent

namespace Memory

/-- Every byte that differs afterwards lies at one of the given places. -/
def ChangesOnly (before after : Memory) (places : Nat → Prop) : Prop :=
  ∀ address, after.get address ≠ before.get address → places address

theorem ChangesOnly.refl (memory : Memory) (places : Nat → Prop) :
    memory.ChangesOnly memory places := by
  intro address changed
  exact absurd rfl changed

theorem ChangesOnly.trans {first second third : Memory} {places : Nat → Prop}
    (before : first.ChangesOnly second places) (after : second.ChangesOnly third places) :
    first.ChangesOnly third places := by
  intro address changed
  by_cases same : second.get address = first.get address
  · exact after address (by rwa [same])
  · exact before address same

theorem ChangesOnly.mono {before after : Memory} {places more : Nat → Prop}
    (changes : before.ChangesOnly after places)
    (included : ∀ address, places address → more address) : before.ChangesOnly after more :=
  fun address changed => included address (changes address changed)

theorem changesOnly_write (memory : Memory) (start : Nat) (bytes : List UInt8) :
    memory.ChangesOnly (memory.write start bytes) (Extent.Covers ⟨start, bytes.length⟩) := by
  intro address changed
  by_cases inside : address < Word.limit
  · rw [get_write _ _ _ _ inside] at changed
    split at changed
    next behind =>
        refine ⟨behind, Nat.lt_of_not_le fun beyond => ?_⟩
        simp only [Extent.stop] at beyond
        rw [List.getElem?_eq_none (by omega), Option.getD_none] at changed
        exact changed rfl
    next => exact absurd rfl changed
  · rw [get_eq_zero_of_limit_le _ _ (by omega), get_eq_zero_of_limit_le _ _ (by omega)] at changed
    exact absurd rfl changed

theorem changesOnly_fill (memory : Memory) (start length : Nat) (byte : UInt8) :
    memory.ChangesOnly (memory.fill start length byte) (Extent.Covers ⟨start, length⟩) := by
  intro address changed
  by_cases inside : address < Word.limit
  · rw [get_fill _ _ _ _ _ inside] at changed
    split at changed
    next within => exact within
    next => exact absurd rfl changed
  · rw [get_eq_zero_of_limit_le _ _ (by omega), get_eq_zero_of_limit_le _ _ (by omega)] at changed
    exact absurd rfl changed

theorem changesOnly_write_within (memory : Memory) (start : Nat) (bytes : List UInt8)
    (extent : Extent) (behind : extent.start ≤ start)
    (before : start + bytes.length ≤ extent.stop) :
    memory.ChangesOnly (memory.write start bytes) extent.Covers :=
  (changesOnly_write memory start bytes).mono fun _ covered =>
    ⟨Nat.le_trans behind covered.1, Nat.lt_of_lt_of_le covered.2 before⟩

@[simp] theorem write_nil (memory : Memory) (address : Nat) : memory.write address [] = memory := by
  rw [write]
  split
  · rw [ByteTree.write]
  · rfl

end Memory

namespace Word

@[simp] theorem length_bytes (word : UInt64) : (bytes word).length = 8 := by
  simp [bytes]

@[simp] theorem length_flatMap_bytes (words : List UInt64) :
    (words.flatMap bytes).length = words.length * 8 := by
  induction words with
  | nil => rfl
  | cons word words induction =>
      simp only [List.flatMap_cons, List.length_append, length_bytes, induction, List.length_cons]
      omega

end Word

namespace Paging

/-- The pages of a process's map. -/
def mapExtent (tables : Nat) : Extent :=
  ⟨tables, processPages * Config.pageSize⟩

theorem changesOnly_store (memory : Memory) (tables number index : Nat)
    (descriptor : Descriptor) {pages : Nat} (inMap : number < pages) (inTable : index < entries) :
    memory.ChangesOnly (store memory (page tables number) index descriptor)
      (Extent.Covers ⟨tables, pages * Config.pageSize⟩) := by
  apply Memory.changesOnly_write_within
  · simp only [page, Config.pageSize]
    omega
  · simp only [Word.length_bytes, Extent.stop, page, Config.pageSize, entries] at *
    omega

theorem changesOnly_storeFrom (memory : Memory) (tables number : Nat)
    (descriptors : List Descriptor) {pages : Nat} (inMap : number < pages)
    (few : descriptors.length ≤ entries) :
    memory.ChangesOnly (storeFrom memory (page tables number) 0 descriptors)
      (Extent.Covers ⟨tables, pages * Config.pageSize⟩) := by
  apply Memory.changesOnly_write_within
  · simp only [page, Config.pageSize]
    omega
  · simp only [Word.length_flatMap_bytes, List.length_map, Extent.stop, page, Config.pageSize,
      entries] at *
    omega

theorem changesOnly_writeSkeleton (memory : Memory) (tables deviceBase : Nat)
    (access : Nat → UserAccess) :
    memory.ChangesOnly (writeSkeleton memory tables deviceBase access)
      (Extent.Covers ⟨tables, bootPages * Config.pageSize⟩) := by
  have first : page tables 0 = tables := by simp [page]
  refine .trans ?_ (changesOnly_storeFrom _ tables 2 _ (by decide) (by simp))
  refine .trans ?_ (changesOnly_store _ tables 1 1 _ (by decide) (by decide))
  refine .trans ?_ (changesOnly_store _ tables 1 0 _ (by decide) (by decide))
  have stored : memory.ChangesOnly (store memory (page tables 0) 0 (.nextTable (page tables 1)))
      (Extent.Covers ⟨tables, bootPages * Config.pageSize⟩) :=
    changesOnly_store memory tables 0 0 _ (by decide) (by decide)
  rwa [first] at stored

theorem changesOnly_writeProcessMap (memory : Memory) (tables deviceBase argumentPage : Nat)
    (access : Nat → UserAccess) :
    memory.ChangesOnly (writeProcessMap memory tables deviceBase argumentPage access)
      (mapExtent tables).Covers := by
  refine .trans ?_ (changesOnly_storeFrom _ tables 3 _ (by decide) (by simp [entries]))
  refine .trans ?_ (changesOnly_store _ tables 2 _ _ (by decide) (by decide))
  refine (changesOnly_writeSkeleton memory tables deviceBase access).mono fun address covered => ?_
  refine ⟨covered.1, Nat.lt_of_lt_of_le covered.2 ?_⟩
  simp only [Extent.stop, mapExtent, bootPages, processPages]
  omega

/-- A run of pages that begins at a page boundary can be set to zero, and nothing else changes. -/
theorem zeroPages_eq (memory : Memory) (address pages : Nat)
    (aligned : address % Config.pageSize = 0) (few : pages * (Config.pageSize / 8) < Word.limit) :
    zeroPages memory address pages =
      .ok (memory.fill address (pages * (Config.pageSize / 8) * 8) 0) := by
  have words : Word.product pages (Config.pageSize / 8) = .ok (pages * (Config.pageSize / 8)) := by
    rw [Word.product_eq_ok_iff]
    exact ⟨few, rfl⟩
  simp only [zeroPages, require, if_pos aligned, words]
  rfl

end Paging

end Microkernel
