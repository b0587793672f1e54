import Microkernel.Address

/-!
# The boot record

The kernel's image carries one record that describes the first page map once that is
built.  Until then every field but the first holds a filler, so that the record is never taken for
memory that was merely cleared.
-/

namespace Microkernel

/-- A description of the first page map. -/
structure BootRecord where
  /-- The word by which the record is recognised. -/
  magic : Nat
  rootTable : Nat
  arenaBase : Nat
  /-- The number of pages taken out of the arena. -/
  arenaAllocated : Nat
  arenaBound : Nat
  /-- The widths of numbers in the device tree. -/
  properties : Nat
  /-- The first address of the pages that hold the device tree. -/
  treeStart : Nat
  treeStop : Nat
  kernelStart : Nat
  kernelStop : Nat
  deriving DecidableEq, Repr

namespace BootRecord

/-- The word by which a record is recognised. -/
def expectedMagic : Nat := 0x4D4D55424F4F5431

/-- The filler of a field that has not been written. -/
def filler : Nat := Word.largest

/-- The record as the image carries it. -/
def blank : BootRecord where
  magic := expectedMagic
  rootTable := filler
  arenaBase := filler
  arenaAllocated := filler
  arenaBound := filler
  properties := filler
  treeStart := filler
  treeStop := filler
  kernelStart := filler
  kernelStop := filler

/-- The fields of a record in the order in which they lie in memory. -/
def fields (record : BootRecord) : List Nat :=
  [record.magic, record.rootTable, record.arenaBase, record.arenaAllocated, record.arenaBound,
    record.properties, record.treeStart, record.treeStop, record.kernelStart, record.kernelStop]

end BootRecord

/-- The image's record, which is handed out once. -/
structure RecordHolder where
  /-- The record, unless it has been handed out. -/
  content : Option BootRecord
  deriving DecidableEq, Repr

namespace RecordHolder

/-- The holder in an image that has just been loaded. -/
def fresh : RecordHolder := ⟨some .blank⟩

/-- The record, if nobody has it yet, and the holder without it. -/
def acquire (holder : RecordHolder) : Option BootRecord × RecordHolder :=
  (holder.content, ⟨none⟩)

end RecordHolder

/-! ## Widths of numbers in the device tree, one bit each -/

namespace MemoryProperties

/-- Addresses on the processor's side have 64 bits. -/
def processorAddress : Nat := 1

/-- Sizes on the processor's side have 64 bits. -/
def processorSize : Nat := 2

/-- Addresses on the side of the devices have 64 bits. -/
def deviceAddress : Nat := 4

/-- Sizes on the side of the devices have 64 bits. -/
def deviceSize : Nat := 8

end MemoryProperties

end Microkernel
