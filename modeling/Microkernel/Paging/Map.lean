import Microkernel.Crash
import Microkernel.Memory
import Microkernel.Paging.Descriptor

/-!
# Page maps

A map covers the first two gigabytes of the address space.  The first gigabyte is mapped in blocks
of two megabytes onto itself, normal memory below the device memory and device memory from there
on; the second is one block of device memory.  In the map of a process, the block at the argument
address is split into pages, the first of which shows the process its own argument page.
-/

namespace Microkernel

namespace Paging

/-- The number of descriptors in a table, which fills a page. -/
def entries : Nat := 512

/-- The size of a block of the second level. -/
def largeBlock : Nat := 0x40000000

/-- The size of a block of the third level. -/
def block : Nat := 0x200000

/-- The number of pages in the map that the kernel starts with. -/
def bootPages : Nat := 3

/-- The number of pages in the map of a process. -/
def processPages : Nat := 4

/-- The position of an address in a table of the first level. -/
def levelZeroIndex (address : Nat) : Nat := (address >>> 39) % entries

/-- The position of an address in a table of the second level. -/
def levelOneIndex (address : Nat) : Nat := (address >>> 30) % entries

/-- The position of an address in a table of the third level. -/
def levelTwoIndex (address : Nat) : Nat := (address >>> 21) % entries

/-- The position of an address in a table of the last level. -/
def levelThreeIndex (address : Nat) : Nat := (address >>> 12) % entries

/-- The address of a page counted from a base. -/
def page (base number : Nat) : Nat := base + number * Config.pageSize

/-- Memory with a descriptor put into a table. -/
def store (memory : Memory) (table index : Nat) (descriptor : Descriptor) : Memory :=
  memory.writeWord (table + index * 8) descriptor.bits

/-- Memory with descriptors put into a table one after the other. -/
def storeFrom (memory : Memory) (table index : Nat) (descriptors : List Descriptor) : Memory :=
  memory.writeWords (table + index * 8) (descriptors.map (·.bits))

/-- The descriptor at a position of a table. -/
def descriptorAt (memory : Memory) (table index : Nat) : Descriptor :=
  ⟨memory.readWord (table + index * 8)⟩

/-- The descriptor at a position that the caller takes to be in the table. -/
def load (memory : Memory) (table index : Nat) : Checked Descriptor := do
  require (index < entries)
  return descriptorAt memory table index

/-- The descriptor of a block of the first gigabyte. -/
def blockEntry (deviceBase : Nat) (access : Nat → UserAccess) (index : Nat) : Descriptor :=
  let base := index * block
  if base < deviceBase then .normalBlock base (access base) else .deviceBlock base

/-- Memory with the part that all maps share written into three pages of tables.  The access of
programs is given for the first address of each block. -/
def writeSkeleton (memory : Memory) (tables deviceBase : Nat) (access : Nat → UserAccess) :
    Memory :=
  let memory := store memory tables 0 (.nextTable (page tables 1))
  let memory := store memory (page tables 1) 0 (.nextTable (page tables 2))
  let memory := store memory (page tables 1) 1 (.deviceBlock largeBlock)
  storeFrom memory (page tables 2) 0 ((List.range entries).map (blockEntry deviceBase access))

/-- Memory with the map that the kernel starts with, in which programs have no access. -/
def writeBootMap (memory : Memory) (tables deviceBase : Nat) : Memory :=
  writeSkeleton memory tables deviceBase fun _ => .none

/-- The descriptor of the page that shows a process its arguments. -/
def argumentEntry (argumentPage : Nat) : Descriptor :=
  (Descriptor.normalBlock argumentPage .readOnly ||| .userExecuteNever).asPage

/-- The descriptor of another page of the block that holds the argument page. -/
def windowEntry (access : UserAccess) (index : Nat) : Descriptor :=
  (Descriptor.normalBlock (page Config.argumentAddress index) access).asPage

/-- Memory with the map of a process written into four pages of tables. -/
def writeProcessMap (memory : Memory) (tables deviceBase argumentPage : Nat)
    (access : Nat → UserAccess) : Memory :=
  let window := access Config.argumentAddress
  let memory := writeSkeleton memory tables deviceBase access
  let memory := store memory (page tables 2) (levelTwoIndex Config.argumentAddress)
    (.nextTable (page tables 3))
  storeFrom memory (page tables 3) 0
    (argumentEntry argumentPage ::
      (List.range (entries - 1)).map fun index => windowEntry window (index + 1))

/-- Follow the levels that are left, each given by the position to look at and the size of what a
descriptor maps there, from a table on. -/
def walk (memory : Memory) : List (Nat × Nat) → (table : Nat) → Option (Descriptor × Nat)
  | [], _ => none
  | (index, size) :: rest, table =>
      let descriptor := descriptorAt memory table index
      if descriptor.includes .valid then
        if rest.isEmpty || !descriptor.includes .table then some (descriptor, size)
        else walk memory rest descriptor.address
      else none

/-- The descriptor that maps an address, and the size of what it maps. -/
def lookup (memory : Memory) (root address : Nat) : Option (Descriptor × Nat) :=
  walk memory
    [(levelZeroIndex address, 0), (levelOneIndex address, largeBlock),
      (levelTwoIndex address, block), (levelThreeIndex address, Config.pageSize)]
    root

/-- Memory with a run of pages set to zero, which must begin at a page boundary. -/
def zeroPages (memory : Memory) (address pages : Nat) : Checked Memory := do
  require (address % Config.pageSize = 0)
  let words ← Word.product pages (Config.pageSize / 8)
  return memory.fill address (words * 8) 0

end Paging

end Microkernel
