import Microkernel.Config

/-!
# Page descriptors

The words of a page table and the bits in them.  Tables have four levels; a descriptor
either maps a block or page, or points to the table of the next level.
-/

namespace Microkernel

/-- What a program may do in one block or page. -/
inductive UserAccess where
  /-- Nothing. -/
  | none
  /-- Read and execute. -/
  | readOnly
  /-- Read, write and execute. -/
  | readWrite
  deriving DecidableEq, Repr

namespace UserAccess

/-- Every kind of access. -/
def all : List UserAccess := [none, readOnly, readWrite]

/-- The word for an access in diagnostics. -/
def name : UserAccess → String
  | none => "None"
  | readOnly => "ReadOnly"
  | readWrite => "ReadWrite"

/-- The access with a given name. -/
def ofName? (name : String) : Option UserAccess :=
  all.find? fun access => access.name == name

end UserAccess

/-- A word of a page table. -/
structure Descriptor where
  /-- The bits of the word. -/
  bits : UInt64
  deriving DecidableEq, Repr

namespace Descriptor

/-- The bits of either of two descriptors. -/
def union (first second : Descriptor) : Descriptor :=
  ⟨first.bits ||| second.bits⟩

instance : OrOp Descriptor := ⟨union⟩

/-- The descriptor with a single bit. -/
def bit (place : UInt64) : Descriptor :=
  ⟨(1 : UInt64) <<< place⟩

/-- The descriptor maps something. -/
def valid : Descriptor := bit 0

/-- The descriptor points to a table, or maps a page at the last level. -/
def table : Descriptor := bit 1

/-- Device memory. -/
def device : Descriptor := bit 2

/-- Programs have access. -/
def user : Descriptor := bit 6

/-- Nobody can write. -/
def readOnly : Descriptor := bit 7

/-- Caches of all processors agree. -/
def shared : Descriptor := bit 8 ||| bit 9

/-- No fault is taken on the first access. -/
def accessed : Descriptor := bit 10

/-- The kernel cannot execute. -/
def kernelExecuteNever : Descriptor := bit 53

/-- Programs cannot execute. -/
def userExecuteNever : Descriptor := bit 54

/-- The bits that hold an address. -/
def addressMask : UInt64 := 0x0000FFFFFFFFF000

/-- The attribute register that goes with the attribute bits used here. -/
def memoryAttributes : UInt64 := 0xFF

/-- Whether a descriptor has all the bits of another. -/
def includes (descriptor wanted : Descriptor) : Bool :=
  descriptor.bits &&& wanted.bits == wanted.bits

/-- The address in a descriptor. -/
def address (descriptor : Descriptor) : Nat :=
  (descriptor.bits &&& addressMask).toNat

/-- The bits of a descriptor besides its address. -/
def attributes (descriptor : Descriptor) : UInt64 :=
  descriptor.bits &&& ~~~addressMask

/-- The descriptor that holds nothing but an address. -/
def ofAddress (address : Nat) : Descriptor :=
  ⟨address.toUInt64 &&& addressMask⟩

/-- A pointer to the table of the next level. -/
def nextTable (address : Nat) : Descriptor :=
  ofAddress address ||| valid ||| table

/-- A block of normal memory, which the kernel never executes once programs have access. -/
def normalBlock (address : Nat) (access : UserAccess) : Descriptor :=
  let base := ofAddress address ||| valid ||| shared ||| accessed
  match access with
  | .none => base ||| userExecuteNever
  | .readOnly => base ||| user ||| readOnly ||| kernelExecuteNever
  | .readWrite => base ||| user ||| kernelExecuteNever

/-- A block of device memory, which nobody executes. -/
def deviceBlock (address : Nat) : Descriptor :=
  ofAddress address ||| valid ||| device ||| accessed ||| kernelExecuteNever ||| userExecuteNever

/-- The page descriptor that corresponds to a block descriptor. -/
def asPage (block : Descriptor) : Descriptor :=
  block ||| table

end Descriptor

end Microkernel
