import Microkernel.Config
import Microkernel.Word

/-!
# Addresses

Physical and virtual addresses are kept apart by their types.  Passing from one to the other names
the mapping that is relied on.
-/

namespace Microkernel

/-- The two address spaces. -/
inductive AddressSpace where
  /-- Addresses on the bus. -/
  | physical
  /-- Addresses as the page tables show them. -/
  | virtual
  deriving DecidableEq, Repr

/-- An address in one of the two spaces. -/
structure Address (space : AddressSpace) where
  value : Nat
  deriving DecidableEq, Repr

namespace Address

variable {space : AddressSpace}

/-- Whether an address is the first of a page. -/
def isPageAligned (address : Address space) : Bool :=
  address.value % Config.pageSize == 0

def pageFloor (address : Address space) : Address space :=
  ⟨address.value / Config.pageSize * Config.pageSize⟩

/-- The first page boundary at or after an address, if it is in the address space. -/
def pageCeil? (address : Address space) : Option (Address space) := do
  let above ← Word.sum? address.value (Config.pageSize - 1)
  return pageFloor ⟨above⟩

/-- The address a number of bytes further on, if it is in the address space. -/
def add? (address : Address space) (bytes : Nat) : Option (Address space) := do
  return ⟨← Word.sum? address.value bytes⟩

/-- Where a physical address is visible under an identity mapping. -/
def identityMapped (address : Address .physical) : Address .virtual :=
  ⟨address.value⟩

/-- The physical address behind a virtual one under an identity mapping. -/
def identityOf (address : Address .virtual) : Address .physical :=
  ⟨address.value⟩

/-- The wording of an address in diagnostics. -/
def describe (address : Address space) : String :=
  match space with
  | .physical => s!"PhysAddr({address.value})"
  | .virtual => s!"VirtAddr({address.value})"

@[simp] theorem identityOf_identityMapped (address : Address .physical) :
    address.identityMapped.identityOf = address := rfl

@[simp] theorem identityMapped_identityOf (address : Address .virtual) :
    address.identityOf.identityMapped = address := rfl

end Address

end Microkernel
