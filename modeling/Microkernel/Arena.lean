import Microkernel.Address

/-!
# Page arenas

An arena hands out pages in the order of their addresses and takes none back.  The page before the
bound is never handed out: the bound serves as a guard.
-/

namespace Microkernel

/-- A range of pages of which a first part has been handed out. -/
structure Arena (space : AddressSpace) where
  base : Address space
  /-- The number of pages that were handed out. -/
  allocated : Nat
  bound : Address space
  deriving DecidableEq, Repr

namespace Arena

variable {space : AddressSpace}

/-- An arena of which nothing has been handed out. -/
def fresh (base bound : Address space) : Arena space where
  base := base
  allocated := 0
  bound := bound

/-- The address a number of pages after an address, if it is in the address space. -/
def pagesAfter? (address pages : Nat) : Option Nat := do
  Word.sum? address (← Word.product? pages Config.pageSize)

/-- The arena after a run of pages was handed out, and the first address of the run.  There is none
if the run would reach the bound. -/
def allocate? (arena : Arena space) (pages : Nat) : Option (Arena space × Address space) := do
  let first ← pagesAfter? arena.base.value arena.allocated
  let stop ← pagesAfter? first pages
  if arena.bound.value ≤ stop then none
  else return ({ arena with allocated := arena.allocated + pages }, ⟨first⟩)

/-- The first address that was not handed out. -/
def stop (arena : Arena space) : Checked (Address space) := do
  return ⟨← Word.sum arena.base.value (← Word.product arena.allocated Config.pageSize)⟩

/-- The same pages in another address space. -/
def relocate {target : AddressSpace} (arena : Arena space)
    (address : Address space → Address target) : Arena target where
  base := address arena.base
  allocated := arena.allocated
  bound := address arena.bound

/-- The same pages as an identity mapping shows them. -/
def identityMapped (arena : Arena .physical) : Arena .virtual :=
  arena.relocate Address.identityMapped

end Arena

end Microkernel
