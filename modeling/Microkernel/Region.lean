import Microkernel.Word

/-!
# Regions of process memory

A region is a range of addresses together with the rights that its owner has there.  A region
whose end is not a word is a broken promise of whoever made it: asking for the end is then a
crash.
-/

namespace Microkernel

/-- A set of rights, one bit each. -/
structure Rights where
  /-- The bits of the rights in the set. -/
  bits : UInt32
  deriving DecidableEq, Repr

namespace Rights

/-- No right. -/
def none : Rights := ⟨0⟩

/-- The right to read. -/
def read : Rights := ⟨1⟩

/-- The right to write. -/
def write : Rights := ⟨2⟩

/-- The right to execute. -/
def execute : Rights := ⟨4⟩

/-- A mark rather than a right: the region is part of the program, which spawned processes
inherit. -/
def image : Rights := ⟨8⟩

/-- The rights in either of two sets. -/
def union (first second : Rights) : Rights :=
  ⟨first.bits ||| second.bits⟩

/-- The rights in a set but not in another. -/
def without (rights removed : Rights) : Rights :=
  ⟨rights.bits &&& ~~~removed.bits⟩

/-- Whether a set holds every right of another. -/
def includes (rights needed : Rights) : Bool :=
  rights.bits &&& needed.bits == needed.bits

/-- The rights of a process in its own stack and heap. -/
def readWrite : Rights := read.union write

end Rights

/-- A range of addresses and what its owner may do there. -/
structure Region where
  /-- The first address. -/
  base : Nat
  /-- The number of addresses. -/
  size : Nat
  /-- What the owner may do. -/
  rights : Rights
  deriving DecidableEq, Repr

namespace Region

/-- The first address after a region. -/
def stop (region : Region) : Checked Nat :=
  Word.sum region.base region.size

/-- Whether an address lies in a region. -/
def contains (region : Region) (address : Nat) : Checked Bool :=
  if region.base ≤ address then return address < (← region.stop) else return false

/-- Whether two regions have an address in common, an empty region counting as its own base. -/
def overlaps (region other : Region) : Checked Bool := do
  if region.base < (← other.stop) then return other.base < (← region.stop) else return false

end Region

end Microkernel
