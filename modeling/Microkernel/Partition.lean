import Microkernel.Crash

/-!
# Binary search

The search halves a range of candidates until one is left.  On a list whose elements with a
property come first it finds their number; on any other list it still gives some position, and
looks at the same elements.
-/

namespace Microkernel

namespace Partition

/-- Whether the element at a position has a property. -/
def probe {α : Type} (holds : α → Checked Bool) (elements : List α) (position : Nat) :
    Checked Bool :=
  match elements[position]? with
  | some element => holds element
  | none => .error .outOfRange

/-- Narrow the candidates `[base, base + size)` down to one, keeping the upper half as long as its
first element has the property. -/
def narrow {α : Type} (holds : α → Checked Bool) (elements : List α) (base size : Nat) :
    Checked Nat :=
  if 1 < size then do
    let half := size / 2
    if ← probe holds elements (base + half) then narrow holds elements (base + half) (size - half)
    else narrow holds elements base (size - half)
  else .ok base
termination_by size

/-- The position before which the elements have a property, found by halving. -/
def point {α : Type} (holds : α → Checked Bool) (elements : List α) : Checked Nat :=
  if elements.isEmpty then .ok 0
  else do
    let base ← narrow holds elements 0 elements.length
    if ← probe holds elements base then return base + 1 else return base

end Partition

end Microkernel
