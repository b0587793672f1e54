import Microkernel.Interface.Fault
import Microkernel.Region.Access

/-!
# Slices named by a program

A program names memory by a base address and a number of elements.  A `UserSlice` is such a pair
that makes sense: the base is aligned and the slice does not reach the end of the address space.
It says nothing about whether the program may touch the memory.
-/

namespace Microkernel

/-- The layout of one element of a slice. -/
structure ElementLayout where
  /-- The size of an element in bytes. -/
  size : Nat
  /-- The number that the address of an element is a multiple of. -/
  alignment : Nat
  deriving DecidableEq, Repr

namespace ElementLayout

/-- A single byte. -/
def byte : ElementLayout := ⟨1, 1⟩

/-- An unsigned number of 32 bits. -/
def word32 : ElementLayout := ⟨4, 4⟩

/-- An unsigned number of 64 bits. -/
def word64 : ElementLayout := ⟨8, 8⟩

end ElementLayout

/-- A range of aligned elements that ends before the address space does. -/
structure UserSlice (layout : ElementLayout) where
  /-- The address of the first element. -/
  base : Nat
  /-- The number of elements. -/
  length : Nat
  /-- The first element is aligned. -/
  aligned : base % layout.alignment = 0
  /-- The address after the last element is a machine word. -/
  fits : base + length * layout.size ≤ Word.largest

namespace UserSlice

variable {layout : ElementLayout}

theorem fits_of_low {layout : ElementLayout} {base length bytes : Nat}
    (counted : Word.product? length layout.size = some bytes)
    (low : base ≤ Word.largest - bytes) : base + length * layout.size ≤ Word.largest := by
  obtain ⟨small, rfl⟩ := (Word.product?_eq_some_iff _ _ _).1 counted
  have bytes_le : length * layout.size ≤ Word.largest := Nat.le_pred_of_lt small
  omega

/-- The slice with a given base and number of elements.  A base that is not aligned, or a slice
that reaches the end of the address space, is an offence.  Elements must have a size. -/
def ofRaw (layout : ElementLayout) (base length : Nat) : Guarded (UserSlice layout) := do
  ExceptT.lift (require (layout.size ≠ 0))
  if aligned : base % layout.alignment = 0 then
    match counted : Word.product? length layout.size with
    | none => throw (.usage .invalidSlice)
    | some bytes =>
        if low : base ≤ Word.largest - bytes then
          return { base, length, aligned, fits := fits_of_low counted low }
        else throw (.usage .invalidSlice)
  else throw (.usage .invalidSlice)

/-- The slice of a single element. -/
def single (layout : ElementLayout) (base : Nat) : Guarded (UserSlice layout) :=
  ofRaw layout base 1

/-- The first address after a slice, computed without a check: a slice fits. -/
def stop (slice : UserSlice layout) : Nat :=
  Word.wrappingSum slice.base (Word.wrappingProduct slice.length layout.size)

/-- Whether a slice has no element. -/
def isEmpty (slice : UserSlice layout) : Bool :=
  slice.length == 0

/-- The range of addresses of a slice. -/
def span (slice : UserSlice layout) : Span where
  base := slice.base
  stop := slice.stop
  isEmpty := slice.isEmpty

/-- A slice cut down to at most a given number of elements. -/
def truncate (slice : UserSlice layout) (most : Nat) : UserSlice layout where
  base := slice.base
  length := min slice.length most
  aligned := slice.aligned
  fits :=
    Nat.le_trans
      (Nat.add_le_add_left (Nat.mul_le_mul_right _ (Nat.min_le_left ..)) _) slice.fits

/-- The end of a slice is computed without wrapping. -/
theorem stop_eq (slice : UserSlice layout) :
    slice.stop = slice.base + slice.length * layout.size := by
  have bytes_fit := Nat.le_trans (Nat.le_add_left _ slice.base) slice.fits
  rw [stop, Word.wrappingProduct_eq bytes_fit, Word.wrappingSum_eq slice.fits]

/-- The wording of a slice in diagnostics. -/
def describe (slice : UserSlice layout) : String :=
  s!"USlice \x7b base_address: {slice.base}, length: {slice.length} \x7d"

end UserSlice

end Microkernel
