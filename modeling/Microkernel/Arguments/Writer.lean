import Microkernel.Config
import Microkernel.Memory

/-!
# Writing argument blocks

A process finds its arguments in one block: their number, a pointer to each of them, a null
pointer, and then the texts with their terminators.  The block is written where the kernel sees
it, while its pointers say where the process will see it.
-/

namespace Microkernel

/-- The size of a pointer, and of the number of arguments. -/
def pointerSize : Nat := 8

/-- A computation that changes memory and may crash half-way. -/
abbrev MemoryM := EStateM Crash Memory

/-- An argument block that is being written. -/
structure ArgumentWriter where
  /-- The address at which the kernel sees the block. -/
  block : Nat
  size : Nat
  /-- The address at which the process sees the block. -/
  base : Nat
  /-- The number of arguments that were announced. -/
  announced : Nat
  /-- The number of arguments that were written. -/
  written : Nat
  nextText : Nat
  deriving DecidableEq, Repr

namespace ArgumentWriter

/-- The offset of the first text behind the pointers to a number of arguments, if it is in the
address space. -/
def textOffset? (count : Nat) : Option Nat := do
  let pointers ← Word.sum? count 1
  Word.sum? (← Word.product? pointers pointerSize) pointerSize

/-- The texts come behind the number of arguments, the pointers and the null pointer. -/
theorem textOffset?_eq_some_iff {count offset : Nat} :
    textOffset? count = some offset ↔
      pointerSize + (count + 1) * pointerSize < Word.limit ∧
        pointerSize + (count + 1) * pointerSize = offset := by
  simp only [textOffset?, Option.bind_eq_bind, Option.bind_eq_some_iff, Word.sum?_eq_some_iff,
    Word.product?_eq_some_iff, pointerSize, Word.limit]
  constructor
  · rintro ⟨_, ⟨_, rfl⟩, _, ⟨_, rfl⟩, small, rfl⟩
    omega
  · rintro ⟨small, rfl⟩
    exact ⟨_, ⟨by omega, rfl⟩, _, ⟨by omega, rfl⟩, by omega, by omega⟩

/-- A writer for a number of arguments, provided that the block has room for the pointers. -/
def start? (block size base count : Nat) : Option ArgumentWriter := do
  let nextText ← textOffset? count
  if nextText ≤ size then
    return { block, size, base, announced := count, written := 0, nextText }
  else none

/-- Store a pointer at a place of the pointer table. -/
def storePointer (writer : ArgumentWriter) (place pointer : Nat) : MemoryM Unit :=
  modify fun memory =>
    memory.writeWord (writer.block + pointerSize + place * pointerSize) pointer.toUInt64

/-- Write the next argument, given without its terminator.  Nothing is written if it is one too
many or does not fit. -/
def push? (writer : ArgumentWriter) (text : List UInt8) : MemoryM (Option ArgumentWriter) := do
  let stop := writer.nextText + text.length
  if writer.written = writer.announced ∨ writer.size ≤ stop then return none
  else
    modify fun memory => memory.write (writer.block + writer.nextText) (text ++ [0])
    match Word.sum? writer.base writer.nextText with
    | none => throw .overflow
    | some pointer =>
        writer.storePointer writer.written pointer
        return some { writer with written := writer.written + 1, nextText := stop + 1 }

/-- Write the number of arguments and the null pointer, once all arguments have been written, and
tell how much of the block is in use. -/
def finish (writer : ArgumentWriter) : MemoryM Nat := do
  if writer.written = writer.announced then
    modify fun memory => memory.writeWord writer.block writer.announced.toUInt64
    writer.storePointer writer.announced 0
    return writer.nextText
  else throw .checkFailed

end ArgumentWriter

end Microkernel
