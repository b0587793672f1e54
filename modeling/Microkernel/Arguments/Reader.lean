import Microkernel.Arguments.Writer

/-!
# Reading argument blocks

A program reads its arguments one after the other.  A block may come from anywhere: a pointer that
does not lead to a text inside the block ends the reading.
-/

namespace Microkernel

/-- The arguments of a program, some of which have been read. -/
structure Arguments where
  block : List UInt8
  /-- The address at which the program sees the block. -/
  base : Nat
  /-- The number of arguments that the block announces. -/
  count : Nat
  /-- The number of arguments that have been read. -/
  position : Nat
  deriving DecidableEq, Repr

namespace Arguments

/-- The word at an offset into a block. -/
def wordAt (block : List UInt8) (offset : Nat) : Nat :=
  Word.ofBytes ((block.drop offset).take pointerSize)

/-- The arguments in a block, provided that it has room for their number and pointers. -/
def parse? (block : List UInt8) (base : Nat) : Option Arguments :=
  if block.length < pointerSize then none
  else do
    let count := wordAt block 0
    let pointersEnd ← ArgumentWriter.textOffset? count
    if block.length < pointersEnd then none
    else return { block, base, count, position := 0 }

/-- The text at the start of a list of bytes, if it has a terminator. -/
def terminated? (bytes : List UInt8) : Option (List UInt8) :=
  let text := bytes.takeWhile (· != 0)
  if text.length < bytes.length then some text else none

/-- The text that the next pointer leads to. -/
def text? (arguments : Arguments) : Option (List UInt8) :=
  if arguments.count ≤ arguments.position then none
  else do
    let pointer := wordAt arguments.block (pointerSize + arguments.position * pointerSize)
    let offset ← Word.difference? pointer arguments.base
    if arguments.block.length < offset then none
    else terminated? (arguments.block.drop offset)

/-- The next argument and those after it, unless the reading has ended. -/
def next? (arguments : Arguments) : Option (List UInt8 × Arguments) := do
  return (← arguments.text?, { arguments with position := arguments.position + 1 })

/-- The results of asking for the next argument a number of times, where nothing can go wrong. -/
def ask (arguments : Arguments) : Nat → List (Option (List UInt8))
  | 0 => []
  | times + 1 =>
      match arguments.next? with
      | some (text, rest) => some text :: rest.ask times
      | none => none :: arguments.ask times

/-- The next arguments up to the end of the reading, of which there are at most a given number. -/
def upToEnd (arguments : Arguments) : Nat → List (List UInt8)
  | 0 => []
  | most + 1 =>
      match arguments.next? with
      | some (text, rest) => text :: rest.upToEnd most
      | none => []

/-- The arguments up to the end of the reading. -/
def toList (arguments : Arguments) : List (List UInt8) :=
  arguments.upToEnd arguments.count

/-! ## Step by step

A program that asks for its next argument looks into the block itself, with offsets that it takes
to be words inside the block.
-/

/-- The word at an offset, which the caller takes to be inside the block. -/
def loadWord (block : List UInt8) (offset : Nat) : Checked Nat := do
  if (← Word.sum offset pointerSize) ≤ block.length then return wordAt block offset
  else throw .outOfRange

/-- The bytes from an offset on, if it is not behind the end of the block. -/
def suffix? (block : List UInt8) (offset : Nat) : Option (List UInt8) :=
  if block.length < offset then none else some (block.drop offset)

/-- The pointer at a place of the pointer table. -/
def pointer (arguments : Arguments) (place : Nat) : Checked Nat := do
  loadWord arguments.block (← Word.sum pointerSize (← Word.product place pointerSize))

/-- The text to which a pointer leads, if it leads to one inside the block. -/
def follow? (arguments : Arguments) (pointer : Nat) : Option (List UInt8) := do
  terminated? (← suffix? arguments.block (← Word.difference? pointer arguments.base))

/-- Ask for the next argument once. -/
def step (arguments : Arguments) : Checked (Option (List UInt8) × Arguments) := do
  if arguments.count ≤ arguments.position then return (none, arguments)
  else
    match arguments.follow? (← arguments.pointer arguments.position) with
    | none => return (none, arguments)
    | some text =>
        return (some text, { arguments with position := ← Word.sum arguments.position 1 })

/-- Ask for the next argument a number of times. -/
def steps (arguments : Arguments) : Nat → Checked (List (Option (List UInt8)))
  | 0 => return []
  | times + 1 => do
      let (result, rest) ← arguments.step
      return result :: (← rest.steps times)

end Arguments

end Microkernel
