import Microkernel.Word

/-!
# Byte rings

A ring is a queue of bytes in a buffer of fixed size.  Reading and writing start at cursors that
run around the buffer; the number of queued bytes tells a full ring from an empty one.
-/

namespace Microkernel

/-- A queue of at most `capacity` bytes. -/
structure Ring (capacity : Nat) where
  buffer : Vector UInt8 capacity
  /-- The position of the next byte to be read. -/
  readIndex : Nat
  /-- The position of the next byte to be written. -/
  writeIndex : Nat
  length : Nat
  deriving DecidableEq, Repr

namespace Ring

variable {capacity : Nat}

def empty (capacity : Nat) : Ring capacity where
  buffer := Vector.replicate capacity 0
  readIndex := 0
  writeIndex := 0
  length := 0

/-- The number of bytes that a ring still takes. -/
def free (ring : Ring capacity) : Checked Nat :=
  Word.difference capacity ring.length

def isEmpty (ring : Ring capacity) : Bool :=
  ring.length == 0

def isFull (ring : Ring capacity) : Bool :=
  ring.length == capacity

/-- A buffer with bytes put one after the other from a position on. -/
def place (buffer : Vector UInt8 capacity) (start : Nat) : List UInt8 → Vector UInt8 capacity
  | [] => buffer
  | byte :: rest => place (buffer.setIfInBounds start byte) (start + 1) rest

/-- A buffer with bytes put one after the other from a position on, all of which must lie inside
the buffer. -/
def overwrite (buffer : Vector UInt8 capacity) (start : Nat) (bytes : List UInt8) :
    Checked (Vector UInt8 capacity) :=
  if start + bytes.length ≤ capacity then .ok (place buffer start bytes) else .error .outOfRange

/-- The bytes of a part of a buffer, which must lie inside the buffer. -/
def segment (buffer : Vector UInt8 capacity) (start length : Nat) : Checked (List UInt8) :=
  if start + length ≤ capacity then .ok ((buffer.toList.drop start).take length)
  else .error .outOfRange

/-- The bytes of a list from one position up to another, which must lie in it in this order. -/
def slice (bytes : List UInt8) (start stop : Nat) : Checked (List UInt8) :=
  if start ≤ stop ∧ stop ≤ bytes.length then .ok ((bytes.take stop).drop start)
  else .error .outOfRange

/-- A list with bytes put one after the other from a position on, all of which must lie inside the
list. -/
def splice (destination : List UInt8) (start : Nat) (bytes : List UInt8) :
    Checked (List UInt8) :=
  if start + bytes.length ≤ destination.length then
    .ok (destination.take start ++ bytes ++ destination.drop (start + bytes.length))
  else .error .outOfRange

/-- The position a number of bytes behind a cursor, around the end of the buffer. -/
def advance (capacity cursor count : Nat) : Checked Nat :=
  if capacity = 0 then return cursor else return (← Word.sum cursor count) % capacity

/-- The ring after as many of the bytes as fit have been put in, and their number.  They go into
the buffer in at most two runs, up to its end and from its start. -/
def write (ring : Ring capacity) (bytes : List UInt8) : Checked (Ring capacity × Nat) := do
  let count := min bytes.length (← ring.free)
  let first := min count (← Word.difference capacity ring.writeIndex)
  let buffer ← overwrite ring.buffer ring.writeIndex (← slice bytes 0 first)
  let buffer ← overwrite buffer 0 (← slice bytes first count)
  let writeIndex ← advance capacity ring.writeIndex count
  return ({ ring with buffer, writeIndex, length := ← Word.sum ring.length count }, count)

/-- The ring after up to a given number of bytes have been taken out, and those bytes.  They come
from the buffer in at most two runs, up to its end and from its start. -/
def takeOut (ring : Ring capacity) (most : Nat) :
    Checked (Ring capacity × List UInt8 × List UInt8) := do
  let count := min most ring.length
  let first := min count (← Word.difference capacity ring.readIndex)
  let near ← segment ring.buffer ring.readIndex first
  let far ← segment ring.buffer 0 (count - first)
  let readIndex ← advance capacity ring.readIndex count
  return ({ ring with readIndex, length := ring.length - count }, near, far)

/-- The ring after up to a given number of bytes have been taken out, and those bytes. -/
def read (ring : Ring capacity) (most : Nat) : Checked (Ring capacity × List UInt8) := do
  let (ring, near, far) ← ring.takeOut most
  return (ring, near ++ far)

/-- The ring after as many bytes as a destination has room for have been taken out, the destination
with them at its start, and their number. -/
def readInto (ring : Ring capacity) (destination : List UInt8) :
    Checked (Ring capacity × List UInt8 × Nat) := do
  let (ring, near, far) ← ring.takeOut destination.length
  let destination ← splice destination 0 near
  let destination ← splice destination near.length far
  return (ring, destination, near.length + far.length)

/-- The ring after everything in it has been discarded. -/
def clear (ring : Ring capacity) : Ring capacity :=
  { ring with readIndex := 0, writeIndex := 0, length := 0 }

/-- The wording of a ring in diagnostics, which leaves out the bytes. -/
def describe (ring : Ring capacity) : String :=
  s!"Ring \x7b capacity: {capacity}, read_index: {ring.readIndex}, " ++
    s!"write_index: {ring.writeIndex}, len: {ring.length} \x7d"

end Ring

end Microkernel
