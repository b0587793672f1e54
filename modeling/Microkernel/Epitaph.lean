/-!
# Epitaphs

When the kernel dies it leaves as much of the reason as fits in a buffer of fixed length.
-/

namespace Microkernel

/-- A buffer of fixed length that is filled from its start. -/
structure Epitaph where
  /-- The bytes that were written. -/
  written : List UInt8
  /-- The number of bytes that still fit. -/
  room : Nat
  deriving DecidableEq, Repr

namespace Epitaph

/-- The length of the kernel's epitaph. -/
def kernelLength : Nat := 128

/-- A buffer in which nothing has been written. -/
def empty (length : Nat) : Epitaph where
  written := []
  room := length

/-- The buffer after a text was written, of which what does not fit is dropped. -/
def write (epitaph : Epitaph) (text : String) : Epitaph :=
  let bytes := text.toUTF8.toList
  { written := epitaph.written ++ bytes.take epitaph.room
    room := epitaph.room - bytes.length }

/-- The buffer after several texts were written. -/
def writeAll (epitaph : Epitaph) (texts : List String) : Epitaph :=
  texts.foldl write epitaph

/-- All bytes of the buffer, with zeros behind those that were written. -/
def bytes (epitaph : Epitaph) : List UInt8 :=
  epitaph.written ++ List.replicate epitaph.room 0

end Epitaph

end Microkernel
