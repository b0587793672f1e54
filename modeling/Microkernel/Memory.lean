import Microkernel.Word

/-!
# Memory

A memory gives a byte to each address below `Word.limit`.  It is a binary tree over the bits of
the address, in which an evenly filled range is a single leaf, so that filling or copying a page
costs about as much as the page is long, wherever it lies.  `Memory.get` is the view in which
every other operation is stated.
-/

namespace Microkernel

/-- The contents of a range of addresses whose length is a power of two. -/
inductive ByteTree where
  /-- Every byte is the same. -/
  | uniform (byte : UInt8)
  /-- A lower and an upper half of equal length. -/
  | halves (lower upper : ByteTree)
  deriving Repr

namespace ByteTree

/-- The number of bytes in a range whose offsets have a given number of bits. -/
def span (width : Nat) : Nat := 1 <<< width

def split : ByteTree → ByteTree × ByteTree
  | uniform byte => (uniform byte, uniform byte)
  | halves lower upper => (lower, upper)

/-- Whether an offset lies in the lower half of a range of `span (width + 1)` bytes.  The bits of
the offset tell, so that no power has to be computed on the way to a byte. -/
@[inline] def inLower (width offset : Nat) : Bool :=
  offset >>> width == 0

/-- The byte at an offset into a range of `span width` bytes. -/
def get : Nat → ByteTree → Nat → UInt8
  | _, uniform byte, _ => byte
  | 0, halves lower _, _ => get 0 lower 0
  | width + 1, halves lower upper, offset =>
      if inLower width offset then get width lower offset
      else get width upper (offset - span width)

/-- Store one byte throughout the part `[start, stop)` of a range of `span width` bytes. -/
def fill : Nat → ByteTree → (start stop : Nat) → UInt8 → ByteTree
  | 0, tree, start, stop, byte => if start = 0 ∧ 0 < stop then uniform byte else tree
  | width + 1, tree, start, stop, byte =>
      if stop ≤ start then tree
      else if start = 0 ∧ span (width + 1) ≤ stop then uniform byte
      else
        let half := span width
        let (lower, upper) := tree.split
        halves (if start < half then fill width lower start (min stop half) byte else lower)
          (if half < stop then fill width upper (start - half) (stop - half) byte else upper)

/-- Store bytes one after the other from an offset on, dropping those that lie beyond a range of
`span width` bytes. -/
def write : Nat → ByteTree → (start : Nat) → List UInt8 → ByteTree
  | _, tree, _, [] => tree
  | 0, tree, start, byte :: _ => if start = 0 then uniform byte else tree
  | width + 1, tree, start, byte :: rest =>
      let (lower, upper) := tree.split
      if inLower width (start + rest.length) then
        halves (write width lower start (byte :: rest)) upper
      else if inLower width start then
        let (near, far) := (byte :: rest).splitAt (span width - start)
        halves (write width lower start near) (write width upper 0 far)
      else
        halves lower (write width upper (start - span width) (byte :: rest))

/-- The bytes of the part `[start, start + length)` of a range of `span width` bytes, put in front
of `rest`. -/
def readOnto : Nat → ByteTree → (start length : Nat) → List UInt8 → List UInt8
  | _, uniform byte, _, length, rest => List.replicate length byte ++ rest
  | 0, halves lower _, _, length, rest => List.replicate length (get 0 lower 0) ++ rest
  | width + 1, halves lower upper, start, length, rest =>
      if inLower width (start + length - 1) then readOnto width lower start length rest
      else if inLower width start then
        let half := span width
        readOnto width lower start (half - start)
          (readOnto width upper 0 (start + length - half) rest)
      else readOnto width upper (start - span width) length rest

/-- The first offset in the part `[start, stop)` of a range of `span width` bytes that holds zero.
An even range is settled by a single look, however long it is. -/
def findZero? : Nat → ByteTree → (start stop : Nat) → Option Nat
  | _, uniform byte, start, stop => if start < stop ∧ byte = 0 then some start else none
  | 0, halves lower _, start, stop =>
      if start < stop ∧ get 0 lower 0 = 0 then some start else none
  | width + 1, halves lower upper, start, stop =>
      let half := span width
      (if start < half then findZero? width lower start (min stop half) else none) <|>
        if half < stop then (findZero? width upper (start - half) (stop - half)).map (half + ·)
        else none

end ByteTree

/-- The contents of the whole address space. -/
structure Memory where
  tree : ByteTree
  deriving Repr

namespace Memory

def zero : Memory := ⟨.uniform 0⟩

instance : Inhabited Memory := ⟨zero⟩

/-- The byte at an address, which is zero beyond the address space. -/
def get (memory : Memory) (address : Nat) : UInt8 :=
  if address < Word.limit then memory.tree.get 64 address else 0

/-- Store one byte throughout a range of addresses. -/
def fill (memory : Memory) (address length : Nat) (byte : UInt8) : Memory :=
  ⟨memory.tree.fill 64 address (min (address + length) Word.limit) byte⟩

/-- Store bytes one after the other from an address on. -/
def write (memory : Memory) (address : Nat) (bytes : List UInt8) : Memory :=
  if address < Word.limit then ⟨memory.tree.write 64 address bytes⟩ else memory

/-- The bytes of a range of addresses. -/
def read (memory : Memory) (address length : Nat) : List UInt8 :=
  let inside := min length (Word.limit - address)
  memory.tree.readOnto 64 address inside (List.replicate (length - inside) 0)

/-- The number of bytes before the first zero byte of a range of addresses, if there is one. -/
def zeroWithin? (memory : Memory) (address length : Nat) : Option Nat :=
  match memory.tree.findZero? 64 address (min (address + length) Word.limit) with
  | some place => some (place - address)
  | none => if Word.limit - address < length then some (Word.limit - address) else none

/-- The word stored at an address, the least significant byte first. -/
def readWord (memory : Memory) (address : Nat) : UInt64 :=
  (Word.ofBytes (memory.read address 8)).toUInt64

/-- Store a word at an address, the least significant byte first. -/
def writeWord (memory : Memory) (address : Nat) (word : UInt64) : Memory :=
  memory.write address (Word.bytes word)

/-- Store words one after the other from an address on. -/
def writeWords (memory : Memory) (address : Nat) (words : List UInt64) : Memory :=
  memory.write address (words.flatMap Word.bytes)

/-- Copy a range of addresses to another place. -/
def copy (memory : Memory) (source target length : Nat) : Memory :=
  memory.write target (memory.read source length)

end Memory

end Microkernel
