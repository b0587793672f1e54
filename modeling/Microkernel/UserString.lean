import Microkernel.Interface.Fault
import Microkernel.Memory.Lemmas

/-!
# Texts named by a program

A program passes a text as the address of its first byte; the text ends before the first zero
byte.  The kernel looks at no more than a given number of bytes.
-/

namespace Microkernel

/-- What was found at the start of a window onto memory. -/
inductive UserString where
  | complete (bytes : List UInt8)
  | truncated (bytes : List UInt8)
  deriving DecidableEq, Repr

namespace UserString

def bytes : UserString → List UInt8
  | complete bytes => bytes
  | truncated bytes => bytes

/-- The bytes that were found, provided that they are the whole text. -/
def complete? : UserString → Option (List UInt8)
  | complete bytes => some bytes
  | truncated _ => none

def isComplete (string : UserString) : Bool :=
  string.complete?.isSome

/-- The text at the start of a window that holds every readable byte, up to a limit.  A window
that ends before the limit and before the text does is an offence. -/
def scan (window : List UInt8) (most : Nat) : Except UsageError UserString :=
  let window := window.take most
  let text := window.takeWhile (· != 0)
  if text.length < window.length then .ok (complete text)
  else if most ≤ window.length then .ok (truncated window)
  else .error .unterminatedString

/-- The text at an address, given the number of bytes from there on that can be read.  Only the
bytes of the text itself are copied out of the memory. -/
def ofMemory (memory : Memory) (address extent most : Nat) : Except UsageError UserString :=
  match memory.zeroWithin? address (min extent most) with
  | some length => .ok (complete (memory.read address length))
  | none =>
      if most ≤ extent then .ok (truncated (memory.read address most))
      else .error .unterminatedString

/-- The text found is the one in all the readable bytes. -/
theorem ofMemory_eq_scan_read (memory : Memory) (address extent most : Nat) :
    ofMemory memory address extent most = scan (memory.read address extent) most := by
  have leading : (memory.read address (min extent most)).takeWhile (· != 0) =
      (memory.read address (min extent most)).take
        ((memory.read address (min extent most)).findIdx (· == 0)) := by
    simp [List.takeWhile_eq_take_findIdx_not, bne]
  rw [ofMemory, scan, Memory.zeroWithin?_eq, Memory.take_read, Nat.min_comm most, leading]
  split
  next length found =>
      obtain ⟨small, found⟩ := List.findIdx?_eq_some_iff_findIdx_eq.1 found
      rw [Memory.length_read] at small
      rw [found, Memory.take_read, Nat.min_eq_left (by omega)]
      simp [small]
  next absent =>
      rw [List.findIdx?_eq_none_iff_findIdx_eq.1 absent]
      simp only [List.take_length]
      rw [if_neg (Nat.lt_irrefl _), Memory.length_read]
      by_cases limited : most ≤ extent
      · rw [if_pos limited, if_pos (by omega), Nat.min_eq_right limited]
      · rw [if_neg limited, if_neg (by omega)]

end UserString

end Microkernel
