import Microkernel.Partition
import Microkernel.Region

/-!
# Checking a range against a region table

A process may touch a range of addresses if every byte of it lies in one of its regions with the
rights that the touch needs.  The range may run across regions that abut.  The table is taken to
be sorted by address and free of overlaps.
-/

namespace Microkernel

/-- A range of addresses that a process has named. -/
structure Span where
  /-- The first address. -/
  base : Nat
  /-- The first address after the range. -/
  stop : Nat
  /-- Whether the range has no address. -/
  isEmpty : Bool
  deriving DecidableEq, Repr

namespace Region

/-- Whether the regions, taken one after the other, cover the addresses from `cursor` to `stop`
without a gap and with the rights that are needed. -/
def cover (needed : Rights) : List Region → (cursor stop : Nat) → Checked Bool
  | [], _, _ => .ok false
  | region :: rest, cursor, stop =>
      if cursor < region.base ∨ region.rights.includes needed = false then .ok false
      else do
        let next ← region.stop
        if stop ≤ next then return true else cover needed rest next stop

/-- Whether a region ends at or before an address. -/
def endsBy (address : Nat) (region : Region) : Checked Bool :=
  return (← region.stop) ≤ address

/-- Whether the owner of a region table may touch every address of a range.  An empty range is
always allowed, wherever it lies. -/
def canAccess (table : List Region) (span : Span) (needed : Rights) : Checked Bool :=
  if span.isEmpty then .ok true
  else do
    let first ← Partition.point (endsBy span.base) table
    cover needed (table.drop first) span.base span.stop

/-- The furthest address, not beyond `limit`, up to which the regions, taken one after the other,
are readable without a gap from `cursor` on. -/
def readableUpTo (limit : Nat) : List Region → (cursor : Nat) → Checked Nat
  | [], cursor => .ok (min cursor limit)
  | region :: rest, cursor =>
      if limit ≤ cursor then .ok (min cursor limit)
      else do
        if ← region.contains cursor then
          if region.rights.includes .read then readableUpTo limit rest (← region.stop)
          else return min cursor limit
        else return min cursor limit

/-- The number of readable bytes from an address on, at most a given number.  The limit is a word,
so the last address of all is never counted. -/
def readableExtent (table : List Region) (address most : Nat) : Checked Nat := do
  let limit := Word.saturatingSum address most
  let first ← Partition.point (endsBy address) table
  Word.difference (← readableUpTo limit (table.drop first) address) address

end Region

end Microkernel
