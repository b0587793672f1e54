import Microkernel.Config
import Microkernel.Partition
import Microkernel.Region

/-!
# Region tables

A process's regions are kept in order of their bases.  A region is granted only if there is room
and it overlaps none that is already there, and is put where a binary search for its base ends.
-/

namespace Microkernel

namespace Region

/-- Whether a region begins before an address. -/
def beginsBefore (address : Nat) (region : Region) : Checked Bool :=
  return region.base < address

/-- A table with one more region, or nothing if the region conflicts with the table. -/
def grant? (table : List Region) (region : Region) : Checked (Option (List Region)) := do
  if ← table.anyM (·.overlaps region) then return Option.none
  else do
    let place ← Partition.point (beginsBefore region.base) table
    if table.length < Config.maxRegions then return some (table.insertIdx place region)
    else return Option.none

/-- A table with more regions, granted in turn up to the first that conflicts, and whether all of
them were granted. -/
def grantAll (table : List Region) : List Region → Checked (List Region × Bool)
  | [] => .ok (table, true)
  | region :: rest => do
      match ← grant? table region with
      | some larger => grantAll larger rest
      | Option.none => return (table, false)

/-- A table with those of several regions, tried in turn, that can be granted, and which ones could
be. -/
def grantEach (table : List Region) : List Region → Checked (List Region × List Bool)
  | [] => .ok (table, [])
  | region :: rest => do
      let granted ← grant? table region
      let (table, answers) ← grantEach (granted.getD table) rest
      return (table, granted.isSome :: answers)

/-- A table in which the first region with a given base has another size. -/
def resize (base size : Nat) : List Region → List Region
  | [] => []
  | region :: rest =>
      if region.base = base then { region with size } :: rest else region :: resize base size rest

end Region

end Microkernel
