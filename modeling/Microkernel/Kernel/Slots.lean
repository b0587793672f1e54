import Microkernel.Boot.Bootstrap
import Microkernel.Process

/-!
# Pages of the process slots

Before any process exists, each slot is given its pages out of the boot arena.  No run of pages
covers the address at which processes see their arguments.
-/

namespace Microkernel

/-- A computation that takes pages out of an arena and may run out of them. -/
abbrev CarveM := EStateM BootError (Arena .virtual)

namespace Slots

/-- Take a run of pages out of the arena. -/
def takeRun (pages : Nat) : CarveM Nat := do
  match (← get).allocate? pages with
  | none => throw .outOfPages
  | some (arena, first) =>
      set arena
      return first.value

/-- Whether a run of pages covers the address at which processes see their arguments. -/
def coversArguments (first pages : Nat) : Bool :=
  first ≤ Config.argumentAddress && Config.argumentAddress < first + pages * Config.pageSize

/-- Take a run of pages that does not cover the argument address.  Runs are taken in the order of
their addresses, so the run behind one that covers it does not. -/
def carve (pages : Nat) : CarveM Nat := do
  let first ← takeRun pages
  if coversArguments first pages then takeRun pages else return first

def carveSlot : CarveM SlotMemory := do
  let stack ← carve Config.stackPages
  let arguments ← carve 1
  let heap ← carve Config.heapPages
  let tables ← carve Paging.processPages
  return { stack, arguments, heap, tables }

/-- Take the pages of a number of slots. -/
def carveAll (slots : Nat) : CarveM (Vector SlotMemory slots) :=
  (Vector.range slots).mapM fun _ => carveSlot

/-- The line for the log once every slot has its pages. -/
def report (slots : Nat) (arena : Arena .virtual) : Checked String := do
  let stop ← arena.stop
  return s!"{slots} process slots, arena now {Word.hexText stop.value}"

end Slots

end Microkernel
