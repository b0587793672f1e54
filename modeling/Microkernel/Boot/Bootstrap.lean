import Microkernel.Arena
import Microkernel.Boot.Record
import Microkernel.Paging.Map

/-!
# Building the first page map

The map lies in the pages between the kernel and the device tree, which then form the arena from
which everything else is taken.  Either all of it works out, or nothing is changed.
-/

namespace Microkernel

/-- The reasons for which the kernel cannot start. -/
inductive BootError where
  | badRecord
  | badDeviceTree
  | noRoomForArena
  | outOfPages
  deriving DecidableEq, Repr

namespace BootError

/-- The word for a reason in diagnostics. -/
def name : BootError → String
  | badRecord => "BadRecord"
  | badDeviceTree => "BadDeviceTree"
  | noRoomForArena => "NoRoomForArena"
  | outOfPages => "OutOfPages"

def message : BootError → String
  | badRecord => "MMU bootstrap record corrupt"
  | badDeviceTree => "no device tree header"
  | noRoomForArena => "no free pages between kernel and device tree"
  | outOfPages => "out of boot pages"

end BootError

/-- Where things lie in memory when the kernel is entered. -/
structure BootLayout where
  kernelStart : Address .physical
  kernelStop : Address .physical
  tree : Address .physical
  treeSize : Nat
  /-- The widths of numbers in the device tree. -/
  properties : Nat
  deriving DecidableEq, Repr

/-- What there is once the first page map is built. -/
structure BootOutcome where
  record : BootRecord
  arena : Arena .physical
  memory : Memory
  line : String

namespace Boot

/-- The word with which a device tree begins. -/
def treeMagic : Nat := 0xD00DFEED

/-- The number whose bytes are given, the most significant one first. -/
def bigEndian (bytes : List UInt8) : Nat :=
  Word.ofBytes bytes.reverse

/-- The size of a device tree as its header gives it. -/
def treeSize (memory : Memory) (tree : Address .physical) : Except BootError Nat :=
  if bigEndian (memory.read tree.value 4) = treeMagic then
    .ok (bigEndian (memory.read (tree.value + 4) 4))
  else .error .badDeviceTree

/-- An optional value whose absence is the given reason not to start. -/
def orFail {α : Type} (error : BootError) : Option α → ExceptT BootError Checked α
  | some value => return value
  | none => throw error

def bootstrap (record : BootRecord) (layout : BootLayout) (deviceBase : Nat) (memory : Memory) :
    ExceptT BootError Checked BootOutcome := do
  if record.magic ≠ BootRecord.expectedMagic then throw .badRecord
  let arenaBase ← orFail .noRoomForArena layout.kernelStop.pageCeil?
  let treeStart := layout.tree.pageFloor
  let treeStop ← orFail .badDeviceTree ((layout.tree.add? layout.treeSize).bind (·.pageCeil?))
  if treeStart.value ≤ arenaBase.value then throw .noRoomForArena
  let (arena, tables) ←
    orFail .outOfPages ((Arena.fresh arenaBase treeStart).allocate? Paging.bootPages)
  let memory ← ExceptT.lift (Paging.zeroPages memory tables.value Paging.bootPages)
  let memory := Paging.writeBootMap memory tables.value deviceBase
  let root := Word.hexText tables.value
  let start := Word.hexText arena.base.value
  let stop := Word.hexText arena.bound.value
  return {
    record := {
      magic := BootRecord.expectedMagic
      rootTable := tables.value
      arenaBase := arena.base.value
      arenaAllocated := arena.allocated
      arenaBound := arena.bound.value
      properties := layout.properties
      treeStart := treeStart.value
      treeStop := treeStop.value
      kernelStart := layout.kernelStart.value
      kernelStop := layout.kernelStop.value }
    arena
    memory
    line := s!"boot map at {root}, arena {start}..{stop}" }

end Boot

end Microkernel
