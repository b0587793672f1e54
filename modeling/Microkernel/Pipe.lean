import Microkernel.Config
import Microkernel.Interface.Identifier
import Microkernel.Ring

/-!
# Pipes

A pipe is a ring of bytes that its owner has named.  Processes hold it through handles, each of
which counts as one reference.  Once a pipe is hung up nothing more goes in, and its name is free
again.
-/

namespace Microkernel

/-- A named ring of bytes. -/
structure Pipe where
  owner : Pid
  name : List UInt8
  ring : Ring Config.pipeCapacity
  /-- The number of handles on the pipe. -/
  references : Nat
  /-- The holders that have written to the pipe. -/
  writers : List Pid
  /-- Whether the pipe takes no more bytes. -/
  hungUp : Bool
  deriving DecidableEq, Repr

namespace Pipe

/-- A pipe that nobody but its owner holds. -/
def create (owner : Pid) (name : List UInt8) : Pipe where
  owner := owner
  name := name
  ring := .empty Config.pipeCapacity
  references := 1
  writers := []
  hungUp := false

/-- The pipe with one more writer, unless that is known already or the list of writers is full. -/
def noteWriter (pipe : Pipe) (writer : Pid) : Pipe :=
  if pipe.writers.contains writer || Config.maxProcesses ≤ pipe.writers.length then pipe
  else { pipe with writers := pipe.writers ++ [writer] }

/-- A list without the element at a position, whose place the last element takes. -/
def swapRemove (writers : List Pid) (position : Nat) : List Pid :=
  match writers.getLast? with
  | some last => (writers.set position last).dropLast
  | none => []

/-- The pipe without a writer, and whether that was the last one. -/
def dropWriter (pipe : Pipe) (writer : Pid) : Pipe × Bool :=
  match pipe.writers.findIdx? (· == writer) with
  | some position =>
      let writers := swapRemove pipe.writers position
      ({ pipe with writers }, writers.isEmpty)
  | none => (pipe, false)

/-- Whether the pipe is found under a name. -/
def isNamed (pipe : Pipe) (owner : Pid) (name : List UInt8) : Bool :=
  !pipe.hungUp && pipe.owner == owner && pipe.name == name

end Pipe

/-- Every pipe of the system. -/
abbrev PipeTable := Vector (Option Pipe) Config.maxPipes

namespace PipeTable

def empty : PipeTable := Vector.replicate Config.maxPipes none

def get? (table : PipeTable) (id : PipeId) : Option Pipe :=
  (table[id.index]?).join

/-- The table with another pipe, or none, at a position. -/
def put (table : PipeTable) (id : PipeId) (pipe : Option Pipe) : PipeTable :=
  table.setIfInBounds id.index pipe

/-- The number of pipes, hung up or not. -/
def count (table : PipeTable) : Nat :=
  table.countP (·.isSome)

/-- The position of the pipe that a process has open under a name. -/
def lookup? (table : PipeTable) (owner : Pid) (name : List UInt8) : Option PipeId :=
  (table.findFinIdx? fun slot => slot.any (·.isNamed owner name)).map fun slot => ⟨slot.val⟩

/-- The table with a new pipe at its first free position, and that position, if there is one. -/
def create? (table : PipeTable) (owner : Pid) (name : List UInt8) :
    Option (PipeTable × PipeId) := do
  let slot ← table.findFinIdx? (·.isNone)
  return (table.set slot (some (.create owner name)) slot.isLt, ⟨slot.val⟩)

end PipeTable

end Microkernel
