import Microkernel.Pipe
import Microkernel.Schedule

/-!
# Letting go of pipes and processes

A process lets go of a pipe when it closes its handle, exits, or is ended for an offence.  The
pipe is hung up when its owner or its last writer lets go, or when a single holder is left, and it
is gone when nobody holds it.
-/

namespace Microkernel

/-- The processes and pipes of a system. -/
structure Tables (slots : Nat) where
  processes : ProcessTable slots
  pipes : PipeTable

namespace Tables

variable {slots : Nat}

/-- The tables with a change made to one process. -/
def modifyProcess (tables : Tables slots) (slot : Fin slots) (change : Process → Process) :
    Tables slots :=
  { tables with processes := tables.processes.set slot (change tables.processes[slot]) slot.isLt }

/-- Whether a pipe is hung up once a holder has let go of it. -/
def hangsUp (pipe : Pipe) (holder : Pid) (lastWriter : Bool) : Bool :=
  !pipe.hungUp && (pipe.owner == holder || lastWriter || pipe.references == 1)

/-- The tables after a process, whose handle is gone already, has let go of a pipe.  If this hangs
up the pipe, everyone who waits for it becomes runnable. -/
def release (tables : Tables slots) (holder : Fin slots) (id : PipeId) :
    Checked (Tables slots × Hint) := do
  let pid := tables.processes[holder].pid
  match tables.pipes.get? id with
  | none => throw (.died .missingPipe)
  | some pipe =>
      let references ← Word.difference pipe.references 1
      let (pipe, lastWriter) := { pipe with references }.dropWriter pid
      let kept (pipe : Pipe) : Option Pipe := if references = 0 then none else some pipe
      if hangsUp pipe pid lastWriter then
        let (processes, hint) := tables.processes.wake holder (·.isBlockedOn id)
        let pipes := tables.pipes.put id (kept { pipe with hungUp := true })
        return ({ processes, pipes }, hint)
      else
        return ({ tables with pipes := tables.pipes.put id (kept pipe) }, .same)

/-- The tables after a process has let go of the pipe at one position of its handle table, if
there is one, and the hint so far merged with the one that this leaves. -/
def releaseHandle (holder : Fin slots) (found : Tables slots × Hint)
    (position : Fin Config.maxHandles) : Checked (Tables slots × Hint) :=
  let (tables, hint) := found
  match tables.processes[holder].handles[position] with
  | none => return (tables, hint)
  | some id => do
      let tables := tables.modifyProcess holder fun process =>
        { process with handles := process.handles.set position none position.isLt }
      let (tables, later) ← tables.release holder id
      return (tables, hint.combine later)

/-- The tables after a process is gone: it lets go of its pipes, and its slot becomes vacant. -/
def reap (tables : Tables slots) (slot : Fin slots) : Checked (Tables slots × Hint) := do
  let (tables, hint) ←
    (List.finRange Config.maxHandles).foldlM (releaseHandle slot) (tables, .other)
  return (tables.modifyProcess slot (·.depart), hint)

end Tables

end Microkernel
