import Microkernel.Interface.Identifier

/-!
# States of a process

What a slot of the process table holds, and what the process in it is waiting for.
-/

namespace Microkernel

/-- What a live process is waiting for. -/
inductive Activity where
  /-- Nothing: the process can be put on the processor. -/
  | runnable
  /-- Its timer. -/
  | sleeping
  /-- Bytes in a pipe, or the end of the pipe. -/
  | readingPipe (pipe : PipeId)
  /-- Room in a pipe, or the end of the pipe. -/
  | writingPipe (pipe : PipeId)
  deriving DecidableEq, Repr

/-- What a slot of the process table holds. -/
inductive ProcessState where
  /-- Nothing: a new process can take the slot. -/
  | vacant
  /-- A live process. -/
  | live (activity : Activity)
  deriving DecidableEq, Repr

namespace Activity

/-- The wording of an activity in diagnostics. -/
def describe : Activity → String
  | runnable => "Runnable"
  | sleeping => "Sleeping"
  | readingPipe pipe => s!"InPipeRead(PipeId({pipe.index}))"
  | writingPipe pipe => s!"InPipeWrite(PipeId({pipe.index}))"

end Activity

namespace ProcessState

/-- The state of a slot that has not been used. -/
def initial : ProcessState := vacant

/-- Whether the process waits for bytes in a given pipe. -/
def isReading (state : ProcessState) (pipe : PipeId) : Bool :=
  state == live (.readingPipe pipe)

/-- Whether the process waits for room in a given pipe. -/
def isWriting (state : ProcessState) (pipe : PipeId) : Bool :=
  state == live (.writingPipe pipe)

/-- Whether the process waits for anything to happen to a given pipe. -/
def isBlockedOn (state : ProcessState) (pipe : PipeId) : Bool :=
  state.isReading pipe || state.isWriting pipe

/-- Whether the slot holds nothing. -/
def isVacant (state : ProcessState) : Bool :=
  state == vacant

/-- Whether the slot holds a process that can be put on the processor. -/
def isRunnable (state : ProcessState) : Bool :=
  state == live .runnable

/-- The wording of a state in diagnostics. -/
def describe : ProcessState → String
  | vacant => "Vacant"
  | live activity => s!"Healthy({activity.describe})"

end ProcessState

end Microkernel
