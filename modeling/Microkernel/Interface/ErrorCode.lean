/-!
# Error codes

The response words by which a call reports failure.  Zero stands for success.
-/

namespace Microkernel

/-- A reason for which a call fails without harm to the caller. -/
inductive ErrorCode where
  | generic
  | internal
  | unknownSyscall
  | invalidPriority
  | messageQueueEmpty
  | outOfMemory
  | invalidWindow
  | invalidFile
  | invalidDirectory
  | invalidPid
  | invalidPipe
  | pipeFull
  | pipeEmpty
  | pipeClosed
  deriving DecidableEq, Repr

namespace ErrorCode

/-- Every error, in the order of the codes. -/
def all : List ErrorCode :=
  [generic, internal, unknownSyscall, invalidPriority, messageQueueEmpty, outOfMemory,
    invalidWindow, invalidFile, invalidDirectory, invalidPid, invalidPipe, pipeFull, pipeEmpty,
    pipeClosed]

def code : ErrorCode → UInt64
  | generic => 1
  | internal => 2
  | unknownSyscall => 3
  | invalidPriority => 4
  | messageQueueEmpty => 5
  | outOfMemory => 6
  | invalidWindow => 7
  | invalidFile => 8
  | invalidDirectory => 9
  | invalidPid => 10
  | invalidPipe => 11
  | pipeFull => 12
  | pipeEmpty => 13
  | pipeClosed => 14

/-- The word for an error in diagnostics. -/
def name : ErrorCode → String
  | generic => "Generic"
  | internal => "Internal"
  | unknownSyscall => "UnknownSyscall"
  | invalidPriority => "InvalidPriority"
  | messageQueueEmpty => "MsgQueueEmpty"
  | outOfMemory => "OutOfMem"
  | invalidWindow => "InvalidWindow"
  | invalidFile => "InvalidFile"
  | invalidDirectory => "InvalidDir"
  | invalidPid => "InvalidPid"
  | invalidPipe => "InvalidPipe"
  | pipeFull => "PipeFull"
  | pipeEmpty => "PipeEmpty"
  | pipeClosed => "PipeClosed"

end ErrorCode

namespace Response

def ok : UInt64 := 0

/-- The response word of a request to move the heap's end out of bounds. -/
def breakRefused : UInt64 := 0xFFFFFFFFFFFFFFFF

/-- The error that a response word reports.  A code that is not known counts as internal. -/
def error? (response : UInt64) : Option ErrorCode :=
  if response = ok then none
  else some ((ErrorCode.all.find? fun error => error.code == response).getD .internal)

@[simp] theorem error?_code (error : ErrorCode) : error? error.code = some error := by
  cases error <;> rfl

end Response

end Microkernel
