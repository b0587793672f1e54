import Microkernel.Config
import Microkernel.Crash
import Microkernel.Interface.Identifier
import Microkernel.Interface.Syscall

/-!
# Calls made by programs

Before a program enters the kernel, its library checks what would be a mistake of the program in
any case.  A failed check stops the program without a call being made.
-/

namespace Microkernel

/-- A call as a program asks its library for it, with what the library checks. -/
inductive ProgramCall where
  | plain (call : Syscall)
  | spawn (arguments : Nat)
  | pipeOpen (name : List UInt8)
  | pipeGet (name : List UInt8)
  | pipeClose (handle : PipeHandle)
  | pipeRead (handle : PipeHandle)
  | pipeWrite (handle : PipeHandle)
  | pipeWriteAll (handle : PipeHandle) (count : Nat)
  deriving DecidableEq, Repr

namespace ProgramCall

/-- The largest number of arguments that the library passes on to a new process. -/
def spawnLimit : Nat := 16

def checkName (name : List UInt8) : Checked Unit :=
  require (name.length ≠ 0 ∧ name.length < Config.pipeNameLimit)

def checkHandle (handle : PipeHandle) : Checked Unit :=
  require (handle.isNull = false)

/-- The first call with which the library enters the kernel, if its checks pass and there is
anything to do. -/
def firstCall : ProgramCall → Checked (Option Syscall)
  | plain call => return some call
  | spawn arguments => do
      require (arguments ≤ spawnLimit)
      return some .spawn
  | pipeOpen name => do
      checkName name
      return some .pipeOpen
  | pipeGet name => do
      checkName name
      return some .pipeGet
  | pipeClose handle => do
      checkHandle handle
      return some .pipeClose
  | pipeRead handle => do
      checkHandle handle
      return some .pipeRead
  | pipeWrite handle => do
      checkHandle handle
      return some .pipeWrite
  | pipeWriteAll handle count =>
      if count = 0 then return none
      else do
        checkHandle handle
        return some .pipeWrite

end ProgramCall

end Microkernel
