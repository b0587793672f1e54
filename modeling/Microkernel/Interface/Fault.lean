import Microkernel.Word

/-!
# Faults

The offences for which the kernel ends a process, and their wording in the log.
-/

namespace Microkernel

/-- Who noticed an access to memory that the process may not touch. -/
inductive FaultSource where
  /-- The processor, while the process ran. -/
  | user
  /-- The kernel, asked by the process to touch the memory on its behalf. -/
  | kernel
  deriving DecidableEq, Repr

/-- A misuse of a call that no error code describes. -/
inductive UsageError where
  /-- A range of memory is misaligned or runs past the end of the address space. -/
  | invalidSlice
  /-- A text has no terminator before the end of the caller's memory. -/
  | unterminatedString
  deriving DecidableEq, Repr

/-- An offence for which a process is ended. -/
inductive Fault where
  /-- An access to memory that the process may not touch. -/
  | memoryAccess (address : Option Nat) (source : FaultSource)
  /-- A misuse of a call. -/
  | usage (error : UsageError)
  /-- An illegal instruction, or an exception of an unknown class. -/
  | invalidOperation (syndrome : Nat)
  deriving DecidableEq, Repr

namespace FaultSource

/-- The word for a source in the log. -/
def describe : FaultSource → String
  | user => "User"
  | kernel => "Kernel"

end FaultSource

namespace UsageError

/-- The word for a misuse in the log. -/
def describe : UsageError → String
  | invalidSlice => "InvalidSlice"
  | unterminatedString => "UnterminatedString"

end UsageError

namespace Fault

/-- The wording of an offence in the log. -/
def describe : Fault → String
  | memoryAccess address source =>
      let place := match address with
        | some address => s!"Some({address})"
        | none => "None"
      s!"MemoryAccess \x7b address: {place}, source: {source.describe} \x7d"
  | usage error => s!"SyscallUsage({error.describe})"
  | invalidOperation syndrome => s!"InvalidOperation({syndrome})"

end Fault

/-- A computation that looks at what a program has passed in: it may find the program at fault,
and it may crash. -/
abbrev Guarded := ExceptT Fault Checked

end Microkernel
