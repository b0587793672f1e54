import Microkernel.Kernel.PipeCalls
import Microkernel.Privilege

/-!
# Entering and leaving the kernel

A process that makes a call enters the kernel, which runs the handler for the call's number,
settles its outcome, and then chooses who runs next.
-/

namespace Microkernel

namespace CallM

variable {slots : Nat}

/-- The work of a call that the kernel provides. -/
def builtin (call : Syscall) (caller : Fin slots) : CallM slots Hint :=
  match call with
  | .exit => exit caller
  | .print => print caller
  | .getPid => getPid caller
  | .debug => debug caller
  | .spawn => spawn caller
  | .sleep => sleep caller
  | .yield => yield caller
  | .setPriority => setPriority caller
  | .getPriority => getPriority caller
  | .moveBreak => moveBreak caller
  | .pipeOpen => pipeOpen caller
  | .pipeClose => pipeClose caller
  | .pipeGet => pipeGet caller
  | .pipeRead => pipeRead caller
  | .pipeWrite => pipeWrite caller

/-- The work of a service that another part of the system provides. -/
def service (run : Registers → Except Refusal (Registers × Hint)) (caller : Fin slots) :
    CallM slots Hint := do
  match run (← process caller).registers with
  | .ok (registers, hint) =>
      kernel (KernelM.modifyProcess caller fun process => { process with registers })
      return hint
  | .error refusal => throw refusal

/-- The work of a handler, which refuses a call whose number has none. -/
def handle (handler : Option Handler) (caller : Fin slots) : CallM slots Hint :=
  match handler with
  | some (.builtin call) => builtin call caller
  | some (.service run) => service run caller
  | none => refuse .unknownSyscall

end CallM

namespace KernelM

variable {slots : Nat}

/-- Settle the outcome of a call: an error code goes to the caller, a fault ends it. -/
def settle (caller : Fin slots) : Except Refusal Hint → KernelM slots Hint
  | .ok hint => return hint
  | .error (.code error hint) => do
      respond caller error.code
      return hint
  | .error (.fault fault) => endForFault caller fault

/-- Run the call that is in the caller's registers. -/
def handleCall (caller : Fin slots) : KernelM slots Hint := do
  let number := (← process caller).registers.callNumber
  let handler := (← get).calls.lookup? number
  settle caller (← (CallM.handle handler caller).run)

/-- Whether the process at a position can be put on the processor. -/
def isRunnable (position : Nat) : KernelM slots Bool := do
  return (← process (← slotAt position)).isRunnable

/-- The position of the process that a hint asks for, given the one that ran before, or nothing if
the choice is left to the scheduler. -/
def hinted? (previous : Nat) : Hint → KernelM slots (Option (Fin slots))
  | .same => do
      if ← isRunnable previous then return some (← slotAt previous) else return none
  | .specific position => do
      if ← isRunnable position then return some (← slotAt position) else return none
  | .other => return none

/-- Choose who runs after `previous` has left the kernel with a hint, and make it current.
Sleepers that have woken compete on priority like everyone else. -/
def switchAfter (previous : Nat) (hint : Hint) : KernelM slots (Fin slots) := do
  let woken ← wakeSleepers (← get).clock
  let hint := if woken = .same then hint else hint.combine .other
  let next ← match ← hinted? previous hint with
    | some next => pure next
    | none => reschedule previous
  modify fun system => { system with current := next.val }
  return next

/-- Make a process current and start its program. -/
def enterFirst (processor : Processor) (first : Nat) : KernelM slots UserEntry := do
  modify fun system => { system with current := first }
  let registers := (← process (← slotAt first)).registers
  ofChecked (processor.dropToUser registers.programCounter.toNat registers.stackPointer.toNat)

/-- Show a process its own argument page at the address at which every process sees its arguments,
as its page map does. -/
def showArguments (slot : Fin slots) : KernelM slots Unit := do
  let block := (← process slot).memory.arguments
  modifyMemory fun memory => memory.copy block Config.argumentAddress Config.pageSize

/-- Put a call and its arguments into the registers of a process, as a program does before it
enters the kernel. -/
def loadCall (slot : Fin slots) (number : UInt64) (arguments : Vector UInt64 5) :
    KernelM slots Unit :=
  modifyProcess slot fun process =>
    { process with registers := process.registers.load number arguments }

/-- Let a process enter the kernel with the call that is in its registers. -/
def enterKernel (slot : Fin slots) : KernelM slots Hint := do
  modifyProcess slot fun process => { process with registers := process.registers.enter }
  handleCall slot

end KernelM

end Microkernel
