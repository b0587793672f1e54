import Microkernel.Clock
import Microkernel.Kernel.Start
import Microkernel.Text.Utf8

/-!
# Calls about processes

The work of the calls that do not concern pipes.  A call that succeeds puts its own response into
the caller's registers and leaves a hint; a refusal is turned into a response or the end of the
caller by whoever runs the call.
-/

namespace Microkernel

namespace CallM

variable {slots : Nat} {α : Type}

/-- An argument of the call that a process has made. -/
def argument (caller : Fin slots) (place : Fin 5) : CallM slots Nat := do
  return (← process caller).registers.argument place

/-- Store a number as one element of the caller's memory. -/
def storeElement (caller : Fin slots) (layout : ElementLayout) (address number : Nat) :
    CallM slots Unit := do
  let memory ← (← process caller).writeElement (← get).memory layout address number
  modify fun system => { system with memory }

/-- The text at an address of a process's memory. -/
def readString (process : Process) (address most : Nat) : CallM slots UserString := do
  process.readString (← get).memory address most

/-- End the caller, whose first argument is its exit status. -/
def exit (caller : Fin slots) : CallM slots Hint := do
  let process ← process caller
  let status := Word.signed (process.registers.argument 0)
  kernel (KernelM.logLine s!"pid {process.pid.number} exited with status {status}")
  kernel (KernelM.reap caller)

/-- Log the text at the first argument. -/
def print (caller : Fin slots) : CallM slots Hint := do
  let process ← process caller
  let address := process.registers.argument 0
  if address = 0 then refuse .generic
  else
    let text ← readString process address Config.printLimit
    kernel (KernelM.logLine s!"sys_print() from pid={process.pid.number}: {Utf8.decode text.bytes}")
    kernel (KernelM.respond caller Response.ok)
    return .same

/-- Tell the caller its own name. -/
def getPid (caller : Fin slots) : CallM slots Hint := do
  kernel (KernelM.respond caller (← process caller).pid.number.toUInt64)
  return .same

/-- Log the first argument. -/
def debug (caller : Fin slots) : CallM slots Hint := do
  let process ← process caller
  let value := process.registers.argument 0
  kernel (KernelM.logLine s!"Debug: {value} from pid={process.pid.number}")
  kernel (KernelM.respond caller Response.ok)
  return .same

/-- Copy the texts that a table of pointers in the caller's memory leads to, a given number of
which is left, into the argument block of a new process. -/
def copyArguments (caller : Process) (writer : ArgumentWriter) (table : Nat) :
    (left : Nat) → CallM slots ArgumentWriter
  | 0 => return writer
  | left + 1 => do
      let pointer := ((← get).memory.readWord table).toNat
      if pointer = 0 then refuse .generic
      else
        match ← readString caller pointer Config.pageSize with
        | .truncated _ => refuse .outOfMemory
        | .complete text =>
            let pushed ← kernel (KernelM.onMemory (writer.push? text))
            let writer ← orRefuse .outOfMemory pushed
            copyArguments caller writer (table + pointerSize) left

/-- The regions of a program as a process that is spawned from it receives them. -/
def inherited (regions : List Region) : List Region :=
  (regions.filter (·.rights.includes .image)).map fun region =>
    { region with rights := region.rights.without .write }

/-- Start a process that runs the caller's program from the first argument on, with as many
arguments as the second says, to which the pointers at the third lead. -/
def spawn (caller : Fin slots) : CallM slots Hint := do
  let parent ← process caller
  let entry := parent.registers.argument 0
  let count := parent.registers.argument 1
  let table := parent.registers.argument 2
  if entry = 0 ∨ (count ≠ 0 ∧ table = 0) then refuse .generic
  else
    let slot ← orRefuse .outOfMemory (← get).processes.vacantSlot?
    let block := (← process slot).memory.arguments
    kernel (KernelM.modifyMemory fun memory => memory.fill block Config.pageSize 0)
    let writer ← orRefuse .outOfMemory
      (ArgumentWriter.start? block Config.pageSize Config.argumentAddress count)
    parent.checkReadable (← UserSlice.ofRaw .word64 table count)
    let writer ← copyArguments parent writer table count
    let _ ← kernel (KernelM.onMemory writer.finish)
    match ← kernel (StartM.startProcess slot entry (inherited parent.regions)).run with
    | .error error => refuse error
    | .ok pid =>
        -- The new process may have taken the caller's own slot, if nobody lived in it.
        let parent ← process caller
        let place := Word.hexText entry
        kernel (KernelM.logLine s!"pid {parent.pid.number} spawned pid {pid.number} at {place}")
        kernel (KernelM.respond caller Response.ok)
        if (← process slot).priority.moreImportant parent.priority then
          return .specific slot.val
        else return .same

/-- Let the caller sleep for as many microseconds as the first argument says. -/
def sleep (caller : Fin slots) : CallM slots Hint := do
  let ticks := Clock.ticksFor (← argument caller 0)
  kernel (KernelM.respond caller Response.ok)
  if ticks = 0 then return .same
  else
    let deadline := Clock.after (← get).clock ticks
    kernel (KernelM.updateProcess caller (·.sleepUntil deadline))
    return .other

/-- Let another process run. -/
def yield (caller : Fin slots) : CallM slots Hint := do
  kernel (KernelM.respond caller Response.ok)
  return .other

/-- The slot of the process that an argument names, zero being the caller. -/
def target (caller : Fin slots) (word : Nat) : CallM slots (Fin slots) := do
  if word < Pid.limit then
    if Pid.isCaller ⟨word⟩ then return caller
    else orRefuse .invalidPid ((← get).processes.findPid? ⟨word⟩)
  else refuse .invalidPid

/-- Give the process that the first argument names the priority in the second. -/
def setPriority (caller : Fin slots) : CallM slots Hint := do
  let registers := (← process caller).registers
  let slot ← target caller (registers.argument 0)
  let priority : Priority := ⟨registers.argument 1⟩
  if priority.isValid then
    kernel (KernelM.updateProcess slot (·.setPriority priority))
    kernel (KernelM.respond caller Response.ok)
    return .other
  else refuse .invalidPriority

/-- Store the priority of the process that the first argument names at the second. -/
def getPriority (caller : Fin slots) : CallM slots Hint := do
  let registers := (← process caller).registers
  let address := registers.argument 1
  if address = 0 then refuse .generic
  else
    let slot ← target caller (registers.argument 0)
    let level := (← process slot).priority.level
    storeElement caller .word32 address level
    kernel (KernelM.respond caller Response.ok)
    return .same

/-- Move the end of the caller's heap by the signed number of bytes in the first argument. -/
def moveBreak (caller : Fin slots) : CallM slots Hint := do
  let heap := (← process caller).heap
  match heap.shifted? (Word.signed (← argument caller 0)) with
  | some brk =>
      kernel (KernelM.updateProcess caller (·.setBreak brk))
      kernel (KernelM.respond caller heap.brk.toUInt64)
  | none => kernel (KernelM.respond caller Response.breakRefused)
  return .same

end CallM

end Microkernel
