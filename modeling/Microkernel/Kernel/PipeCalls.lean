import Microkernel.Kernel.Calls

/-!
# Calls about pipes

A process that cannot go on with a pipe is blocked and makes its call again from scratch once the
pipe has changed.
-/

namespace Microkernel

namespace CallM

variable {slots : Nat}

/-- The pipe name at an address, unless it is empty or too long. -/
def readName (process : Process) (address : Nat) : CallM slots (Option (List UInt8)) := do
  if address = 0 then return none
  else
    match ← readString process address Config.pipeNameLimit with
    | .truncated _ => return none
    | .complete [] => return none
    | .complete name => return some name

/-- Tell the caller a handle, or the null handle if there is none. -/
def respondHandle (caller : Fin slots) (handle : Option PipeHandle) : CallM slots Hint := do
  kernel (KernelM.respond caller (handle.getD .null).word.toUInt64)
  return .same

/-- The tables after a process has created a pipe, and its handle on it, if the name is free and
there is room for both. -/
def openPipe? (tables : Tables slots) (caller : Fin slots) (name : List UInt8) :
    Option (Tables slots × PipeHandle) := do
  let process := tables.processes[caller]
  if (tables.pipes.lookup? process.pid name).isSome || process.handlesFull then none
  else
    let (pipes, id) ← tables.pipes.create? process.pid name
    let (process, handle) ← process.addHandle? id
    return ({ processes := tables.processes.set caller process caller.isLt, pipes }, handle)

/-- The tables after a process has obtained a handle on a pipe, and that handle, if there is such
a pipe and the process has a handle on it already or room for one. -/
def sharePipe? (tables : Tables slots) (caller : Fin slots) (owner : Pid) (name : List UInt8) :
    Option (Tables slots × PipeHandle) := do
  let id ← tables.pipes.lookup? owner name
  let process := tables.processes[caller]
  match process.handleOn? id with
  | some handle => return (tables, handle)
  | none =>
      let (process, handle) ← process.addHandle? id
      let pipe := (tables.pipes.get? id).map fun pipe =>
        { pipe with references := pipe.references + 1 }
      return ({
        processes := tables.processes.set caller process caller.isLt
        pipes := tables.pipes.put id pipe }, handle)

/-- Change the tables as an optional result says, and tell the caller the handle in it. -/
def applyHandle (caller : Fin slots) (result : Option (Tables slots × PipeHandle)) :
    CallM slots Hint := do
  match result with
  | some (tables, handle) =>
      modify fun system => { system with toTables := tables }
      respondHandle caller (some handle)
  | none => respondHandle caller none

/-- Create a pipe under the name at the first argument. -/
def pipeOpen (caller : Fin slots) : CallM slots Hint := do
  let process ← process caller
  match ← readName process (process.registers.argument 0) with
  | none => respondHandle caller none
  | some name => applyHandle caller (openPipe? (← get).toTables caller name)

/-- Obtain a handle on the pipe that the process named by the first argument has under the name at
the second.  Only the lower half of the first argument counts, and zero is the caller. -/
def pipeGet (caller : Fin slots) : CallM slots Hint := do
  let process ← process caller
  let named : Pid := ⟨process.registers.argument 0 % Pid.limit⟩
  let owner := if named.isCaller then process.pid else named
  match ← readName process (process.registers.argument 1) with
  | none => respondHandle caller none
  | some name => applyHandle caller (sharePipe? (← get).toTables caller owner name)

/-- Give up the handle in the first argument. -/
def pipeClose (caller : Fin slots) : CallM slots Hint := do
  let process ← process caller
  let (process, id) ← orRefuse .invalidPipe
    (process.removeHandle? ⟨process.registers.argument 0⟩)
  kernel (KernelM.setProcess caller process)
  let hint ← kernel (KernelM.release caller id)
  kernel (KernelM.respond caller Response.ok)
  return hint

/-- The arguments that reading and writing have in common. -/
structure Transfer where
  /-- The pipe. -/
  pipe : PipeId
  /-- The address of the bytes in the caller's memory. -/
  buffer : Nat
  /-- The number of bytes asked for. -/
  size : Nat
  /-- Where to store the number of bytes that were moved, if anywhere. -/
  report : Option Nat
  deriving DecidableEq, Repr

/-- The arguments of a transfer, checked apart from the bytes themselves. -/
def transferArguments (process : Process) : CallM slots Transfer := do
  let pipe ← orRefuse .invalidPipe (process.pipeOf? ⟨process.registers.argument 0⟩)
  let buffer := process.registers.argument 1
  let size := process.registers.argument 2
  let report := process.registers.argument 3
  if size ≠ 0 ∧ buffer = 0 then refuse .generic
  else if report = 0 then return { pipe, buffer, size, report := none }
  else
    process.checkPlace .word64 report
    return { pipe, buffer, size, report := some report }

/-- Store the number of bytes that were moved where the caller wants it. -/
def reportCount (caller : Fin slots) (transfer : Transfer) (count : Nat) : CallM slots Unit := do
  match transfer.report with
  | none => return ()
  | some address => storeElement caller .word64 address count

/-- Complete a transfer of a number of bytes. -/
def complete (caller : Fin slots) (transfer : Transfer) (count : Nat) : CallM slots Unit := do
  reportCount caller transfer count
  kernel (KernelM.respond caller Response.ok)

/-- Block the caller until a pipe changes. -/
def block (caller : Fin slots) (activity : Activity) : CallM slots Hint := do
  kernel (KernelM.updateProcess caller (·.block activity))
  return .other

/-- Replace the pipe at a position. -/
def putPipe (id : PipeId) (pipe : Pipe) : CallM slots Unit :=
  modify fun system => { system with pipes := system.pipes.put id (some pipe) }

/-- Take bytes out of the pipe whose handle is the first argument.  An empty pipe blocks the
caller, or gives nothing if it is hung up. -/
def pipeRead (caller : Fin slots) : CallM slots Hint := do
  let process ← process caller
  let transfer ← transferArguments process
  if transfer.size = 0 then
    complete caller transfer 0
    return .same
  else
    process.checkWritable (← UserSlice.ofRaw .byte transfer.buffer transfer.size)
    let pipe ← orRefuse .invalidPipe ((← get).pipes.get? transfer.pipe)
    if pipe.ring.isEmpty then
      if pipe.hungUp then
        complete caller transfer 0
        return .same
      else block caller (.readingPipe transfer.pipe)
    else
      let (ring, bytes) ← pipe.ring.read transfer.size
      putPipe transfer.pipe { pipe with ring }
      kernel (KernelM.modifyMemory fun memory => memory.write transfer.buffer bytes)
      complete caller transfer bytes.length
      kernel (KernelM.wake caller (·.isWriting transfer.pipe))

/-- Put bytes into the pipe whose handle is the first argument.  A full pipe blocks the caller. -/
def pipeWrite (caller : Fin slots) : CallM slots Hint := do
  let process ← process caller
  let transfer ← transferArguments process
  if transfer.size = 0 then
    complete caller transfer 0
    return .same
  else
    process.checkReadable (← UserSlice.ofRaw .byte transfer.buffer transfer.size)
    let pipe ← orRefuse .invalidPipe ((← get).pipes.get? transfer.pipe)
    if pipe.hungUp then
      reportCount caller transfer 0
      refuse .pipeClosed
    else
      let pipe := pipe.noteWriter process.pid
      if pipe.ring.isFull then
        putPipe transfer.pipe pipe
        block caller (.writingPipe transfer.pipe)
      else
        let bytes := (← get).memory.read transfer.buffer (min transfer.size Config.pipeCapacity)
        let (ring, count) ← pipe.ring.write bytes
        putPipe transfer.pipe { pipe with ring }
        complete caller transfer count
        kernel (KernelM.wake caller (·.isReading transfer.pipe))

end CallM

end Microkernel
