import Microkernel.Arguments.Writer
import Microkernel.Paging.Map
import Microkernel.System

/-!
# Starting processes

A new process takes a vacant slot, whose pages are cleared before it begins.  It receives a fresh
name, a page map that opens its own memory to it, and registers that are zero apart from
its entry and its stack pointer.
-/

namespace Microkernel

namespace ProcessTable

variable {slots : Nat}

/-- The first name, from a given one on, that no live process has, looked for a number of times. -/
def freshPid (processes : ProcessTable slots) : (tries : Nat) → Pid → Pid
  | 0, pid => pid
  | tries + 1, pid =>
      if (processes.findPid? pid).isSome then processes.freshPid tries pid.next else pid

end ProcessTable

namespace Process

/-- What the program may do in each block of the first gigabyte that lies below the devices. -/
def blockAccess (process : Process) (deviceBase : Nat) : Checked (List UserAccess) :=
  (List.range Paging.entries).mapM fun index =>
    let base := index * Paging.block
    if base < deviceBase then process.userAccess base (base + Paging.block)
    else return .none

end Process

namespace KernelM

variable {slots : Nat} {α : Type}

def onMemory (change : MemoryM α) : KernelM slots α := do
  let system ← get
  match change.run system.memory with
  | .ok value memory =>
      set { system with memory }
      return value
  | .error crash memory =>
      set { system with memory }
      throw crash

/-- Set a run of pages to zero. -/
def zeroPages (address pages : Nat) : KernelM slots Unit := do
  let memory ← ofChecked (Paging.zeroPages (← get).memory address pages)
  modify fun system => { system with memory }

/-- Hand out the next name that no live process has.  There are more names than slots. -/
def allocatePid : KernelM slots Pid := do
  let system ← get
  let pid := system.processes.freshPid slots system.nextPid
  set { system with nextPid := pid.next }
  return pid

/-- Write the page map of the process in a slot, and tell the address of its first table.
The argument address lies below the devices, so its block is among those that are looked at. -/
def writeMap (process : Process) : KernelM slots Nat := do
  let access := (← ofChecked (process.blockAccess Config.deviceBase)).toArray
  modifyMemory fun memory =>
    Paging.writeProcessMap memory process.memory.tables Config.deviceBase
      process.memory.arguments fun base => access.getD (base / Paging.block) .none
  return process.memory.tables

end KernelM

/-- The start of a process, which can fail with an error code. -/
abbrev StartM (slots : Nat) := ExceptT ErrorCode (KernelM slots)

namespace StartM

variable {slots : Nat} {α : Type}

/-- A computation of the kernel as part of the start of a process. -/
def kernel (action : KernelM slots α) : StartM slots α :=
  ExceptT.lift action

/-- Start a process in a vacant slot whose argument page has been written.  The slot stays vacant
if the regions of the program conflict with those of the slot. -/
def startProcess (slot : Fin slots) (entry : Nat) (program : List Region) :
    StartM slots Pid := do
  let vacant ← kernel (KernelM.process slot)
  require (vacant.isVacant = true)
  let pid ← kernel KernelM.allocatePid
  let (process, granted) ← vacant.occupy pid .default program
  kernel (KernelM.setProcess slot process)
  if granted then
    kernel (KernelM.zeroPages process.memory.stack Config.stackPages)
    kernel (KernelM.zeroPages process.memory.heap Config.heapPages)
    kernel (KernelM.zeroPages process.memory.tables Paging.processPages)
    let rootTable ← kernel (KernelM.writeMap process)
    let stackTop ← process.memory.stackTop
    kernel (KernelM.setProcess slot { process with
      rootTable
      registers := .start entry.toUInt64 stackTop.toUInt64 })
    return pid
  else throw .outOfMemory

/-- Start the first process, whose program the kernel's image carries and which has no arguments.
Unlike those it spawns, it may write its program. -/
def startFirst (entry imageStart imageStop : Nat) :
    StartM slots (Fin slots) := do
  match (← get).processes.vacantSlot? with
  | none => throw .outOfMemory
  | some slot =>
      let block := (← kernel (KernelM.process slot)).memory.arguments
      kernel (KernelM.modifyMemory fun memory => memory.fill block Config.pageSize 0)
      match ArgumentWriter.start? block Config.pageSize Config.argumentAddress 0 with
      | none => throw .outOfMemory
      | some writer =>
          let _ ← kernel (KernelM.onMemory writer.finish)
          let size ← Word.difference imageStop imageStart
          let rights := Rights.readWrite.union (Rights.execute.union .image)
          let pid ← startProcess slot entry [{ base := imageStart, size, rights }]
          kernel (KernelM.logLine s!"first process pid {pid.number} at {Word.hexText entry}")
          return slot

end StartM

end Microkernel
