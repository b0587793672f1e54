import Microkernel.CallTable
import Microkernel.Teardown

/-!
# The state of a system

Everything that the kernel keeps between two entries, together with the memory, the clock and the
log that it works on.  Computations of the kernel change this state and may crash; what they did
before a crash stays visible.
-/

namespace Microkernel

/-- A kernel with a given number of process slots, and the machine that it runs on. -/
structure System (slots : Nat) extends Tables slots where
  memory : Memory
  /-- The number of ticks that have passed. -/
  clock : Nat
  /-- The lines that the kernel has logged, the first one first. -/
  log : List String
  calls : CallTable Handler
  nextPid : Pid
  /-- The slot of the process on the processor. -/
  current : Nat

/-- A computation of the kernel. -/
abbrev KernelM (slots : Nat) := EStateM Crash (System slots)

/-- The work of a system call, which can be refused. -/
abbrev CallM (slots : Nat) := ExceptT Refusal (KernelM slots)

namespace System

variable {slots : Nat}

/-- A system whose slots are all vacant. -/
def start (memory : Memory) (clock : Nat) (log : List String)
    (slotMemory : Vector SlotMemory slots) (heapLimit : Nat) : System slots where
  processes := slotMemory.map fun pages => .vacant pages heapLimit
  pipes := .empty
  memory := memory
  clock := clock
  log := log
  calls := .withBuiltins .builtin
  nextPid := ⟨1⟩
  current := 0

end System

namespace KernelM

variable {slots : Nat} {α : Type}

def ofChecked (result : Checked α) : KernelM slots α :=
  match result with
  | .ok value => pure value
  | .error crash => throw crash

instance : MonadLift Checked (KernelM slots) where
  monadLift := ofChecked

/-- The slot at a position, which must be one of the table's. -/
def slotAt (position : Nat) : KernelM slots (Fin slots) :=
  if inRange : position < slots then return ⟨position, inRange⟩ else throw .outOfRange

def logLine (line : String) : KernelM slots Unit :=
  modify fun system => { system with log := system.log ++ [line] }

def process (slot : Fin slots) : KernelM slots Process :=
  return (← get).processes[slot]

def setProcess (slot : Fin slots) (process : Process) : KernelM slots Unit :=
  modify fun system => { system with processes := system.processes.set slot process slot.isLt }

def modifyProcess (slot : Fin slots) (change : Process → Process) : KernelM slots Unit :=
  modify fun system =>
    { system with processes := system.processes.set slot (change system.processes[slot]) slot.isLt }

/-- Change the process in a slot, unless this crashes. -/
def updateProcess (slot : Fin slots) (change : Process → Checked Process) :
    KernelM slots Unit := do
  setProcess slot (← ofChecked (change (← process slot)))

def modifyMemory (change : Memory → Memory) : KernelM slots Unit :=
  modify fun system => { system with memory := change system.memory }

/-- Put a response into the registers of the process in a slot. -/
def respond (slot : Fin slots) (response : UInt64) : KernelM slots Unit :=
  modifyProcess slot (·.respond response)

/-- Change the tables of processes and pipes, leaving a hint. -/
def onTables (change : Tables slots → Checked (Tables slots × Hint)) : KernelM slots Hint := do
  let system ← get
  let (tables, hint) ← ofChecked (change system.toTables)
  set { system with toTables := tables }
  return hint

def reap (slot : Fin slots) : KernelM slots Hint :=
  onTables (·.reap slot)

/-- Let the process in a slot give up one reference to a pipe. -/
def release (slot : Fin slots) (pipe : PipeId) : KernelM slots Hint :=
  onTables (·.release slot pipe)

/-- Make those blocked in a given way runnable, on behalf of the process in a slot. -/
def wake (slot : Fin slots) (blocked : ProcessState → Bool) : KernelM slots Hint := do
  let system ← get
  let (processes, hint) := system.processes.wake slot blocked
  set { system with processes }
  return hint

/-- Wake every sleeper whose deadline has passed at a given tick. -/
def wakeSleepers (now : Nat) : KernelM slots Hint := do
  let system ← get
  let (processes, hint) ← ofChecked (system.processes.wakeSleepers now)
  set { system with processes }
  return hint

/-- Choose the next process to run after `previous`, letting time pass if nothing can run. -/
def reschedule (previous : Nat) : KernelM slots (Fin slots) := do
  let system ← get
  let (processes, clock, next) ← ofChecked (system.processes.reschedule system.clock previous)
  set { system with processes, clock }
  return next

/-- End the process in a slot for an offence, which the log and the slot record. -/
def endForFault (slot : Fin slots) (fault : Fault) : KernelM slots Hint := do
  let process ← process slot
  let place := Word.hexText process.registers.programCounter.toNat
  let stack := Word.hexText process.registers.stackPointer.toNat
  logLine s!"pid {process.pid.number} killed: {fault.describe} (pc {place}, sp {stack})"
  let hint ← reap slot
  modifyProcess slot fun process => { process with lastFault := some fault }
  return hint

/-- Let ticks pass, up to the end of time. -/
def advance (ticks : Nat) : KernelM slots Unit :=
  modify fun system => { system with clock := Word.saturatingSum system.clock ticks }

end KernelM

namespace CallM

variable {slots : Nat} {α : Type}

/-- A computation of the kernel as part of a call. -/
def kernel (action : KernelM slots α) : CallM slots α :=
  ExceptT.lift action

/-- Refuse a call with an error code, leaving the caller on the processor. -/
def refuse (error : ErrorCode) : CallM slots α :=
  throw (.code error .same)

/-- An optional value whose absence refuses the call. -/
def orRefuse (error : ErrorCode) : Option α → CallM slots α
  | some value => return value
  | none => refuse error

/-- The result of a guarded computation, whose faults refuse the call. -/
def ofGuarded (result : Guarded α) : CallM slots α := do
  match ← kernel (KernelM.ofChecked result.run) with
  | .ok value => return value
  | .error fault => throw (.fault fault)

instance : MonadLift Guarded (CallM slots) where
  monadLift := ofGuarded

def process (slot : Fin slots) : CallM slots Process :=
  kernel (KernelM.process slot)

end CallM

end Microkernel
