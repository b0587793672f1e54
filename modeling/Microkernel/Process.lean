import Microkernel.Indexed
import Microkernel.Interface.ProcessState
import Microkernel.Memory
import Microkernel.Paging.Descriptor
import Microkernel.Region.Table
import Microkernel.Registers
import Microkernel.UserSlice
import Microkernel.UserString

/-!
# Processes

A process slot owns its pages for as long as the kernel is up; whoever lives in the slot borrows
them.  This file gives the contents of a slot, the checks that guard the memory of the process in
it, and the changes of its state.
-/

namespace Microkernel

/-- The pages that belong to a process slot. -/
structure SlotMemory where
  stack : Nat
  /-- The page in which a process finds its arguments. -/
  arguments : Nat
  heap : Nat
  tables : Nat
  deriving DecidableEq, Repr

namespace SlotMemory

/-- The address after a slot's stack, where the stack begins to grow. -/
def stackTop (memory : SlotMemory) : Checked Nat :=
  Word.sum memory.stack Config.stackSize

end SlotMemory

/-- The bounds of a heap: the break lies between the base and the base plus the limit. -/
structure Heap where
  base : Nat
  /-- The first address after the part in use. -/
  brk : Nat
  /-- The size that the heap can grow to. -/
  limit : Nat
  deriving DecidableEq, Repr

namespace Heap

/-- A heap of which nothing is in use. -/
def empty (base limit : Nat) : Heap :=
  { base, brk := base, limit }

/-- Whether a heap can have its break at an address. -/
def Admits (heap : Heap) (brk : Nat) : Prop :=
  heap.base ≤ brk ∧ brk - heap.base ≤ heap.limit

instance (heap : Heap) (brk : Nat) : Decidable (heap.Admits brk) :=
  inferInstanceAs (Decidable (_ ∧ _))

/-- A heap of which nothing is in use any more. -/
def reset (heap : Heap) : Heap :=
  { heap with brk := heap.base }

/-- The address that lies a signed number of bytes from the break, if it is in the address space and
the heap can have its break there. -/
def shifted? (heap : Heap) (increment : Int) : Option Nat :=
  (Word.shift? heap.brk increment).filter (heap.Admits ·)

/-- The break moves as over the integers, up to the end of the address space. -/
theorem shifted?_eq_some_iff (heap : Heap) (increment : Int) (brk : Nat) :
    heap.shifted? increment = some brk ↔
      ((brk : Int) = heap.brk + increment ∧ (0 ≤ increment → brk < Word.limit)) ∧
        heap.Admits brk := by
  rw [shifted?, Option.filter_eq_some_iff, Word.shift?_eq_some_iff, decide_eq_true_eq]

end Heap

/-- A slot of the process table. -/
structure Process where
  registers : Registers
  priority : Priority
  state : ProcessState
  pid : Pid
  /-- The tick at which a sleeping process wakes. -/
  deadline : Option Nat
  /-- The memory that the process may touch. -/
  regions : List Region
  heap : Heap
  /-- The pipes that the process holds, by the position of their handles. -/
  handles : Vector (Option PipeId) Config.maxHandles
  /-- The address of the first page table. -/
  rootTable : Nat
  /-- The offence for which the last process in the slot was ended, if it was. -/
  lastFault : Option Fault
  memory : SlotMemory
  deriving DecidableEq, Repr

namespace Process

def noHandles : Vector (Option PipeId) Config.maxHandles :=
  Vector.replicate Config.maxHandles none

/-- A slot that has not been used. -/
def vacant (memory : SlotMemory) (heapLimit : Nat) : Process where
  registers := .zero
  priority := .default
  state := .vacant
  pid := ⟨0⟩
  deadline := none
  regions := []
  heap := .empty memory.heap heapLimit
  handles := noHandles
  rootTable := 0
  lastFault := none
  memory := memory

def isVacant (process : Process) : Bool :=
  process.state.isVacant

theorem isVacant_iff (process : Process) :
    process.isVacant = true ↔ process.state = .vacant := by
  simp [isVacant, ProcessState.isVacant]

theorem isVacant_eq_false_iff (process : Process) :
    process.isVacant = false ↔ process.state ≠ .vacant := by
  simp [isVacant, ProcessState.isVacant]

/-- Whether the slot holds a process that can be put on the processor. -/
def isRunnable (process : Process) : Bool :=
  process.state.isRunnable

/-! ## Memory of the process -/

/-- Whether the process may touch a slice in a given way. -/
def canAccess {layout : ElementLayout} (process : Process) (slice : UserSlice layout)
    (needed : Rights) : Checked Bool :=
  Region.canAccess process.regions slice.span needed

/-- Go on only if the process may touch a slice in a given way. -/
def checkAccess {layout : ElementLayout} (process : Process) (slice : UserSlice layout)
    (needed : Rights) : Guarded Unit := do
  if ← ExceptT.lift (process.canAccess slice needed) then return ()
  else throw (.memoryAccess slice.base .kernel)

/-- Go on only if the process may read a slice. -/
def checkReadable {layout : ElementLayout} (process : Process) (slice : UserSlice layout) :
    Guarded Unit :=
  process.checkAccess slice .read

/-- Go on only if the process may write a slice. -/
def checkWritable {layout : ElementLayout} (process : Process) (slice : UserSlice layout) :
    Guarded Unit :=
  process.checkAccess slice .write

/-- Go on only if the process may write one element at an address. -/
def checkPlace (process : Process) (layout : ElementLayout) (address : Nat) : Guarded Unit := do
  process.checkWritable (← UserSlice.single layout address)

/-- The numbers in the elements of a slice that the process may read. -/
def readElements {layout : ElementLayout} (process : Process) (memory : Memory)
    (slice : UserSlice layout) : Guarded (List Nat) := do
  process.checkReadable slice
  return (List.range slice.length).map fun index =>
    Word.ofBytes (memory.read (slice.base + index * layout.size) layout.size)

/-- Memory with bytes stored in a slice that the process may write. -/
def writeBytes (process : Process) (memory : Memory) (address : Nat) (bytes : List UInt8) :
    Guarded Memory := do
  process.checkWritable (← UserSlice.ofRaw .byte address bytes.length)
  return memory.write address bytes

/-- Memory with the low bytes of a number stored in one element that the process may write. -/
def writeElement (process : Process) (memory : Memory) (layout : ElementLayout)
    (address number : Nat) : Guarded Memory := do
  process.checkPlace layout address
  return memory.write address ((Word.bytes number.toUInt64).take layout.size)

/-- The text at an address, of which at most a given number of bytes is looked at. -/
def readString (process : Process) (memory : Memory) (address most : Nat) :
    Guarded UserString := do
  let extent ← ExceptT.lift (Region.readableExtent process.regions address most)
  if extent = 0 then throw (.memoryAccess address .kernel)
  else
    match UserString.ofMemory memory address extent most with
    | .ok string => return string
    | .error error => throw (.usage error)

/-- The strongest access that regions give to a program somewhere in a probed range, starting from
the access already found. -/
def accessWithin (probe : Region) : List Region → UserAccess → Checked UserAccess
  | [], found => .ok found
  | region :: rest, found => do
      if ← region.overlaps probe then
        if region.rights.includes .write then return .readWrite
        else accessWithin probe rest .readOnly
      else accessWithin probe rest found

/-- What the program may do in a block of addresses: write if it may write anywhere in the block,
and read if it may read there.  The argument page is left out, since it is mapped on its own, and
the heap counts at its largest, so that its growth needs no new map. -/
def userAccess (process : Process) (start stop : Nat) : Checked UserAccess := do
  let probe : Region := { base := start, size := ← Word.difference stop start, rights := .none }
  let heap : Region :=
    { base := process.heap.base, size := process.heap.limit, rights := .readWrite }
  let own := process.regions.filter fun region => region.base != Config.argumentAddress
  accessWithin probe (own ++ [heap]) .none

/-- The process with its break at an address, which must be one that the heap admits. -/
def setBreak (process : Process) (brk : Nat) : Checked Process := do
  require (process.heap.Admits brk)
  return { process with
    heap := { process.heap with brk }
    regions := Region.resize process.heap.base (brk - process.heap.base) process.regions }

theorem setBreak_eq_ok_iff {process moved : Process} {brk : Nat} :
    process.setBreak brk = .ok moved ↔ process.heap.Admits brk ∧ moved = { process with
      heap := { process.heap with brk }
      regions := Region.resize process.heap.base (brk - process.heap.base) process.regions } :=
  require_return_eq_ok_iff

/-! ## Handles -/

def pipeOf? (process : Process) (handle : PipeHandle) : Option PipeId := do
  let slot ← handle.slot?
  (process.handles[slot]?).join

/-- The handle that the process has on a pipe. -/
def handleOn? (process : Process) (pipe : PipeId) : Option PipeHandle :=
  (process.handles.findFinIdx? (· == some pipe)).map fun slot => .ofSlot slot.val

/-- The first position in the handle table that is free. -/
def freeHandle? (process : Process) : Option (Fin Config.maxHandles) :=
  process.handles.findFinIdx? (·.isNone)

/-- Whether the handle table has no room. -/
def handlesFull (process : Process) : Bool :=
  process.handles.all (·.isSome)

/-- The process with a handle on one more pipe, and that handle, if there is room. -/
def addHandle? (process : Process) (pipe : PipeId) : Option (Process × PipeHandle) := do
  let slot ← process.freeHandle?
  return ({ process with handles := process.handles.set slot (some pipe) slot.isLt },
    .ofSlot slot.val)

/-- The process without a handle, and the pipe that the handle named. -/
def removeHandle? (process : Process) (handle : PipeHandle) : Option (Process × PipeId) := do
  let slot ← handle.slot?
  let pipe ← (process.handles[slot]?).join
  return ({ process with handles := process.handles.setIfInBounds slot none }, pipe)

/-! ## Life of the process -/

/-- The regions that every process in the slot has besides its program and its heap. -/
def fixedRegions (memory : SlotMemory) : List Region :=
  [{ base := memory.stack, size := Config.stackSize, rights := .readWrite },
    { base := Config.argumentAddress, size := Config.pageSize, rights := .read }]

/-- The slot taken by a new, runnable process whose program lies in the given regions, and whether
this worked out.  It does not if the regions conflict; the slot then keeps those that were
granted. -/
def occupy (process : Process) (pid : Pid) (priority : Priority) (program : List Region) :
    Checked (Process × Bool) := do
  let (regions, granted) ← Region.grantAll [] (program ++ fixedRegions process.memory)
  let process := { process with regions }
  if granted then
    let process := { process with heap := process.heap.reset }
    let heap : Region := { base := process.heap.base, size := 0, rights := .readWrite }
    match ← Region.grant? process.regions heap with
    | none => return (process, false)
    | some regions =>
        return ({ process with
          regions, pid, priority
          deadline := none
          handles := noHandles
          lastFault := none
          state := .live .runnable }, true)
  else return (process, false)

/-- The slot after its process has gone, apart from the pipes that the process held. -/
def depart (process : Process) : Process :=
  { process with
    state := .vacant
    deadline := none
    regions := []
    heap := process.heap.reset }

/-- The process with another priority, which must be one that the scheduler accepts. -/
def setPriority (process : Process) (priority : Priority) : Checked Process := do
  require (priority.isValid = true)
  return { process with priority }

def setActivity (process : Process) (activity : Activity) : Checked Process := do
  require (process.isVacant = false)
  return { process with state := .live activity }

theorem setActivity_eq_ok_iff {process changed : Process} {activity : Activity} :
    process.setActivity activity = .ok changed ↔
      process.state ≠ .vacant ∧ changed = { process with state := .live activity } := by
  rw [setActivity, require_return_eq_ok_iff, isVacant_eq_false_iff]

/-- The live process asleep until a given tick. -/
def sleepUntil (process : Process) (deadline : Nat) : Checked Process :=
  { process with deadline := some deadline }.setActivity .sleeping

theorem sleepUntil_eq_ok_iff {process asleep : Process} {deadline : Nat} :
    process.sleepUntil deadline = .ok asleep ↔ process.state ≠ .vacant ∧
      asleep = { process with deadline := some deadline, state := .live .sleeping } :=
  setActivity_eq_ok_iff

theorem sleepUntil_eq {process : Process} (live : process.state ≠ .vacant) (deadline : Nat) :
    process.sleepUntil deadline =
      .ok { process with deadline := some deadline, state := .live .sleeping } :=
  sleepUntil_eq_ok_iff.2 ⟨live, rfl⟩

/-- The process with a response in its registers. -/
def respond (process : Process) (response : UInt64) : Process :=
  { process with registers := process.registers.respond response }

/-- The live process waiting, so that it makes its call again once it runs. -/
def block (process : Process) (activity : Activity) : Checked Process := do
  let process ← process.setActivity activity
  return { process with registers := process.registers.rewind }

theorem block_eq_ok_iff {process blocked : Process} {activity : Activity} :
    process.block activity = .ok blocked ↔ process.state ≠ .vacant ∧
      blocked = { process with
        state := .live activity
        registers := process.registers.rewind } := by
  rw [block, Checked.bind_eq_ok_iff]
  constructor
  · rintro ⟨_, run, ⟨⟩⟩
    obtain ⟨live, rfl⟩ := setActivity_eq_ok_iff.1 run
    exact ⟨live, rfl⟩
  · rintro ⟨live, rfl⟩
    exact ⟨_, setActivity_eq_ok_iff.2 ⟨live, rfl⟩, rfl⟩

theorem block_eq {process : Process} (live : process.state ≠ .vacant) (activity : Activity) :
    process.block activity = .ok { process with
      state := .live activity
      registers := process.registers.rewind } :=
  block_eq_ok_iff.2 ⟨live, rfl⟩

end Process

end Microkernel
