/-!
# Names of processes and pipes

The numbers by which programs and the kernel name processes, pipes and priorities.
-/

namespace Microkernel

/-- The number that names a process for as long as the kernel is up. -/
structure Pid where
  /-- The number itself, zero being no process's own. -/
  number : Nat
  deriving DecidableEq, Repr

namespace Pid

/-- The number of distinct process names. -/
def limit : Nat := 0x100000000

/-- The stand-in by which a caller names itself. -/
def caller : Pid := ⟨0⟩

/-- Whether a name is the stand-in for the caller. -/
def isCaller (pid : Pid) : Bool :=
  pid == caller

/-- The name to hand out after this one, which is never the stand-in for the caller. -/
def next (pid : Pid) : Pid :=
  if pid.number + 1 < limit then ⟨pid.number + 1⟩ else ⟨1⟩

end Pid

/-- How important it is that a process runs, a larger level being more important. -/
structure Priority where
  /-- The level of importance. -/
  level : Nat
  deriving DecidableEq, Repr

namespace Priority

/-- The least important priority. -/
def lowest : Priority := ⟨0⟩

/-- The most important priority. -/
def highest : Priority := ⟨31⟩

/-- The priority of a process that has not asked for another. -/
def default : Priority := ⟨10⟩

/-- Whether one priority is strictly more important than another. -/
def moreImportant (first second : Priority) : Bool :=
  second.level < first.level

/-- Whether the scheduler accepts a priority. -/
def isValid (priority : Priority) : Bool :=
  lowest.level ≤ priority.level && priority.level ≤ highest.level

end Priority

/-- The position of a pipe in the table of all pipes. -/
structure PipeId where
  /-- The position itself. -/
  index : Nat
  deriving DecidableEq, Repr

/-- The number by which one process names a pipe that it holds. -/
structure PipeHandle where
  /-- The number itself: one more than a position in the process's handle table, or zero. -/
  word : Nat
  deriving DecidableEq, Repr

namespace PipeHandle

/-- The handle that names nothing. -/
def null : PipeHandle := ⟨0⟩

/-- The handle for a position in the handle table. -/
def ofSlot (slot : Nat) : PipeHandle :=
  ⟨slot + 1⟩

/-- The position in the handle table, unless the handle is null. -/
def slot? : PipeHandle → Option Nat
  | ⟨0⟩ => none
  | ⟨slot + 1⟩ => some slot

/-- Whether a handle names nothing. -/
def isNull (handle : PipeHandle) : Bool :=
  handle == null

@[simp] theorem slot?_ofSlot (slot : Nat) : (ofSlot slot).slot? = some slot := rfl

theorem slot?_eq_some_iff (handle : PipeHandle) (slot : Nat) :
    handle.slot? = some slot ↔ handle = ofSlot slot := by
  rcases handle with ⟨_ | word⟩ <;> simp [slot?, ofSlot]

end PipeHandle

end Microkernel
