import Microkernel.Config
import Microkernel.Hint
import Microkernel.Interface.ErrorCode
import Microkernel.Interface.Fault
import Microkernel.Interface.Syscall
import Microkernel.Registers

/-!
# The table of system calls

Each number below `Config.callLimit` can have a handler.  The kernel registers its own calls at the
start; other parts of a system add theirs.
-/

namespace Microkernel

/-- The ways in which a call can fail without crashing the kernel. -/
inductive Refusal where
  /-- The caller receives an error code, and the scheduler a hint. -/
  | code (error : ErrorCode) (hint : Hint)
  /-- The caller is ended for an offence. -/
  | fault (fault : Fault)
  deriving DecidableEq, Repr

/-- A table that has at most one handler of type `α` for each number. -/
abbrev CallTable (α : Type) := Vector (Option α) Config.callLimit

namespace CallTable

variable {α : Type}

def empty : CallTable α := Vector.replicate Config.callLimit none

/-- The handler for a number, if there is one. -/
def lookup? (table : CallTable α) (number : Nat) : Option α :=
  (table[number]?).join

def isRegistered (table : CallTable α) (number : Nat) : Bool :=
  (table.lookup? number).isSome

/-- The table with a handler for one more number, unless the number is out of range or has a
handler. -/
def register? (table : CallTable α) (number : Nat) (handler : α) : Option (CallTable α) :=
  if inRange : number < Config.callLimit then
    match table[number] with
    | none => some (table.set number (some handler))
    | some _ => none
  else none

/-- The table without a handler for a number. -/
def unregister (table : CallTable α) (number : Nat) : CallTable α :=
  table.setIfInBounds number none

/-- The table with a handler for every call that the kernel provides. -/
def withBuiltins (handler : Syscall → α) : CallTable α :=
  Syscall.all.foldl
    (fun table call => (table.register? call.number (handler call)).getD table) empty

end CallTable

/-- What the kernel does for a number. -/
inductive Handler where
  /-- One of the kernel's own calls. -/
  | builtin (call : Syscall)
  /-- A service of another part of the system, which works on the caller's registers alone. -/
  | service (run : Registers → Except Refusal (Registers × Hint))

end Microkernel
