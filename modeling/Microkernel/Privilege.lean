import Microkernel.Crash
import Microkernel.Word

/-!
# Exception levels

A processor runs at one of four levels, of which higher ones have more rights.  The kernel only
moves downwards: from the firmware's levels to its own, and from its own to a program's.
-/

namespace Microkernel

/-- A level of rights of a processor. -/
inductive ExceptionLevel where
  /-- Programs. -/
  | el0
  /-- The kernel. -/
  | el1
  /-- A hypervisor. -/
  | el2
  /-- Firmware. -/
  | el3
  deriving DecidableEq, Repr

namespace ExceptionLevel

/-- The number of a level, which grows with its rights. -/
def number : ExceptionLevel → Nat
  | el0 => 0
  | el1 => 1
  | el2 => 2
  | el3 => 3

/-- The level with a given number. -/
def ofNumber? : Nat → Option ExceptionLevel
  | 0 => some el0
  | 1 => some el1
  | 2 => some el2
  | 3 => some el3
  | _ => none

/-- Every level, the one with the fewest rights first. -/
def all : List ExceptionLevel := [el0, el1, el2, el3]

/-- The name of a level. -/
def describe (level : ExceptionLevel) : String :=
  s!"EL{level.number}"

theorem ofNumber?_eq_some_iff (number : Nat) (level : ExceptionLevel) :
    ofNumber? number = some level ↔ number = level.number := by
  constructor
  · intro found
    unfold ofNumber? at found
    split at found <;> simp_all <;> subst found <;> rfl
  · rintro rfl
    cases level <;> rfl

end ExceptionLevel

/-- What it takes to get from one level to another. -/
inductive Transition where
  /-- Nothing. -/
  | stay
  /-- A single return from an exception. -/
  | exceptionReturn
  /-- The kernel never does this. -/
  | illegal
  deriving DecidableEq, Repr

namespace Transition

/-- The word for a transition in diagnostics. -/
def name : Transition → String
  | stay => "Stay"
  | exceptionReturn => "Return"
  | illegal => "Illegal"

/-- How to get from one level to another. -/
def plan : ExceptionLevel → ExceptionLevel → Transition
  | .el1, .el1 => stay
  | .el2, .el1 => exceptionReturn
  | .el3, .el1 => exceptionReturn
  | .el1, .el0 => exceptionReturn
  | _, _ => illegal

end Transition

/-- The start of a program: the processor leaves the kernel and does not come back here. -/
structure UserEntry where
  /-- The address at which the program starts. -/
  entry : Nat
  /-- The stack pointer of the program. -/
  stack : Nat
  deriving DecidableEq, Repr

namespace UserEntry

/-- The wording of the start of a program in diagnostics. -/
def describe (entry : UserEntry) : String :=
  s!"entering EL0 at {Word.hexText entry.entry} with sp {Word.hexText entry.stack}"

end UserEntry

/-- A processor, of which only the level matters. -/
structure Processor where
  /-- The current level. -/
  level : ExceptionLevel
  deriving DecidableEq, Repr

namespace Processor

/-- The current level, which programs cannot read. -/
def currentLevel (processor : Processor) : Checked ExceptionLevel :=
  if processor.level = .el0 then throw (.died .levelReadFromUser) else return processor.level

/-- The processor at the kernel's level, to which it comes from that level or from above. -/
def dropToKernel (processor : Processor) : Checked Processor :=
  match Transition.plan processor.level .el1 with
  | .stay => return processor
  | .exceptionReturn => return { level := .el1 }
  | .illegal => throw (.died .kernelEnteredFromUser)

/-- The start of a program, which only the kernel's level can bring about. -/
def dropToUser (processor : Processor) (entry stack : Nat) : Checked UserEntry :=
  match Transition.plan processor.level .el0 with
  | .exceptionReturn => return { entry, stack }
  | _ => throw (.died .userEnteredFromOutside)

/-- The wording of a processor in diagnostics. -/
def describe (processor : Processor) : String :=
  s!"FakeCpu \x7b level: {processor.level.describe} \x7d"

end Processor

end Microkernel
