/-!
# System calls

The calls that the kernel itself provides, with their numbers.  Numbers 10 to 31 are left to other
parts of a system.
-/

namespace Microkernel

/-- A call provided by the kernel. -/
inductive Syscall where
  | exit
  | print
  | getPid
  | debug
  | spawn
  | sleep
  | yield
  | setPriority
  | getPriority
  | moveBreak
  | pipeOpen
  | pipeClose
  | pipeGet
  | pipeRead
  | pipeWrite
  deriving DecidableEq, Repr

namespace Syscall

/-- Every call, in the order of the numbers. -/
def all : List Syscall :=
  [exit, print, getPid, debug, spawn, sleep, yield, setPriority, getPriority, moveBreak,
    pipeOpen, pipeClose, pipeGet, pipeRead, pipeWrite]

/-- The number by which a program asks for a call. -/
def number : Syscall → Nat
  | exit => 0
  | print => 1
  | getPid => 2
  | debug => 3
  | spawn => 4
  | sleep => 5
  | yield => 6
  | setPriority => 7
  | getPriority => 8
  | moveBreak => 9
  | pipeOpen => 32
  | pipeClose => 33
  | pipeGet => 34
  | pipeRead => 35
  | pipeWrite => 36

/-- The word for a call in diagnostics. -/
def name : Syscall → String
  | exit => "Exit"
  | print => "Print"
  | getPid => "GetPid"
  | debug => "Debug"
  | spawn => "Spawn"
  | sleep => "Sleep"
  | yield => "Yield"
  | setPriority => "SchedSetPriority"
  | getPriority => "SchedGetPriority"
  | moveBreak => "Sbrk"
  | pipeOpen => "PipeOpen"
  | pipeClose => "PipeClose"
  | pipeGet => "PipeGet"
  | pipeRead => "PipeRead"
  | pipeWrite => "PipeWrite"

/-- The call that a number asks for, if the kernel provides one. -/
def ofNumber? (number : Nat) : Option Syscall :=
  all.find? fun call => call.number == number

@[simp] theorem mem_all (call : Syscall) : call ∈ all := by
  cases call <;> decide

@[simp] theorem ofNumber?_number (call : Syscall) : ofNumber? call.number = some call := by
  cases call <;> rfl

end Syscall

end Microkernel
