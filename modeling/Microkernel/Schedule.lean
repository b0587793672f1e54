import Microkernel.Hint
import Microkernel.Process

/-!
# Scheduling

The scheduler prefers the most important runnable process, and among equals the one whose turn
comes first after the process that ran before.  When nothing can run it waits for the sleeper with
the earliest deadline.
-/

namespace Microkernel

/-- The process slots of a system. -/
abbrev ProcessTable (slots : Nat) := Vector Process slots

namespace Process

/-- Whether the process has a deadline that has come by a given tick. -/
def isDue (process : Process) (now : Nat) : Bool :=
  process.deadline.any (· ≤ now)

/-- The process after its deadline has passed, if it has. -/
def wakeIfDue (process : Process) (now : Nat) : Process :=
  if process.isDue now then { process with deadline := none, state := .live .runnable }
  else process

/-- The process made runnable if it is blocked in a given way. -/
def wakeIf (process : Process) (blocked : ProcessState → Bool) : Process :=
  if blocked process.state then { process with state := .live .runnable } else process

end Process

namespace ProcessTable

variable {slots : Nat}

/-- The slots whose processes have a property, in order. -/
def slotsWhere (processes : ProcessTable slots) (eligible : Process → Bool) :
    List (Fin slots) :=
  (List.finRange slots).filter fun slot => eligible processes[slot]

/-- The hint left by processes that all ask to run. -/
def hintFor (candidates : List (Fin slots)) : Hint :=
  candidates.foldl (fun hint slot => hint.combine (.specific slot.val)) .same

/-- The table after every deadline up to a given tick has passed, and a hint for those who wake.
A vacant slot has no deadline. -/
def wakeSleepers (processes : ProcessTable slots) (now : Nat) :
    Checked (ProcessTable slots × Hint) := do
  require (processes.all (fun process => !(process.isDue now && process.isVacant)) = true)
  return (processes.map (·.wakeIfDue now), hintFor (processes.slotsWhere (·.isDue now)))

/-- The table after those blocked in a given way were made runnable, and a hint for those of them
that are more important than the process that caused it. -/
def wake (processes : ProcessTable slots) (caller : Fin slots)
    (blocked : ProcessState → Bool) : ProcessTable slots × Hint :=
  let bar := processes[caller].priority
  (processes.map (·.wakeIf blocked),
    hintFor (processes.slotsWhere fun process =>
      blocked process.state && process.priority.moreImportant bar))

/-- The slot of the live process with a given name. -/
def findPid? (processes : ProcessTable slots) (pid : Pid) : Option (Fin slots) :=
  processes.findFinIdx? fun process => !process.isVacant && process.pid == pid

def vacantSlot? (processes : ProcessTable slots) : Option (Fin slots) :=
  processes.findFinIdx? (·.isVacant)

/-- Every slot once, beginning with the one after `previous`. -/
def turns (slots previous : Nat) : List (Fin slots) :=
  let first := if previous + 1 < slots then previous + 1 else 0
  (List.finRange slots).drop first ++ (List.finRange slots).take first

/-- The better of the choice so far and one more candidate, which wins only if it is strictly more
important. -/
def better (processes : ProcessTable slots) (choice : Option (Fin slots))
    (candidate : Fin slots) : Option (Fin slots) :=
  match choice with
  | none => some candidate
  | some best =>
      if processes[candidate].priority.moreImportant processes[best].priority then some candidate
      else some best

/-- The most important process with a property, and among equals the one whose turn comes first
after `previous`. -/
def scan? (processes : ProcessTable slots) (previous : Nat) (eligible : Process → Bool) :
    Option (Fin slots) :=
  ((turns slots previous).filter fun slot => eligible processes[slot]).foldl
    processes.better none

def select? (processes : ProcessTable slots) (previous : Nat) : Option (Fin slots) :=
  processes.scan? previous (·.isRunnable)

def earliestDeadline? (processes : ProcessTable slots) : Option Nat :=
  (processes.toList.filterMap (·.deadline)).min?

/-- The next process to run, with the process table and the clock when it does.  If nothing can
run, time passes until the earliest deadline; if there is no deadline, the kernel stops. -/
def reschedule (processes : ProcessTable slots) (clock previous : Nat) :
    Checked (ProcessTable slots × Nat × Fin slots) := do
  let (processes, _) ← processes.wakeSleepers clock
  match processes.select? previous with
  | some next => return (processes, clock, next)
  | none =>
      match processes.earliestDeadline? with
      | none => throw (.died .noRunnableProcess)
      | some deadline =>
          let (processes, _) ← processes.wakeSleepers deadline
          match processes.select? previous with
          | some next => return (processes, deadline, next)
          | none => throw (.died .noRunnableProcess)

end ProcessTable

end Microkernel
