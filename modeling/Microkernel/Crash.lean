/-!
# Crashes

A kernel that finds its own state impossible stops for good.  `Crash` lists the ways this can
happen, and `Checked` is the type of a computation that may stop so.  A mistake made by a program
is never a crash: it is an error code or a fault against that program.
-/

namespace Microkernel

/-- The conditions under which the kernel stops on purpose, with a message. -/
inductive Death where
  | noRunnableProcess
  | missingPipe
  | levelReadFromUser
  | kernelEnteredFromUser
  | userEnteredFromOutside
  | other (reason : String)
  deriving DecidableEq, Repr

namespace Death

def reason : Death → String
  | noRunnableProcess => "no runnable processes"
  | missingPipe => "handle to a pipe that doesn't exist"
  | levelReadFromUser => "exception level read from EL0"
  | kernelEnteredFromUser => "drop to EL1 from EL0"
  | userEnteredFromOutside => "drop to EL0 from outside EL1"
  | other reason => reason

def report (death : Death) : String :=
  "kernel died: " ++ death.reason

end Death

/-- The ways in which a computation of the kernel can end without a result. -/
inductive Crash where
  | died (death : Death)
  | checkFailed
  | overflow
  | outOfRange
  deriving DecidableEq, Repr

/-- A computation that may crash. -/
abbrev Checked := Except Crash

theorem Checked.bind_eq_ok_iff {α β : Type} {action : Checked α} {next : α → Checked β}
    {result : β} :
    action >>= next = .ok result ↔ ∃ value, action = .ok value ∧ next value = .ok result := by
  cases action with
  | ok value =>
      constructor
      · exact fun run => ⟨value, rfl, run⟩
      · rintro ⟨_, ⟨⟩, run⟩
        exact run
  | error crash =>
      refine iff_of_false (fun run => ?_) ?_
      · cases run
      · rintro ⟨_, ⟨⟩, _⟩

/-- Go on only if a condition that the code relies on holds. -/
def require (condition : Prop) [Decidable condition] : Checked Unit :=
  if condition then .ok () else .error .checkFailed

theorem require_eq_ok_iff {condition : Prop} [Decidable condition] :
    require condition = .ok () ↔ condition := by
  rw [require]
  split
  next holds => exact iff_of_true rfl holds
  next fails => exact iff_of_false nofun fails

theorem require_return_eq_ok_iff {α : Type} {condition : Prop} [Decidable condition]
    {value result : α} :
    (do require condition; return value : Checked α) = .ok result ↔
      condition ∧ result = value := by
  rw [require]
  split
  next holds =>
      rw [and_iff_right holds, eq_comm]
      exact ⟨Except.ok.inj, congrArg Except.ok⟩
  next fails => exact iff_of_false nofun fun both => fails both.1

end Microkernel
