/-!
# Scheduling hints

Whoever changes what can run leaves a hint for the scheduler.  Hints from several sources are
merged in the order in which they arise; the outcome depends on that order once three different
slots have been named.
-/

namespace Microkernel

/-- A suggestion about who should run next. -/
inductive Hint where
  /-- Whoever ran before can go on. -/
  | same
  /-- Someone else should run, to be chosen by the scheduler. -/
  | other
  /-- The process in a given slot should run. -/
  | specific (slot : Nat)
  deriving DecidableEq, Repr

namespace Hint

/-- Merge a hint with a later one: a named slot wins over the rest, two different named slots
leave the choice to the scheduler, and a switch wins over no switch. -/
def combine : Hint → Hint → Hint
  | specific first, specific second => if first = second then specific first else other
  | specific slot, _ => specific slot
  | _, specific slot => specific slot
  | same, same => same
  | _, _ => other

/-- Merge hints in their order, the first one being given apart. -/
def combineAll (first : Hint) (later : List Hint) : Hint :=
  later.foldl combine first

@[simp] theorem combine_self (hint : Hint) : hint.combine hint = hint := by
  cases hint <;> simp [combine]

@[simp] theorem same_combine (hint : Hint) : same.combine hint = hint := by
  cases hint <;> rfl

@[simp] theorem combine_same (hint : Hint) : hint.combine same = hint := by
  cases hint <;> rfl

theorem combine_comm (first second : Hint) : first.combine second = second.combine first := by
  cases first <;> cases second <;> simp only [combine]
  split <;> split <;> simp_all

end Hint

end Microkernel
