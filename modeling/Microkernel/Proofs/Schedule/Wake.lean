import Microkernel.Schedule

/-!
# Waking

Waking makes processes runnable and changes nothing else about them, apart from the deadlines of
those that were asleep.  The hint that it leaves names slots of the table only.
-/

namespace Microkernel

namespace Hint

/-- Whether a hint that names a slot names one of the table's. -/
def Within (slots : Nat) (hint : Hint) : Prop :=
  ∀ position, hint = .specific position → position < slots

variable {slots : Nat}

theorem within_same : Within slots .same := by
  intro position named
  cases named

theorem within_other : Within slots .other := by
  intro position named
  cases named

theorem within_specific (slot : Fin slots) : Within slots (.specific slot.val) := by
  intro position named
  cases named
  exact slot.isLt

theorem Within.combine {first second : Hint} (first_within : first.Within slots)
    (second_within : second.Within slots) : (first.combine second).Within slots := by
  intro position named
  cases first with
  | same => exact second_within position (by simpa using named)
  | other =>
      cases second with
      | specific place => exact second_within position named
      | _ => cases named
  | specific place =>
      cases second with
      | specific later =>
          simp only [Hint.combine] at named
          split at named
          · exact first_within position named
          · cases named
      | _ => exact first_within position named

end Hint

namespace Process

variable (process : Process) (blocked : ProcessState → Bool)

@[simp] theorem wakeIf_handles : (process.wakeIf blocked).handles = process.handles := by
  rw [wakeIf]
  split <;> rfl

@[simp] theorem wakeIf_pid : (process.wakeIf blocked).pid = process.pid := by
  rw [wakeIf]
  split <;> rfl

@[simp] theorem wakeIf_memory : (process.wakeIf blocked).memory = process.memory := by
  rw [wakeIf]
  split <;> rfl

@[simp] theorem wakeIf_heap : (process.wakeIf blocked).heap = process.heap := by
  rw [wakeIf]
  split <;> rfl

@[simp] theorem wakeIf_regions : (process.wakeIf blocked).regions = process.regions := by
  rw [wakeIf]
  split <;> rfl

@[simp] theorem wakeIf_deadline : (process.wakeIf blocked).deadline = process.deadline := by
  rw [wakeIf]
  split <;> rfl

theorem wakeIf_state : (process.wakeIf blocked).state =
    if blocked process.state then .live .runnable else process.state := by
  rw [wakeIf]
  split <;> rfl

theorem wakeIf_of_not {process : Process} {blocked : ProcessState → Bool}
    (clear : blocked process.state = false) : process.wakeIf blocked = process := by
  rw [wakeIf, clear]
  rfl

theorem wakeIfDue_of_due {process : Process} {now : Nat} (due : process.isDue now = true) :
    process.wakeIfDue now = { process with deadline := none, state := .live .runnable } :=
  if_pos due

theorem wakeIfDue_of_not_due {process : Process} {now : Nat} (early : process.isDue now = false) :
    process.wakeIfDue now = process := by
  rw [wakeIfDue, early]
  rfl

end Process

namespace ProcessState

theorem isReading_iff (state : ProcessState) (pipe : PipeId) :
    state.isReading pipe = true ↔ state = .live (.readingPipe pipe) := by
  simp [isReading]

theorem isWriting_iff (state : ProcessState) (pipe : PipeId) :
    state.isWriting pipe = true ↔ state = .live (.writingPipe pipe) := by
  simp [isWriting]

theorem isBlockedOn_iff (state : ProcessState) (pipe : PipeId) :
    state.isBlockedOn pipe = true ↔
      state = .live (.readingPipe pipe) ∨ state = .live (.writingPipe pipe) := by
  simp [isBlockedOn, isReading, isWriting]

theorem isBlockedOn_of_isReading {state : ProcessState} {pipe : PipeId}
    (reading : state.isReading pipe = true) : state.isBlockedOn pipe = true := by
  simp [isBlockedOn, reading]

theorem isBlockedOn_of_isWriting {state : ProcessState} {pipe : PipeId}
    (writing : state.isWriting pipe = true) : state.isBlockedOn pipe = true := by
  simp [isBlockedOn, writing]

end ProcessState

namespace Process

variable {process : Process} {blocked : ProcessState → Bool} {id : PipeId}

theorem wakeIf_vacant_iff (only : ∀ state, blocked state = true → state.isBlockedOn id = true) :
    (process.wakeIf blocked).state = .vacant ↔ process.state = .vacant := by
  rw [wakeIf_state]
  split
  next asked =>
      have waits := only _ asked
      constructor
      · intro impossible
        cases impossible
      · intro vacant
        rw [vacant] at waits
        cases waits
  next => rfl

theorem wakeIf_eq_of_isBlockedOn {other : PipeId}
    (waits : (process.wakeIf blocked).state.isBlockedOn other = true) :
    blocked process.state = false ∧ process.wakeIf blocked = process := by
  cases asked : blocked process.state with
  | true =>
      rw [wakeIf_state, if_pos asked] at waits
      cases waits
  | false => exact ⟨rfl, wakeIf_of_not asked⟩

end Process

namespace ProcessTable

variable {slots : Nat}

theorem map_wakeIf_none (processes : ProcessTable slots) :
    (processes.map (·.wakeIf fun _ => false)) = processes := by
  apply eq_of_getElem
  intro slot
  rw [getElem_map, Process.wakeIf_of_not rfl]

/-- The hint for some slots names one of them, if any. -/
theorem within_hintFor (candidates : List (Fin slots)) : (hintFor candidates).Within slots := by
  rw [hintFor]
  generalize first_eq : Hint.same = first
  have first_within : first.Within slots := first_eq ▸ Hint.within_same
  clear first_eq
  induction candidates generalizing first with
  | nil => exact first_within
  | cons slot rest induction =>
      exact induction _ (first_within.combine (Hint.within_specific slot))

/-- Sleepers can be woken as long as no vacant slot has a deadline. -/
theorem wakeSleepers_eq {processes : ProcessTable slots}
    (none_vacant : ∀ slot : Fin slots, processes[slot].state = .vacant →
      processes[slot].deadline = none) (now : Nat) :
    processes.wakeSleepers now = .ok (processes.map (·.wakeIfDue now),
      hintFor (processes.slotsWhere (·.isDue now))) := by
  have checked :
      processes.all (fun process => !(process.isDue now && process.isVacant)) = true := by
    rw [Vector.all_eq_true]
    intro slot small
    have vacant := none_vacant ⟨slot, small⟩
    simp only [getElem_position] at vacant
    simp only [Bool.not_eq_true', Bool.and_eq_false_imp, Process.isVacant, ProcessState.isVacant,
      beq_eq_false_iff_ne, Process.isDue]
    intro due is_vacant
    rw [vacant is_vacant] at due
    cases due
  simp only [wakeSleepers, require, checked, if_true, bind, Except.bind]
  rfl

end ProcessTable
end Microkernel
