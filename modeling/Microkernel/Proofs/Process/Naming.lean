import Microkernel.Kernel.Start
import Microkernel.Proofs.Pipe.Holders
import Microkernel.Proofs.Schedule.Choice
import Mathlib.Data.List.Nodup
import Mathlib.Data.List.Perm.Basic
import Mathlib.Logic.Function.Iterate

/-!
# Names of processes

Names are handed out one after the other, and go round when there is no further one.  A new process
gets the first name, from the next one on, that no live process has.  There are more names than
slots, so there is one.
-/

namespace Microkernel

namespace Pid

variable {pid : Pid}

/-- Whether a name can be a process's own. -/
structure Proper (pid : Pid) : Prop where
  /-- The name is not the stand-in for the caller. -/
  pos : 0 < pid.number
  /-- The name fits into its field. -/
  lt : pid.number < limit

theorem proper_next (pid : Pid) : pid.next.Proper := by
  have two : 1 < limit := by decide
  rw [next]
  split
  next larger => exact ⟨Nat.succ_pos _, larger⟩
  next => exact ⟨Nat.one_pos, two⟩

theorem proper_iterate_next (proper : pid.Proper) (steps : Nat) : (next^[steps] pid).Proper := by
  induction steps with
  | zero => exact proper
  | succ steps induction =>
      rw [Function.iterate_succ_apply']
      exact proper_next _

theorem number_next (pid : Pid) :
    pid.next.number = if pid.number + 1 < limit then pid.number + 1 else 1 := by
  rw [next]
  split <;> rfl

/-- The name that is a number of steps on, if that is less than once around. -/
theorem number_iterate_next (proper : pid.Proper) {steps : Nat} (once : steps < limit - 1) :
    (next^[steps] pid).number =
      if pid.number + steps < limit then pid.number + steps
      else pid.number + steps - (limit - 1) := by
  have pos := proper.pos
  have lt := proper.lt
  induction steps with
  | zero =>
      rw [Nat.add_zero, if_pos lt]
      rfl
  | succ steps induction =>
      rw [Function.iterate_succ_apply', number_next, induction (by omega)]
      grind

theorem iterate_next_inj (proper : pid.Proper) {one other : Nat} (one_once : one < limit - 1)
    (other_once : other < limit - 1) (same : next^[one] pid = next^[other] pid) : one = other := by
  have numbers := congrArg Pid.number same
  rw [number_iterate_next proper one_once, number_iterate_next proper other_once] at numbers
  have pos := proper.pos
  split at numbers <;> split at numbers <;> omega

end Pid

namespace ProcessTable

variable {slots : Nat} {processes : ProcessTable slots} {pid : Pid}

theorem findPid?_eq_none_iff : processes.findPid? pid = none ↔
    ∀ slot : Fin slots, processes[slot].state ≠ .vacant → processes[slot].pid ≠ pid := by
  have asked (process : Process) : (!process.isVacant && process.pid == pid) = true ↔
      process.state ≠ .vacant ∧ process.pid = pid := by
    rw [Bool.and_eq_true, Bool.not_eq_true', Process.isVacant_eq_false_iff, beq_iff_eq]
  simp only [findPid?, Vector.findFinIdx?_eq_none_iff, asked, not_and]
  constructor
  · exact fun unnamed slot => unnamed _ (getElem_mem _ _)
  · intro unnamed process member
    obtain ⟨slot, small, rfl⟩ := Vector.mem_iff_getElem.1 member
    exact unnamed ⟨slot, small⟩

theorem freshPid_of_unnamed {tries : Nat}
    (unnamed : ∀ slot : Fin slots, processes[slot].state ≠ .vacant → processes[slot].pid ≠ pid) :
    processes.freshPid tries pid = pid := by
  cases tries with
  | zero => rfl
  | succ tries =>
      rw [freshPid, findPid?_eq_none_iff.2 unnamed]
      rfl

/-- The fresh name is as many steps on as the names that live processes have in between. -/
theorem freshPid_eq_iterate (processes : ProcessTable slots) (tries : Nat) (pid : Pid) :
    ∃ steps ≤ tries, processes.freshPid tries pid = Pid.next^[steps] pid ∧
      (∀ earlier < steps, (processes.findPid? (Pid.next^[earlier] pid)).isSome) ∧
      (steps < tries → processes.findPid? (processes.freshPid tries pid) = none) := by
  induction tries generalizing pid with
  | zero =>
      exact ⟨0, Nat.le_refl 0, rfl, fun _ less => absurd less (Nat.not_lt_zero _),
        fun less => absurd less (Nat.not_lt_zero _)⟩
  | succ tries induction =>
      rw [freshPid]
      split
      next taken =>
          obtain ⟨steps, few, fresh, found, free⟩ := induction pid.next
          refine ⟨steps + 1, Nat.succ_le_succ few, fresh, fun earlier less => ?_,
            fun less => free (Nat.lt_of_succ_lt_succ less)⟩
          cases earlier with
          | zero => exact taken
          | succ earlier => exact found earlier (Nat.lt_of_succ_lt_succ less)
      next free =>
          exact ⟨0, Nat.zero_le _, rfl, fun _ less => absurd less (Nat.not_lt_zero _),
            fun _ => Option.not_isSome_iff_eq_none.1 free⟩

theorem proper_freshPid (processes : ProcessTable slots) (tries : Nat) (proper : pid.Proper) :
    (processes.freshPid tries pid).Proper := by
  obtain ⟨steps, _, fresh, _⟩ := processes.freshPid_eq_iterate tries pid
  rw [fresh]
  exact Pid.proper_iterate_next proper steps

/-- No live process has the fresh name: the slots cannot have all the names that were tried. -/
theorem findPid?_freshPid (processes : ProcessTable slots) (proper : pid.Proper)
    (few : slots < Pid.limit - 1) :
    processes.findPid? (processes.freshPid slots pid) = none := by
  obtain ⟨steps, most, fresh, found, free⟩ := processes.freshPid_eq_iterate slots pid
  apply Classical.byContradiction
  intro taken
  have all : steps = slots := by
    apply Classical.byContradiction
    intro fewer
    exact taken (free (Nat.lt_of_le_of_ne most fewer))
  subst all
  rw [fresh] at taken
  have among : (List.range (steps + 1)).map (Pid.next^[·] pid) ⊆
      processes.toList.map (·.pid) := by
    intro name member
    obtain ⟨earlier, small, rfl⟩ := List.mem_map.1 member
    have named : ¬ processes.findPid? (Pid.next^[earlier] pid) = none := by
      rcases Nat.lt_succ_iff_lt_or_eq.1 (List.mem_range.1 small) with less | rfl
      · exact Option.isSome_iff_ne_none.1 (found earlier less)
      · exact taken
    simp only [findPid?_eq_none_iff, Classical.not_forall, Classical.not_not] at named
    obtain ⟨slot, _, same⟩ := named
    exact same ▸ processes.pid_mem_map slot
  have distinct : ((List.range (steps + 1)).map (Pid.next^[·] pid)).Nodup := by
    refine List.Nodup.map_on (fun one one_small other other_small same => ?_) List.nodup_range
    rw [List.mem_range] at one_small other_small
    exact Pid.iterate_next_inj proper (by omega) (by omega) same
  have lengths := (List.subperm_of_subset distinct among).length_le
  simp only [List.length_map, List.length_range, Vector.length_toList] at lengths
  omega

end ProcessTable
end Microkernel
