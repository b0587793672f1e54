import Microkernel.Proofs.Schedule.Preference
import Mathlib.Data.List.Nodup
import Mathlib.Data.Nat.ModEq

/-!
# Equals take turns

Among processes of the same priority the scheduler goes round: it chooses the one whose turn comes
first after the process that ran before.  As long as the same processes can run, each of the most
important ones is selected once in every so many selections as there are of them.
-/

namespace Microkernel
namespace ProcessTable

variable {slots : Nat} {processes : ProcessTable slots}

/-! ## The order of turns -/

/-- The number of slots whose turn comes before that of a given one.  The first turn is that of the
slot behind `previous`, and the last one that of `previous` itself. -/
def wait (previous : Nat) (slot : Fin slots) : Nat :=
  if previous < slot.val then slot.val - (previous + 1) else slot.val + slots - (previous + 1)

private theorem mem_drop_finRange {first : Nat} {slot : Fin slots}
    (member : slot ∈ (List.finRange slots).drop first) : first ≤ slot.val := by
  obtain ⟨index, small, rfl⟩ := List.mem_drop_iff_getElem.1 member
  simp

private theorem mem_take_finRange {first : Nat} {slot : Fin slots}
    (member : slot ∈ (List.finRange slots).take first) : slot.val < first := by
  obtain ⟨index, small, rfl⟩ := List.mem_take_iff_getElem.1 member
  simp only [List.getElem_finRange, Fin.val_cast]
  omega

theorem pairwise_turns {previous : Nat} (inside : previous < slots) :
    (turns slots previous).Pairwise fun one other => wait previous one < wait previous other := by
  have sorted : (List.finRange slots).Pairwise (· < ·) := List.pairwise_lt_finRange slots
  rw [turns, List.pairwise_append]
  split
  next more =>
      refine ⟨(sorted.sublist (List.drop_sublist ..)).imp_of_mem ?_,
        (sorted.sublist (List.take_sublist ..)).imp_of_mem ?_, fun one near other far => ?_⟩
      · intro one other near far less
        have one_behind := mem_drop_finRange near
        have other_behind := mem_drop_finRange far
        rw [wait, wait, if_pos (by omega), if_pos (by omega)]
        omega
      · intro one other near far less
        have one_before := mem_take_finRange near
        have other_before := mem_take_finRange far
        rw [wait, wait, if_neg (by omega), if_neg (by omega)]
        omega
      · have behind := mem_drop_finRange near
        have before := mem_take_finRange far
        rw [wait, wait, if_pos (by omega), if_neg (by omega)]
        omega
  next last =>
      rw [List.drop_zero, List.take_zero]
      refine ⟨sorted.imp fun {one other} less => ?_, .nil, by simp⟩
      rw [wait, wait, if_neg (by omega), if_neg (by omega)]
      omega

/-- Nobody who is as important as the chosen one has an earlier turn. -/
theorem wait_le_of_scan? {previous : Nat} {eligible : Process → Bool} {choice slot : Fin slots}
    (found : processes.scan? previous eligible = some choice) (inside : previous < slots)
    (candidate : eligible processes[slot] = true)
    (equal : processes[slot].priority = processes[choice].priority) :
    wait previous choice ≤ wait previous slot := by
  obtain ⟨before, after, shape, less, _⟩ := leads_of_scan? found
  have ordered : (processes.candidates previous eligible).Pairwise
      fun one other => wait previous one < wait previous other :=
    (pairwise_turns inside).sublist List.filter_sublist
  have member : slot ∈ processes.candidates previous eligible := mem_candidates.2 candidate
  rw [shape] at ordered member
  rcases List.mem_append.1 member with earlier | here
  · -- those before the chosen one are less important
    have lower := less slot earlier
    rw [equal] at lower
    exact absurd lower (Nat.lt_irrefl _)
  · rcases List.mem_cons.1 here with rfl | later
    · exact Nat.le_refl _
    · have behind := (List.pairwise_cons.1 (List.pairwise_append.1 ordered).2.1).1
      exact Nat.le_of_lt (behind slot later)

/-- Whether a slot is the one that is to be chosen. -/
structure FirstChoice (processes : ProcessTable slots) (previous : Nat)
    (eligible : Process → Bool) (choice : Fin slots) : Prop where
  has_property : eligible processes[choice] = true
  /-- Nobody else with the property is more important. -/
  most_important : ∀ other : Fin slots, eligible processes[other] = true →
    processes[other].priority.moreImportant processes[choice].priority = false
  /-- Nobody else with the property and the same priority has an earlier turn. -/
  first_in_turn : previous < slots → ∀ other : Fin slots, eligible processes[other] = true →
    processes[other].priority = processes[choice].priority →
      wait previous choice ≤ wait previous other

theorem firstChoice_of_scan? {previous : Nat} {eligible : Process → Bool} {choice : Fin slots}
    (found : processes.scan? previous eligible = some choice) :
    processes.FirstChoice previous eligible choice where
  has_property := of_scan?_eq_some found
  most_important other candidate :=
    (Priority.moreImportant_eq_false_iff _ _).2 (scan?_le found other candidate)
  first_in_turn inside _ candidate equal := wait_le_of_scan? found inside candidate equal

/-! ## Going round -/

/-- The slots of those who can run and beside whom nobody who can run is more important, in
order. -/
def foremost (processes : ProcessTable slots) : List (Fin slots) :=
  (List.finRange slots).filter fun slot =>
    processes[slot].isRunnable && decide (processes.Tops slot)

theorem mem_foremost {slot : Fin slots} :
    slot ∈ processes.foremost ↔ processes[slot].isRunnable = true ∧ processes.Tops slot := by
  simp [foremost]

theorem pairwise_foremost (processes : ProcessTable slots) :
    processes.foremost.Pairwise (· < ·) :=
  (List.pairwise_lt_finRange slots).sublist List.filter_sublist

theorem mem_foremost_of_select? {previous : Nat} {choice : Fin slots}
    (selected : processes.select? previous = some choice) : choice ∈ processes.foremost :=
  mem_foremost.2 (tops_of_select? selected)

theorem priority_eq_of_mem_foremost {one other : Fin slots} (first : one ∈ processes.foremost)
    (second : other ∈ processes.foremost) :
    processes[one].priority = processes[other].priority := by
  obtain ⟨runs, tops⟩ := mem_foremost.1 first
  obtain ⟨also_runs, also_tops⟩ := mem_foremost.1 second
  have le := (Priority.moreImportant_eq_false_iff _ _).1 (tops other also_runs)
  have ge := (Priority.moreImportant_eq_false_iff _ _).1 (also_tops one runs)
  exact congrArg Priority.mk (Nat.le_antisymm ge le)

/-- Whether the same processes can run in two tables, with the same priorities. -/
def RunsLike (before after : ProcessTable slots) : Prop :=
  ∀ slot : Fin slots, after[slot].isRunnable = before[slot].isRunnable ∧
    (before[slot].isRunnable = true → after[slot].priority = before[slot].priority)

theorem RunsLike.foremost_eq {before after : ProcessTable slots} (alike : before.RunsLike after) :
    after.foremost = before.foremost := by
  rw [foremost, foremost]
  refine List.filter_congr fun slot _ => ?_
  rw [(alike slot).1]
  cases runs : before[slot].isRunnable with
  | false => rfl
  | true =>
      have tops_iff : after.Tops slot ↔ before.Tops slot := by
        refine forall_congr' fun other => ?_
        rw [(alike other).1]
        refine imp_congr_right fun other_runs => ?_
        rw [(alike slot).2 runs, (alike other).2 other_runs]
      simp [tops_iff]

/-- In a list of slots in order, the first turn after that of an element is the next element's, and
after the last one's the first one's. -/
theorem next_of_wait_le {listed : List (Fin slots)} (sorted : listed.Pairwise (· < ·))
    {place next : Nat} (inside : place < listed.length) (small : next < listed.length)
    (least : ∀ (other : Nat) (within : other < listed.length),
      wait listed[place].val listed[next] ≤ wait listed[place].val listed[other]) :
    next = (place + 1) % listed.length := by
  have less (one other : Nat) (near : one < listed.length) (far : other < listed.length)
      (ordered : one < other) : listed[one].val < listed[other].val :=
    List.pairwise_iff_getElem.1 sorted one other near far ordered
  have not_behind (one : Nat) (near : one < listed.length) (ordered : one ≤ place) :
      listed[one].val ≤ listed[place].val := by
    rcases Nat.lt_or_eq_of_le ordered with before | rfl
    · exact Nat.le_of_lt (less one place near inside before)
    · exact Nat.le_refl _
  rcases Nat.lt_or_eq_of_le (Nat.succ_le_of_lt inside) with more | last
  · rw [Nat.mod_eq_of_lt more]
    have ahead := less place (place + 1) inside more (Nat.lt_succ_self _)
    have bound := listed[place + 1].isLt
    have earliest := least (place + 1) more
    rw [wait, wait, if_pos ahead] at earliest
    rcases Nat.lt_trichotomy next (place + 1) with before | same | behind
    · have wrapped := not_behind next small (Nat.le_of_lt_succ before)
      rw [if_neg (by omega)] at earliest
      omega
    · exact same
    · have later := less (place + 1) next more small behind
      rw [if_pos (by omega)] at earliest
      omega
  · rw [← Nat.succ_eq_add_one, last, Nat.mod_self]
    have first := not_behind 0 (by omega) (Nat.zero_le _)
    have wrapped := not_behind next small (by omega)
    have earliest := least 0 (by omega)
    rw [wait, wait, if_neg (by omega), if_neg (by omega)] at earliest
    refine Nat.eq_zero_of_not_pos fun behind => ?_
    have later := less 0 next (by omega) small behind
    omega

/-- Whoever ran before is followed by the next of the foremost, the last of them by the first. -/
theorem select?_next {place : Nat} (inside : place < processes.foremost.length) :
    processes.select? processes.foremost[place].val =
      processes.foremost[(place + 1) % processes.foremost.length]? := by
  obtain ⟨choice, chosen⟩ :=
    exists_select? processes.foremost[place].val (mem_foremost.1 (List.getElem_mem inside)).1
  obtain ⟨next, small, rfl⟩ := List.mem_iff_getElem.1 (mem_foremost_of_select? chosen)
  have next_eq := next_of_wait_le (pairwise_foremost processes) inside small
    fun other within => wait_le_of_scan? chosen processes.foremost[place].isLt
      (mem_foremost.1 (List.getElem_mem within)).1
      (priority_eq_of_mem_foremost (List.getElem_mem within) (List.getElem_mem small))
  rw [chosen, ← next_eq, List.getElem?_eq_getElem small]

/-- Who is selected, time after time, each from the table that there is then. -/
def selections (tables : Nat → ProcessTable slots) (previous : Nat) : Nat → Option (Fin slots)
  | 0 => (tables 0).select? previous
  | turn + 1 =>
      (selections tables previous turn).bind fun last => (tables (turn + 1)).select? last.val

/-- While the same processes can run, the foremost are selected one after the other, round and
round. -/
theorem selections_eq {tables : Nat → ProcessTable slots}
    (alike : ∀ turn, processes.RunsLike (tables turn))
    (somebody : processes.foremost ≠ []) (previous : Nat) :
    ∃ first, ∀ turn, selections tables previous turn =
      processes.foremost[(first + turn) % processes.foremost.length]? := by
  have some_left := List.length_pos_iff.2 somebody
  have foremost_eq (turn : Nat) : (tables turn).foremost = processes.foremost :=
    (alike turn).foremost_eq
  obtain ⟨slot, runs⟩ := List.exists_mem_of_ne_nil _ somebody
  rw [← foremost_eq 0, mem_foremost] at runs
  obtain ⟨choice, chosen⟩ := exists_select? previous runs.1
  have member := mem_foremost_of_select? chosen
  rw [foremost_eq] at member
  obtain ⟨first, small, rfl⟩ := List.mem_iff_getElem.1 member
  refine ⟨first, fun turn => ?_⟩
  induction turn with
  | zero => rw [selections, chosen, Nat.add_zero, Nat.mod_eq_of_lt small, List.getElem?_eq_getElem]
  | succ turn induction =>
      have within : (first + turn) % processes.foremost.length < processes.foremost.length :=
        Nat.mod_lt _ some_left
      have next : (tables (turn + 1)).select?
            processes.foremost[(first + turn) % processes.foremost.length].val =
          processes.foremost[((first + turn) % processes.foremost.length + 1) %
            processes.foremost.length]? := by
        simp only [← foremost_eq (turn + 1)] at within ⊢
        exact select?_next within
      rw [selections, induction, List.getElem?_eq_getElem within, Option.bind_some, next,
        Nat.mod_add_mod, Nat.add_assoc]

theorem mem_foremost_of_selections {tables : Nat → ProcessTable slots}
    (alike : ∀ turn, processes.RunsLike (tables turn)) {previous turn : Nat} {choice : Fin slots}
    (selected : selections tables previous turn = some choice) : choice ∈ processes.foremost := by
  rw [← (alike turn).foremost_eq]
  cases turn with
  | zero => exact mem_foremost_of_select? selected
  | succ turn =>
      obtain ⟨last, _, chosen⟩ := Option.bind_eq_some_iff.1 selected
      exact mem_foremost_of_select? chosen

/-- Going round in steps of one, each place is come by once in as many steps as there are places. -/
theorem existsUnique_turn {first places place : Nat} (inside : place < places) :
    ∃! turn, turn < places ∧ (first + turn) % places = place := by
  have some_place := Nat.zero_lt_of_lt inside
  have start_lt := Nat.mod_lt first some_place
  refine existsUnique_of_exists_of_unique ⟨(place + (places - first % places)) % places,
    Nat.mod_lt _ some_place, ?_⟩ ?_
  · calc (first + (place + (places - first % places)) % places) % places
        = (first % places + (place + (places - first % places))) % places := by
          rw [Nat.add_mod_mod, Nat.mod_add_mod]
      _ = (place + places) % places := by
          congr 1
          omega
      _ = place := by rw [Nat.add_mod_right, Nat.mod_eq_of_lt inside]
  · rintro one other ⟨small, here⟩ ⟨also_small, also_here⟩
    have congruent : first + one ≡ first + other [MOD places] := here.trans also_here.symm
    exact (Nat.ModEq.add_left_cancel' first congruent).eq_of_lt_of_lt small also_small

/-- Whoever is chosen is of the highest priority and, among equals, the first in turn.  While the
same processes can run, the scheduler therefore selects each of the foremost exactly once in every
so many selections as there are of them, and nobody else. -/
theorem chooses_in_turn :
    (∀ (processes : ProcessTable slots) (previous : Nat) (eligible : Process → Bool),
      (processes.scan? previous eligible = none ↔
          ∀ slot : Fin slots, eligible processes[slot] = false) ∧
        ∀ choice, processes.scan? previous eligible = some choice →
          processes.FirstChoice previous eligible choice) ∧
      ∀ (processes : ProcessTable slots) (tables : Nat → ProcessTable slots) (previous : Nat),
        (∀ turn, processes.RunsLike (tables turn)) →
          (∀ turn choice, selections tables previous turn = some choice →
            choice ∈ processes.foremost) ∧
          ∀ start, ∀ slot ∈ processes.foremost, ∃! turn, turn < processes.foremost.length ∧
            selections tables previous (start + turn) = some slot := by
  refine ⟨fun processes previous eligible => ⟨scan?_eq_none_iff, fun choice =>
    firstChoice_of_scan?⟩, fun processes tables previous alike => ⟨fun turn choice =>
      mem_foremost_of_selections alike, fun start slot member => ?_⟩⟩
  obtain ⟨first, selected_eq⟩ := selections_eq alike (List.ne_nil_of_mem member) previous
  obtain ⟨place, inside, rfl⟩ := List.mem_iff_getElem.1 member
  have distinct : processes.foremost.Nodup :=
    (pairwise_foremost processes).imp fun less => Fin.ne_of_lt less
  have here_iff (turn : Nat) : selections tables previous (start + turn) =
      some processes.foremost[place] ↔
        (first + start + turn) % processes.foremost.length = place := by
    have within := Nat.mod_lt (first + (start + turn)) (Nat.zero_lt_of_lt inside)
    rw [selected_eq, List.getElem?_eq_getElem within, Option.some.injEq,
      List.Nodup.getElem_inj_iff distinct, Nat.add_assoc]
  simp only [here_iff]
  exact existsUnique_turn inside

/-- Three processes that can run, of which the last two are the most important. -/
def trio : ProcessTable 3 :=
  let runs (level : Nat) : Process :=
    { Process.vacant ⟨0, 0, 0, 0⟩ 0 with state := .live .runnable, priority := ⟨level⟩ }
  #v[runs 10, runs 20, runs 20]

/-- Of two equals, each is chosen after the other has run, and both are selected in any two
selections. -/
theorem trio_in_turn : (∀ _ : Nat, trio.RunsLike trio) ∧
    trio.scan? 1 (·.isRunnable) = some 2 ∧ trio.FirstChoice 1 (·.isRunnable) 2 ∧
    trio.foremost = [1, 2] ∧
    ∃! turn, turn < 2 ∧ selections (fun _ => trio) 1000 (5 + turn) = some 2 := by
  have alike : ∀ _ : Nat, trio.RunsLike trio := fun _ _ => ⟨rfl, fun _ => rfl⟩
  have chosen : trio.scan? 1 (·.isRunnable) = some 2 := by decide
  have listed : trio.foremost = [1, 2] := by decide
  obtain ⟨chooses, rounds⟩ := @chooses_in_turn 3
  have turns := (rounds trio (fun _ => trio) 1000 alike).2 5 2 (by decide)
  rw [listed] at turns
  exact ⟨alike, chosen, (chooses trio 1 (·.isRunnable)).2 2 chosen, listed, turns⟩

end ProcessTable
end Microkernel
