import Microkernel.Proofs.Tables.Writers

/-!
# Parting with pipes

When a process lets go of pipes, each pipe is left alone, and the hold of the process on it too, or
the process has let go of the pipe once, which leaves of it what `Pipe.letGo` says.
-/

namespace Microkernel

namespace Process

variable {process changed : Process} {id : PipeId}

theorem holds_congr (same : changed.handles = process.handles) :
    changed.Holds id ↔ process.Holds id := by
  rw [Holds, Holds, same]

theorem not_holds_of_noHandles (none_left : process.handles = noHandles) : ¬ process.Holds id := by
  rw [← handlesOn_pos_iff, handlesOn_noHandles none_left]
  exact Nat.lt_irrefl 0

end Process

namespace Tables

variable {slots : Nat} {tables before between after reaped : Tables slots}
  {holder caller slot : Fin slots} {id other : PipeId} {pipe : Pipe}
  {position : Fin Config.maxHandles} {hint : Hint}

/-- What becomes of a pipe when a process lets go of pipes. -/
inductive PartsWith (before after : Tables slots) (holder : Fin slots) (id : PipeId) : Prop where
  /-- The pipe is as it was, and the process holds it or not, as before. -/
  | kept (same : after.pipes.get? id = before.pipes.get? id)
      (holds : after.processes[holder].Holds id ↔ before.processes[holder].Holds id)
  /-- The process has let go of the pipe. -/
  | parted (pipe : Pipe) (found : before.pipes.get? id = some pipe)
      (held : before.processes[holder].Holds id)
      (left : after.pipes.get? id = pipe.letGo before.processes[holder].pid)
      (gone : ¬ after.processes[holder].Holds id)

theorem PartsWith.refl (tables : Tables slots) (holder : Fin slots) (id : PipeId) :
    PartsWith tables tables holder id :=
  .kept rfl .rfl

/-- Nobody lets go of a pipe twice. -/
theorem PartsWith.trans (first : PartsWith before between holder id)
    (second : PartsWith between after holder id)
    (named : between.processes[holder].pid = before.processes[holder].pid) :
    PartsWith before after holder id := by
  cases first with
  | kept same holds =>
      cases second with
      | kept still_same still_holds =>
          exact .kept (still_same.trans same) (still_holds.trans holds)
      | parted pipe found held left gone =>
          exact .parted pipe (same.symm.trans found) (holds.1 held) (named ▸ left) gone
  | parted pipe found held left gone =>
      cases second with
      | kept same holds =>
          exact .parted pipe found held (same.trans left) fun again => gone (holds.1 again)
      | parted _ _ again => exact absurd again gone

theorem PartsWith.congr (parts : PartsWith before between holder id)
    (pipes : after.pipes = between.pipes)
    (handles : after.processes[holder].handles = between.processes[holder].handles) :
    PartsWith before after holder id := by
  cases parts with
  | kept same holds => exact .kept (pipes ▸ same) ((Process.holds_congr handles).trans holds)
  | parted pipe found held left gone =>
      exact .parted pipe found held (pipes ▸ left) fun again =>
        gone ((Process.holds_congr handles).1 again)

theorem Released.handles_eq (leaves : Released tables holder id pipe after hint)
    (slot : Fin slots) : after.processes[slot].handles = tables.processes[slot].handles ∧
      after.processes[slot].pid = tables.processes[slot].pid := by
  cases leaves with
  | hungUp =>
      have woken : (tables.processes.wake holder (·.isBlockedOn id)).1[slot] =
          tables.processes[slot].wakeIf (·.isBlockedOn id) := getElem_map _ _ _
      rw [woken]
      exact ⟨Process.wakeIf_handles .., Process.wakeIf_pid ..⟩
  | quiet => exact ⟨rfl, rfl⟩

theorem Released.pipes_eq (leaves : Released tables holder id pipe after hint) :
    after.pipes = tables.pipes.put id (pipe.letGo tables.processes[holder].pid) := by
  cases leaves with
  | hungUp => rfl
  | quiet => rfl

theorem not_holds_dropHandle (single : tables.processes[holder].handlesOn id ≤ 1)
    (named : tables.processes[holder].handles[position] = some id) :
    ¬ (tables.dropHandle holder position).processes[holder].Holds id := by
  rw [getElem_dropHandle, if_pos rfl, ← Process.handlesOn_pos_iff]
  have counted := Process.handlesOn_set tables.processes[holder] position none id
  change (tables.processes[holder].dropHandle position).handlesOn id + _ = _ at counted
  simp only [named, if_true, reduceCtorEq, if_false, Nat.add_zero] at counted
  omega

/-- Letting go of one handle parts with its pipe and no other. -/
theorem Released.partsWith
    (leaves : Released (tables.dropHandle holder position) holder id pipe after hint)
    (single : tables.processes[holder].handlesOn id ≤ 1)
    (named : tables.processes[holder].handles[position] = some id)
    (found : tables.pipes.get? id = some pipe) (other : PipeId) :
    PartsWith tables after holder other := by
  have pipes := leaves.pipes_eq
  rw [pid_dropHandle] at pipes
  have looked : after.pipes.get? other =
      if other = id then pipe.letGo tables.processes[holder].pid else tables.pipes.get? other := by
    rw [pipes]
    exact PipeTable.get?_put _ (PipeTable.index_lt_of_get?_eq_some found) other
  have holds : after.processes[holder].Holds other ↔
      (tables.dropHandle holder position).processes[holder].Holds other :=
    Process.holds_congr (leaves.handles_eq holder).1
  by_cases same : other = id
  · subst same
    rw [if_pos rfl] at looked
    exact .parted pipe found ((Process.holds_iff _ _).2 ⟨position, named⟩) looked fun again =>
      not_holds_dropHandle single named (holds.1 again)
  · rw [if_neg same] at looked
    refine .kept looked (holds.trans ⟨fun held => ?_, holds_dropHandle named (.inr same)⟩)
    rw [← Process.handlesOn_pos_iff] at held ⊢
    exact Nat.lt_of_lt_of_le held (handlesOn_dropHandle_le holder other)

/-- A process that ends parts with everything that it holds. -/
theorem partsWith_reap (tidy : tables.Tidy) (run : tables.reap slot = .ok (reaped, hint))
    (id : PipeId) : PartsWith tables reaped slot id := by
  have kept : ∃ released, (released.Tidy ∧
      released.processes[slot].pid = tables.processes[slot].pid ∧
        PartsWith tables released slot id) ∧ reaped = released.modifyProcess slot (·.depart) := by
    refine reap_ok (fun released _ => released.Tidy ∧
      released.processes[slot].pid = tables.processes[slot].pid ∧
        PartsWith tables released slot id) run ⟨tidy, rfl, .refl _ _ _⟩ ?_
    rintro before _ position other pipe after _ ⟨before_tidy, named, parts⟩ here found leaves
    refine ⟨before_tidy.released here found leaves, ?_, ?_⟩
    · rw [(leaves.handles_eq slot).2, pid_dropHandle]
      exact named
    · exact parts.trans (leaves.partsWith (before_tidy.single slot other) here found id) named
  obtain ⟨released, ⟨_, _, parts⟩, rfl⟩ := kept
  refine parts.congr rfl ?_
  rw [modifyProcess, getElem_set_self]
  rfl

end Tables
end Microkernel
