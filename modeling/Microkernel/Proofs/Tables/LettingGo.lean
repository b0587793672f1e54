import Microkernel.Proofs.Tables.Release

/-!
# What letting go comes to

Letting go of a pipe either hangs it up, and then everybody who waits for it wakes and the hint
speaks for the important ones among them, or it wakes nobody.  A process that ends does this for
every handle in turn.  This holds of any tables, sound or not.
-/

namespace Microkernel

theorem foldlM_keeps {State Step : Type} {step : State → Step → Checked State}
    {keeps : State → Prop}
    (kept : ∀ before element after, keeps before → step before element = .ok after → keeps after)
    {elements : List Step} {before after : State} (start : keeps before)
    (run : elements.foldlM step before = .ok after) : keeps after := by
  induction elements generalizing before with
  | nil =>
      cases run
      exact start
  | cons element rest induction =>
      rw [List.foldlM_cons, Checked.bind_eq_ok_iff] at run
      obtain ⟨between, first, run⟩ := run
      exact induction (kept before element between start first) run

namespace Pipe

/-- Whether a pipe is hung up, if it is not yet, when a holder lets go of it: the holder is its
owner or its last writer, or a single holder is left. -/
def endsWith (pipe : Pipe) (holder : Pid) : Bool :=
  pipe.owner == holder || (pipe.dropWriter holder).2 || pipe.references == 2

/-- What is left of a pipe once a holder has let go of it, if anybody else holds it. -/
def letGo (pipe : Pipe) (holder : Pid) : Option Pipe :=
  if pipe.references = 1 then none
  else some { pipe with
    references := pipe.references - 1
    writers := (pipe.dropWriter holder).1.writers
    hungUp := pipe.hungUp || pipe.endsWith holder }

theorem letGo_eq_some {pipe kept : Pipe} {holder : Pid} (left : pipe.letGo holder = some kept) :
    kept = { pipe with
      references := pipe.references - 1
      writers := (pipe.dropWriter holder).1.writers
      hungUp := pipe.hungUp || pipe.endsWith holder } := by
  rw [letGo] at left
  split at left
  · cases left
  · exact (Option.some.inj left).symm

end Pipe

namespace Tables

variable {slots : Nat} {tables released reaped : Tables slots} {holder slot : Fin slots}
  {id : PipeId} {hint later : Hint}

/-- What a process can leave that lets go of a pipe: the pipe is hung up and everybody who waits for
it wakes, or nobody wakes, since the pipe goes on or was hung up before. -/
inductive Released (tables : Tables slots) (holder : Fin slots) (id : PipeId) (pipe : Pipe) :
    Tables slots → Hint → Prop where
  | hungUp (was_open : pipe.hungUp = false)
      (ends : pipe.endsWith tables.processes[holder].pid = true) :
      Released tables holder id pipe
        ⟨(tables.processes.wake holder (·.isBlockedOn id)).1,
          tables.pipes.put id (pipe.letGo tables.processes[holder].pid)⟩
        (tables.processes.wake holder (·.isBlockedOn id)).2
  | quiet (same : (pipe.hungUp || pipe.endsWith tables.processes[holder].pid) = pipe.hungUp) :
      Released tables holder id pipe
        { tables with pipes := tables.pipes.put id (pipe.letGo tables.processes[holder].pid) } .same

private theorem dropWriter_references (pipe : Pipe) (references : Nat) (writer : Pid) :
    { pipe with references }.dropWriter writer =
      ({ pipe with references, writers := (pipe.dropWriter writer).1.writers },
        (pipe.dropWriter writer).2) := by
  simp only [Pipe.dropWriter]
  split
  · rfl
  · rfl

theorem released_of_release (run : tables.release holder id = .ok (released, hint)) :
    ∃ pipe, tables.pipes.get? id = some pipe ∧ Released tables holder id pipe released hint := by
  simp only [release] at run
  split at run
  next => cases run
  next pipe found =>
      refine ⟨pipe, found, ?_⟩
      rw [Checked.bind_eq_ok_iff] at run
      obtain ⟨references, fewer, run⟩ := run
      obtain ⟨some_left, rfl⟩ := (Word.difference_eq_ok_iff _ _ _).1 fewer
      have hangs_iff : hangsUp { pipe with
          references := pipe.references - 1
          writers := (pipe.dropWriter tables.processes[holder].pid).1.writers }
          tables.processes[holder].pid (pipe.dropWriter tables.processes[holder].pid).2 =
            (!pipe.hungUp && pipe.endsWith tables.processes[holder].pid) := by
        have one : (pipe.references - 1 == 1) = (pipe.references == 2) := by
          rw [Bool.eq_iff_iff, beq_iff_eq, beq_iff_eq]
          omega
        simp only [hangsUp, Pipe.endsWith, one]
      have gone_iff : pipe.references - 1 = 0 ↔ pipe.references = 1 := by omega
      simp only [dropWriter_references, hangs_iff, gone_iff] at run
      have left {hungUp : Bool}
          (closed : (pipe.hungUp || pipe.endsWith tables.processes[holder].pid) = hungUp) :
          (if pipe.references = 1 then none else some { pipe with
            references := pipe.references - 1
            writers := (pipe.dropWriter tables.processes[holder].pid).1.writers
            hungUp }) = pipe.letGo tables.processes[holder].pid := by
        rw [Pipe.letGo, closed]
      split at run
      next hangs =>
          cases run
          simp only [Bool.and_eq_true, Bool.not_eq_eq_eq_not, Bool.not_true] at hangs
          rw [left (by rw [hangs.2, Bool.or_true])]
          exact .hungUp hangs.1 hangs.2
      next quiet =>
          cases run
          have same : (pipe.hungUp || pipe.endsWith tables.processes[holder].pid) =
              pipe.hungUp := by
            cases was : pipe.hungUp with
            | true => rfl
            | false => simpa [was] using quiet
          rw [left same]
          exact .quiet same

/-- A step of letting go of everything finds no handle, or lets go of the pipe that the handle
names. -/
theorem releaseHandle_ok {position : Fin Config.maxHandles}
    (run : releaseHandle holder (tables, hint) position = .ok (released, later)) :
    (tables.processes[holder].handles[position] = none ∧ released = tables ∧ later = hint) ∨
    ∃ id pipe left, tables.processes[holder].handles[position] = some id ∧
      tables.pipes.get? id = some pipe ∧
      Released (tables.dropHandle holder position) holder id pipe released left ∧
      later = hint.combine left := by
  cases named : tables.processes[holder].handles[position] with
  | none =>
      simp only [releaseHandle, named] at run
      cases run
      exact .inl ⟨rfl, rfl, rfl⟩
  | some id =>
      refine .inr ?_
      simp only [releaseHandle, named] at run
      change (tables.dropHandle holder position).release holder id >>= _ = _ at run
      rw [Checked.bind_eq_ok_iff] at run
      obtain ⟨⟨between, left⟩, gone, run⟩ := run
      cases run
      obtain ⟨pipe, found, leaves⟩ := released_of_release gone
      exact ⟨id, pipe, left, rfl, found, leaves, rfl⟩

/-- What letting go of one handle after the other keeps, and the tables have at first, they have
once a process has let go of everything. -/
theorem reap_ok (keeps : Tables slots → Hint → Prop)
    (run : tables.reap slot = .ok (reaped, hint)) (start : keeps tables .other)
    (kept : ∀ before merged position id pipe after left, keeps before merged →
      before.processes[slot].handles[position] = some id → before.pipes.get? id = some pipe →
      Released (before.dropHandle slot position) slot id pipe after left →
      keeps after (merged.combine left)) :
    ∃ released, keeps released hint ∧ reaped = released.modifyProcess slot (·.depart) := by
  have step_keeps : ∀ (before : Tables slots × Hint) position after, keeps before.1 before.2 →
      releaseHandle slot before position = .ok after → keeps after.1 after.2 := by
    rintro ⟨before, merged⟩ position ⟨after, later⟩ holds step
    rcases releaseHandle_ok step with
      ⟨_, rfl, rfl⟩ | ⟨id, pipe, left, named, found, leaves, rfl⟩
    · exact holds
    · exact kept before merged position id pipe _ left holds named found leaves
  have state_keeps : (fun state : Tables slots × Hint => keeps state.1 state.2) (tables, .other) :=
    start
  simp only [reap, Checked.bind_eq_ok_iff, Prod.exists] at run
  obtain ⟨released, final, all, run⟩ := run
  cases run
  exact ⟨released, foldlM_keeps step_keeps state_keeps all, rfl⟩

end Tables
end Microkernel
