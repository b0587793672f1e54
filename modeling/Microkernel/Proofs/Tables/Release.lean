import Microkernel.Proofs.Tables.Sound

/-!
# Letting go keeps the tables sound

A process lets go of a pipe by closing a handle, or of all its pipes at its end.  Each handle that
goes takes one reference with it, so that a pipe is there as long as somebody holds it, and whoever
waits for a pipe that is hung up is woken.  No step of this crashes.
-/

namespace Microkernel

namespace Process

/-- The process without the handle at one position. -/
def dropHandle (process : Process) (position : Fin Config.maxHandles) : Process :=
  { process with handles := process.handles.set position none position.isLt }

theorem Sound.dropHandle {process : Process} {memory : SlotMemory} {image : Extent}
    {mayWrite : Prop} (sound : process.Sound memory image mayWrite)
    (position : Fin Config.maxHandles) :
    (process.dropHandle position).Sound memory image mayWrite := by
  refine ⟨sound.memory_eq, sound.heap_base, sound.heap_limit, sound.admits, fun vacant => ?_,
    sound.live, sound.timed.congr rfl rfl⟩
  obtain ⟨no_regions, no_handles⟩ := sound.vacant vacant
  refine ⟨no_regions, ?_⟩
  apply eq_of_getElem
  intro place
  simp [Process.dropHandle, no_handles, noHandles]

end Process

namespace Tables

variable {slots : Nat}

/-- The tables without the handle at one position of a handle table. -/
def dropHandle (tables : Tables slots) (holder : Fin slots) (position : Fin Config.maxHandles) :
    Tables slots :=
  tables.modifyProcess holder (·.dropHandle position)

/-- What letting go never does: it puts no bytes into a pipe and takes none out, creates no pipe,
and neither starts nor ends a process. -/
structure Loosened (before after : Tables slots) : Prop where
  /-- A pipe that is left holds what it held. -/
  ring : ∀ id pipe, after.pipes.get? id = some pipe →
    ∃ held, before.pipes.get? id = some held ∧ pipe.ring = held.ring
  /-- The same slots are vacant. -/
  vacant : ∀ slot : Fin slots,
    after.processes[slot].state = .vacant ↔ before.processes[slot].state = .vacant

theorem Loosened.refl (tables : Tables slots) : Loosened tables tables :=
  ⟨fun _ pipe found => ⟨pipe, found, rfl⟩, fun _ => .rfl⟩

theorem Loosened.trans {first second third : Tables slots} (before : Loosened first second)
    (after : Loosened second third) : Loosened first third where
  ring id pipe found := by
    obtain ⟨between, between_found, same⟩ := after.ring id pipe found
    obtain ⟨held, held_found, was_same⟩ := before.ring id between between_found
    exact ⟨held, held_found, same.trans was_same⟩
  vacant slot := (after.vacant slot).trans (before.vacant slot)

variable {tables : Tables slots} {layout : Layout slots} {author : Fin slots → Prop}

private theorem dropWriter_fields (pipe : Pipe) (writer : Pid) :
    (pipe.dropWriter writer).1.ring = pipe.ring ∧
      (pipe.dropWriter writer).1.references = pipe.references ∧
        (pipe.dropWriter writer).1.hungUp = pipe.hungUp := by
  rw [Pipe.dropWriter]
  split
  · exact ⟨rfl, rfl, rfl⟩
  · exact ⟨rfl, rfl, rfl⟩

/-- What a reference less leaves of a pipe, and whom it wakes: among those who wait for the pipe,
all for whom it is no longer as it was. -/
structure Leaves (pipe : Pipe) (id : PipeId) (blocked : ProcessState → Bool)
    (left : Option Pipe) : Prop where
  /-- Nobody wakes who does not wait for the pipe. -/
  only : ∀ state, blocked state = true → state.isBlockedOn id = true
  /-- The pipe goes with its last reference. -/
  gone : left = none → pipe.references = 1
  /-- The pipe counts one reference less and holds the same bytes. -/
  kept : ∀ kept, left = some kept → 0 < kept.references ∧
    kept.references + 1 = pipe.references ∧ kept.ring = pipe.ring
  /-- Whoever goes on waiting has to. -/
  stalls : ∀ kept, left = some kept → ∀ state, state.isBlockedOn id = true →
    blocked state = false → pipe.Stalls state id → kept.Stalls state id

/-- A reference to a pipe that counts one can be given up. -/
theorem release_run (tables : Tables slots) (holder : Fin slots) {id : PipeId} {pipe : Pipe}
    (found : tables.pipes.get? id = some pipe) (held : 0 < pipe.references) :
    ∃ blocked left hint, tables.release holder id =
        .ok (⟨tables.processes.map (·.wakeIf blocked), tables.pipes.put id left⟩, hint) ∧
      hint.Within slots ∧ Leaves pipe id blocked left := by
  have difference : Word.difference pipe.references 1 = .ok (pipe.references - 1) :=
    (Word.difference_eq_ok_iff _ _ _).2 ⟨held, rfl⟩
  obtain ⟨ring, references, hungUp⟩ := dropWriter_fields
    { pipe with references := pipe.references - 1 } tables.processes[holder].pid
  simp only [release, found, difference, bind, Except.bind]
  generalize { pipe with references := pipe.references - 1 }.dropWriter
    tables.processes[holder].pid = dropped at *
  obtain ⟨rest, lastWriter⟩ := dropped
  simp only at ring references hungUp
  simp only
  split
  next =>
      refine ⟨(·.isBlockedOn id), _, _, rfl, ProcessTable.within_hintFor _,
        fun _ asked => asked, ?_, ?_, ?_⟩
      · split
        · omega
        · intro impossible
          cases impossible
      · split
        · rintro _ ⟨⟩
        · rintro _ ⟨⟩
          exact ⟨by simp only; omega, by simp only; omega, ring⟩
      · intro _ _ state waits asked
        rw [waits] at asked
        cases asked
  next =>
      refine ⟨fun _ => false, if pipe.references - 1 = 0 then none else some rest, .same, ?_,
        Hint.within_same, by simp, ?_, ?_, ?_⟩
      · rw [ProcessTable.map_wakeIf_none]
        rfl
      · split
        · omega
        · intro impossible
          cases impossible
      · split
        · rintro _ ⟨⟩
        · rintro _ ⟨⟩
          exact ⟨by omega, by omega, ring⟩
      · split
        · rintro _ ⟨⟩
        · rintro _ ⟨⟩ state _ _ stalls
          exact ⟨hungUp.trans stalls.open_eq, fun reading => ring ▸ stalls.empty reading,
            fun writing => ring ▸ stalls.full writing⟩

theorem holders_dropHandle {holder : Fin slots} {position : Fin Config.maxHandles} {id : PipeId}
    (named : tables.processes[holder].handles[position] = some id) (other : PipeId) :
    (tables.dropHandle holder position).processes.holders other +
        (if other = id then 1 else 0) =
      tables.processes.holders other := by
  have slot_count := Process.handlesOn_set tables.processes[holder] position none other
  have table_count := ProcessTable.holders_set tables.processes holder
    (tables.processes[holder].dropHandle position) other
  change (tables.processes[holder].dropHandle position).handlesOn other + _ = _ at slot_count
  change ProcessTable.holders (tables.processes.set holder
    (tables.processes[holder].dropHandle position)) other + _ = _
  simp only [named, Option.some.injEq, reduceCtorEq, if_false, Nat.add_zero] at slot_count
  simp only [eq_comm (a := other)]
  omega

theorem getElem_dropHandle (tables : Tables slots) (holder slot : Fin slots)
    (position : Fin Config.maxHandles) :
    (tables.dropHandle holder position).processes[slot] =
      if holder = slot then tables.processes[slot].dropHandle position
      else tables.processes[slot] := by
  rw [dropHandle, modifyProcess, getElem_set]
  split
  next same => rw [same]
  next => rfl

/-- The tables after a handle has gone, its pipe has been replaced by what is left of it, and some
of those who wait have been woken. -/
def unlink (tables : Tables slots) (holder : Fin slots) (position : Fin Config.maxHandles)
    (id : PipeId) (blocked : ProcessState → Bool) (left : Option Pipe) : Tables slots where
  processes := (tables.dropHandle holder position).processes.map (·.wakeIf blocked)
  pipes := tables.pipes.put id left

section unlink

variable {holder : Fin slots} {position : Fin Config.maxHandles} {id : PipeId} {pipe : Pipe}
  {blocked : ProcessState → Bool} {left : Option Pipe}

theorem getElem_unlink (slot : Fin slots) :
    (tables.unlink holder position id blocked left).processes[slot] =
      (if holder = slot then tables.processes[slot].dropHandle position
        else tables.processes[slot]).wakeIf blocked := by
  rw [unlink, getElem_map, getElem_dropHandle]

theorem get?_unlink (inside : id.index < Config.maxPipes) (other : PipeId) :
    (tables.unlink holder position id blocked left).pipes.get? other =
      if other = id then left else tables.pipes.get? other :=
  PipeTable.get?_put left inside other

theorem handles_unlink :
    (tables.unlink holder position id blocked left).processes[holder].handles =
      tables.processes[holder].handles.set position none position.isLt := by
  rw [getElem_unlink, Process.wakeIf_handles, if_pos rfl]
  rfl

theorem waits_of_unlink {slot : Fin slots} {other : PipeId}
    (waits : (tables.unlink holder position id blocked left).processes[slot].state.isBlockedOn
      other = true) :
    tables.processes[slot].state.isBlockedOn other = true ∧
      blocked tables.processes[slot].state = false := by
  rw [getElem_unlink] at waits
  obtain ⟨asked, same⟩ := Process.wakeIf_eq_of_isBlockedOn waits
  rw [same] at waits
  split at waits
  next here => exact ⟨waits, by rwa [if_pos here] at asked⟩
  next apart => exact ⟨waits, by rwa [if_neg apart] at asked⟩

theorem Sound.unlink (sound : tables.Sound layout author)
    (named : tables.processes[holder].handles[position] = some id)
    (found : tables.pipes.get? id = some pipe) (leaves : Leaves pipe id blocked left) :
    (tables.unlink holder position id blocked left).Sound layout author := by
  have inside := PipeTable.index_lt_of_get?_eq_some found
  refine ⟨fun slot => ?_, fun other => ?_, fun other kept here => ?_, fun other kept here => ?_⟩
  · rw [getElem_unlink]
    refine .wakeIf ?_ leaves.only
    split
    · exact (sound.slot slot).dropHandle position
    · exact sound.slot slot
  · have without := holders_dropHandle named other
    have same_handles (slot : Fin slots) :
        (tables.unlink holder position id blocked left).processes[slot].handles =
          (tables.dropHandle holder position).processes[slot].handles := by
      rw [getElem_unlink, Process.wakeIf_handles, getElem_dropHandle]
    rw [ProcessTable.holders_congr same_handles]
    have counted := sound.counted other
    rw [PipeTable.references] at *
    rw [get?_unlink inside]
    split at without
    next same =>
        subst same
        rw [if_pos rfl]
        simp only [found, Option.map_some, Option.getD_some] at counted
        cases left_eq : left with
        | none =>
            have last := leaves.gone left_eq
            simp only [Option.map_none, Option.getD_none]
            omega
        | some kept =>
            obtain ⟨_, fewer, _⟩ := leaves.kept kept left_eq
            simp only [Option.map_some, Option.getD_some]
            omega
    next different =>
        rw [if_neg different]
        omega
  · rw [get?_unlink inside] at here
    split at here
    · exact (leaves.kept kept here).1
    · exact sound.held other kept here
  · rw [get?_unlink inside] at here
    split at here
    · exact (leaves.kept kept here).2.2 ▸ sound.ring id pipe found
    · exact sound.ring other kept here

theorem Loosened.unlink (found : tables.pipes.get? id = some pipe)
    (leaves : Leaves pipe id blocked left) :
    Loosened tables (tables.unlink holder position id blocked left) where
  ring other kept here := by
    rw [get?_unlink (PipeTable.index_lt_of_get?_eq_some found)] at here
    split at here
    next same => exact ⟨pipe, same ▸ found, (leaves.kept kept here).2.2⟩
    next => exact ⟨kept, here, rfl⟩
  vacant slot := by
    rw [getElem_unlink, Process.wakeIf_vacant_iff leaves.only]
    split <;> rfl

/-- If the process that lets go is not itself waiting, then everyone who still waits has to. -/
theorem Waiting.unlink (waiting : tables.Waiting) (sound : tables.Sound layout author)
    (named : tables.processes[holder].handles[position] = some id)
    (found : tables.pipes.get? id = some pipe) (leaves : Leaves pipe id blocked left)
    (clear : ∀ other, tables.processes[holder].state.isBlockedOn other = false) :
    (tables.unlink holder position id blocked left).Waiting := by
  intro slot other waits
  obtain ⟨waited, asked⟩ := waits_of_unlink waits
  have different : holder ≠ slot := by
    rintro rfl
    rw [clear other] at waited
    cases waited
  obtain ⟨waiter_holds, held, here, stalls⟩ := waiting slot other waited
  rw [getElem_unlink, if_neg different, Process.wakeIf_of_not asked]
  refine ⟨waiter_holds, ?_⟩
  rw [get?_unlink (PipeTable.index_lt_of_get?_eq_some found)]
  split
  next same =>
      subst same
      rw [found] at here
      cases here
      cases left_eq : left with
      | some kept => exact ⟨kept, rfl, leaves.stalls kept left_eq _ waited asked stalls⟩
      | none =>
          -- the one who waits holds the pipe too, so this was not the last reference
          have last := leaves.gone left_eq
          have without := holders_dropHandle named other
          have counted := sound.references_eq found
          have some_handle := (Process.handlesOn_pos_iff _ _).2 waiter_holds
          have few := ProcessTable.handlesOn_le_holders
            (tables.dropHandle holder position).processes slot other
          rw [getElem_dropHandle, if_neg different] at few
          rw [if_pos rfl] at without
          omega
  next => exact ⟨held, here, stalls⟩

end unlink

/-- A process that holds a pipe can let go of it.  If the process is not itself waiting, then
everyone who still waits has to. -/
theorem Sound.letGo (sound : tables.Sound layout author) {holder : Fin slots}
    {position : Fin Config.maxHandles} {id : PipeId}
    (named : tables.processes[holder].handles[position] = some id) :
    ∃ released hint, (tables.dropHandle holder position).release holder id =
        .ok (released, hint) ∧
      hint.Within slots ∧ released.Sound layout author ∧ Loosened tables released ∧
      released.processes[holder].handles =
        tables.processes[holder].handles.set position none position.isLt ∧
      (tables.Waiting → (∀ other, tables.processes[holder].state.isBlockedOn other = false) →
        released.Waiting ∧
          ∀ other, released.processes[holder].state.isBlockedOn other = false) := by
  obtain ⟨pipe, found⟩ := sound.pipe_of_holds ((Process.holds_iff _ _).2 ⟨position, named⟩)
  obtain ⟨blocked, left, hint, run, within, leaves⟩ :=
    release_run (tables.dropHandle holder position) holder found (sound.held id pipe found)
  refine ⟨tables.unlink holder position id blocked left, hint, run, within,
    sound.unlink named found leaves, .unlink found leaves, handles_unlink,
    fun waiting clear => ⟨waiting.unlink sound named found leaves clear, fun other => ?_⟩⟩
  apply Bool.eq_false_iff.2
  intro waits
  cases (waits_of_unlink waits).1.symm.trans (clear other)

/-- One step of letting go of everything: the position is free afterwards, and no position is
taken. -/
theorem Sound.releaseHandle (sound : tables.Sound layout author) (holder : Fin slots)
    {hint : Hint} (within : hint.Within slots) (position : Fin Config.maxHandles) :
    ∃ released later, Tables.releaseHandle holder (tables, hint) position =
        .ok (released, later) ∧
      later.Within slots ∧ released.Sound layout author ∧ Loosened tables released ∧
      (∀ place : Fin Config.maxHandles,
        place = position ∨ tables.processes[holder].handles[place] = none →
          released.processes[holder].handles[place] = none) ∧
      (tables.Waiting → (∀ other, tables.processes[holder].state.isBlockedOn other = false) →
        released.Waiting ∧
          ∀ other, released.processes[holder].state.isBlockedOn other = false) := by
  cases named : tables.processes[holder].handles[position] with
  | none =>
      refine ⟨tables, hint, ?_, within, sound, .refl _, ?_, fun waiting clear => ⟨waiting, clear⟩⟩
      · simp only [Tables.releaseHandle, named]
        rfl
      · rintro place (rfl | free)
        · exact named
        · exact free
  | some id =>
      obtain ⟨released, later, run, later_within, released_sound, loosened, handles, waiting⟩ :=
        sound.letGo named
      refine ⟨released, hint.combine later, ?_, within.combine later_within, released_sound,
        loosened, ?_, waiting⟩
      · rw [dropHandle] at run
        simp only [Tables.releaseHandle, named]
        change (modifyProcess _ _ (·.dropHandle position) |>.release holder id) >>= _ = _
        rw [run]
        rfl
      · intro place free
        rw [handles]
        simp only [getElem_position, Vector.getElem_set]
        split
        · rfl
        · rcases free with rfl | free
          · contradiction
          · exact free

private theorem Sound.releaseAll (sound : tables.Sound layout author) (holder : Fin slots)
    {hint : Hint} (within : hint.Within slots) (positions : List (Fin Config.maxHandles)) :
    ∃ released later, positions.foldlM (Tables.releaseHandle holder) (tables, hint) =
        .ok (released, later) ∧
      later.Within slots ∧ released.Sound layout author ∧ Loosened tables released ∧
      (∀ place : Fin Config.maxHandles,
        place ∈ positions ∨ tables.processes[holder].handles[place] = none →
          released.processes[holder].handles[place] = none) ∧
      (tables.Waiting → (∀ other, tables.processes[holder].state.isBlockedOn other = false) →
        released.Waiting ∧
          ∀ other, released.processes[holder].state.isBlockedOn other = false) := by
  induction positions generalizing tables hint with
  | nil =>
      refine ⟨tables, hint, rfl, within, sound, .refl _, ?_, fun waiting clear =>
        ⟨waiting, clear⟩⟩
      rintro place (member | free)
      · cases member
      · exact free
  | cons position rest induction =>
      obtain ⟨between, merged, step, merged_within, between_sound, between_loosened, freed,
        between_waiting⟩ := sound.releaseHandle holder within position
      obtain ⟨released, later, steps, later_within, released_sound, loosened, all_freed,
        waiting⟩ := induction between_sound merged_within
      refine ⟨released, later, ?_, later_within, released_sound,
        between_loosened.trans loosened, ?_, fun was_waiting clear => ?_⟩
      · rw [List.foldlM_cons, step]
        exact steps
      · rintro place (member | free)
        · rcases List.mem_cons.1 member with same | member
          · exact all_freed place (.inr (freed place (.inl same)))
          · exact all_freed place (.inl member)
        · exact all_freed place (.inr (freed place (.inr free)))
      · obtain ⟨still_waiting, still_clear⟩ := between_waiting was_waiting clear
        exact waiting still_waiting still_clear

/-- A process that ends lets go of everything, and its slot is vacant.  If the process was not
waiting, then everyone who still waits has to. -/
theorem Sound.reap (sound : tables.Sound layout author) (slot : Fin slots) :
    ∃ reaped hint, tables.reap slot = .ok (reaped, hint) ∧ hint.Within slots ∧
      reaped.Sound layout author ∧
      (∀ id pipe, reaped.pipes.get? id = some pipe →
        ∃ held, tables.pipes.get? id = some held ∧ pipe.ring = held.ring) ∧
      (∀ other : Fin slots, reaped.processes[other].state = .vacant ↔
        other = slot ∨ tables.processes[other].state = .vacant) ∧
      (tables.Waiting → (∀ id, tables.processes[slot].state.isBlockedOn id = false) →
        reaped.Waiting) := by
  obtain ⟨released, hint, run, within, released_sound, loosened, free, waiting⟩ :=
    sound.releaseAll slot Hint.within_other (List.finRange Config.maxHandles)
  have no_handles : released.processes[slot].handles = Process.noHandles := by
    apply eq_of_getElem
    intro place
    rw [free place (.inl (List.mem_finRange _)), Process.noHandles, getElem_replicate]
  refine ⟨released.modifyProcess slot (·.depart), hint, ?_, within, ?_, loosened.ring,
    fun other => ?_, fun was_waiting clear => ?_⟩
  · simp only [Tables.reap, run, bind, Except.bind]
    rfl
  · exact released_sound.set slot ((released_sound.slot slot).depart no_handles) rfl
  · rw [modifyProcess, getElem_set]
    split
    next same => simp [same, Process.depart]
    next different =>
        rw [loosened.vacant other, or_iff_right (Ne.symm different)]
  · exact (waiting was_waiting clear).1.set_of_clear slot fun id => rfl

end Tables
end Microkernel
