import Microkernel.Proofs.Calls.Handling
import Microkernel.Proofs.Tables.LettingGo
import Microkernel.Proofs.Tables.Obtain

/-!
# What becomes of the memory of a process

In a call the memory of a process and the root of its map stay as they are, except that the process
may move its break, or end.  The only other process that has memory after a call is one that is
started in it.  What has to do with memory alone is kept by a call if it is kept in each of these
ways.
-/

namespace Microkernel

namespace Process

/-- Whether a process, unless it is gone, was there before with the same memory and the same map. -/
structure Remains (process changed : Process) : Prop where
  /-- It was there. -/
  live : changed.state ≠ .vacant → process.state ≠ .vacant
  /-- It has the same map. -/
  root : changed.rootTable = process.rootTable
  /-- It has the same pages. -/
  pages : changed.memory = process.memory
  /-- It has the same regions. -/
  regions : changed.regions = process.regions
  /-- It has the same heap. -/
  heap : changed.heap = process.heap
  /-- It has the same name. -/
  pid : changed.pid = process.pid

/-- What can become of the memory of a process in a call. -/
inductive Continues (process changed : Process) : Prop where
  /-- It remains as it was. -/
  | remains (same : process.Remains changed)
  /-- The break is moved to where the heap can end. -/
  | resized (brk : Nat) (admits : process.heap.Admits brk) (resized : Process)
      (run : process.setBreak brk = .ok resized) (same : resized.Remains changed)
  /-- The process is gone. -/
  | gone (vacant : changed.state = .vacant)

/-- Whether a process, unless it is gone, remains as it was. -/
def Lasts (process changed : Process) : Prop :=
  changed.state ≠ .vacant → process.Remains changed

variable {process changed later : Process}

theorem Remains.refl (process : Process) : process.Remains process :=
  ⟨id, rfl, rfl, rfl, rfl, rfl⟩

theorem Remains.trans (first : process.Remains changed) (second : changed.Remains later) :
    process.Remains later where
  live is_live := first.live (second.live is_live)
  root := second.root.trans first.root
  pages := second.pages.trans first.pages
  regions := second.regions.trans first.regions
  heap := second.heap.trans first.heap
  pid := second.pid.trans first.pid

theorem Remains.lasts (same : process.Remains changed) : process.Lasts changed :=
  fun _ => same

theorem lasts_of_vacant (vacant : changed.state = .vacant) : process.Lasts changed :=
  fun live => absurd vacant live

theorem Lasts.trans_remains (lasts : process.Lasts changed) (same : changed.Remains later) :
    process.Lasts later :=
  fun live => (lasts (same.live live)).trans same

theorem Lasts.continues (lasts : process.Lasts changed) : process.Continues changed := by
  by_cases vacant : changed.state = .vacant
  · exact .gone vacant
  · exact .remains (lasts vacant)

theorem Continues.live (continues : process.Continues changed) (live : changed.state ≠ .vacant) :
    process.state ≠ .vacant := by
  cases continues with
  | remains same => exact same.live live
  | resized brk admits resized run same =>
      have resized_live := same.live live
      obtain ⟨_, rfl⟩ := Process.setBreak_eq_ok_iff.1 run
      exact resized_live
  | gone vacant => exact absurd vacant live

theorem Continues.pid_eq (continues : process.Continues changed)
    (live : changed.state ≠ .vacant) : changed.pid = process.pid := by
  cases continues with
  | remains same => exact same.pid
  | resized brk admits resized run same =>
      obtain ⟨_, rfl⟩ := Process.setBreak_eq_ok_iff.1 run
      exact same.pid
  | gone vacant => exact absurd vacant live

theorem remains_wakeIf (process : Process) {id : PipeId} {blocked : ProcessState → Bool}
    (only : ∀ state, blocked state = true → state.isBlockedOn id = true) :
    process.Remains (process.wakeIf blocked) where
  live live vacant := live ((wakeIf_vacant_iff only).2 vacant)
  root := by
    rw [wakeIf]
    split <;> rfl
  pages := wakeIf_memory ..
  regions := wakeIf_regions ..
  heap := wakeIf_heap ..
  pid := wakeIf_pid ..

theorem RousedTo.remains (roused : process.RousedTo changed) : process.Remains changed := by
  rcases roused with rfl | ⟨asleep, rfl⟩
  · exact .refl _
  · refine ⟨fun _ vacant => ?_, rfl, rfl, rfl, rfl, rfl⟩
    rw [asleep] at vacant
    cases vacant

end Process

namespace ProcessTable

variable {slots : Nat} {processes between after : ProcessTable slots} {slot : Fin slots}

/-- Whether every process remains. -/
def Remains (processes after : ProcessTable slots) : Prop :=
  ∀ slot : Fin slots, processes[slot].Remains after[slot]

theorem Remains.refl (processes : ProcessTable slots) : processes.Remains processes :=
  fun _ => .refl _

theorem Remains.trans (first : processes.Remains between) (second : between.Remains after) :
    processes.Remains after :=
  fun slot => (first slot).trans (second slot)

theorem remains_set {process : Process} (same : processes[slot].Remains process) :
    processes.Remains (processes.set slot process slot.isLt) := by
  intro other
  rw [getElem_set]
  split
  next here => exact here ▸ same
  next => exact .refl _

theorem remains_answer (processes : ProcessTable slots) (caller : Fin slots) (response : UInt64) :
    processes.Remains (processes.answer caller response) :=
  remains_set ⟨id, rfl, rfl, rfl, rfl, rfl⟩

theorem remains_wake (processes : ProcessTable slots) (caller : Fin slots) {id : PipeId}
    {blocked : ProcessState → Bool}
    (only : ∀ state, blocked state = true → state.isBlockedOn id = true) :
    processes.Remains (processes.wake caller blocked).1 := by
  intro slot
  rw [wake, getElem_map]
  exact processes[slot].remains_wakeIf only

end ProcessTable

namespace Tables

variable {slots : Nat} {tables released reaped : Tables slots} {holder slot : Fin slots}
  {id : PipeId} {pipe : Pipe} {hint : Hint}

theorem remains_addHandle (tables : Tables slots) (caller : Fin slots)
    (position : Fin Config.maxHandles) (id : PipeId) (pipe : Pipe) :
    tables.processes.Remains (tables.addHandle caller position id pipe).processes :=
  ProcessTable.remains_set ⟨fun live => live, rfl, rfl, rfl, rfl, rfl⟩

theorem remains_dropHandle (tables : Tables slots) (holder : Fin slots)
    (position : Fin Config.maxHandles) :
    tables.processes.Remains (tables.dropHandle holder position).processes :=
  ProcessTable.remains_set ⟨fun live => live, rfl, rfl, rfl, rfl, rfl⟩

theorem Released.remains (leaves : Released tables holder id pipe released hint) :
    tables.processes.Remains released.processes := by
  cases leaves with
  | hungUp => exact ProcessTable.remains_wake _ holder fun _ asked => asked
  | quiet => exact .refl _

theorem lasts_reap (run : tables.reap holder = .ok (reaped, hint)) (slot : Fin slots) :
    tables.processes[slot].Lasts reaped.processes[slot] := by
  obtain ⟨released, remains, rfl⟩ := reap_ok
    (fun released _ => tables.processes.Remains released.processes) run (.refl _)
    fun before _ position _ _ _ _ remains _ _ leaves =>
      remains.trans ((remains_dropHandle before holder position).trans leaves.remains)
  rw [modifyProcess, getElem_set]
  split
  · exact Process.lasts_of_vacant rfl
  · exact (remains slot).lasts

end Tables

variable {slots : Nat} {before after : System slots} {caller : Fin slots} {hint : Hint}

/-! ## Every outcome -/

/-- Whether a slot is that of a process that asks in a call to move its break. -/
def System.MovesBreak (before : System slots) (caller slot : Fin slots) : Prop :=
  slot = caller ∧ before.processes[caller].call? = some .moveBreak

instance (before : System slots) (caller slot : Fin slots) :
    Decidable (before.MovesBreak caller slot) :=
  inferInstanceAs (Decidable (_ ∧ _))

theorem Outcome.lasts_or_moves (outcome : Outcome before caller (.ok hint) after)
    (live : before.processes[caller].state ≠ .vacant) (slot : Fin slots) :
    before.processes[slot].Lasts after.processes[slot] ∨
      (before.MovesBreak caller slot ∧
        before.processes[slot].Continues after.processes[slot]) := by
  cases outcome with
  | answered log memory response hint plain =>
      exact .inl (ProcessTable.remains_answer _ caller response slot).lasts
  | exited log reaped hint run => exact .inl (Tables.lasts_reap run slot)
  | slept deadline in_time asleep run =>
      obtain ⟨_, rfl⟩ := Process.sleepUntil_eq_ok_iff.1 run
      have changed : before.processes.Remains (before.processes.set caller
          { before.processes[caller].respond Response.ok with
            deadline := some deadline, state := .live .sleeping } caller.isLt) :=
        ProcessTable.remains_set ⟨fun _ => live, rfl, rfl, rfl, rfl, rfl⟩
      exact .inl (changed slot).lasts
  | prioritised target priority valid =>
      have changed : before.processes.Remains (before.processes.set target
          { before.processes[target] with priority } target.isLt) :=
        ProcessTable.remains_set ⟨fun live => live, rfl, rfl, rfl, rfl, rfl⟩
      exact .inl (changed.trans (ProcessTable.remains_answer _ caller Response.ok) slot).lasts
  | moved brk admits resized run asked =>
      by_cases same : caller = slot
      · subst same
        rw [getElem_set_self]
        exact .inr ⟨⟨rfl, asked⟩, .resized brk admits resized run ⟨id, rfl, rfl, rfl, rfl, rfl⟩⟩
      · rw [getElem_set, if_neg same]
        exact .inl (Process.Remains.refl _).lasts
  | opened asked name tables handle found =>
      obtain ⟨position, id, _, _, _, _, rfl⟩ := Tables.openPipe?_eq_some found
      exact .inl ((Tables.remains_addHandle _ caller position id _).trans
        (ProcessTable.remains_answer _ caller _) slot).lasts
  | shared owner name tables handle found =>
      rcases Tables.sharePipe?_eq_some found with
        rfl | ⟨position, id, pipe, _, _, _, _, rfl⟩
      · exact .inl (ProcessTable.remains_answer _ caller _ slot).lasts
      · exact .inl ((Tables.remains_addHandle _ caller position id _).trans
          (ProcessTable.remains_answer _ caller _) slot).lasts
  | closed handle process id tables hint removed run =>
      obtain ⟨position, named, rfl⟩ := Process.removeHandle?_eq_some removed
      obtain ⟨pipe, found, leaves⟩ := Tables.released_of_release run
      have released := (Tables.remains_dropHandle before.toTables caller position).trans
        leaves.remains
      exact .inl (released.trans (ProcessTable.remains_answer _ caller Response.ok) slot).lasts

theorem CallM.ReadOutcome.remains (outcome : ReadOutcome before caller (.ok hint) after)
    (live : before.processes[caller].state ≠ .vacant) :
    before.processes.Remains after.processes := by
  cases outcome with
  | idle transfer requested => exact ProcessTable.remains_answer _ caller _
  | blocked transfer requested pipe found empty open_eq waiting run =>
      obtain ⟨_, rfl⟩ := Process.block_eq_ok_iff.1 run
      exact ProcessTable.remains_set ⟨fun _ => live, rfl, rfl, rfl, rfl, rfl⟩
  | took transfer requested pipe found some_byte ring bytes run =>
      exact (ProcessTable.remains_answer _ caller Response.ok).trans
        (ProcessTable.remains_wake _ caller fun _ => ProcessState.isBlockedOn_of_isWriting)

theorem CallM.WriteOutcome.remains (outcome : WriteOutcome before caller (.ok hint) after)
    (live : before.processes[caller].state ≠ .vacant) :
    before.processes.Remains after.processes := by
  cases outcome with
  | idle transfer requested => exact ProcessTable.remains_answer _ caller _
  | blocked transfer requested pipe found full open_eq waiting run =>
      obtain ⟨_, rfl⟩ := Process.block_eq_ok_iff.1 run
      exact ProcessTable.remains_set ⟨fun _ => live, rfl, rfl, rfl, rfl, rfl⟩
  | put transfer requested pipe found room open_eq ring count run =>
      exact (ProcessTable.remains_answer _ caller Response.ok).trans
        (ProcessTable.remains_wake _ caller fun _ => ProcessState.isBlockedOn_of_isReading)

/-- Whether a process was started in a slot, with the program of another. -/
structure System.Starts (before : System slots) (caller slot : Fin slots) (after : System slots) :
    Prop where
  /-- The slot was the first that was vacant. -/
  first : before.processes.vacantSlot? = some slot
  /-- The process is the one that was started. -/
  started : ∃ between,
    Started before slot (before.processes[caller].registers.argument 0)
      (CallM.inherited before.processes[caller].regions) between ∧
      after.processes[slot] = between.processes[slot] ∧ after.memory = between.memory ∧
        after.nextPid = between.nextPid

theorem System.Starts.vacant {slot : Fin slots} (starts : before.Starts caller slot after) :
    before.processes[slot].state = .vacant :=
  CallM.vacant_of_vacantSlot?_eq_some starts.first

theorem SpawnOutcome.remains_or_starts (outcome : SpawnOutcome before caller (.ok hint) after)
    (live : before.processes[caller].state ≠ .vacant) (slot : Fin slots) :
    before.processes[slot].Remains after.processes[slot] ∨ before.Starts caller slot after := by
  cases outcome with
  | started target free between log hint started =>
      have vacant := CallM.vacant_of_vacantSlot?_eq_some free
      -- The slot that is taken was vacant, so the answer goes to another.
      by_cases same : target = slot
      · subst same
        have different : target ≠ caller := by
          rintro rfl
          exact live vacant
        exact .inr ⟨free, between, started, ProcessTable.getElem_answer_of_ne different _, rfl, rfl⟩
      · have answered := between.processes.remains_answer caller Response.ok slot
        rw [started.getElem_of_ne (Ne.symm same)] at answered
        exact .inl answered

/-- In a call that the kernel handles every process lasts, or is started, or moves its break. -/
theorem Handled.lasts_or_starts_or_moves (handled : Handled before caller hint after)
    (live : before.processes[caller].state ≠ .vacant) (slot : Fin slots) :
    before.processes[slot].Lasts after.processes[slot] ∨ before.Starts caller slot after ∨
      (before.MovesBreak caller slot ∧
        before.processes[slot].Continues after.processes[slot]) := by
  cases handled with
  | done outcome =>
      rw [CallOutcome] at outcome
      split at outcome
      · exact .inl (outcome.remains live slot).lasts
      · exact .inl (outcome.remains live slot).lasts
      · exact (outcome.remains_or_starts live slot).imp Process.Remains.lasts .inl
      · exact (outcome.lasts_or_moves live slot).imp_right .inr
  | failed error memory => exact .inl (ProcessTable.remains_answer _ caller _ slot).lasts
  | ended fault memory _ log reaped _ run =>
      have faulted : reaped.processes.Remains (reaped.processes.set caller
          { reaped.processes[caller] with lastFault := some fault } caller.isLt) :=
        ProcessTable.remains_set ⟨id, rfl, rfl, rfl, rfl, rfl⟩
      exact .inl ((Tables.lasts_reap run slot).trans_remains (faulted slot))

theorem Handled.continues_or_starts (handled : Handled before caller hint after)
    (live : before.processes[caller].state ≠ .vacant) (slot : Fin slots) :
    before.processes[slot].Continues after.processes[slot] ∨ before.Starts caller slot after := by
  rcases handled.lasts_or_starts_or_moves live slot with lasts | starts | ⟨_, continues⟩
  · exact .inl lasts.continues
  · exact .inr starts
  · exact .inl continues

theorem Handled.remains (handled : Handled before caller hint after)
    (live : before.processes[caller].state ≠ .vacant) {slot : Fin slots}
    (unmoved : ¬ before.MovesBreak caller slot) (was_live : before.processes[slot].state ≠ .vacant)
    (still_live : after.processes[slot].state ≠ .vacant) :
    before.processes[slot].Remains after.processes[slot] := by
  rcases handled.lasts_or_starts_or_moves live slot with lasts | starts | ⟨moves, _⟩
  · exact lasts still_live
  · exact absurd starts.vacant was_live
  · exact absurd moves unmoved

end Microkernel
