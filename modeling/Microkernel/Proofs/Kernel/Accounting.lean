import Microkernel.Proofs.Kernel.Script
import Microkernel.Proofs.Tables.Writers

/-!
# Every reference to a pipe is accounted for

A pipe is there as long as somebody holds it, and counts its handles.  No process holds a pipe
twice, and the processes that a pipe lists as its writers live and hold it.
-/

namespace Microkernel

variable {slots : Nat} {before after : System slots} {layout : Layout slots}
  {author : Fin slots → Prop} {caller : Fin slots} {hint : Hint}

/-! ## What a call keeps -/

theorem Tables.Tidy.answer {tables : Tables slots} (tidy : tables.Tidy) (caller : Fin slots)
    (response : UInt64) :
    Tables.Tidy { tables with processes := tables.processes.answer caller response } :=
  tidy.retain caller _ rfl rfl

theorem Outcome.tidies (outcome : Outcome before caller (.ok hint) after)
    (sound : before.toTables.Sound layout author) (tidy : before.toTables.Tidy) :
    after.toTables.Tidy := by
  cases outcome with
  | answered log memory response hint plain => exact tidy.answer caller response
  | exited log reaped hint run => exact tidy.reap run
  | slept deadline in_time asleep run =>
      obtain ⟨_, rfl⟩ := Process.sleepUntil_eq_ok_iff.1 run
      exact tidy.retain caller _ rfl rfl
  | prioritised slot priority valid =>
      have changed := tidy.retain slot { before.processes[slot] with priority } rfl rfl
      exact changed.answer caller Response.ok
  | moved brk admits process run =>
      obtain ⟨_, rfl⟩ := Process.setBreak_eq_ok_iff.1 run
      exact tidy.retain caller _ rfl rfl
  | opened asked name tables handle found =>
      obtain ⟨position, id, free, absent, inside, _, rfl⟩ := Tables.openPipe?_eq_some found
      refine (tidy.addHandle free (fun holds => ?_) inside (.inl rfl)).answer caller _
      obtain ⟨pipe, here⟩ := sound.pipe_of_holds holds
      rw [absent] at here
      cases here
  | shared owner name tables handle found =>
      rcases Tables.sharePipe?_eq_some found with
        rfl | ⟨position, id, pipe, free, unheld, here, _, rfl⟩
      · exact tidy.answer caller _
      · have shared : (before.toTables.addHandle caller position id
            { pipe with references := pipe.references + 1 }).Tidy :=
          tidy.addHandle free unheld (PipeTable.index_lt_of_get?_eq_some here)
            (.inr ⟨pipe, here, rfl⟩)
        exact shared.answer caller _
  | closed handle process id tables hint removed run =>
      obtain ⟨position, named, rfl⟩ := Process.removeHandle?_eq_some removed
      obtain ⟨pipe, found, leaves⟩ := Tables.released_of_release run
      exact (tidy.released named found leaves).answer caller Response.ok

theorem CallM.ReadOutcome.tidies (outcome : ReadOutcome before caller (.ok hint) after)
    (tidy : before.toTables.Tidy) : after.toTables.Tidy := by
  cases outcome with
  | idle transfer requested => exact tidy.answer caller _
  | blocked transfer requested pipe found empty open_eq process run =>
      obtain ⟨_, rfl⟩ := Process.block_eq_ok_iff.1 run
      exact tidy.retain caller _ rfl rfl
  | took transfer requested pipe found some_byte ring bytes run =>
      exact ((tidy.answer caller Response.ok).wake _).exchange found rfl

theorem CallM.WriteOutcome.tidies (outcome : WriteOutcome before caller (.ok hint) after)
    (tidy : before.toTables.Tidy) : after.toTables.Tidy := by
  cases outcome with
  | idle transfer requested => exact tidy.answer caller _
  | blocked transfer requested pipe found full open_eq process run =>
      obtain ⟨_, rfl⟩ := Process.block_eq_ok_iff.1 run
      exact (tidy.note found (Process.pipeOf?_holds requested.pipe) _ rfl).retain caller _ rfl rfl
  | put transfer requested pipe found room open_eq ring count run =>
      have noted := tidy.note found (Process.pipeOf?_holds requested.pipe)
        { pipe.noteWriter before.processes[caller].pid with ring } rfl
      exact (noted.answer caller Response.ok).wake _

/-- A slot that is taken holds nothing, and nobody was waiting to be noted in it. -/
theorem SpawnOutcome.tidies (outcome : SpawnOutcome before caller (.ok hint) after)
    (sound : before.toTables.Sound layout author)
    (runnable : before.processes[caller].state = .live .runnable)
    (tidy : before.toTables.Tidy) : after.toTables.Tidy := by
  cases outcome with
  | started slot vacant started_system log _ started =>
      obtain ⟨rights, inherited, marked, unwritable⟩ :=
        (sound.slot caller).inherited (Process.live_of_runnable runnable)
      rw [inherited] at started
      obtain ⟨⟨pid, nextPid, taken, memory, rootTable, registers, run, _, rfl⟩, _⟩ := started
      obtain ⟨_, _, none_taken⟩ := (sound.slot slot).occupy (layout.houses slot) run marked
        (fun _ => trivial : rights.includes .write = true → True)
      have none_left := ((sound.slot slot).vacant
        (CallM.vacant_of_vacantSlot?_eq_some vacant)).2
      have no_handle (id : PipeId) :
          ({ taken with rootTable, registers } : Process).handlesOn id = 0 :=
        Process.handlesOn_noHandles none_taken id
      have changed := tidy.set slot { taken with rootTable, registers }
        (fun id => no_handle id ▸ Nat.zero_le _)
        fun id holds => by
          rw [← Process.handlesOn_pos_iff, Process.handlesOn_noHandles none_left] at holds
          exact absurd holds (Nat.lt_irrefl _)
      exact changed.answer caller _

theorem Handled.tidies (handled : Handled before caller hint after)
    (sound : before.toTables.Sound layout author)
    (runnable : before.processes[caller].state = .live .runnable)
    (tidy : before.toTables.Tidy) : after.toTables.Tidy := by
  cases handled with
  | done outcome =>
      rw [CallOutcome] at outcome
      split at outcome
      · exact outcome.tidies tidy
      · exact outcome.tidies tidy
      · exact outcome.tidies sound runnable tidy
      · exact outcome.tidies sound tidy
  | failed error memory => exact tidy.answer caller _
  | ended fault memory _ log reaped _ run => exact (tidy.reap run).retain caller _ rfl rfl

theorem System.UserStep.tidy {system entered : System slots}
    (user : system.UserStep caller entered) (tidy : system.toTables.Tidy) :
    entered.toTables.Tidy := by
  obtain ⟨registers, memory, rfl⟩ := user.ran
  exact tidy.retain caller _ rfl rfl

/-! ## What a run keeps -/

variable {launch : Launch slots} {traps : List (Trap slots)} {system : System slots}

private theorem tidy_of_no_pipes {tables : Tables slots} (sound : tables.Sound layout author)
    (no_pipes : ∀ id, tables.pipes.get? id = none) : tables.Tidy where
  single slot id := by
    have few := ProcessTable.handlesOn_le_holders tables.processes slot id
    rw [← sound.counted id, PipeTable.references, no_pipes id] at few
    exact Nat.le_trans few (Nat.zero_le _)
  listed id pipe found := by
    rw [no_pipes id] at found
    cases found

theorem Run.tidy (run : Run launch traps system) : system.toTables.Tidy := by
  induction run with
  | start started =>
      have begins := launch.begins started
      exact tidy_of_no_pipes begins.sound begins.no_pipes
  | advance _ ticks passes tidy =>
      cases passes
      exact tidy
  | trap run trap current user call switch tidy =>
      obtain ⟨runnable, handled, preserved⟩ := run.invariant.handled current user call
      obtain ⟨woken, clock, after_eq, roused, _⟩ := preserved.resumes trap.caller.isLt switch
      rw [after_eq]
      exact (handled.tidies (user.sound run.invariant.sound) runnable
        (user.tidy tidy)).rousedTo roused

theorem Reached.tidy (reached : Reached launch system) : system.toTables.Tidy := by
  cases reached with
  | settled run => exact run.tidy
  | entered run _ user => exact user.tidy run.tidy
  | handled run current user call =>
      obtain ⟨runnable, handled, _⟩ := run.invariant.handled current user call
      exact handled.tidies (user.sound run.invariant.sound) runnable (user.tidy run.tidy)

/-! ## The accounts -/

/-- Whether the handles of all processes and what the pipes know of them agree. -/
structure Tables.Accounted (tables : Tables slots) : Prop where
  /-- A pipe counts the handles that all processes together have on it. -/
  references_eq : ∀ id pipe, tables.pipes.get? id = some pipe →
    pipe.references = tables.processes.holders id
  /-- There is a pipe exactly where somebody has a handle. -/
  occupied_iff : ∀ id, (tables.pipes.get? id).isSome ↔ 0 < tables.processes.holders id
  /-- Every handle leads to a pipe. -/
  leads : ∀ (slot : Fin slots) (position : Fin Config.maxHandles) (id : PipeId),
    tables.processes[slot].handles[position] = some id → (tables.pipes.get? id).isSome
  /-- Two handles of a process lead to different pipes. -/
  single : ∀ (slot : Fin slots) (position other : Fin Config.maxHandles) (id : PipeId),
    tables.processes[slot].handles[position] = some id →
      tables.processes[slot].handles[other] = some id → position = other
  /-- A vacant slot has no handles. -/
  vacant : ∀ (slot : Fin slots) (position : Fin Config.maxHandles),
    tables.processes[slot].state = .vacant → tables.processes[slot].handles[position] = none
  /-- A pipe lists a writer once. -/
  distinct : ∀ id pipe, tables.pipes.get? id = some pipe → pipe.writers.Nodup
  /-- A writer of a pipe lives and has a handle on it. -/
  hold : ∀ id pipe, tables.pipes.get? id = some pipe → ∀ writer ∈ pipe.writers,
    ∃ slot : Fin slots, tables.processes[slot].state ≠ .vacant ∧
      tables.processes[slot].pid = writer ∧ tables.processes[slot].Holds id
  /-- There are no more writers than processes, nor than the list has room for. -/
  few : ∀ id pipe, tables.pipes.get? id = some pipe →
    pipe.writers.length ≤ slots ∧ pipe.writers.length ≤ Config.maxProcesses

theorem Tables.Sound.accounts {tables : Tables slots} (sound : tables.Sound layout author)
    (tidy : tables.Tidy) : tables.Accounted where
  references_eq id pipe found := sound.references_eq found
  occupied_iff id := by
    rw [← sound.counted id, PipeTable.references]
    cases found : tables.pipes.get? id with
    | none => simp
    | some pipe => simpa using sound.held id pipe found
  leads slot position id named := by
    obtain ⟨pipe, found⟩ := sound.pipe_of_holds ((Process.holds_iff _ _).2 ⟨position, named⟩)
    rw [found]
    rfl
  single slot position other id := Process.eq_of_handlesOn_le_one (tidy.single slot id)
  vacant slot position vacant := by
    rw [((sound.slot slot).vacant vacant).2, Process.noHandles, getElem_replicate]
  distinct id pipe found := (tidy.listed id pipe found).distinct
  hold id pipe found writer listed := by
    obtain ⟨slot, named, holds⟩ := (tidy.listed id pipe found).hold writer listed
    refine ⟨slot, fun vacant => ?_, named, holds⟩
    rw [← Process.handlesOn_pos_iff,
      Process.handlesOn_noHandles ((sound.slot slot).vacant vacant).2] at holds
    exact Nat.lt_irrefl _ holds
  few id pipe found :=
    ⟨(tidy.listed id pipe found).length_le, (tidy.listed id pipe found).few⟩

/-- At all times, also while a call is under way, every reference to a pipe is accounted for. -/
theorem Reached.accounted (reached : Reached launch system) : system.toTables.Accounted := by
  obtain ⟨⟨_, sound⟩, _⟩ := reached.sound_and_waiting
  exact sound.accounts reached.tidy

/-- The first process has opened a pipe and written to it: it has the only handle on the pipe, and
is its only writer. -/
theorem accounted_small : ∃ system, Reached Launch.small system ∧
    ((system.pipes.get? ⟨0⟩).map fun pipe => (pipe.references, pipe.writers)) =
      some (1, [⟨1⟩]) ∧ system.toTables.Accounted := by
  have evaluated : (Launch.small.play? Launch.writerScript).any (fun final =>
      ((final.2.pipes.get? ⟨0⟩).map fun pipe => (pipe.references, pipe.writers)) ==
        some (1, [⟨1⟩])) = true := by
    decide +kernel
  rw [Option.any_eq_true] at evaluated
  obtain ⟨final, played, counts⟩ := evaluated
  have reached := Reached.settled (Run.play played)
  exact ⟨_, reached, beq_iff_eq.1 counts, reached.accounted⟩

end Microkernel
