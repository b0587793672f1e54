import Microkernel.Proofs.Calls.Handling
import Microkernel.Proofs.Tables.Obtain

/-!
# Handling a call keeps the tables sound

Each outcome of a call by a runnable process leaves the tables sound, and nobody waiting for a pipe
who does not have to.  So does the kernel when it settles the outcome.
-/

namespace Microkernel

namespace Process

variable {process : Process} {memory : SlotMemory} {image : Extent} {mayWrite : Prop}

theorem Sound.respond (sound : process.Sound memory image mayWrite) (response : UInt64) :
    (process.respond response).Sound memory image mayWrite :=
  sound.retain rfl rfl rfl (fun vacant => ⟨vacant, rfl⟩) id
    (sound.timed.congr rfl rfl)

theorem Sound.prioritise (sound : process.Sound memory image mayWrite) (priority : Priority) :
    ({ process with priority } : Process).Sound memory image mayWrite :=
  sound.retain rfl rfl rfl (fun vacant => ⟨vacant, rfl⟩) id
    (sound.timed.congr rfl rfl)

theorem Sound.sleepUntil (sound : process.Sound memory image mayWrite)
    (live : process.state ≠ .vacant) {deadline : Nat} (in_time : deadline ≤ Word.largest) :
    ({ process with deadline := some deadline, state := .live .sleeping } : Process).Sound
      memory image mayWrite := by
  refine sound.retain rfl rfl rfl nofun (fun _ => live) ⟨by simp, fun other here => ?_⟩
  cases here
  exact in_time

end Process

namespace Tables

variable {slots : Nat} {tables : Tables slots} {layout : Layout slots}
  {author : Fin slots → Prop}

theorem Sound.answer (sound : tables.Sound layout author) (caller : Fin slots)
    (response : UInt64) :
    Sound { tables with processes := tables.processes.answer caller response } layout author :=
  sound.set caller ((sound.slot caller).respond response) rfl

theorem Waiting.answer (waiting : tables.Waiting) (caller : Fin slots) (response : UInt64) :
    Waiting { tables with processes := tables.processes.answer caller response } :=
  waiting.retain caller rfl rfl

end Tables

variable {slots : Nat}

/-- What holds after a step of the kernel: the tables are sound, nobody waits who does not have to,
and the hint names slots of the table only. -/
structure Preserved (layout : Layout slots) (author : Fin slots → Prop) (hint : Hint)
    (after : System slots) : Prop where
  /-- The tables are sound. -/
  sound : after.toTables.Sound layout author
  /-- Whoever waits has to. -/
  waiting : after.toTables.Waiting
  /-- The hint names slots of the table. -/
  within : hint.Within slots

variable {before after : System slots} {layout : Layout slots} {author : Fin slots → Prop}
  {caller : Fin slots} {hint : Hint}

private theorem clear_of_runnable {process : Process} (runnable : process.state = .live .runnable)
    (id : PipeId) : process.state.isBlockedOn id = false := by
  rw [runnable]
  rfl

private theorem within_of_plain (plain : hint = .same ∨ hint = .other) : hint.Within slots := by
  rcases plain with rfl | rfl
  · exact Hint.within_same
  · exact Hint.within_other

private theorem addHandle_answer (sound : before.toTables.Sound layout author)
    (waiting : before.toTables.Waiting)
    (runnable : before.processes[caller].state = .live .runnable)
    {position : Fin Config.maxHandles} {id : PipeId} {pipe : Pipe}
    (free : before.processes[caller].handles[position] = none)
    (inside : id.index < Config.maxPipes)
    (counted : pipe.references = before.pipes.references id + 1) (ring : pipe.ring.Sound)
    (still : ∀ state held, before.pipes.get? id = some held → held.Stalls state id →
      pipe.Stalls state id) (response : UInt64) :
    Preserved layout author .same { before with
      pipes := (before.toTables.addHandle caller position id pipe).pipes
      processes := (before.toTables.addHandle caller position id pipe).processes.answer caller
        response } := by
  have live := Process.live_of_runnable runnable
  exact ⟨(sound.addHandle live free inside counted ring).answer caller response,
    (waiting.addHandle (clear_of_runnable runnable) inside still).answer caller response,
    Hint.within_same⟩

section

variable (sound : before.toTables.Sound layout author) (waiting : before.toTables.Waiting)
  (runnable : before.processes[caller].state = .live .runnable)

include sound waiting

private theorem prioritise_preserves (slot : Fin slots) (priority : Priority) :
    Preserved layout author .other { before with
      processes := ProcessTable.answer
        (before.processes.set slot { before.processes[slot] with priority } slot.isLt) caller
        Response.ok } := by
  have changed_waiting : Tables.Waiting { before.toTables with
      processes := before.processes.set slot { before.processes[slot] with priority } slot.isLt } :=
    waiting.retain slot rfl rfl
  exact ⟨(sound.set slot ((sound.slot slot).prioritise priority) rfl).answer caller Response.ok,
    changed_waiting.answer caller Response.ok, Hint.within_other⟩

include runnable

private theorem open_preserves {name : List UInt8} {tables : Tables slots} {handle : PipeHandle}
    (found : CallM.openPipe? before.toTables caller name = some (tables, handle)) :
    Preserved layout author .same { before with
      pipes := tables.pipes
      processes := tables.processes.answer caller handle.word.toUInt64 } := by
  obtain ⟨position, id, free, absent, inside, _, rfl⟩ := Tables.openPipe?_eq_some found
  refine addHandle_answer sound waiting runnable free inside ?_
    (Ring.sound_empty (by decide)) ?_ _
  · simp [Pipe.create, PipeTable.references, absent]
  · intro state held here
    rw [absent] at here
    cases here

private theorem share_preserves {owner : Pid} {name : List UInt8} {tables : Tables slots}
    {handle : PipeHandle}
    (found : CallM.sharePipe? before.toTables caller owner name = some (tables, handle)) :
    Preserved layout author .same { before with
      pipes := tables.pipes
      processes := tables.processes.answer caller handle.word.toUInt64 } := by
  rcases Tables.sharePipe?_eq_some found with rfl | ⟨position, id, pipe, free, _, here, _, rfl⟩
  · exact ⟨sound.answer caller _, waiting.answer caller _, Hint.within_same⟩
  · have ring : ({ pipe with references := pipe.references + 1 } : Pipe).ring.Sound :=
      sound.ring id pipe here
    refine addHandle_answer sound waiting runnable free
      (PipeTable.index_lt_of_get?_eq_some here) ?_ ring ?_ _
    · simp [PipeTable.references, here]
    · intro state held held_here stalls
      rw [here] at held_here
      cases held_here
      exact ⟨stalls.open_eq, stalls.empty, stalls.full⟩

private theorem close_preserves {handle : PipeHandle} {process : Process} {id : PipeId}
    {tables : Tables slots}
    (removed : before.processes[caller].removeHandle? handle = some (process, id))
    (run : Tables.release
      ⟨before.processes.set caller process caller.isLt, before.pipes⟩ caller id =
      .ok (tables, hint)) :
    Preserved layout author hint { before with
      pipes := tables.pipes
      processes := tables.processes.answer caller Response.ok } := by
  obtain ⟨position, named, rfl⟩ := Process.removeHandle?_eq_some removed
  obtain ⟨released, found_hint, found_run, within, released_sound, _, _, still_waiting⟩ :=
    sound.letGo named
  have same : Except.ok (released, found_hint) = Except.ok (tables, hint) :=
    found_run.symm.trans run
  cases same
  exact ⟨released_sound.answer caller Response.ok,
    (still_waiting waiting (clear_of_runnable runnable)).1.answer caller Response.ok, within⟩

private theorem reap_preserves {reaped : Tables slots}
    (run : before.toTables.reap caller = .ok (reaped, hint)) :
    reaped.Sound layout author ∧ reaped.Waiting ∧ hint.Within slots := by
  obtain ⟨found, found_hint, found_run, within, reaped_sound, _, _, still_waiting⟩ :=
    sound.reap caller
  rw [found_run] at run
  cases run
  exact ⟨reaped_sound, still_waiting waiting (clear_of_runnable runnable), within⟩

theorem Outcome.preserves (outcome : Outcome before caller (.ok hint) after) :
    Preserved layout author hint after := by
  cases outcome with
  | answered log memory response hint plain =>
      exact ⟨sound.answer caller response, waiting.answer caller response, within_of_plain plain⟩
  | exited log reaped hint run =>
      obtain ⟨reaped_sound, still_waiting, within⟩ := reap_preserves sound waiting runnable run
      exact ⟨reaped_sound, still_waiting, within⟩
  | slept deadline in_time asleep run =>
      obtain ⟨live, rfl⟩ := Process.sleepUntil_eq_ok_iff.1 run
      exact ⟨sound.set caller (((sound.slot caller).respond _).sleepUntil live in_time) rfl,
        waiting.set_of_clear caller fun id => rfl, Hint.within_other⟩
  | prioritised slot priority => exact prioritise_preserves sound waiting slot priority
  | moved brk admits process run =>
      obtain ⟨found, found_run, moved_sound, state, handles⟩ :=
        (sound.slot caller).setBreak (layout.houses caller) admits
      rw [found_run] at run
      cases run
      exact ⟨sound.set caller (moved_sound.respond _) handles,
        waiting.retain caller state handles, Hint.within_same⟩
  | opened asked name tables handle found => exact open_preserves sound waiting runnable found
  | shared owner name tables handle found => exact share_preserves sound waiting runnable found
  | closed handle process id tables hint removed run =>
      exact close_preserves sound waiting runnable removed run

end

private theorem block_preserves {tables : Tables slots} (sound : tables.Sound layout author)
    (waiting : tables.Waiting) (runnable : tables.processes[caller].state = .live .runnable)
    {activity : Activity} {process : Process}
    (run : tables.processes[caller].block activity = .ok process)
    (awake : activity ≠ .sleeping)
    (stalls : ∀ id, (ProcessState.live activity).isBlockedOn id = true →
      tables.processes[caller].Holds id ∧
        ∃ pipe, tables.pipes.get? id = some pipe ∧ pipe.Stalls (.live activity) id) :
    Tables.Sound { tables with
        processes := tables.processes.set caller process caller.isLt } layout author ∧
      Tables.Waiting { tables with
        processes := tables.processes.set caller process caller.isLt } := by
  have live := Process.live_of_runnable runnable
  obtain ⟨_, rfl⟩ := Process.block_eq_ok_iff.1 run
  refine ⟨sound.set caller ((sound.slot caller).retain rfl rfl rfl ?_ (fun _ => live) ?_) rfl,
    waiting.set caller stalls⟩
  · intro vacant
    cases vacant
  · refine Process.timed_of_awake ?_ (by simpa using awake)
    exact (sound.slot caller).timed.deadline_eq_none (by simp [runnable])

namespace CallM

theorem ReadOutcome.preserves (outcome : ReadOutcome before caller (.ok hint) after)
    (sound : before.toTables.Sound layout author) (waiting : before.toTables.Waiting)
    (runnable : before.processes[caller].state = .live .runnable) :
    Preserved layout author hint after := by
  cases outcome with
  | idle transfer requested =>
      exact ⟨sound.answer caller _, waiting.answer caller _, Hint.within_same⟩
  | blocked transfer requested pipe found empty open_eq process run =>
      obtain ⟨blocked_sound, blocked_waiting⟩ := block_preserves sound waiting runnable run
        (by simp) fun id blocked => by
          have same : id = transfer.pipe := by
            rcases (ProcessState.isBlockedOn_iff _ _).1 blocked with reading | writing
            · cases reading
              rfl
            · cases writing
          subst same
          exact ⟨Process.pipeOf?_holds requested.pipe, pipe, found, open_eq, fun _ => empty,
            fun writing => (by cases (ProcessState.isWriting_iff _ _).1 writing)⟩
      exact ⟨blocked_sound, blocked_waiting, Hint.within_other⟩
  | took transfer requested pipe found some_byte ring bytes run =>
      obtain ⟨smaller, read, smaller_sound, _⟩ := (sound.ring _ _ found).read transfer.size
      rw [read] at run
      cases run
      have answered_sound := sound.answer caller Response.ok
      have answered_waiting := waiting.answer caller Response.ok
      refine ⟨answered_sound.replace found { pipe with ring } rfl smaller_sound
        (fun _ => ProcessState.isBlockedOn_of_isWriting), ?_, ProcessTable.within_hintFor _⟩
      refine answered_waiting.replace found _ fun state waits asked stalls => ?_
      -- Whoever reads had nothing to read, but there was something.
      have reading : state.isReading transfer.pipe = true := by
        simpa [ProcessState.isBlockedOn, asked] using waits
      rw [stalls.empty reading] at some_byte
      cases some_byte

theorem WriteOutcome.preserves (outcome : WriteOutcome before caller (.ok hint) after)
    (sound : before.toTables.Sound layout author) (waiting : before.toTables.Waiting)
    (runnable : before.processes[caller].state = .live .runnable) :
    Preserved layout author hint after := by
  cases outcome with
  | idle transfer requested =>
      exact ⟨sound.answer caller _, waiting.answer caller _, Hint.within_same⟩
  | blocked transfer requested pipe found full open_eq process run =>
      obtain ⟨ring_eq, references_eq, hungUp_eq⟩ :=
        Pipe.noteWriter_fields pipe before.processes[caller].pid
      have inside := PipeTable.index_lt_of_get?_eq_some found
      have noted_sound := sound.exchange found (pipe.noteWriter before.processes[caller].pid)
        references_eq (ring_eq ▸ sound.ring _ _ found)
      have noted_waiting := waiting.exchange found
        (pipe.noteWriter before.processes[caller].pid) fun state stalls =>
          ⟨hungUp_eq.trans stalls.open_eq, fun reading => ring_eq ▸ stalls.empty reading,
            fun writing => ring_eq ▸ stalls.full writing⟩
      obtain ⟨blocked_sound, blocked_waiting⟩ :=
        block_preserves noted_sound noted_waiting runnable run (by simp) fun id blocked => by
          have same : id = transfer.pipe := by
            rcases (ProcessState.isBlockedOn_iff _ _).1 blocked with reading | writing
            · cases reading
            · cases writing
              rfl
          subst same
          refine ⟨Process.pipeOf?_holds requested.pipe,
            pipe.noteWriter before.processes[caller].pid, ?_, hungUp_eq.trans open_eq,
            fun reading => (by cases (ProcessState.isReading_iff _ _).1 reading),
            fun _ => ring_eq ▸ full⟩
          rw [PipeTable.get?_put _ inside, if_pos rfl]
      exact ⟨blocked_sound, blocked_waiting, Hint.within_other⟩
  | put transfer requested pipe found room open_eq ring count run =>
      obtain ⟨larger, written, larger_sound, _⟩ := (sound.ring _ _ found).write
        (before.memory.read transfer.buffer (min transfer.size Config.pipeCapacity))
      rw [written] at run
      cases run
      obtain ⟨_, references_eq, _⟩ := Pipe.noteWriter_fields pipe before.processes[caller].pid
      have answered_sound := sound.answer caller Response.ok
      have answered_waiting := waiting.answer caller Response.ok
      refine ⟨answered_sound.replace found
        { pipe.noteWriter before.processes[caller].pid with ring } references_eq larger_sound
        (fun _ => ProcessState.isBlockedOn_of_isReading), ?_, ProcessTable.within_hintFor _⟩
      refine answered_waiting.replace found _ fun state waits asked stalls => ?_
      -- Whoever writes had no room, but there was some.
      have writing : state.isWriting transfer.pipe = true := by
        simpa [ProcessState.isBlockedOn, asked] using waits
      rw [stalls.full writing] at room
      cases room

end CallM

theorem Started.preserves {rights : Rights} {slot : Fin slots} {entry : Nat}
    (started : Started before slot entry
      [{ base := layout.image.start, size := layout.image.length, rights }] after)
    (marked : rights.includes .image = true)
    (authored : rights.includes .write = true → author slot)
    (sound : before.toTables.Sound layout author) (waiting : before.toTables.Waiting)
    (vacant : before.processes[slot].state = .vacant) :
    after.toTables.Sound layout author ∧ after.toTables.Waiting := by
  obtain ⟨⟨pid, nextPid, taken, memory, rootTable, registers, run, _, rfl⟩, _⟩ := started
  obtain ⟨taken_sound, state, handles⟩ :=
    (sound.slot slot).occupy (layout.houses slot) run marked authored
  have ready : ({ taken with rootTable, registers } : Process).Sound layout.pages[slot]
      layout.image (author slot) :=
    taken_sound.retain rfl rfl rfl (fun is_vacant => ⟨is_vacant, rfl⟩) id
      (taken_sound.timed.congr rfl rfl)
  refine ⟨sound.set slot ready ?_, waiting.set_of_clear slot (clear_of_runnable state)⟩
  exact handles.trans ((sound.slot slot).vacant vacant).2.symm

theorem SpawnOutcome.preserves (outcome : SpawnOutcome before caller (.ok hint) after)
    (sound : before.toTables.Sound layout author) (waiting : before.toTables.Waiting)
    (runnable : before.processes[caller].state = .live .runnable) :
    Preserved layout author hint after := by
  cases outcome with
  | started slot vacant started_system log _ started chosen =>
      obtain ⟨rights, inherited, marked, unwritable⟩ :=
        (sound.slot caller).inherited (Process.live_of_runnable runnable)
      rw [inherited] at started
      have authored : rights.includes .write = true → author slot := by
        intro writable
        rw [unwritable] at writable
        cases writable
      obtain ⟨started_sound, started_waiting⟩ := started.preserves marked authored sound waiting
        (CallM.vacant_of_vacantSlot?_eq_some vacant)
      refine ⟨started_sound.answer caller _, started_waiting.answer caller _, ?_⟩
      rw [chosen]
      split
      · exact Hint.within_specific slot
      · exact Hint.within_same

theorem Handled.preserves (handled : Handled before caller hint after)
    (sound : before.toTables.Sound layout author) (waiting : before.toTables.Waiting)
    (runnable : before.processes[caller].state = .live .runnable) :
    Preserved layout author hint after := by
  cases handled with
  | done outcome =>
      rw [CallOutcome] at outcome
      split at outcome
      · exact outcome.preserves sound waiting runnable
      · exact outcome.preserves sound waiting runnable
      · exact outcome.preserves sound waiting runnable
      · exact outcome.preserves sound waiting runnable
  | failed error memory =>
      exact ⟨sound.answer caller _, waiting.answer caller _, Hint.within_same⟩
  | ended fault memory _ log reaped _ run =>
      obtain ⟨reaped_sound, still_waiting, within⟩ := reap_preserves sound waiting runnable run
      refine ⟨reaped_sound.set caller ?_ rfl, still_waiting.retain caller rfl rfl, within⟩
      exact (reaped_sound.slot caller).retain rfl rfl rfl (fun vacant => ⟨vacant, rfl⟩) id
        ((reaped_sound.slot caller).timed.congr rfl rfl)

end Microkernel
