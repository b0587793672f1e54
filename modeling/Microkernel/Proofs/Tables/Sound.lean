import Microkernel.Proofs.Pipe.Holders
import Microkernel.Proofs.Pipe.Queue
import Microkernel.Proofs.Process.Sound
import Microkernel.Proofs.Schedule.Choice

/-!
# What holds of the tables

Every slot is sound, every pipe counts the handles on it and is gone once there are none, and its
ring is sound.  This is `Tables.Sound`.  Apart from it, whoever is blocked on a pipe has to be:
this is `Tables.Waiting`.  Both are kept by each change of the tables that the kernel makes.
-/

namespace Microkernel

/-- Where the pages of the slots and the image of the program lie. -/
structure Layout (slots : Nat) where
  /-- The pages of each slot. -/
  pages : Vector SlotMemory slots
  /-- The image of the program. -/
  image : Extent
  /-- The pages of different slots do not meet. -/
  apart : ∀ first second : Fin slots, first ≠ second → pages[first].Apart pages[second]
  /-- The program can run in every slot. -/
  houses : ∀ slot : Fin slots, pages[slot].Houses image

namespace Layout

variable {slots : Nat} (layout : Layout slots) {one other slot : Fin slots} {address : Nat}

theorem not_owns (different : one ≠ other) (owned : layout.pages[one].Owns address) :
    ¬ layout.pages[other].Owns address := by
  rintro ⟨part, member, covered⟩
  obtain ⟨own, own_member, own_covered⟩ := owned
  exact (layout.apart one other different own own_member part member).not_covers own_covered
    covered

theorem not_covers_image (owned : layout.pages[slot].Owns address) :
    ¬ layout.image.Covers address := by
  obtain ⟨part, member, covered⟩ := owned
  exact ((layout.houses slot).apart part member).symm.not_covers covered

theorem not_covers_window (owned : layout.pages[slot].Owns address) :
    ¬ Extent.Covers ⟨Config.argumentAddress, Config.pageSize⟩ address := by
  obtain ⟨part, member, covered⟩ := owned
  exact ((layout.houses slot).sound.unseen part member).not_covers covered

end Layout

namespace PipeTable

/-- The number of references that the pipe at a position counts, none if there is no pipe. -/
def references (pipes : PipeTable) (id : PipeId) : Nat :=
  ((pipes.get? id).map (·.references)).getD 0

end PipeTable

namespace Pipe

/-- Whether a pipe cannot serve a process in a state of waiting for it. -/
structure Stalls (pipe : Pipe) (state : ProcessState) (id : PipeId) : Prop where
  /-- The pipe is not hung up. -/
  open_eq : pipe.hungUp = false
  /-- There is nothing to read. -/
  empty : state.isReading id = true → pipe.ring.isEmpty = true
  /-- There is no room to write. -/
  full : state.isWriting id = true → pipe.ring.isFull = true

theorem noteWriter_fields (pipe : Pipe) (writer : Pid) :
    (pipe.noteWriter writer).ring = pipe.ring ∧
      (pipe.noteWriter writer).references = pipe.references ∧
        (pipe.noteWriter writer).hungUp = pipe.hungUp := by
  rw [noteWriter]
  split
  · exact ⟨rfl, rfl, rfl⟩
  · exact ⟨rfl, rfl, rfl⟩

end Pipe

namespace Process

/-- Whether a process that waits for a pipe has to: it holds the pipe, which cannot serve it. -/
def MustWait (process : Process) (pipes : PipeTable) (id : PipeId) : Prop :=
  process.Holds id ∧ ∃ pipe, pipes.get? id = some pipe ∧ pipe.Stalls process.state id

theorem Sound.wakeIf {process : Process} {memory : SlotMemory}
    {image : Extent} {mayWrite : Prop} (sound : process.Sound memory image mayWrite) {id : PipeId}
    {blocked : ProcessState → Bool}
    (only : ∀ state, blocked state = true → state.isBlockedOn id = true) :
    (process.wakeIf blocked).Sound memory image mayWrite := by
  cases asked : blocked process.state with
  | false => rwa [Process.wakeIf_of_not asked]
  | true =>
      have on_pipe := (ProcessState.isBlockedOn_iff _ _).1 (only _ asked)
      have state : (process.wakeIf blocked).state = .live .runnable := by
        rw [Process.wakeIf_state, if_pos asked]
      refine sound.retain (Process.wakeIf_memory ..) (Process.wakeIf_heap ..)
        (Process.wakeIf_regions ..) ?_ ?_ ?_
      · rw [state]
        simp
      · intro _
        rcases on_pipe with reading | writing
        · simp [reading]
        · simp [writing]
      · refine Process.timed_of_awake ?_ (by simp [state])
        rw [Process.wakeIf_deadline]
        refine sound.timed.deadline_eq_none ?_
        rcases on_pipe with reading | writing
        · simp [reading]
        · simp [writing]

theorem Sound.rousedTo {before after : Process} {memory : SlotMemory} {image : Extent}
    {mayWrite : Prop} (sound : before.Sound memory image mayWrite)
    (roused : before.RousedTo after) : after.Sound memory image mayWrite := by
  have timed := roused.timed sound.timed
  rcases roused with rfl | ⟨asleep, rfl⟩
  · exact sound
  · refine sound.retain rfl rfl rfl ?_ ?_ timed
    · intro vacant
      cases vacant
    · intro _ vacant
      rw [asleep] at vacant
      cases vacant

end Process

namespace Tables

variable {slots : Nat}

/-- What holds of the tables at all times.  The last argument tells whose processes may write the
program. -/
structure Sound (tables : Tables slots) (layout : Layout slots) (author : Fin slots → Prop) :
    Prop where
  /-- Every slot is sound. -/
  slot : ∀ slot : Fin slots,
    tables.processes[slot].Sound layout.pages[slot] layout.image (author slot)
  /-- Every pipe counts the handles on it, and no handle names a pipe that is not there. -/
  counted : ∀ id, tables.pipes.references id = tables.processes.holders id
  /-- Every pipe is held. -/
  held : ∀ id pipe, tables.pipes.get? id = some pipe → 0 < pipe.references
  /-- The ring of every pipe is sound. -/
  ring : ∀ id pipe, tables.pipes.get? id = some pipe → pipe.ring.Sound

/-- Whether every process that is blocked on a pipe has to be. -/
def Waiting (tables : Tables slots) : Prop :=
  ∀ (slot : Fin slots) (id : PipeId), tables.processes[slot].state.isBlockedOn id = true →
    tables.processes[slot].MustWait tables.pipes id

variable {tables : Tables slots} {layout : Layout slots} {author : Fin slots → Prop}

theorem Sound.pipe_of_holds (sound : tables.Sound layout author) {slot : Fin slots} {id : PipeId}
    (holds : tables.processes[slot].Holds id) : ∃ pipe, tables.pipes.get? id = some pipe := by
  have some_handle := (Process.handlesOn_pos_iff _ _).2 holds
  have few := ProcessTable.handlesOn_le_holders tables.processes slot id
  have counted := sound.counted id
  rw [PipeTable.references] at counted
  cases found : tables.pipes.get? id with
  | some pipe => exact ⟨pipe, rfl⟩
  | none =>
      simp only [found, Option.map_none, Option.getD_none] at counted
      omega

theorem Sound.references_eq (sound : tables.Sound layout author) {id : PipeId} {pipe : Pipe}
    (found : tables.pipes.get? id = some pipe) :
    pipe.references = tables.processes.holders id := by
  have counted := sound.counted id
  simpa only [PipeTable.references, found, Option.map_some, Option.getD_some] using counted

theorem Sound.argumentPage_le (sound : tables.Sound layout author) (slot : Fin slots) :
    tables.processes[slot].memory.arguments + Config.pageSize ≤ Word.limit := by
  rw [(sound.slot slot).memory_eq]
  exact Nat.le_of_lt ((layout.houses slot).sound.bounded _ (SlotMemory.arguments_mem_parts _))

/-- No process has access to the pages of a vacant slot. -/
theorem Sound.not_owns_of_may (sound : tables.Sound layout author) {slot caller : Fin slots}
    (vacant : tables.processes[slot].state = .vacant) {needed : Rights} {address : Nat}
    (may : tables.processes[caller].May needed address) :
    ¬ tables.processes[slot].memory.Owns address := by
  have different : caller ≠ slot := by
    rintro rfl
    obtain ⟨region, member, _⟩ := may
    rw [((sound.slot caller).vacant vacant).1] at member
    exact absurd member List.not_mem_nil
  rw [(sound.slot slot).memory_eq]
  intro owned
  rcases (sound.slot caller).owns_of_may may with owned_too | covered | window
  · exact layout.not_owns different owned_too owned
  · exact layout.not_covers_image owned covered
  · exact layout.not_covers_window owned window

/-- Who may write the program matters for live processes only. -/
theorem Sound.mono (sound : tables.Sound layout author) {allowed : Fin slots → Prop}
    (more : ∀ slot, tables.processes[slot].state ≠ .vacant → author slot → allowed slot) :
    tables.Sound layout allowed where
  slot slot :=
    { sound.slot slot with
      live := fun live => by
        obtain ⟨ordered, rights, perm, marked, authored⟩ := (sound.slot slot).live live
        exact ⟨ordered, rights, perm, marked, fun writable => more slot live (authored writable)⟩ }
  counted := sound.counted
  held := sound.held
  ring := sound.ring

/-! ## Changes of one slot -/

theorem Sound.set (sound : tables.Sound layout author) (slot : Fin slots) {process : Process}
    (fits : process.Sound layout.pages[slot] layout.image (author slot))
    (handles : process.handles = tables.processes[slot].handles) :
    Sound { tables with
      processes := tables.processes.set slot process slot.isLt } layout author where
  slot other := by
    rw [getElem_set]
    split
    next same => exact same ▸ fits
    next => exact sound.slot other
  counted id := by
    rw [sound.counted id]
    refine (ProcessTable.holders_congr (fun other => ?_) id).symm
    rw [getElem_set]
    split
    next same => exact same ▸ handles
    next => rfl
  held := sound.held
  ring := sound.ring

theorem Waiting.set (waiting : tables.Waiting) (slot : Fin slots) {process : Process}
    (waits : ∀ id, process.state.isBlockedOn id = true → process.MustWait tables.pipes id) :
    Waiting { tables with processes := tables.processes.set slot process slot.isLt } := by
  intro other id blocked
  rw [getElem_set] at *
  split
  next same =>
      rw [if_pos same] at blocked
      exact waits id blocked
  next different =>
      rw [if_neg different] at blocked
      exact waiting other id blocked

theorem Waiting.retain (waiting : tables.Waiting) (slot : Fin slots) {process : Process}
    (state : process.state = tables.processes[slot].state)
    (handles : process.handles = tables.processes[slot].handles) :
    Waiting { tables with processes := tables.processes.set slot process slot.isLt } := by
  refine waiting.set slot fun id blocked => ?_
  rw [state] at blocked
  obtain ⟨holds, pipe, found, stalls⟩ := waiting slot id blocked
  refine ⟨?_, pipe, found, state ▸ stalls⟩
  rw [Process.Holds, handles]
  exact holds

theorem Waiting.set_of_clear (waiting : tables.Waiting) (slot : Fin slots) {process : Process}
    (clear : ∀ id, process.state.isBlockedOn id = false) :
    Waiting { tables with processes := tables.processes.set slot process slot.isLt } := by
  refine waiting.set slot fun id blocked => ?_
  rw [clear id] at blocked
  cases blocked

/-! ## Waking and replacing a pipe -/

/-- A pipe can be replaced by one that counts as many references, while some of those who wait for
it are woken. -/
theorem Sound.replace (sound : tables.Sound layout author) {id : PipeId} {pipe : Pipe}
    (found : tables.pipes.get? id = some pipe) (changed : Pipe)
    (references : changed.references = pipe.references) (ring : changed.ring.Sound)
    {blocked : ProcessState → Bool}
    (only : ∀ state, blocked state = true → state.isBlockedOn id = true) :
    Sound ⟨tables.processes.map (·.wakeIf blocked), tables.pipes.put id (some changed)⟩ layout
      author := by
  have inside := PipeTable.index_lt_of_get?_eq_some found
  refine ⟨fun slot => ?_, fun other => ?_, fun other held here => ?_, fun other held here => ?_⟩
  · rw [getElem_map]
    exact (sound.slot slot).wakeIf only
  · have same_handles (slot : Fin slots) :
        (tables.processes.map (·.wakeIf blocked) : ProcessTable slots)[slot].handles =
          tables.processes[slot].handles := by
      simp
    rw [ProcessTable.holders_congr same_handles, ← sound.counted other]
    simp only [PipeTable.references, PipeTable.get?_put _ inside]
    split
    next same => simp [same, found, references]
    next => rfl
  · rw [PipeTable.get?_put _ inside] at here
    split at here
    next => exact Option.some.inj here ▸ references ▸ sound.held id pipe found
    next => exact sound.held other held here
  · rw [PipeTable.get?_put _ inside] at here
    split at here
    next => exact Option.some.inj here ▸ ring
    next => exact sound.ring other held here

/-- Those who are not woken when a pipe is replaced have to find that it still stalls them. -/
theorem Waiting.replace (waiting : tables.Waiting) {id : PipeId} {pipe : Pipe}
    (found : tables.pipes.get? id = some pipe) (changed : Pipe) {blocked : ProcessState → Bool}
    (still : ∀ state, state.isBlockedOn id = true → blocked state = false →
      pipe.Stalls state id → changed.Stalls state id) :
    Waiting ⟨tables.processes.map (·.wakeIf blocked), tables.pipes.put id (some changed)⟩ := by
  have inside := PipeTable.index_lt_of_get?_eq_some found
  intro slot other waits
  rw [getElem_map] at *
  obtain ⟨asked, same_process⟩ := Process.wakeIf_eq_of_isBlockedOn waits
  rw [same_process] at waits ⊢
  obtain ⟨holds, held, here, stalls⟩ := waiting slot other waits
  refine ⟨holds, ?_⟩
  rw [PipeTable.get?_put _ inside]
  split
  next same =>
      subst same
      rw [found] at here
      cases here
      exact ⟨changed, rfl, still _ waits asked stalls⟩
  next => exact ⟨held, here, stalls⟩

theorem Sound.exchange (sound : tables.Sound layout author) {id : PipeId} {pipe : Pipe}
    (found : tables.pipes.get? id = some pipe) (changed : Pipe)
    (references : changed.references = pipe.references) (ring : changed.ring.Sound) :
    Sound { tables with pipes := tables.pipes.put id (some changed) } layout author := by
  have nobody_woken : Sound ⟨tables.processes.map (·.wakeIf fun _ => false),
      tables.pipes.put id (some changed)⟩ layout author :=
    sound.replace found changed references ring (by simp)
  rwa [ProcessTable.map_wakeIf_none] at nobody_woken

theorem Waiting.exchange (waiting : tables.Waiting) {id : PipeId} {pipe : Pipe}
    (found : tables.pipes.get? id = some pipe) (changed : Pipe)
    (still : ∀ state, pipe.Stalls state id → changed.Stalls state id) :
    Waiting { tables with pipes := tables.pipes.put id (some changed) } := by
  have nobody_woken : Waiting ⟨tables.processes.map (·.wakeIf fun _ => false),
      tables.pipes.put id (some changed)⟩ :=
    waiting.replace found changed fun state _ _ => still state
  rwa [ProcessTable.map_wakeIf_none] at nobody_woken

/-! ## Waking sleepers -/

theorem Sound.rousedTo (sound : tables.Sound layout author) {woken : ProcessTable slots}
    (roused : tables.processes.RousedTo woken) :
    Sound { tables with processes := woken } layout author where
  slot slot := (sound.slot slot).rousedTo (roused slot)
  counted id := by
    rw [sound.counted id]
    refine (ProcessTable.holders_congr (fun slot => ?_) id).symm
    rcases roused slot with same | ⟨_, same⟩
    · rw [same]
    · rw [same]
      rfl
  held := sound.held
  ring := sound.ring

theorem Waiting.rousedTo (waiting : tables.Waiting) {woken : ProcessTable slots}
    (roused : tables.processes.RousedTo woken) :
    Waiting { tables with processes := woken } := by
  intro slot id waits
  rcases roused slot with same | ⟨_, same⟩
  · simp only [same] at waits ⊢
    exact waiting slot id waits
  · simp only [same, Process.roused] at waits
    cases waits

end Tables
end Microkernel
