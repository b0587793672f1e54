import Microkernel.Proofs.Kernel.Accounting
import Microkernel.Proofs.Kernel.Stream

/-!
# What a transfer comes to

A process that asks for bytes of a pipe gets as many as there are, or finds the end of a pipe that
is hung up; one that offers bytes gets rid of as many as there is room for, or is told that the pipe
is hung up.  Otherwise the process waits, and all that is left of its call is that it waits and will
make it again, and that a pipe knows it as a writer.
-/

namespace Microkernel

variable {slots : Nat}

/-! ## What a process asks for -/

namespace CallM.Transfer

/-- Whether the registers of a process ask for a transfer on a pipe that it holds, with a report
that it may store. -/
structure AskedBy (transfer : Transfer) (process : Process) : Prop where
  /-- The first argument is a handle on the pipe. -/
  pipe : process.pipeOf? ⟨process.registers.argument 0⟩ = some transfer.pipe
  /-- The second argument is the address of the bytes. -/
  buffer : process.registers.argument 1 = transfer.buffer
  /-- The third argument is the number of bytes. -/
  size : process.registers.argument 2 = transfer.size
  /-- The fourth argument is the place for the report, if any. -/
  report : transfer.report =
    if process.registers.argument 3 = 0 then none else some (process.registers.argument 3)
  /-- The report is aligned. -/
  aligned : ∀ address, transfer.report = some address → address % 8 = 0
  /-- The process may write the report. -/
  storable : ∀ address, transfer.report = some address →
    ∀ place, Extent.Covers ⟨address, 8⟩ place → process.May .write place

/-- Whether a process asks for a transfer of some bytes that it may touch. -/
structure GrantedTo (transfer : Transfer) (process : Process) (needed : Rights) : Prop extends
    transfer.AskedBy process where
  /-- There are bytes to move. -/
  wanted : transfer.size ≠ 0
  /-- The bytes have an address. -/
  addressed : transfer.buffer ≠ 0
  /-- The process may touch the bytes as the transfer needs it. -/
  accessible : ∀ address, Extent.Covers ⟨transfer.buffer, transfer.size⟩ address →
    process.May needed address

/-- Whether a process calls for a transfer with which everything is in order. -/
inductive InOrderFor (transfer : Transfer) (process : Process) : Prop where
  | read (asked : process.call? = some .pipeRead) (granted : transfer.GrantedTo process .write)
  | write (asked : process.call? = some .pipeWrite) (granted : transfer.GrantedTo process .read)

variable {transfer : Transfer} {process : Process}

theorem AskedBy.requestedBy (asked : transfer.AskedBy process) (bounded : process.Bounded)
    (ordered : Region.Ordered process.regions)
    (addressed : transfer.size ≠ 0 → transfer.buffer ≠ 0) : transfer.RequestedBy process where
  pipe := asked.pipe
  buffer := asked.buffer
  size := asked.size
  report := asked.report
  reportable address wanted := Process.checkPlace_of_may bounded ordered (by decide)
    (asked.aligned address wanted) (asked.storable address wanted)
  addressed := by
    rw [asked.size, asked.buffer]
    exact addressed

theorem GrantedTo.validFor {needed : Rights} (granted : transfer.GrantedTo process needed)
    (bounded : process.Bounded) (ordered : Region.Ordered process.regions) :
    transfer.ValidFor process needed where
  toRequestedBy := granted.requestedBy bounded ordered fun _ => granted.addressed
  accessible wanted := by
    refine Process.checkSlice_of_may bounded ordered (by decide) wanted (Nat.mod_one _) ?_
    rw [ElementLayout.byte, Nat.mul_one]
    exact granted.accessible

end CallM.Transfer

/-! ## The report -/

namespace CallM.Transfer

variable {transfer : Transfer} {process : Process}

theorem fits_of_checkPlace {address : Nat}
    (passes : (process.checkPlace .word64 address).run = .ok (.ok ())) :
    address + 8 ≤ Word.limit := by
  rcases UserSlice.ofRaw_run .word64 address 1 (by decide) with ⟨slice, _, extent, _⟩ | ⟨fault, run⟩
  · have fits := slice.fits
    have start := congrArg Extent.start extent
    have length := congrArg Extent.length extent
    simp only [UserSlice.extent] at start length
    rw [start, length] at fits
    simp only [ElementLayout.word64, Word.largest, Word.limit] at *
    omega
  · rw [Process.checkPlace, UserSlice.single, Guarded.run_bind_error run] at passes
    cases passes

theorem RequestedBy.readWord_reported (requested : transfer.RequestedBy process) (memory : Memory)
    {count : Nat} (word : count < Word.limit) {address : Nat}
    (wanted : transfer.report = some address) :
    ((transfer.reported memory count).readWord address).toNat = count := by
  have inside := fits_of_checkPlace (requested.reportable address wanted)
  have stored : transfer.reported memory count = memory.writeWord address count.toUInt64 := by
    rw [reported, wanted]
    rfl
  rw [stored, Memory.readWord_writeWord _ _ _ inside]
  exact UInt64.toNat_ofNat_of_lt' word

end CallM.Transfer

/-! ## What is left of a call -/

namespace Call

/-- Whether the caller goes on with a response, after a number of bytes has been moved that it finds
where it wants it. -/
structure Concludes (call : Call slots) (transfer : CallM.Transfer) (response : UInt64)
    (count : Nat) (stored : Memory) (bytes : List UInt8) : Prop where
  /-- The caller has the response, and nothing else about it changes. -/
  caller : call.left.processes[call.caller] =
    call.entered.processes[call.caller].respond response
  /-- Besides what is stored, nothing but the report changes memory. -/
  memory : call.left.memory = transfer.reported stored count
  /-- The report says how many bytes have been moved. -/
  report : ∀ address, transfer.report = some address →
    (call.left.memory.readWord address).toNat = count
  /-- These bytes are in the pipe. -/
  pipe : call.left.pipes.bytesIn transfer.pipe = bytes

/-- Whether all that is left of a call is that the caller waits and will make it again, and what has
become of the pipes. -/
structure Postpones (call : Call slots) (activity : Activity) (pipes : PipeTable) : Prop where
  /-- Somebody else is to run. -/
  hint : call.hint = .other
  /-- The caller waits, with its program counter back at the call. -/
  left : call.left = { call.entered with
    pipes
    processes := call.entered.processes.set call.caller { call.entered.processes[call.caller] with
      state := .live activity
      registers := call.entered.processes[call.caller].registers.rewind } call.caller.isLt }

/-- Whether a call takes bytes out of a pipe as a read in order does. -/
structure Reads (call : Call slots) (transfer : CallM.Transfer) (pipe : Pipe) : Prop where
  /-- If there are bytes, the caller gets as many as it wants and there are. -/
  some_bytes : pipe.ring.contents ≠ [] → ∃ count,
    count = min transfer.size pipe.ring.contents.length ∧ 1 ≤ count ∧
    call.Concludes transfer Response.ok count
      (call.entered.memory.write transfer.buffer (pipe.ring.contents.take count))
      (pipe.ring.contents.drop count)
  /-- If there are none and will be none, the caller is told so. -/
  at_end : pipe.ring.contents = [] → pipe.hungUp = true →
    call.Concludes transfer Response.ok 0 call.entered.memory []
  /-- If there are none yet, the caller waits. -/
  no_bytes : pipe.ring.contents = [] → pipe.hungUp = false →
    call.Postpones (.readingPipe transfer.pipe) call.entered.pipes

/-- Whether a call puts bytes into a pipe as a write in order does. -/
structure Writes (call : Call slots) (transfer : CallM.Transfer) (pipe : Pipe) : Prop where
  /-- If the pipe is hung up, the caller is told so. -/
  closed : pipe.hungUp = true →
    call.Concludes transfer ErrorCode.pipeClosed.code 0 call.entered.memory pipe.ring.contents
  /-- If there is room, the caller gets rid of as many bytes as it wants and there is room for. -/
  room : pipe.hungUp = false → pipe.ring.contents.length < Config.pipeCapacity → ∃ count,
    count = min transfer.size (Config.pipeCapacity - pipe.ring.contents.length) ∧ 1 ≤ count ∧
    call.Concludes transfer Response.ok count call.entered.memory
      (pipe.ring.contents ++ call.entered.memory.read transfer.buffer count)
  /-- If there is none, the caller waits, and the pipe knows it as a writer. -/
  full : pipe.hungUp = false → Config.pipeCapacity ≤ pipe.ring.contents.length →
    call.Postpones (.writingPipe transfer.pipe) (call.entered.pipes.put transfer.pipe (some
      { pipe with
        writers :=
          if call.entered.processes[call.caller].pid ∈ pipe.writers then pipe.writers
          else pipe.writers ++ [call.entered.processes[call.caller].pid] }))

/-- Whether a call does what a transfer in order does. -/
def Performs (call : Call slots) (transfer : CallM.Transfer) (pipe : Pipe) : Prop :=
  (call.entered.processes[call.caller].call? = some .pipeRead → call.Reads transfer pipe) ∧
    (call.entered.processes[call.caller].call? = some .pipeWrite → call.Writes transfer pipe)

end Call

/-! ## One call -/

variable {before after : System slots} {caller : Fin slots} {hint : Hint} {layout : Layout slots}
  {author : Fin slots → Prop} {transfer : CallM.Transfer}

theorem Ring.Sound.length_contents_lt {ring : Ring Config.pipeCapacity} (sound : ring.Sound) :
    ring.contents.length < Word.limit := by
  rw [ring.length_contents]
  exact Nat.lt_of_le_of_lt sound.length_le (by decide)

namespace Call

theorem concludes_of_answer {call : Call slots} {response : UInt64} {count : Nat}
    {stored : Memory} {bytes : List UInt8}
    (requested : transfer.RequestedBy call.entered.processes[call.caller])
    (word : count < Word.limit)
    (answered : call.left.processes[call.caller] =
      call.entered.processes[call.caller].respond response)
    (memory : call.left.memory = transfer.reported stored count)
    (pipe : call.left.pipes.bytesIn transfer.pipe = bytes) :
    call.Concludes transfer response count stored bytes where
  caller := answered
  memory := memory
  report address wanted := by
    rw [memory]
    exact requested.readWord_reported stored word wanted
  pipe := pipe

end Call

theorem CallM.ReadOutcome.reads (outcome : ReadOutcome before caller (.ok hint) after)
    (sound : before.toTables.Sound layout author)
    (runnable : before.processes[caller].state = .live .runnable) (wanted : transfer.size ≠ 0)
    (requested : transfer.RequestedBy before.processes[caller]) :
    ∃ pipe, before.pipes.get? transfer.pipe = some pipe ∧
      Call.Reads ⟨caller, before, hint, after⟩ transfer pipe := by
  cases outcome with
  | idle other too nothing =>
      cases requested.unique too
      obtain ⟨pipe, found, empty, closed⟩ := nothing.resolve_left wanted
      have no_bytes := (Ring.isEmpty_iff _).1 empty
      refine ⟨pipe, found, fun some_bytes => absurd no_bytes some_bytes, fun _ _ => ?_,
        fun _ still_open => absurd (closed.symm.trans still_open) (by decide)⟩
      refine Call.concludes_of_answer requested (by decide)
        (ProcessTable.getElem_answer_self _) rfl ?_
      exact (PipeTable.bytesIn_eq found).trans no_bytes
  | blocked other too pipe found empty still_open waiting run =>
      cases requested.unique too
      have no_bytes := (Ring.isEmpty_iff _).1 empty
      obtain ⟨_, rfl⟩ := Process.block_eq_ok_iff.1 run
      exact ⟨pipe, found, fun some_bytes => absurd no_bytes some_bytes,
        fun _ closed => absurd (still_open.symm.trans closed) (by decide), fun _ _ => ⟨rfl, rfl⟩⟩
  | took other too pipe found some_byte ring bytes run =>
      cases requested.unique too
      have ring_sound := sound.ring _ _ found
      obtain ⟨smaller, read, _, rest⟩ := ring_sound.read transfer.size
      rw [read] at run
      cases run
      have filled := (Ring.isEmpty_eq_false_iff _).1 some_byte
      have some_bytes := List.length_pos_iff.2 filled
      refine ⟨pipe, found,
        fun _ => ⟨_, rfl, Nat.lt_min.2 ⟨Nat.pos_of_ne_zero wanted, some_bytes⟩, ?_⟩,
        fun empty => absurd empty filled, fun empty => absurd empty filled⟩
      have caller_left :=
        getElem_wake_answer runnable Response.ok (·.isWriting transfer.pipe) rfl
      have taken : pipe.ring.contents.take (min transfer.size pipe.ring.contents.length) =
          pipe.ring.contents.take transfer.size := by
        rw [List.take_eq_take_iff]
        omega
      have left : pipe.ring.contents.drop (min transfer.size pipe.ring.contents.length) =
          pipe.ring.contents.drop transfer.size := by
        rw [List.drop_eq_drop_iff]
        omega
      rw [taken, left]
      refine Call.concludes_of_answer requested ?_ caller_left ?_ ?_
      · exact Nat.lt_of_le_of_lt (Nat.min_le_right _ _) ring_sound.length_contents_lt
      · rw [← List.length_take]
      · exact (PipeTable.bytesIn_put found { pipe with ring }).trans rest

theorem CallM.WriteOutcome.writes (outcome : WriteOutcome before caller (.ok hint) after)
    (sound : before.toTables.Sound layout author) (tidy : before.toTables.Tidy)
    (few : slots ≤ Config.maxProcesses)
    (runnable : before.processes[caller].state = .live .runnable) (wanted : transfer.size ≠ 0)
    (requested : transfer.RequestedBy before.processes[caller]) :
    ∃ pipe, before.pipes.get? transfer.pipe = some pipe ∧
      Call.Writes ⟨caller, before, hint, after⟩ transfer pipe := by
  cases outcome with
  | idle other too nothing =>
      cases requested.unique too
      exact absurd nothing wanted
  | blocked other too pipe found full still_open waiting run =>
      cases requested.unique too
      have no_room := (Ring.isFull_iff _).1 full
      obtain ⟨_, rfl⟩ := Process.block_eq_ok_iff.1 run
      have listable (unlisted : before.processes[caller].pid ∉ pipe.writers) :
          pipe.writers.length < Config.maxProcesses :=
        Nat.lt_of_lt_of_le ((tidy.listed _ pipe found).length_lt unlisted) few
      refine ⟨pipe, found, fun closed => absurd (still_open.symm.trans closed) (by decide),
        fun _ room => absurd no_room (Nat.ne_of_lt room), fun _ _ => ⟨rfl, ?_⟩⟩
      rw [Pipe.noteWriter_eq listable]
  | put other too pipe found room still_open ring count run =>
      cases requested.unique too
      have ring_sound := sound.ring _ _ found
      obtain ⟨larger, written, _, grown⟩ := ring_sound.write
        (before.memory.read transfer.buffer (min transfer.size Config.pipeCapacity))
      rw [written] at run
      cases run
      have some_room := ring_sound.isFull_eq_false_iff.1 room
      have count_eq : min (before.memory.read transfer.buffer
          (min transfer.size Config.pipeCapacity)).length (Config.pipeCapacity - pipe.ring.length) =
            min transfer.size (Config.pipeCapacity - pipe.ring.contents.length) := by
        rw [Memory.length_read, pipe.ring.length_contents]
        omega
      rw [count_eq, Memory.take_read, Nat.min_eq_left (by omega)] at grown
      rw [count_eq]
      refine ⟨pipe, found, fun closed => absurd (still_open.symm.trans closed) (by decide),
        fun _ _ => ⟨_, rfl, ?_, ?_⟩, fun _ full => absurd full (Nat.not_le_of_lt some_room)⟩
      · omega
      · refine Call.concludes_of_answer requested ?_
          (getElem_wake_answer runnable Response.ok (·.isReading transfer.pipe) rfl) rfl ?_
        · exact Nat.lt_of_le_of_lt (Nat.min_le_right _ _)
            (Nat.lt_of_le_of_lt (Nat.sub_le _ _) (by decide))
        · exact (PipeTable.bytesIn_put found _).trans grown

/-! ## Every transfer -/

namespace Handled

theorem reads (handled : Handled before caller hint after)
    (sound : before.toTables.Sound layout author)
    (runnable : before.processes[caller].state = .live .runnable)
    (asked : before.processes[caller].call? = some .pipeRead) (wanted : transfer.size ≠ 0)
    (valid : transfer.ValidFor before.processes[caller] .write) :
    ∃ pipe, before.pipes.get? transfer.pipe = some pipe ∧
      Call.Reads ⟨caller, before, hint, after⟩ transfer pipe := by
  cases handled with
  | done outcome =>
      simp only [CallOutcome, asked] at outcome
      exact outcome.reads sound runnable wanted valid.toRequestedBy
  | failed _ _ outcome => exact absurd outcome (CallOutcome.not_turned_away asked valid)
  | ended _ _ outcome => exact absurd outcome (CallOutcome.not_turned_away asked valid)

/-- A write in order puts bytes into the pipe as far as there is room. -/
theorem writes (handled : Handled before caller hint after)
    (sound : before.toTables.Sound layout author) (tidy : before.toTables.Tidy)
    (few : slots ≤ Config.maxProcesses)
    (runnable : before.processes[caller].state = .live .runnable)
    (asked : before.processes[caller].call? = some .pipeWrite) (wanted : transfer.size ≠ 0)
    (valid : transfer.ValidFor before.processes[caller] .read) :
    ∃ pipe, before.pipes.get? transfer.pipe = some pipe ∧
      Call.Writes ⟨caller, before, hint, after⟩ transfer pipe := by
  cases handled with
  | done outcome =>
      simp only [CallOutcome, asked] at outcome
      exact outcome.writes sound tidy few runnable wanted valid.toRequestedBy
  | failed error memory outcome =>
      obtain ⟨refused, _, stored, pipe, found, closed⟩ := outcome.of_turned_away asked valid
      cases refused
      have shut (still_open : pipe.hungUp = false) : False :=
        absurd (closed.symm.trans still_open) (by decide)
      refine ⟨pipe, found, fun _ => ?_, fun still_open => (shut still_open).elim,
        fun still_open => (shut still_open).elim⟩
      exact Call.concludes_of_answer valid.toRequestedBy (by decide)
        (ProcessTable.getElem_answer_self _) stored (PipeTable.bytesIn_eq found)
  | ended fault memory outcome => cases (outcome.of_turned_away asked valid).1

/-- A transfer in order is made as far as it can be. -/
theorem performs (handled : Handled before caller hint after)
    (sound : before.toTables.Sound layout author) (tidy : before.toTables.Tidy)
    (few : slots ≤ Config.maxProcesses)
    (runnable : before.processes[caller].state = .live .runnable)
    (order : transfer.InOrderFor before.processes[caller]) :
    ∃ pipe, before.pipes.get? transfer.pipe = some pipe ∧
      Call.Performs ⟨caller, before, hint, after⟩ transfer pipe := by
  have bounded := (sound.slot caller).bounded (layout.houses caller)
  have ordered := ((sound.slot caller).live (Process.live_of_runnable runnable)).ordered
  cases order with
  | read asked granted =>
      obtain ⟨pipe, found, reads⟩ := handled.reads sound runnable asked granted.wanted
        (granted.validFor bounded ordered)
      refine ⟨pipe, found, fun _ => reads, fun other => ?_⟩
      cases asked.symm.trans other
  | write asked granted =>
      obtain ⟨pipe, found, writes⟩ := handled.writes sound tidy few runnable asked granted.wanted
        (granted.validFor bounded ordered)
      refine ⟨pipe, found, fun other => ?_, fun _ => writes⟩
      cases asked.symm.trans other

end Handled

/-! ## Transfers of no bytes -/

/-- What a transfer of no bytes can come to. -/
inductive CallM.NothingOutcome (before : System slots) (caller : Fin slots) :
    Except Refusal Hint → System slots → Prop where
  | refused (refusal : Refusal)
      (invalid : ∀ transfer : Transfer, ¬ transfer.RequestedBy before.processes[caller]) :
      NothingOutcome before caller (.error refusal) before
  | done (transfer : Transfer) (requested : transfer.RequestedBy before.processes[caller]) :
      NothingOutcome before caller (.ok .same) { before with
        memory := transfer.reported before.memory 0
        processes := before.processes.answer caller Response.ok }

section

variable {result : Except Refusal Hint}

theorem CallM.Transfer.RequestedBy.validFor_of_zero
    (requested : transfer.RequestedBy before.processes[caller])
    (nothing : before.processes[caller].registers.argument 2 = 0) (needed : Rights) :
    transfer.ValidFor before.processes[caller] needed :=
  ⟨requested, fun wanted => absurd (requested.size.symm.trans nothing) wanted⟩

theorem CallM.ReadOutcome.nothing (outcome : ReadOutcome before caller result after)
    (nothing : before.processes[caller].registers.argument 2 = 0) :
    NothingOutcome before caller result after := by
  cases outcome with
  | refused refusal _ invalid =>
      exact .refused refusal fun transfer requested =>
        invalid transfer (requested.validFor_of_zero nothing _)
  | idle transfer requested => exact .done transfer requested
  | blocked _ requested _ _ _ _ _ _ wanted =>
      exact absurd (requested.size.symm.trans nothing) wanted
  | took _ requested _ _ _ _ _ _ wanted =>
      exact absurd (requested.size.symm.trans nothing) wanted

theorem CallM.WriteOutcome.nothing (outcome : WriteOutcome before caller result after)
    (nothing : before.processes[caller].registers.argument 2 = 0) :
    NothingOutcome before caller result after := by
  cases outcome with
  | refused refusal _ invalid =>
      exact .refused refusal fun transfer requested =>
        invalid transfer (requested.validFor_of_zero nothing _)
  | hungUp _ requested _ _ _ wanted => exact absurd (requested.size.symm.trans nothing) wanted
  | idle transfer requested => exact .done transfer requested
  | blocked _ requested _ _ _ _ _ _ wanted =>
      exact absurd (requested.size.symm.trans nothing) wanted
  | put _ requested _ _ _ _ _ _ _ wanted =>
      exact absurd (requested.size.symm.trans nothing) wanted

/-- Whether a process calls for a transfer of no bytes. -/
structure Process.AsksForNothing (process : Process) : Prop where
  /-- The call is about a transfer. -/
  asked : process.call? = some .pipeRead ∨ process.call? = some .pipeWrite
  /-- The third argument, the number of bytes, is zero. -/
  nothing : process.registers.argument 2 = 0

theorem CallOutcome.nothing (outcome : CallOutcome before caller result after)
    (asks : before.processes[caller].AsksForNothing) :
    CallM.NothingOutcome before caller result after := by
  rcases asks.asked with asked | asked
  · simp only [CallOutcome, asked] at outcome
    exact outcome.nothing asks.nothing
  · simp only [CallOutcome, asked] at outcome
    exact outcome.nothing asks.nothing

/-- A transfer of no bytes that is turned away is not in order, and changes nothing. -/
theorem CallM.NothingOutcome.of_error {refusal : Refusal}
    (outcome : NothingOutcome before caller (.error refusal) after) :
    after = before ∧ ∀ transfer : Transfer, ¬ transfer.RequestedBy before.processes[caller] := by
  cases outcome with
  | refused _ invalid => exact ⟨rfl, invalid⟩

end

/-- Whether a call goes by without bytes being moved, and without the caller having to wait. -/
structure Call.MovesNothing (call : Call slots) : Prop where
  /-- The caller does not wait for a pipe. -/
  awake : ∀ id, call.left.processes[call.caller].state.isBlockedOn id = false
  /-- Every pipe that is still there holds what it held. -/
  pipes : call.entered.pipes.CarriesOn call.left.pipes False
  /-- Memory stays as it is, but for the report of zero bytes. -/
  memory : call.left.memory = call.entered.memory ∨
    call.left.memory = call.reported call.entered.memory 0

namespace Handled

/-- A transfer of no bytes moves none and does not make the caller wait, be it in order or not. -/
theorem movesNothing (handled : Handled before caller hint after)
    (sound : before.toTables.Sound layout author)
    (runnable : before.processes[caller].state = .live .runnable)
    (asks : before.processes[caller].AsksForNothing) :
    Call.MovesNothing ⟨caller, before, hint, after⟩ := by
  have answered (response : UInt64) (id : PipeId) :
      (before.processes.answer caller response)[caller].state.isBlockedOn id = false := by
    rw [ProcessTable.getElem_answer_self, Process.respond, runnable]
    rfl
  cases handled with
  | done outcome =>
      cases outcome.nothing asks with
      | done other requested =>
          exact ⟨answered Response.ok, .refl _ _, .inr (Call.reported_eq requested _ _)⟩
  | failed error memory outcome =>
      have kept := (outcome.nothing asks).of_error.1
      exact ⟨answered error.code, .refl _ _, .inl (congrArg (·.memory) kept)⟩
  | ended fault memory outcome log reaped hint run =>
      have kept := (outcome.nothing asks).of_error.1
      obtain ⟨_, _, found_run, _, _, ring, vacated, _⟩ := sound.reap caller
      cases found_run.symm.trans run
      refine ⟨fun id => ?_, fun id pipe here => .inr (ring id pipe here),
        .inl (congrArg (·.memory) kept)⟩
      rw [getElem_set_self, (vacated caller).2 (.inl rfl)]
      rfl

/-- A transfer of no bytes that is in order succeeds at once. -/
theorem concludes_of_asksForNothing (handled : Handled before caller hint after)
    (sound : before.toTables.Sound layout author)
    (runnable : before.processes[caller].state = .live .runnable)
    (asks : before.processes[caller].AsksForNothing)
    (asked : transfer.AskedBy before.processes[caller]) :
    Call.Concludes ⟨caller, before, hint, after⟩ transfer Response.ok 0 before.memory
      (before.pipes.bytesIn transfer.pipe) := by
  have bounded := (sound.slot caller).bounded (layout.houses caller)
  have ordered := ((sound.slot caller).live (Process.live_of_runnable runnable)).ordered
  have requested := asked.requestedBy bounded ordered
    fun wanted => absurd (asked.size.symm.trans asks.nothing) wanted
  cases handled with
  | done outcome =>
      cases outcome.nothing asks with
      | done other too =>
          cases requested.unique too
          exact Call.concludes_of_answer requested (by decide)
            (ProcessTable.getElem_answer_self _) rfl rfl
  | failed error memory outcome =>
      exact absurd requested ((outcome.nothing asks).of_error.2 transfer)
  | ended fault memory outcome =>
      exact absurd requested ((outcome.nothing asks).of_error.2 transfer)

end Handled

end Microkernel
