import Microkernel.Proofs.Calls.Outcome

/-!
# What reading and writing a pipe come to

A call that reads or writes moves nothing, blocks the caller, or moves as many bytes as it can.
Bytes that move are stored where the caller may write, and their number where the caller wants it.
-/

namespace Microkernel
namespace CallM

open KernelM

private theorem byte_sized : ElementLayout.byte.size ≠ 0 := by decide

private theorem word64_sized : ElementLayout.word64.size ≠ 0 := by decide

namespace Transfer

/-- Memory with the number of moved bytes stored where the caller wants it. -/
def reported (transfer : Transfer) (memory : Memory) (count : Nat) : Memory :=
  match transfer.report with
  | none => memory
  | some address => memory.write address (Process.elementBytes .word64 count)

/-- Whether the registers of a process ask for a transfer of which all but the bytes is in order. -/
structure RequestedBy (transfer : Transfer) (process : Process) : Prop where
  /-- The first argument is a handle on the pipe. -/
  pipe : process.pipeOf? ⟨process.registers.argument 0⟩ = some transfer.pipe
  /-- The second argument is the address of the bytes. -/
  buffer : process.registers.argument 1 = transfer.buffer
  /-- The third argument is the number of bytes. -/
  size : process.registers.argument 2 = transfer.size
  /-- The fourth argument is the place for the report, if any. -/
  report : transfer.report =
    if process.registers.argument 3 = 0 then none else some (process.registers.argument 3)
  /-- The report can be stored. -/
  reportable : ∀ address, transfer.report = some address →
    (process.checkPlace .word64 address).run = .ok (.ok ())
  /-- Bytes that are asked for have an address. -/
  addressed : process.registers.argument 2 ≠ 0 → process.registers.argument 1 ≠ 0

theorem RequestedBy.unique {transfer other : Transfer} {process : Process}
    (requested : transfer.RequestedBy process) (too : other.RequestedBy process) :
    other = transfer := by
  have pipe := Option.some.inj (too.pipe.symm.trans requested.pipe)
  have buffer := too.buffer.symm.trans requested.buffer
  have size := too.size.symm.trans requested.size
  have report := too.report.trans requested.report.symm
  cases transfer
  cases other
  simp only at pipe buffer size report
  rw [pipe, buffer, size, report]

/-- Whether the registers of a process ask for a transfer with which everything is in order: the
process may also touch the bytes, if there are any, as the transfer needs it. -/
structure ValidFor (transfer : Transfer) (process : Process) (needed : Rights) : Prop extends
    transfer.RequestedBy process where
  /-- The bytes are a slice that the process may touch. -/
  accessible : transfer.size ≠ 0 →
    (process.checkSlice .byte transfer.buffer transfer.size needed).run = .ok (.ok ())

theorem RequestedBy.changesOnly {transfer : Transfer} {process : Process}
    (requested : transfer.RequestedBy process) (bounded : process.Bounded) (memory : Memory)
    (count : Nat) :
    memory.ChangesOnly (transfer.reported memory count) (process.May .write) := by
  cases wanted : transfer.report with
  | none =>
      rw [reported, wanted]
      exact .refl _ _
  | some address =>
      rw [reported, wanted]
      have passed := requested.reportable address wanted
      rcases Process.checkPlace_run bounded word64_sized address with
        ⟨_, allowed⟩ | ⟨fault, run⟩
      · exact Memory.changesOnly_write _ _ _ |>.mono allowed
      · rw [passed] at run
        cases run

end Transfer

/-- What reading a pipe can come to. -/
inductive ReadOutcome {slots : Nat} (before : System slots) (caller : Fin slots) :
    Except Refusal Hint → System slots → Prop where
  | refused (refusal : Refusal) (hint : ∀ error left, refusal = .code error left → left = .same)
      (invalid : ∀ transfer : Transfer, ¬ transfer.ValidFor before.processes[caller] .write) :
      ReadOutcome before caller (.error refusal) before
  | idle (transfer : Transfer) (requested : transfer.RequestedBy before.processes[caller])
      (nothing : transfer.size = 0 ∨ ∃ pipe, before.pipes.get? transfer.pipe = some pipe ∧
        pipe.ring.isEmpty = true ∧ pipe.hungUp = true) :
      ReadOutcome before caller (.ok .same) { before with
        memory := transfer.reported before.memory 0
        processes := before.processes.answer caller Response.ok }
  | blocked (transfer : Transfer) (requested : transfer.RequestedBy before.processes[caller])
      (pipe : Pipe) (found : before.pipes.get? transfer.pipe = some pipe)
      (empty : pipe.ring.isEmpty = true) (open_eq : pipe.hungUp = false) (waiting : Process)
      (run : before.processes[caller].block (.readingPipe transfer.pipe) = .ok waiting)
      (wanted : transfer.size ≠ 0) :
      ReadOutcome before caller (.ok .other)
        { before with processes := before.processes.set caller waiting caller.isLt }
  | took (transfer : Transfer) (requested : transfer.RequestedBy before.processes[caller])
      (pipe : Pipe) (found : before.pipes.get? transfer.pipe = some pipe)
      (some_byte : pipe.ring.isEmpty = false) (ring : Ring Config.pipeCapacity)
      (bytes : List UInt8) (run : pipe.ring.read transfer.size = .ok (ring, bytes))
      (wanted : transfer.size ≠ 0) :
      ReadOutcome before caller
        (.ok ((before.processes.answer caller Response.ok).wake caller
          (·.isWriting transfer.pipe)).2) { before with
          memory := transfer.reported (before.memory.write transfer.buffer bytes) bytes.length
          pipes := before.pipes.put transfer.pipe (some { pipe with ring })
          processes := ((before.processes.answer caller Response.ok).wake caller
            (·.isWriting transfer.pipe)).1 }

/-- What writing to a pipe can come to. -/
inductive WriteOutcome {slots : Nat} (before : System slots) (caller : Fin slots) :
    Except Refusal Hint → System slots → Prop where
  | refused (refusal : Refusal) (hint : ∀ error left, refusal = .code error left → left = .same)
      (invalid : ∀ transfer : Transfer, ¬ transfer.ValidFor before.processes[caller] .read) :
      WriteOutcome before caller (.error refusal) before
  | hungUp (transfer : Transfer) (requested : transfer.RequestedBy before.processes[caller])
      (pipe : Pipe) (found : before.pipes.get? transfer.pipe = some pipe)
      (closed : pipe.hungUp = true) (wanted : transfer.size ≠ 0) :
      WriteOutcome before caller (.error (.code .pipeClosed .same))
        { before with memory := transfer.reported before.memory 0 }
  | idle (transfer : Transfer) (requested : transfer.RequestedBy before.processes[caller])
      (nothing : transfer.size = 0) :
      WriteOutcome before caller (.ok .same) { before with
        memory := transfer.reported before.memory 0
        processes := before.processes.answer caller Response.ok }
  | blocked (transfer : Transfer) (requested : transfer.RequestedBy before.processes[caller])
      (pipe : Pipe) (found : before.pipes.get? transfer.pipe = some pipe)
      (full : pipe.ring.isFull = true) (open_eq : pipe.hungUp = false) (waiting : Process)
      (run : before.processes[caller].block (.writingPipe transfer.pipe) = .ok waiting)
      (wanted : transfer.size ≠ 0)
      (valid : transfer.ValidFor before.processes[caller] .read) :
      WriteOutcome before caller (.ok .other) { before with
        pipes := before.pipes.put transfer.pipe
          (some (pipe.noteWriter before.processes[caller].pid))
        processes := before.processes.set caller waiting caller.isLt }
  | put (transfer : Transfer) (requested : transfer.RequestedBy before.processes[caller])
      (pipe : Pipe) (found : before.pipes.get? transfer.pipe = some pipe)
      (room : pipe.ring.isFull = false) (open_eq : pipe.hungUp = false)
      (ring : Ring Config.pipeCapacity) (count : Nat)
      (run : pipe.ring.write (before.memory.read transfer.buffer
        (min transfer.size Config.pipeCapacity)) = .ok (ring, count))
      (wanted : transfer.size ≠ 0)
      (valid : transfer.ValidFor before.processes[caller] .read) :
      WriteOutcome before caller
        (.ok ((before.processes.answer caller Response.ok).wake caller
          (·.isReading transfer.pipe)).2) { before with
          memory := transfer.reported before.memory count
          pipes := before.pipes.put transfer.pipe
            (some { pipe.noteWriter before.processes[caller].pid with ring })
          processes := ((before.processes.answer caller Response.ok).wake caller
            (·.isReading transfer.pipe)).1 }

variable {slots : Nat} {system : System slots} {caller : Fin slots}

/-- The arguments of a transfer are in order, or the call is turned away. -/
theorem ends_transferArguments {process : Process} (bounded : process.Bounded)
    {outcome : Except Refusal Transfer → System slots → Prop}
    (asked : ∀ transfer : Transfer, transfer.RequestedBy process → outcome (.ok transfer) system)
    (turned : (∀ transfer : Transfer, ¬ transfer.RequestedBy process) →
      ∀ error, outcome (.error (.code error .same)) system)
    (refused : (∀ transfer : Transfer, ¬ transfer.RequestedBy process) →
      ∀ fault, outcome (.error (.fault fault)) system) :
    (transferArguments process).run.Ends system outcome := by
  simp only [transferArguments, ends_run_bind, ends_orRefuse]
  split
  next found pipe named =>
      rw [ends_run_ite]
      split
      next unaddressed =>
          rw [ends_refuse]
          exact turned (fun transfer requested => requested.addressed unaddressed.1 unaddressed.2) _
      next addressed =>
        have addressed : process.registers.argument 2 ≠ 0 → process.registers.argument 1 ≠ 0 :=
          fun wanted nowhere => addressed ⟨wanted, nowhere⟩
        rw [ends_run_ite]
        split
        next unwanted =>
            rw [ends_run_pure]
            refine asked _ ⟨named, rfl, rfl, by rw [if_pos unwanted], ?_, addressed⟩
            rintro _ ⟨⟩
        next wanted =>
            simp only [ends_run_bind, ends_guarded]
            rcases Process.checkPlace_run bounded word64_sized
              (process.registers.argument 3) with ⟨passed, _⟩ | ⟨fault, run⟩
            · refine ⟨_, passed, ?_⟩
              simp only [ofFault_ok, ends_run_pure]
              refine asked _ ⟨named, rfl, rfl, by rw [if_neg wanted], ?_, addressed⟩
              rintro _ ⟨⟩
              exact passed
            · refine ⟨_, run, refused (fun transfer requested => ?_) fault⟩
              have report := requested.report
              rw [if_neg wanted] at report
              cases run.symm.trans (requested.reportable _ report)
  next unnamed =>
      refine turned (fun transfer requested => ?_) _
      cases unnamed.symm.trans requested.pipe

theorem ends_reportCount {transfer : Transfer}
    (requested : transfer.RequestedBy system.processes[caller]) (count : Nat)
    (outcome : Except Refusal Unit → System slots → Prop) :
    (reportCount caller transfer count).run.Ends system outcome ↔
      outcome (.ok ()) { system with memory := transfer.reported system.memory count } := by
  cases wanted : transfer.report with
  | none =>
      simp only [reportCount, wanted, ends_run_pure, Transfer.reported]
  | some address =>
      have run : (system.processes[caller].writeElement system.memory .word64 address count).run =
          .ok (.ok (system.memory.write address (Process.elementBytes .word64 count))) :=
        Process.writeElement_of_checkPlace (requested.reportable address wanted)
      simp only [reportCount, wanted, storeElement, ends_run_bind, ends_callProcess,
        ends_run_get, ends_guarded, run, Transfer.reported]
      constructor
      · rintro ⟨_, ⟨⟩, holds⟩
        exact (ends_run_modify _ _ _).1 holds
      · exact fun holds => ⟨_, rfl, (ends_run_modify _ _ _).2 holds⟩

theorem ends_complete {transfer : Transfer}
    (requested : transfer.RequestedBy system.processes[caller]) (count : Nat)
    (outcome : Except Refusal Unit → System slots → Prop) :
    (complete caller transfer count).run.Ends system outcome ↔
      outcome (.ok ()) { system with
        memory := transfer.reported system.memory count
        processes := system.processes.answer caller Response.ok } := by
  rw [complete, ends_run_bind, ends_reportCount requested]
  simp only [ends_kernel, ends_respond]
  rfl

/-- What a call that moves bytes comes to, and where it stores. -/
def Transfers (system : System slots) (caller : Fin slots)
    (outcome : Except Refusal Hint → System slots → Prop) (result : Except Refusal Hint)
    (after : System slots) : Prop :=
  outcome result after ∧
    system.memory.ChangesOnly after.memory (system.processes[caller].May .write)

variable {layout : Layout slots} {author : Fin slots → Prop}

theorem live_of_holds (sound : system.toTables.Sound layout author) {id : PipeId}
    (holds : system.processes[caller].Holds id) : system.processes[caller].state ≠ .vacant := by
  intro vacant
  have none_held := ((sound.slot caller).vacant vacant).2
  have counted := (Process.handlesOn_pos_iff _ _).2 holds
  rw [Process.handlesOn_noHandles none_held] at counted
  omega

private theorem invalid_of_unrequested {process : Process} {needed : Rights}
    (none_requested : ∀ transfer : Transfer, ¬ transfer.RequestedBy process)
    (transfer : Transfer) : ¬ transfer.ValidFor process needed :=
  fun valid => none_requested transfer valid.toRequestedBy

private theorem invalid_of_refused {process : Process} {needed : Rights} {transfer : Transfer}
    (requested : transfer.RequestedBy process) (wanted : transfer.size ≠ 0) {fault : Fault}
    (refuses : (process.checkSlice .byte transfer.buffer transfer.size needed).run =
      .ok (.error fault)) (other : Transfer) : ¬ other.ValidFor process needed := by
  intro valid
  cases requested.unique valid.toRequestedBy
  cases refuses.symm.trans (valid.accessible wanted)

theorem pipeRead_run (sound : system.toTables.Sound layout author) :
    (pipeRead caller).run.Ends system (Transfers system caller (ReadOutcome system caller)) := by
  have bounded := (sound.slot caller).bounded (layout.houses caller)
  simp only [pipeRead, ends_run_bind, ends_callProcess]
  refine ends_transferArguments bounded (fun transfer requested => ?_)
    (fun none_requested _ => ⟨.refused _ (by rintro _ _ ⟨⟩; rfl)
      (invalid_of_unrequested none_requested), .refl _ _⟩)
    (fun none_requested _ => ⟨.refused _ (by rintro _ _ ⟨⟩)
      (invalid_of_unrequested none_requested), .refl _ _⟩)
  have holds := Process.pipeOf?_holds requested.pipe
  obtain ⟨pipe, found⟩ := sound.pipe_of_holds holds
  simp only [ends_run_ite]
  by_cases wanted : transfer.size = 0
  · rw [if_pos wanted, ends_run_bind, ends_complete requested, ends_run_pure]
    exact ⟨.idle transfer requested (.inl wanted), requested.changesOnly bounded _ _⟩
  · rw [if_neg wanted]
    refine ends_checkSlice bounded byte_sized _ _ .write (fun _ writable => ?_)
      (fun _ refuses => ⟨.refused _ (by rintro _ _ ⟨⟩)
        (invalid_of_refused requested wanted refuses), .refl _ _⟩)
    simp only [ends_run_bind, ends_run_get, ends_orRefuse, found, ends_run_ite]
    split
    next empty =>
        split
        next closed =>
            rw [ends_complete requested, ends_run_pure]
            exact ⟨.idle transfer requested (.inr ⟨pipe, found, empty, closed⟩),
              requested.changesOnly bounded _ _⟩
        next still_open =>
            have run := Process.block_eq (live_of_holds sound holds) (.readingPipe transfer.pipe)
            simp only [block, ends_run_bind, ends_kernel, ends_updateProcess, ends_run_pure]
            exact ⟨_, run, .blocked transfer requested pipe found empty (by simpa using still_open)
              _ run wanted, .refl _ _⟩
    next some_byte =>
        obtain ⟨ring, run, _⟩ := (sound.ring _ _ found).read transfer.size
        simp only [ends_checked, run]
        refine ⟨_, rfl, ?_⟩
        simp only [putPipe, ends_run_modify, ends_kernel, ends_modifyMemory]
        refine (ends_complete ?_ _ _).2 ?_
        · exact requested
        simp only [ends_wake]
        refine ⟨.took transfer requested pipe found (by simpa using some_byte) ring _ run
          wanted, ?_⟩
        refine .trans ?_ (requested.changesOnly bounded _ _)
        refine (Memory.changesOnly_write _ _ _).mono fun address covered => writable address ?_
        refine ⟨covered.1, Nat.lt_of_lt_of_le covered.2 ?_⟩
        simp only [Extent.stop, List.length_take, ElementLayout.byte]
        omega

theorem pipeWrite_run (sound : system.toTables.Sound layout author) :
    (pipeWrite caller).run.Ends system
      (Transfers system caller (WriteOutcome system caller)) := by
  have bounded := (sound.slot caller).bounded (layout.houses caller)
  simp only [pipeWrite, ends_run_bind, ends_callProcess]
  refine ends_transferArguments bounded (fun transfer requested => ?_)
    (fun none_requested _ => ⟨.refused _ (by rintro _ _ ⟨⟩; rfl)
      (invalid_of_unrequested none_requested), .refl _ _⟩)
    (fun none_requested _ => ⟨.refused _ (by rintro _ _ ⟨⟩)
      (invalid_of_unrequested none_requested), .refl _ _⟩)
  have holds := Process.pipeOf?_holds requested.pipe
  obtain ⟨pipe, found⟩ := sound.pipe_of_holds holds
  simp only [ends_run_ite]
  by_cases wanted : transfer.size = 0
  · rw [if_pos wanted, ends_run_bind, ends_complete requested, ends_run_pure]
    exact ⟨.idle transfer requested wanted, requested.changesOnly bounded _ _⟩
  · rw [if_neg wanted]
    refine ends_checkSlice bounded byte_sized _ _ .read (fun passed _ => ?_)
      (fun _ refuses => ⟨.refused _ (by rintro _ _ ⟨⟩)
        (invalid_of_refused requested wanted refuses), .refl _ _⟩)
    have valid : transfer.ValidFor system.processes[caller] .read := ⟨requested, fun _ => passed⟩
    simp only [ends_run_bind, ends_run_get, ends_orRefuse, found, ends_run_ite]
    split
    next closed =>
        rw [ends_reportCount requested]
        simp only [ends_refuse]
        exact ⟨.hungUp transfer requested pipe found closed wanted,
          requested.changesOnly bounded _ _⟩
    next still_open =>
        have open_eq : pipe.hungUp = false := by simpa using still_open
        have ring_eq : (pipe.noteWriter system.processes[caller].pid).ring = pipe.ring := by
          rw [Pipe.noteWriter]
          split <;> rfl
        rw [ring_eq]
        split
        next full =>
            have run := Process.block_eq (live_of_holds sound holds) (.writingPipe transfer.pipe)
            simp only [putPipe, ends_run_modify, block, ends_run_bind, ends_kernel,
              ends_updateProcess, ends_run_pure]
            exact ⟨_, run, .blocked transfer requested pipe found full open_eq _ run wanted valid,
              .refl _ _⟩
        next room =>
            obtain ⟨ring, run, _⟩ := (sound.ring _ _ found).write
              (system.memory.read transfer.buffer (min transfer.size Config.pipeCapacity))
            simp only [ends_checked, run]
            refine ⟨_, rfl, ?_⟩
            simp only [putPipe, ends_run_modify]
            refine (ends_complete ?_ _ _).2 ?_
            · exact requested
            simp only [ends_kernel, ends_wake]
            exact ⟨.put transfer requested pipe found (by simpa using room) open_eq ring _ run
              wanted valid, requested.changesOnly bounded _ _⟩

end CallM
end Microkernel
