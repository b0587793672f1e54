import Microkernel.Proofs.Execution
import Microkernel.Proofs.Process.Checks
import Microkernel.Proofs.Tables.Release

/-!
# What the calls about processes come to

`Outcome` lists what a call that moves no bytes of a pipe and starts no process can come to, apart
from the memory, of which it changes only what the caller may write.  Each handler is shown to end
in one of these ways.
-/

namespace Microkernel

namespace Registers

theorem argument_lt (registers : Registers) (place : Fin 5) :
    registers.argument place < Word.limit :=
  UInt64.toNat_lt _

end Registers

/-- The call that the registers of a process ask for, if the kernel provides it. -/
def Process.call? (process : Process) : Option Syscall :=
  Syscall.ofNumber? process.registers.callNumber

/-- Whether a pipe can have a name: it has between one and thirty-one bytes, none of which is
zero. -/
structure Pipe.CanBeNamed (name : List UInt8) : Prop where
  /-- The name is not empty. -/
  nonempty : 0 < name.length
  /-- The name fits in with its terminator. -/
  short : name.length ≤ 31
  /-- The name can be written with a terminator. -/
  nonzero : 0 ∉ name

namespace ProcessTable

variable {slots : Nat} {processes : ProcessTable slots} {caller slot : Fin slots}

/-- The slots after a response was put into the registers of one process. -/
def answer (processes : ProcessTable slots) (caller : Fin slots) (response : UInt64) :
    ProcessTable slots :=
  processes.set caller (processes[caller].respond response) caller.isLt

theorem getElem_answer_self (response : UInt64) :
    (processes.answer caller response)[caller] = processes[caller].respond response :=
  getElem_set_self _ _ _

theorem getElem_answer_of_ne (different : slot ≠ caller) (response : UInt64) :
    (processes.answer caller response)[slot] = processes[slot] := by
  rw [answer, getElem_set, if_neg (Ne.symm different)]

theorem priority_answer (response : UInt64) :
    (processes.answer caller response)[slot].priority = processes[slot].priority := by
  rw [answer, getElem_set]
  split
  next same =>
      cases same
      rfl
  next => rfl

end ProcessTable

/-- What a call can come to that neither moves bytes of a pipe nor starts a process. -/
inductive Outcome {slots : Nat} (before : System slots) (caller : Fin slots) :
    Except Refusal Hint → System slots → Prop where
  | refused (refusal : Refusal) (hint : ∀ error left, refusal = .code error left → left = .same) :
      Outcome before caller (.error refusal) before
  | answered (log : List String) (memory : Memory) (response : UInt64) (hint : Hint)
      (plain : hint = .same ∨ hint = .other)
      (logged : log = before.log ∨ before.processes[caller].call? = some .print ∨
        before.processes[caller].call? = some .debug)
      (stored : memory = before.memory ∨ before.processes[caller].call? = some .getPriority) :
      Outcome before caller (.ok hint) { before with
        log, memory
        processes := before.processes.answer caller response }
  | exited (log : List String) (reaped : Tables slots) (hint : Hint)
      (run : before.toTables.reap caller = .ok (reaped, hint))
      (asked : before.processes[caller].call? = some .exit) :
      Outcome before caller (.ok hint) { before with log, toTables := reaped }
  | slept (deadline : Nat) (in_time : deadline ≤ Word.largest) (asleep : Process)
      (run : (before.processes[caller].respond Response.ok).sleepUntil deadline = .ok asleep)
      (asked : before.processes[caller].call? = some .sleep) :
      Outcome before caller (.ok .other)
        { before with processes := before.processes.set caller asleep caller.isLt }
  | prioritised (slot : Fin slots) (priority : Priority) (valid : priority.isValid = true)
      (asked : before.processes[caller].call? = some .setPriority)
      (named : slot = caller ∨ before.processes.findPid?
        ⟨before.processes[caller].registers.argument 0⟩ = some slot)
      (wanted : priority = ⟨before.processes[caller].registers.argument 1⟩) :
      Outcome before caller (.ok .other) { before with
        processes := ProcessTable.answer
          (before.processes.set slot { before.processes[slot] with priority } slot.isLt) caller
          Response.ok }
  | moved (brk : Nat) (admits : before.processes[caller].heap.Admits brk) (process : Process)
      (run : before.processes[caller].setBreak brk = .ok process)
      (asked : before.processes[caller].call? = some .moveBreak) :
      Outcome before caller (.ok .same) { before with
        processes := before.processes.set caller
          (process.respond before.processes[caller].heap.brk.toUInt64) }
  | opened (asked : before.processes[caller].call? = some .pipeOpen) (name : List UInt8)
      (tables : Tables slots) (handle : PipeHandle)
      (found : CallM.openPipe? before.toTables caller name = some (tables, handle))
      (fits : Pipe.CanBeNamed name) :
      Outcome before caller (.ok .same) { before with
        pipes := tables.pipes
        processes := tables.processes.answer caller handle.word.toUInt64 }
  | shared (owner : Pid) (name : List UInt8) (tables : Tables slots) (handle : PipeHandle)
      (found : CallM.sharePipe? before.toTables caller owner name = some (tables, handle))
      (asked : before.processes[caller].call? = some .pipeGet) :
      Outcome before caller (.ok .same) { before with
        pipes := tables.pipes
        processes := tables.processes.answer caller handle.word.toUInt64 }
  | closed (handle : PipeHandle) (process : Process) (id : PipeId) (tables : Tables slots)
      (hint : Hint) (removed : before.processes[caller].removeHandle? handle = some (process, id))
      (run : Tables.release
        ⟨before.processes.set caller process caller.isLt, before.pipes⟩ caller id =
        .ok (tables, hint))
      (asked : before.processes[caller].call? = some .pipeClose) :
      Outcome before caller (.ok hint) { before with
        pipes := tables.pipes
        processes := tables.processes.answer caller Response.ok }

namespace CallM

open KernelM

variable {slots : Nat} {system : System slots} {caller : Fin slots}

/-- What a call about processes comes to, and where it stores. -/
def Settles (system : System slots) (caller : Fin slots) (result : Except Refusal Hint)
    (after : System slots) : Prop :=
  Outcome system caller result after ∧
    system.memory.ChangesOnly after.memory (system.processes[caller].May .write)

theorem settles_refused (error : ErrorCode) :
    Settles system caller (.error (.code error .same)) system :=
  ⟨.refused _ (by rintro _ _ ⟨⟩; rfl), .refl _ _⟩

theorem settles_fault (fault : Fault) : Settles system caller (.error (.fault fault)) system :=
  ⟨.refused _ (by rintro _ _ ⟨⟩), .refl _ _⟩

theorem settles_answered (response : UInt64) (hint : Hint)
    (plain : hint = .same ∨ hint = .other) :
    Settles system caller (.ok hint)
      { system with processes := system.processes.answer caller response } :=
  ⟨.answered system.log system.memory response hint plain (.inl rfl) (.inl rfl), .refl _ _⟩

theorem settles_logged (log : List String) (response : UInt64)
    (asked : system.processes[caller].call? = some .print ∨
      system.processes[caller].call? = some .debug) :
    Settles system caller (.ok .same)
      { system with log, processes := system.processes.answer caller response } :=
  ⟨.answered log system.memory response .same (.inl rfl) (.inr asked) (.inl rfl), .refl _ _⟩

/-- An element is stored where the caller may write, or the call is a fault. -/
theorem ends_storeElement (bounded : system.processes[caller].Bounded) {layout : ElementLayout}
    (sized : layout.size ≠ 0) (address number : Nat)
    {outcome : Except Refusal Unit → System slots → Prop}
    (stored : system.memory.ChangesOnly
        (system.memory.write address (Process.elementBytes layout number))
        (system.processes[caller].May .write) →
      outcome (.ok ()) { system with
        memory := system.memory.write address (Process.elementBytes layout number) })
    (refused : ∀ fault, outcome (.error (.fault fault)) system) :
    (storeElement caller layout address number).run.Ends system outcome := by
  simp only [storeElement, ends_run_bind, ends_callProcess, ends_run_get, ends_guarded]
  rcases Process.writeElement_run bounded system.memory sized address number with
    ⟨run, allowed⟩ | ⟨fault, run⟩
  · refine ⟨_, run, ?_⟩
    simp only [ofFault_ok, ends_run_modify]
    refine stored ((Memory.changesOnly_write _ _ _).mono fun place covered => allowed place ?_)
    refine ⟨covered.1, Nat.lt_of_lt_of_le covered.2 ?_⟩
    simp only [Extent.stop, Process.elementBytes, List.length_take]
    omega
  · exact ⟨_, run, refused fault⟩

theorem ends_readString {process : Process} (bounded : process.Bounded) {address : Nat}
    (word : address < Word.limit) (most : Nat)
    {outcome : Except Refusal UserString → System slots → Prop}
    (found : ∀ text, (process.readString system.memory address most).run = .ok (.ok text) →
      outcome (.ok text) system)
    (refused : ∀ fault, outcome (.error (.fault fault)) system) :
    (CallM.readString process address most).run.Ends system outcome := by
  simp only [CallM.readString, ends_run_bind, ends_run_get, ends_guarded]
  obtain ⟨result, run⟩ := Process.readString_run bounded system.memory address most word
  refine ⟨result, run, ?_⟩
  cases result with
  | ok text => exact found text run
  | error fault => exact refused fault

/-- A slice whose check passes may be touched throughout, or the call is a fault. -/
theorem ends_checkSlice {α : Type} {process : Process} (bounded : process.Bounded)
    {layout : ElementLayout} (sized : layout.size ≠ 0) (base length : Nat) (needed : Rights)
    {next : CallM slots α} {outcome : Except Refusal α → System slots → Prop}
    (passed : (process.checkSlice layout base length needed).run = .ok (.ok ()) →
      (∀ address, Extent.Covers ⟨base, length * layout.size⟩ address →
        process.May needed address) → next.run.Ends system outcome)
    (refused : ∀ fault, (process.checkSlice layout base length needed).run = .ok (.error fault) →
      outcome (.error (.fault fault)) system) :
    (do
      process.checkAccess (← UserSlice.ofRaw layout base length) needed
      next : CallM slots α).run.Ends system outcome := by
  simp only [ends_run_bind, ends_guarded]
  rcases UserSlice.ofRaw_run layout base length sized with
    ⟨slice, run, extent, _⟩ | ⟨fault, run⟩
  · refine ⟨_, run, ?_⟩
    have checked : (process.checkSlice layout base length needed).run =
        (process.checkAccess slice needed).run := Guarded.run_bind_ok run
    simp only [ofFault_ok]
    rcases Process.checkAccess_run bounded slice needed with
      ⟨allows, allowed⟩ | ⟨fault, refuses⟩
    · exact ⟨_, allows, passed (checked.trans allows)
        fun address covered => allowed address (extent ▸ covered)⟩
    · exact ⟨_, refuses, refused fault (checked.trans refuses)⟩
  · exact ⟨_, run, refused fault (Guarded.run_bind_error run)⟩

theorem exit_run (total : ∃ reaped hint, system.toTables.reap caller = .ok (reaped, hint))
    (asked : system.processes[caller].call? = some .exit) :
    (exit caller).run.Ends system (Settles system caller) := by
  obtain ⟨reaped, hint, run⟩ := total
  simp only [exit, ends_run_bind, ends_callProcess, ends_kernel, ends_logLine, KernelM.reap,
    ends_onTables]
  exact ⟨reaped, hint, run, .exited _ reaped hint run asked, .refl _ _⟩

theorem print_run (bounded : system.processes[caller].Bounded)
    (asked : system.processes[caller].call? = some .print) :
    (print caller).run.Ends system (Settles system caller) := by
  simp only [print, ends_run_bind, ends_callProcess]
  rw [ends_run_ite]
  split
  · rw [ends_refuse]
    exact settles_refused _
  · rw [ends_run_bind]
    refine ends_readString bounded (Registers.argument_lt _ _) _ (fun text _ => ?_) settles_fault
    simp only [ends_run_bind, ends_kernel, ends_logLine, ends_respond, ends_run_pure]
    exact settles_logged _ _ (.inl asked)

theorem getPid_run : (getPid caller).run.Ends system (Settles system caller) := by
  simp only [getPid, ends_run_bind, ends_callProcess, ends_kernel, ends_respond, ends_run_pure]
  exact settles_answered _ _ (.inl rfl)

theorem debug_run (asked : system.processes[caller].call? = some .debug) :
    (debug caller).run.Ends system (Settles system caller) := by
  simp only [debug, ends_run_bind, ends_callProcess, ends_kernel, ends_logLine, ends_respond,
    ends_run_pure]
  exact settles_logged _ _ (.inr asked)

theorem yield_run : (yield caller).run.Ends system (Settles system caller) := by
  simp only [yield, ends_run_bind, ends_kernel, ends_respond, ends_run_pure]
  exact settles_answered _ _ (.inr rfl)

theorem sleep_run (live : system.processes[caller].state ≠ .vacant)
    (asked : system.processes[caller].call? = some .sleep) :
    (sleep caller).run.Ends system (Settles system caller) := by
  simp only [sleep, ends_run_bind, ends_argument, ends_kernel, ends_respond]
  rw [ends_run_ite]
  split
  · rw [ends_run_pure]
    exact settles_answered _ _ (.inl rfl)
  · simp only [ends_run_bind, ends_run_get, ends_kernel, ends_updateProcess, ends_run_pure]
    have respond_live : (system.processes[caller].respond Response.ok).state ≠ .vacant := live
    have run := Process.sleepUntil_eq respond_live
      (Clock.after system.clock
        (Clock.ticksFor (system.processes[caller].registers.argument 0)))
    rw [getElem_set_self]
    refine ⟨_, run, ?_⟩
    rw [Vector.set_set]
    exact ⟨.slept _ (Nat.min_le_right _ _) _ run asked, .refl _ _⟩

theorem ends_target (word : Nat) {outcome : Except Refusal (Fin slots) → System slots → Prop}
    (found : ∀ slot, slot = caller ∨ system.processes.findPid? ⟨word⟩ = some slot →
      outcome (.ok slot) system)
    (refused : ∀ error, outcome (.error (.code error .same)) system) :
    (target caller word).run.Ends system outcome := by
  rw [target, ends_run_ite]
  split
  · rw [ends_run_ite]
    split
    · rw [ends_run_pure]
      exact found caller (.inl rfl)
    · simp only [ends_run_bind, ends_run_get, ends_orRefuse]
      split
      next slot named => exact found slot (.inr named)
      next => exact refused _
  · rw [ends_refuse]
    exact refused _

theorem setPriority_run (asked : system.processes[caller].call? = some .setPriority) :
    (setPriority caller).run.Ends system (Settles system caller) := by
  simp only [setPriority, ends_run_bind, ends_callProcess]
  refine ends_target _ (fun slot named => ?_) settles_refused
  simp only [ends_run_ite]
  split
  next valid =>
      simp only [ends_run_bind, ends_kernel, ends_updateProcess, ends_respond, ends_run_pure]
      refine ⟨_, ?_, .prioritised slot _ valid asked named rfl, .refl _ _⟩
      rw [Process.setPriority, require, if_pos valid]
      rfl
  next =>
      rw [ends_refuse]
      exact settles_refused _

theorem getPriority_run (bounded : system.processes[caller].Bounded)
    (asked : system.processes[caller].call? = some .getPriority) :
    (getPriority caller).run.Ends system (Settles system caller) := by
  simp only [getPriority, ends_run_bind, ends_callProcess]
  rw [ends_run_ite]
  split
  · rw [ends_refuse]
    exact settles_refused _
  · simp only [ends_run_bind, ends_callProcess]
    refine ends_target _ (fun slot _ => ?_) settles_refused
    refine ends_storeElement bounded (by decide) _ _ (fun changes => ?_) settles_fault
    simp only [ends_kernel, ends_respond, ends_run_pure]
    exact ⟨.answered _ _ _ _ (.inl rfl) (.inl rfl) (.inr asked), changes⟩

theorem moveBreak_run (asked : system.processes[caller].call? = some .moveBreak) :
    (moveBreak caller).run.Ends system (Settles system caller) := by
  simp only [moveBreak, ends_run_bind, ends_callProcess, ends_argument]
  split
  next brk shifted =>
      obtain ⟨_, admits⟩ := (Heap.shifted?_eq_some_iff _ _ _).1 shifted
      simp only [ends_run_bind, ends_kernel, ends_updateProcess, ends_respond, ends_run_pure]
      have run := Process.setBreak_eq_ok_iff.2 ⟨admits, rfl⟩
      refine ⟨_, run, ?_⟩
      rw [Vector.set_set, getElem_set_self]
      exact ⟨.moved brk admits _ run asked, .refl _ _⟩
  next =>
      simp only [ends_run_bind, ends_kernel, ends_respond, ends_run_pure]
      exact settles_answered _ _ (.inl rfl)

/-- Looking for a name gives a name that a pipe can have or none, or the call is a fault. -/
theorem ends_readName {process : Process} (bounded : process.Bounded) {address : Nat}
    (word : address < Word.limit) {outcome : Except Refusal (Option (List UInt8)) →
      System slots → Prop}
    (found : ∀ name : Option (List UInt8), (∀ text, name = some text → Pipe.CanBeNamed text) →
      outcome (.ok name) system)
    (refused : ∀ fault, outcome (.error (.fault fault)) system) :
    (readName process address).run.Ends system outcome := by
  have nameless : ∀ text, (none : Option (List UInt8)) = some text → Pipe.CanBeNamed text := by
    rintro _ ⟨⟩
  rw [readName, ends_run_ite]
  split
  · rw [ends_run_pure]
    exact found none nameless
  · rw [ends_run_bind]
    refine ends_readString bounded word _ (fun text run => ?_) refused
    simp only
    split
    · rw [ends_run_pure]
      exact found none nameless
    · rw [ends_run_pure]
      exact found none nameless
    next name nonempty =>
        rw [ends_run_pure]
        obtain ⟨there, short, _⟩ := Process.textAt_of_readString bounded run
        refine found _ ?_
        rintro _ ⟨⟩
        exact ⟨List.length_pos_iff.2 nonempty, Nat.le_of_lt_succ short, there.nonzero⟩

theorem respondHandle_run :
    (respondHandle caller none).run.Ends system (Settles system caller) := by
  simp only [respondHandle, ends_run_bind, ends_kernel, ends_respond, ends_run_pure]
  exact settles_answered _ _ (.inl rfl)

theorem pipeOpen_run (bounded : system.processes[caller].Bounded)
    (asked : system.processes[caller].call? = some .pipeOpen) :
    (pipeOpen caller).run.Ends system (Settles system caller) := by
  simp only [pipeOpen, ends_run_bind, ends_callProcess]
  refine ends_readName bounded (Registers.argument_lt _ _) (fun found fits => ?_) settles_fault
  cases found with
  | none => exact respondHandle_run
  | some name =>
      simp only [ends_run_bind, ends_run_get, applyHandle]
      split
      next tables handle opened =>
          simp only [ends_run_bind, ends_run_modify, respondHandle, ends_kernel, ends_respond,
            ends_run_pure]
          exact ⟨.opened asked name tables handle opened (fits name rfl), .refl _ _⟩
      next => exact respondHandle_run

theorem pipeGet_run (bounded : system.processes[caller].Bounded)
    (asked : system.processes[caller].call? = some .pipeGet) :
    (pipeGet caller).run.Ends system (Settles system caller) := by
  simp only [pipeGet, ends_run_bind, ends_callProcess]
  refine ends_readName bounded (Registers.argument_lt _ _) (fun found fits => ?_) settles_fault
  cases found with
  | none => exact respondHandle_run
  | some name =>
      simp only [ends_run_bind, ends_run_get, applyHandle]
      split
      next tables handle shared =>
          simp only [ends_run_bind, ends_run_modify, respondHandle, ends_kernel, ends_respond,
            ends_run_pure]
          exact ⟨.shared _ name tables handle shared asked, .refl _ _⟩
      next => exact respondHandle_run

theorem pipeClose_run {layout : Layout slots} {author : Fin slots → Prop}
    (sound : system.toTables.Sound layout author)
    (asked : system.processes[caller].call? = some .pipeClose) :
    (pipeClose caller).run.Ends system (Settles system caller) := by
  simp only [pipeClose, ends_run_bind, ends_callProcess, ends_orRefuse]
  split
  next found pair removed =>
      obtain ⟨process, id⟩ := pair
      obtain ⟨position, named, rfl⟩ := Process.removeHandle?_eq_some removed
      obtain ⟨released, hint, run, _⟩ := sound.letGo named
      simp only [ends_kernel, ends_setProcess, KernelM.release, ends_onTables, ends_respond,
        ends_run_pure]
      exact ⟨released, hint, run, .closed _ _ id released hint removed run asked,
        .refl _ _⟩
  next =>
      exact settles_refused _

end CallM
end Microkernel
