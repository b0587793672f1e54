import Microkernel.Proofs.Kernel.Effects
import Microkernel.Proofs.Kernel.Transfers
import Microkernel.Proofs.Tables.Registers

/-!
# A transfer that waits is made again

A process that waits for a pipe is left alone but for its priority and for being woken.  Once it
runs, its registers make it enter the kernel as it did before, and its transfer comes to what it
would come to if it were asked for only then.
-/

namespace Microkernel

variable {slots : Nat}

/-! ## Making a call again -/

namespace Registers

theorem enter_rewind (registers : Registers) : registers.rewind.enter = registers := by
  simp only [rewind, enter, UInt64.sub_add_cancel]

/-- The number of the call that is in the registers, with what else is in its register. -/
def number (registers : Registers) : UInt64 :=
  registers.general.get 8

/-- The arguments of the call that is in the registers. -/
def arguments (registers : Registers) : Vector UInt64 5 :=
  .ofFn fun place => (registers.argument place).toUInt64

theorem getElem_arguments (registers : Registers) {place : Nat} (small : place < 5) :
    registers.arguments[place] = registers.general[place] := by
  rw [arguments, Vector.getElem_ofFn, argument]
  exact UInt64.ofNat_toNat

theorem load_arguments {registers loaded : Registers}
    (same : registers.general = loaded.general) :
    loaded.load registers.number registers.arguments = loaded := by
  have number_eq : registers.number = registers.general[8] := rfl
  simp only [load, number_eq, getElem_arguments, same, Vector.set_getElem_self]

end Registers

namespace System

/-- The system when a process has entered the kernel with the call that is in its registers. -/
def reentering (system : System slots) (caller : Fin slots) : System slots :=
  { system with
    processes := system.processes.withRegisters caller system.processes[caller].registers.enter }

theorem userStep_reentering (system : System slots) (caller : Fin slots) :
    system.UserStep caller (system.reentering caller) where
  ran := ⟨_, _, rfl⟩
  changes := .refl _ _

end System

theorem KernelM.enterKernel_eq (caller : Fin slots) (system : System slots) :
    enterKernel caller system = handleCall caller (system.reentering caller) :=
  rfl

theorem KernelM.loadCall_enterKernel {caller : Fin slots} {system : System slots}
    {registers : Registers}
    (same : registers.general = system.processes[caller].registers.general) :
    (do
      loadCall caller registers.number registers.arguments
      enterKernel caller) system = enterKernel caller system := by
  apply bind_of_ok
  calc loadCall caller registers.number registers.arguments system
      = .ok () { system with
          processes := system.processes.withRegisters caller
            (system.processes[caller].registers.load registers.number
              registers.arguments) } := rfl
    _ = .ok () system := by
        rw [Registers.load_arguments same, ProcessTable.withRegisters_self]

/-! ## Waiting -/

/-- Whether a process is as it was left when it had to wait, but for its priority and for having
been woken. -/
structure Process.LeftAs (process blocked : Process) : Prop where
  /-- Nothing but the priority and the state can have changed. -/
  kept : process = { blocked with priority := process.priority, state := process.state }
  /-- The process still waits, or can run. -/
  state : process.state = blocked.state ∨ process.state = .live .runnable

namespace Process.LeftAs

variable {before after : System slots} {caller slot : Fin slots} {process blocked : Process}
  {id : PipeId}

theorem refl (process : Process) : process.LeftAs process :=
  ⟨rfl, .inl rfl⟩

theorem spared (leftAs : before.processes[slot].LeftAs blocked)
    (spares : before.Spares after caller slot) : after.processes[slot].LeftAs blocked := by
  constructor
  · refine spares.kept.trans ?_
    rw [leftAs.kept]
  · rcases spares.state with same | ⟨_, _, runs, _⟩
    · rw [same]
      exact leftAs.state
    · exact .inr runs

theorem live_awake (leftAs : process.LeftAs blocked)
    (waits : blocked.state.isBlockedOn id = true) :
    process.state ≠ .vacant ∧ process.state ≠ .live .sleeping := by
  rcases leftAs.state with same | runs
  · rw [same]
    rcases (ProcessState.isBlockedOn_iff _ _).1 waits with reading | writing
    · simp [reading]
    · simp [writing]
  · simp [runs]

theorem reentering {entered : Process} {activity : Activity}
    (leftAs : process.LeftAs
      { entered with state := .live activity, registers := entered.registers.rewind })
    (runs : process.state = entered.state) :
    { process with registers := process.registers.enter } =
      { entered with priority := process.priority } := by
  rw [leftAs.kept]
  simp only [Registers.enter_rewind, runs]

end Process.LeftAs

namespace Call

variable {call : Call slots} {transfer : CallM.Transfer} {response : UInt64} {count : Nat}
  {stored : Memory} {bytes : List UInt8} {pipe : Pipe} {id : PipeId}

theorem Concludes.awake (concludes : call.Concludes transfer response count stored bytes)
    (runnable : call.entered.processes[call.caller].state = .live .runnable) :
    call.left.processes[call.caller].state.isBlockedOn id = false := by
  rw [concludes.caller, Process.respond, runnable]
  rfl

/-- A transfer that makes its caller wait leaves nothing else behind. -/
theorem Performs.postpones (performs : call.Performs transfer pipe)
    (order : transfer.InOrderFor call.entered.processes[call.caller])
    (runnable : call.entered.processes[call.caller].state = .live .runnable)
    (waits : call.left.processes[call.caller].state.isBlockedOn id = true) :
    ∃ activity pipes, call.Postpones activity pipes := by
  have goes_on {response : UInt64} {count : Nat} {stored : Memory} {bytes : List UInt8}
      (concludes : call.Concludes transfer response count stored bytes) : False := by
    rw [concludes.awake runnable] at waits
    cases waits
  cases order with
  | read asked granted =>
      have reads := performs.1 asked
      by_cases empty : pipe.ring.contents = []
      · cases hung_up : pipe.hungUp with
        | true => exact (goes_on (reads.at_end empty hung_up)).elim
        | false => exact ⟨_, _, reads.no_bytes empty hung_up⟩
      · obtain ⟨_, _, _, concludes⟩ := reads.some_bytes empty
        exact (goes_on concludes).elim
  | write asked granted =>
      have writes := performs.2 asked
      cases hung_up : pipe.hungUp with
      | true => exact (goes_on (writes.closed hung_up)).elim
      | false =>
          rcases Nat.lt_or_ge pipe.ring.contents.length Config.pipeCapacity with room | full
          · obtain ⟨_, _, _, concludes⟩ := writes.room hung_up room
            exact (goes_on concludes).elim
          · exact ⟨_, _, writes.full hung_up full⟩

end Call

/-! ## In a run -/

/-- Whether the caller of a call is as it was left after further calls, provided that it has made
none of them. -/
def Trap.LeftAsThrough (blocked : Trap slots) (between : List (Trap slots))
    (system : System slots) : Prop :=
  (∀ trap ∈ between, trap.caller ≠ blocked.caller) →
    system.processes[blocked.caller].LeftAs blocked.left.processes[blocked.caller]

variable {launch : Launch slots} {earlier later : List (Trap slots)} {system : System slots}
  {blocked : Trap slots} {transfer : CallM.Transfer} {id : PipeId}

namespace Run

/-- As long as a process that has to wait for a pipe does not run, it stays as it was left. -/
theorem leftAs_since (run : Run launch (earlier ++ blocked :: later) system)
    (waits : blocked.left.processes[blocked.caller].state.isBlockedOn id = true)
    (idle : ∀ trap ∈ later, trap.caller ≠ blocked.caller) :
    system.processes[blocked.caller].LeftAs blocked.left.processes[blocked.caller] := by
  -- leaving the kernel wakes sleepers only
  have resumed {traps : List (Trap slots)} {system : System slots} {trap : Trap slots}
      (run : Run launch traps system) (follows : trap.Follows system)
      (leftAs : trap.left.processes[blocked.caller].LeftAs
        blocked.left.processes[blocked.caller]) :
      trap.after.processes[blocked.caller].LeftAs blocked.left.processes[blocked.caller] := by
    rw [(run.processes_after follows).1, getElem_map,
      (run.timed_left follows blocked.caller).wakeIfDue_of_awake (leftAs.live_awake waits).2]
    exact leftAs
  refine run.since blocked.LeftAsThrough ?first ?advance ?step idle
  case first =>
    intro before run follows _
    exact resumed run follows (.refl _)
  case advance =>
    intro between before ticks after leftAs passes idle
    cases passes
    exact leftAs idle
  case step =>
    intro between before next run follows leftAs idle
    obtain ⟨runnable, handled, _⟩ :=
      run.invariant.handled follows.current follows.user follows.call
    have different : blocked.caller ≠ next.caller :=
      Ne.symm (idle next (List.mem_append_right _ (List.mem_singleton_self _)))
    have entered : next.entered.processes[blocked.caller].LeftAs
        blocked.left.processes[blocked.caller] := by
      rw [follows.user.getElem_of_ne different]
      exact leftAs fun trap member => idle trap (List.mem_append_left _ member)
    have confines := handled.confines (follows.user.sound run.invariant.sound) runnable
    exact resumed run follows
      (entered.spared (confines.others _ different (entered.live_awake waits).1))

/-- When a process runs for the first time since it had to wait, it is in the kernel again as it was
when it made the call, but for its priority. -/
theorem getElem_reentering (run : Run launch (earlier ++ blocked :: later) system)
    {activity : Activity} {pipes : PipeTable} (postpones : blocked.Postpones activity pipes)
    (waits : blocked.left.processes[blocked.caller].state.isBlockedOn id = true)
    (idle : ∀ trap ∈ later, trap.caller ≠ blocked.caller)
    (current : blocked.caller.val = system.current) :
    (system.reentering blocked.caller).processes[blocked.caller] =
      { blocked.entered.processes[blocked.caller] with
        priority := system.processes[blocked.caller].priority } := by
  obtain ⟨before, until_then, follows⟩ := run.before_trap
  obtain ⟨was_runnable, _⟩ :=
    until_then.invariant.handled follows.current follows.user follows.call
  obtain ⟨slot, slot_current, runnable⟩ := run.invariant.current
  cases Fin.ext (current.trans slot_current.symm)
  have leftAs := run.leftAs_since waits idle
  rw [postpones.left, getElem_set_self] at leftAs
  exact ProcessTable.getElem_withRegisters_self.trans
    (leftAs.reentering (runnable.trans was_runnable.symm))

end Run

theorem CallM.Transfer.InOrderFor.prioritised {process : Process}
    (order : transfer.InOrderFor process) (priority : Priority) :
    transfer.InOrderFor { process with priority } := by
  have asked (asked : transfer.AskedBy process) : transfer.AskedBy { process with priority } :=
    ⟨asked.pipe, asked.buffer, asked.size, asked.report, asked.aligned, asked.storable⟩
  cases order with
  | read called granted =>
      exact .read called
        ⟨asked granted.toAskedBy, granted.wanted, granted.addressed, granted.accessible⟩
  | write called granted =>
      exact .write called
        ⟨asked granted.toAskedBy, granted.wanted, granted.addressed, granted.accessible⟩

theorem Reached.performs (reached : Reached launch system) (few : slots ≤ Config.maxProcesses)
    {caller : Fin slots} (runnable : system.processes[caller].state = .live .runnable)
    (order : transfer.InOrderFor system.processes[caller]) :
    ∃ pipe hint left, system.pipes.get? transfer.pipe = some pipe ∧
      KernelM.handleCall caller system = .ok hint left ∧
        Call.Performs ⟨caller, system, hint, left⟩ transfer pipe := by
  obtain ⟨⟨_, sound⟩, _⟩ := reached.sound_and_waiting
  obtain ⟨hint, left, call, handled, _⟩ := KernelM.handleCall_run sound reached.calls_eq
    (.inl (Process.live_of_runnable runnable))
  obtain ⟨pipe, found, performs⟩ := handled.performs sound reached.tidy few runnable order
  exact ⟨pipe, hint, left, found, call, performs⟩

theorem Reached.movesNothing (reached : Reached launch system) {caller : Fin slots}
    (runnable : system.processes[caller].state = .live .runnable)
    (asks : system.processes[caller].AsksForNothing) :
    ∃ hint left, KernelM.handleCall caller system = .ok hint left ∧
      Call.MovesNothing ⟨caller, system, hint, left⟩ ∧
        ∀ transfer : CallM.Transfer, transfer.AskedBy system.processes[caller] →
          Call.Concludes ⟨caller, system, hint, left⟩ transfer Response.ok 0 system.memory
            (system.pipes.bytesIn transfer.pipe) := by
  obtain ⟨⟨_, sound⟩, _⟩ := reached.sound_and_waiting
  obtain ⟨hint, left, call, handled, _⟩ := KernelM.handleCall_run sound reached.calls_eq
    (.inl (Process.live_of_runnable runnable))
  exact ⟨hint, left, call, handled.movesNothing sound runnable asks,
    fun transfer => handled.concludes_of_asksForNothing sound runnable asks⟩

/-! ## Completing and waiting -/

/-- Whether a call that had to wait is made again in a system as if it were made for the first
time. -/
structure Call.RepeatsIn (call : Call slots) (transfer : CallM.Transfer) (system : System slots) :
    Prop where
  /-- The caller enters the kernel as it did, but for its priority. -/
  caller : (system.reentering call.caller).processes[call.caller] =
    { call.entered.processes[call.caller] with
      priority := system.processes[call.caller].priority }
  /-- Loading the number and the arguments of the call afresh makes no difference. -/
  afresh : (do
      KernelM.loadCall call.caller call.registers.number call.registers.arguments
      KernelM.enterKernel call.caller) system = KernelM.enterKernel call.caller system
  /-- The transfer is made as far as it can be. -/
  performs : ∃ pipe hint left, system.pipes.get? transfer.pipe = some pipe ∧
    KernelM.enterKernel call.caller system = .ok hint left ∧
      Call.Performs ⟨call.caller, system.reentering call.caller, hint, left⟩ transfer pipe

/-- A transfer that had to wait is made again when its caller runs. -/
theorem Run.repeatsIn (run : Run launch (earlier ++ blocked :: later) system)
    (few : slots ≤ Config.maxProcesses)
    (order : transfer.InOrderFor blocked.entered.processes[blocked.caller])
    (waits : blocked.left.processes[blocked.caller].state.isBlockedOn id = true)
    (idle : ∀ trap ∈ later, trap.caller ≠ blocked.caller)
    (current : blocked.caller.val = system.current) :
    blocked.RepeatsIn transfer system := by
  obtain ⟨before, until_then, follows⟩ := run.before_trap
  obtain ⟨was_runnable, handled, _⟩ :=
    until_then.invariant.handled follows.current follows.user follows.call
  have sound := follows.user.sound until_then.invariant.sound
  obtain ⟨_, _, performed⟩ := handled.performs sound (follows.user.tidy until_then.tidy) few
    was_runnable order
  obtain ⟨activity, pipes, postpones⟩ := performed.postpones order was_runnable waits
  have same := run.getElem_reentering postpones waits idle current
  have user := system.userStep_reentering blocked.caller
  have runnable : (system.reentering blocked.caller).processes[blocked.caller].state =
      .live .runnable := by
    rw [same]
    exact was_runnable
  have again : transfer.InOrderFor
      (system.reentering blocked.caller).processes[blocked.caller] := by
    rw [same]
    exact order.prioritised _
  have loaded : system.processes[blocked.caller].registers.enter = blocked.registers := by
    rw [System.reentering, ProcessTable.getElem_withRegisters_self] at same
    exact congrArg Process.registers same
  obtain ⟨pipe, hint, left, found, call, performs⟩ :=
    (Reached.entered run current user).performs few runnable again
  refine ⟨same, KernelM.loadCall_enterKernel (congrArg Registers.general loaded).symm,
    pipe, hint, left, found, ?_, performs⟩
  rw [KernelM.enterKernel_eq, call]

/-- In whatever is reached, a transfer in order moves as many bytes as it can, or leaves its caller
waiting and nothing else behind.  Then it is made again when the caller runs, as if it were asked
for only then.  A transfer of no bytes moves none and never makes its caller wait. -/
theorem Launch.transfers_complete_or_wait (launch : Launch slots)
    (few : slots ≤ Config.maxProcesses) :
    (∀ system, Reached launch system → ∀ caller : Fin slots,
      system.processes[caller].state = .live .runnable →
      (∀ transfer : CallM.Transfer, transfer.InOrderFor system.processes[caller] →
        ∃ pipe hint left, system.pipes.get? transfer.pipe = some pipe ∧
          KernelM.handleCall caller system = .ok hint left ∧
          Call.Performs ⟨caller, system, hint, left⟩ transfer pipe) ∧
      (system.processes[caller].AsksForNothing →
        ∃ hint left, KernelM.handleCall caller system = .ok hint left ∧
          Call.MovesNothing ⟨caller, system, hint, left⟩ ∧
          ∀ transfer : CallM.Transfer, transfer.AskedBy system.processes[caller] →
            Call.Concludes ⟨caller, system, hint, left⟩ transfer Response.ok 0 system.memory
              (system.pipes.bytesIn transfer.pipe))) ∧
    ∀ earlier blocked later system, Run launch (earlier ++ blocked :: later) system →
      ∀ (transfer : CallM.Transfer) id,
        transfer.InOrderFor blocked.entered.processes[blocked.caller] →
        blocked.left.processes[blocked.caller].state.isBlockedOn id = true →
        (∀ trap ∈ later, trap.caller ≠ blocked.caller) →
        blocked.caller.val = system.current → blocked.RepeatsIn transfer system :=
  ⟨fun _ reached _ runnable =>
      ⟨fun _ => reached.performs few runnable, reached.movesNothing runnable⟩,
    fun _ _ _ _ run _ _ => run.repeatsIn few⟩

/-- The second process waits for four bytes, and makes its call again when there are two. -/
theorem transfers_complete_or_wait_small : ∃ earlier blocked woke, ∃ system : System 2,
    Run Launch.small (earlier ++ [blocked, woke]) system ∧
    blocked.left.processes[blocked.caller].state = .live (.readingPipe ⟨0⟩) ∧
    (system.pipes.bytesIn ⟨0⟩).length = 2 ∧ blocked.RepeatsIn ⟨⟨0⟩, 0x147000, 4, none⟩ system := by
  have evaluated : (Launch.small.play? (Launch.familyScript 1 ++ Launch.readerWaits.take 2)).any
      (fun final =>
        (final.2.perform? (Launch.calling 0x147000 .pipeRead 1 0x147000 4)).any fun blocked =>
          (blocked.after.perform? Launch.writeMove).any fun woke => decide (
            let process := blocked.entered.processes[blocked.caller]
            process.call? = some .pipeRead ∧
            process.pipeOf? ⟨process.registers.argument 0⟩ = some ⟨0⟩ ∧
            process.registers.argument 1 = 0x147000 ∧ process.registers.argument 2 = 4 ∧
            process.registers.argument 3 = 0 ∧ process.writes ⟨0x147000, 4⟩ = true ∧
            blocked.left.processes[blocked.caller].state = .live (.readingPipe ⟨0⟩) ∧
            woke.caller ≠ blocked.caller ∧ blocked.caller.val = woke.after.current ∧
            (woke.after.pipes.bytesIn ⟨0⟩).length = 2)) = true := by
    decide +kernel
  simp only [Option.any_eq_true, decide_eq_true_eq] at evaluated
  obtain ⟨⟨earlier, system⟩, played, blocked, waited, woke, came_back, asked, pipe, buffer, size,
    report, writes, waits, other, current, two⟩ := evaluated
  have run := ((Run.play played).perform waited).perform came_back
  rw [List.append_assoc] at run
  have order : CallM.Transfer.InOrderFor ⟨⟨0⟩, 0x147000, 4, none⟩
      blocked.entered.processes[blocked.caller] := by
    refine .read asked ⟨⟨pipe, buffer, size, (if_pos report).symm, ?_, ?_⟩, by decide, by decide,
      fun address covered => Process.may_of_writes writes covered⟩
    · rintro _ ⟨⟩
    · rintro _ ⟨⟩
  refine ⟨earlier, blocked, woke, woke.after, run, waits, two,
    (Launch.small.transfers_complete_or_wait (by decide)).2 earlier blocked [woke] woke.after run
      _ ⟨0⟩ order ((ProcessState.isBlockedOn_iff _ _).2 (.inl waits)) ?_ current⟩
  intro trap member
  cases List.mem_singleton.1 member
  exact other

end Microkernel
