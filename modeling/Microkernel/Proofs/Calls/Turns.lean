import Microkernel.Proofs.Calls.Start
import Microkernel.Proofs.Calls.Steady

/-!
# What a call asks of the scheduler

A call leaves the choice to the scheduler, speaks for those whom it woke, or for the process that it
started.  This holds of any system, sound or not, as long as the call comes to an end.
-/

namespace Microkernel

variable {slots : Nat} {α β : Type}

/-- Whether a process has been started in a slot, and the scheduler takes all others for the
same. -/
structure ProcessTable.Gains (before after : ProcessTable slots) (slot : Fin slots) : Prop where
  /-- The slot was vacant. -/
  vacant : before[slot].isRunnable = false
  /-- The new process can run. -/
  runs : after[slot].isRunnable = true
  /-- The new process has no deadline. -/
  no_deadline : after[slot].deadline = none
  /-- Nothing else has changed. -/
  others : ∀ other : Fin slots, other ≠ slot → after[other].state = before[other].state ∧
    after[other].priority = before[other].priority ∧ after[other].deadline = before[other].deadline

/-- What a call can ask of the scheduler. -/
inductive Turn (before : System slots) (caller : Fin slots) : Hint → System slots → Prop where
  | free (after : System slots) : Turn before caller .other after
  | woke {hint : Hint} {after : System slots} (clock_eq : after.clock = before.clock)
      (wakes : before.processes.Wakes after.processes before.processes[caller].priority hint) :
      Turn before caller hint after
  | started {hint : Hint} {after : System slots} (slot : Fin slots)
      (clock_eq : after.clock = before.clock)
      (gains : before.processes.Gains after.processes slot)
      (hint_eq : hint = if after.processes[slot].priority.moreImportant
        after.processes[caller].priority then .specific slot.val else .same) :
      Turn before caller hint after

namespace ProcessTable.Gains

variable {before between after : ProcessTable slots} {slot : Fin slots}

theorem after_calm (gains : between.Gains after slot) (calm : before.Calm between) :
    before.Gains after slot where
  vacant := (calm.isRunnable_eq slot).symm.trans gains.vacant
  runs := gains.runs
  no_deadline := gains.no_deadline
  others other apart := by
    obtain ⟨state, priority, deadline⟩ := gains.others other apart
    obtain ⟨state_before, priority_before, deadline_before⟩ := calm other
    exact ⟨state.trans state_before, priority.trans priority_before,
      deadline.trans deadline_before⟩

theorem before_calm (gains : before.Gains between slot) (calm : between.Calm after) :
    before.Gains after slot where
  vacant := gains.vacant
  runs := (calm.isRunnable_eq slot).trans gains.runs
  no_deadline := (calm slot).2.2.trans gains.no_deadline
  others other apart := by
    obtain ⟨state, priority, deadline⟩ := gains.others other apart
    obtain ⟨state_after, priority_after, deadline_after⟩ := calm other
    exact ⟨state_after.trans state, priority_after.trans priority,
      deadline_after.trans deadline⟩

end ProcessTable.Gains

theorem Turn.of_calm {before after : System slots} (calm : before.Calm after)
    (caller : Fin slots) : Turn before caller .same after :=
  .woke calm.clock_eq (calm.processes.wakes _)

theorem Turn.after_calm {before between after : System slots} {caller : Fin slots} {hint : Hint}
    (turn : Turn between caller hint after) (calm : before.Calm between) :
    Turn before caller hint after := by
  cases turn with
  | free => exact .free after
  | woke clock_eq wakes =>
      rw [(calm.processes caller).2.1] at wakes
      exact .woke (clock_eq.trans calm.clock_eq) (wakes.after_calm calm.processes)
  | started slot clock_eq gains hint_eq =>
      exact .started slot (clock_eq.trans calm.clock_eq) (gains.after_calm calm.processes) hint_eq

namespace CallM

open KernelM

/-- Whether a call of a process that can run, if it ends, asks of the scheduler what it should.  A
call that is turned away does nothing that the scheduler notices, and asks for no switch. -/
def Turns (caller : Fin slots) (action : CallM slots Hint) : Prop :=
  ∀ before result after, before.processes[caller].isRunnable = true →
    action.run before = .ok result after → match result with
      | .ok hint => Turn before caller hint after
      | .error (.code _ hint) => hint = .same ∧ before.Calm after
      | .error (.fault _) => before.Calm after

/-- Whether a computation, if it ends, leaves the choice to the scheduler. -/
def Frees (action : CallM slots Hint) : Prop :=
  ∀ before result after, action.run before = .ok result after → result = .ok .other

variable {caller : Fin slots}

theorem Steady.turns {action : CallM slots α} {next : α → CallM slots Hint}
    (first : action.Steady) (second : ∀ value, Turns caller (next value)) :
    Turns caller (action >>= next) := by
  intro before result after runs run
  have ends := run_eq_ok_iff.1 run
  rw [ends_run_bind] at ends
  obtain ⟨found, between, first_run, rest⟩ := ends
  obtain ⟨calm, refused⟩ := first before found between first_run
  cases found with
  | ok value =>
      obtain ⟨_, _, second_run, rfl, rfl⟩ := rest
      have turn := second value between _ _
        ((calm.processes.isRunnable_eq caller).trans runs) second_run
      split at turn
      · exact turn.after_calm calm
      · exact ⟨turn.1, calm.trans turn.2⟩
      · exact calm.trans turn
  | error refusal =>
      obtain ⟨rfl, rfl⟩ := rest
      cases refusal with
      | code error hint => exact ⟨refused error hint rfl, calm⟩
      | fault fault => exact calm

theorem turns_same (caller : Fin slots) : Turns caller (pure .same) := by
  rintro before result after runs ⟨⟩
  exact .of_calm (.refl _) caller

theorem turns_refuse (caller : Fin slots) (error : ErrorCode) :
    Turns caller (refuse error) := by
  rintro before result after runs ⟨⟩
  exact ⟨rfl, .refl _⟩

theorem Frees.turns {action : CallM slots Hint} (frees : action.Frees) :
    Turns caller action := by
  intro before result after runs run
  rw [frees before result after run]
  exact .free after

theorem frees_other : (pure .other : CallM slots Hint).Frees := by
  rintro before result after ⟨⟩
  rfl

theorem of_run_kernel_bind {action : KernelM slots α} {next : α → CallM slots β}
    {before after : System slots} {result : Except Refusal β}
    (run : (kernel action >>= next).run before = .ok result after) :
    ∃ value between, action before = .ok value between ∧
      (next value).run between = .ok result after := by
  have ends := run_eq_ok_iff.1 run
  rw [ends_run_bind, ends_kernel] at ends
  obtain ⟨value, between, first, _, _, second, rfl, rfl⟩ := ends
  exact ⟨value, between, first, second⟩

theorem Frees.kernel_bind {action : KernelM slots α} {next : α → CallM slots Hint}
    (frees : ∀ value, (next value).Frees) : (kernel action >>= next).Frees := by
  intro before result after run
  obtain ⟨value, between, _, rest⟩ := of_run_kernel_bind run
  exact frees value between result after rest

/-! ## Calls about processes -/

theorem turns_print (caller : Fin slots) : Turns caller (print caller) := by
  refine (steady_process caller).turns fun process => ?_
  dsimp only
  split
  · exact turns_refuse caller _
  · refine (steady_readString process _ _).turns fun text => ?_
    refine (steady_kernel (calms_logLine _)).turns fun _ => ?_
    exact (steady_respond caller _).turns fun _ => turns_same caller

theorem turns_getPid (caller : Fin slots) : Turns caller (getPid caller) :=
  (steady_process caller).turns fun _ => (steady_respond caller _).turns fun _ => turns_same caller

theorem turns_debug (caller : Fin slots) : Turns caller (debug caller) := by
  refine (steady_process caller).turns fun process => ?_
  refine (steady_kernel (calms_logLine _)).turns fun _ => ?_
  exact (steady_respond caller _).turns fun _ => turns_same caller

theorem turns_exit (caller : Fin slots) : Turns caller (exit caller) := by
  refine (steady_process caller).turns fun process => ?_
  refine (steady_kernel (calms_logLine _)).turns fun _ => ?_
  intro before result after runs run
  have ends := run_eq_ok_iff.1 run
  rw [ends_kernel, KernelM.reap, ends_onTables] at ends
  obtain ⟨tables, hint, reaped, rfl, rfl⟩ := ends
  exact .woke rfl (Tables.wakes_reap runs reaped)

theorem turns_sleep (caller : Fin slots) : Turns caller (sleep caller) := by
  refine (steady_argument caller 0).turns fun microseconds => ?_
  refine (steady_respond caller _).turns fun _ => ?_
  split
  · exact turns_same caller
  · exact steady_get.turns fun system =>
      (Frees.kernel_bind fun _ => frees_other).turns

theorem turns_yield (caller : Fin slots) : Turns caller (yield caller) :=
  (steady_respond caller _).turns fun _ => frees_other.turns

theorem turns_setPriority (caller : Fin slots) : Turns caller (setPriority caller) := by
  refine (steady_process caller).turns fun process => ?_
  refine (steady_target caller _).turns fun slot => ?_
  dsimp only
  split
  · exact (Frees.kernel_bind fun _ => Frees.kernel_bind fun _ => frees_other).turns
  · exact turns_refuse caller _

theorem turns_getPriority (caller : Fin slots) : Turns caller (getPriority caller) := by
  refine (steady_process caller).turns fun process => ?_
  dsimp only
  split
  · exact turns_refuse caller _
  · refine (steady_target caller _).turns fun slot => ?_
    refine (steady_process slot).turns fun named => ?_
    refine (steady_storeElement caller _ _ _).turns fun _ => ?_
    exact (steady_respond caller _).turns fun _ => turns_same caller

theorem turns_moveBreak (caller : Fin slots) : Turns caller (moveBreak caller) := by
  refine (steady_process caller).turns fun process => ?_
  refine (steady_argument caller 0).turns fun increment => ?_
  dsimp only
  split
  next brk _ =>
      have calms : (KernelM.updateProcess caller (·.setBreak brk)).Calms := by
        refine calms_updateProcess caller fun process changed run => ?_
        obtain ⟨_, rfl⟩ := Process.setBreak_eq_ok_iff.1 run
        exact ⟨rfl, rfl, rfl⟩
      exact (steady_kernel calms).turns fun _ =>
        (steady_respond caller _).turns fun _ => turns_same caller
  next => exact (steady_respond caller _).turns fun _ => turns_same caller

/-! ## Spawning -/

/-- Starting a process, if it ends, fills a slot or does nothing that the scheduler notices. -/
theorem startProcess_gains {slot : Fin slots} {entry : Nat} {program : List Region}
    {before after : System slots} {result : Except ErrorCode Pid}
    (run : (StartM.startProcess slot entry program).run before = .ok result after) :
    after.clock = before.clock ∧ match result with
      | .ok _ => before.processes.Gains after.processes slot
      | .error _ => before.processes.Calm after.processes := by
  obtain ⟨is_vacant, _, _, ⟨rfl, regions, heap, rfl⟩ |
    ⟨rfl, taken, regions, _, _, _, rfl, _, rfl⟩⟩ := StartM.startProcess_cases run
  · exact ⟨rfl, ProcessTable.calm_set _ slot rfl rfl rfl⟩
  · refine ⟨rfl, ?_, ?_, ?_, fun other apart => ?_⟩
    · rw [Process.isRunnable, is_vacant]
      rfl
    · rw [getElem_set_self]
      rfl
    · rw [getElem_set_self]
      rfl
    · rw [getElem_set, if_neg (Ne.symm apart)]
      exact ⟨rfl, rfl, rfl⟩

theorem turns_spawn (caller : Fin slots) : Turns caller (spawn caller) := by
  refine (steady_process caller).turns fun parent => ?_
  dsimp only
  split
  · exact turns_refuse caller _
  · refine steady_get.turns fun system => (steady_orRefuse _ _).turns fun slot => ?_
    refine (steady_process slot).turns fun vacant => ?_
    refine (steady_kernel (calms_modifyMemory _)).turns fun _ => ?_
    refine (steady_orRefuse _ _).turns fun writer => ?_
    refine (steady_guarded _).turns fun slice => (steady_guarded _).turns fun _ => ?_
    refine (steady_copyArguments _ _ _ _).turns fun writer => ?_
    refine (steady_kernel (calms_onMemory _)).turns fun _ => ?_
    intro before result after runs run
    obtain ⟨started, between, start, rest⟩ := of_run_kernel_bind run
    obtain ⟨clock_eq, gains⟩ := startProcess_gains start
    cases started with
    | error error =>
        cases rest
        exact ⟨rfl, clock_eq, gains⟩
    | ok pid =>
        have ends : Ends _ between fun found left => found = result ∧ left = after :=
          ⟨result, after, rest, rfl, rfl⟩
        simp only [ends_run_bind, ends_callProcess, ends_kernel, ends_logLine, ends_respond,
          ends_run_ite, ends_run_pure] at ends
        have answered : between.processes.Calm
            (between.processes.answer caller Response.ok) :=
          ProcessTable.calm_set _ caller rfl rfl rfl
        have same_bar := (answered caller).2.1
        split at ends
        next more =>
            obtain ⟨rfl, rfl⟩ := ends
            refine .started slot clock_eq (gains.before_calm answered) (if_pos ?_).symm
            exact same_bar ▸ more
        next no_more =>
            obtain ⟨rfl, rfl⟩ := ends
            refine .started slot clock_eq (gains.before_calm answered) (if_neg ?_).symm
            exact same_bar ▸ no_more

/-! ## Calls about pipes -/

theorem turns_respondHandle (caller : Fin slots) (handle : Option PipeHandle) :
    Turns caller (respondHandle caller handle) :=
  (steady_respond caller _).turns fun _ => turns_same caller

theorem turns_applyHandle (obtain? : Tables slots → Option (Tables slots × PipeHandle))
    (calm : ∀ tables changed handle, obtain? tables = some (changed, handle) →
      tables.processes.Calm changed.processes) :
    Turns caller (do applyHandle caller (obtain? (← get).toTables)) := by
  intro before result after runs run
  cases obtained : obtain? before.toTables with
  | none =>
      have turned : (applyHandle caller (none : Option (Tables slots × PipeHandle))).run before =
          .ok result after := by
        rw [← obtained]
        exact run
      exact turns_respondHandle caller none before result after runs turned
  | some pair =>
      obtain ⟨tables, handle⟩ := pair
      have steady : (modify fun system => { system with toTables := tables } :
          CallM slots PUnit).run before = .ok (.ok .unit) { before with toTables := tables } := rfl
      have turned : (respondHandle caller (some handle)).run { before with toTables := tables } =
          .ok result after := by
        have whole : (applyHandle caller (some (tables, handle))).run before =
            .ok result after := by
          rw [← obtained]
          exact run
        exact whole
      have changed : before.Calm { before with toTables := tables } :=
        ⟨rfl, calm _ _ _ obtained⟩
      have turn := turns_respondHandle caller (some handle) _ _ _
        ((changed.processes.isRunnable_eq caller).trans runs) turned
      split at turn
      · exact turn.after_calm changed
      · exact ⟨turn.1, changed.trans turn.2⟩
      · exact changed.trans turn

theorem calm_addHandle (tables : Tables slots) (caller : Fin slots)
    (position : Fin Config.maxHandles) (id : PipeId) (pipe : Pipe) :
    tables.processes.Calm (tables.addHandle caller position id pipe).processes :=
  ProcessTable.calm_set _ caller rfl rfl rfl

theorem turns_pipeOpen (caller : Fin slots) : Turns caller (pipeOpen caller) := by
  refine (steady_process caller).turns fun process => ?_
  refine (steady_readName process _).turns fun name => ?_
  cases name with
  | none => exact turns_respondHandle caller none
  | some name =>
      refine turns_applyHandle (openPipe? · caller name) fun tables changed handle opened => ?_
      obtain ⟨position, id, _, _, _, _, rfl⟩ := Tables.openPipe?_eq_some opened
      exact calm_addHandle _ _ _ _ _

theorem turns_pipeGet (caller : Fin slots) : Turns caller (pipeGet caller) := by
  refine (steady_process caller).turns fun process => ?_
  refine (steady_readName process _).turns fun name => ?_
  cases name with
  | none => exact turns_respondHandle caller none
  | some name =>
      refine turns_applyHandle (sharePipe? · caller _ name) fun tables changed handle shared => ?_
      rcases Tables.sharePipe?_eq_some shared with rfl | ⟨position, id, pipe, _, _, _, _, rfl⟩
      · exact .refl _
      · exact calm_addHandle _ _ _ _ _

theorem turns_pipeClose (caller : Fin slots) : Turns caller (pipeClose caller) := by
  intro before result after runs run
  have ends := run_eq_ok_iff.1 run
  simp only [pipeClose, ends_run_bind, ends_callProcess, ends_orRefuse] at ends
  split at ends
  next found pair removed =>
      obtain ⟨process, id⟩ := pair
      obtain ⟨position, named, rfl⟩ := Process.removeHandle?_eq_some removed
      simp only [ends_kernel, ends_setProcess, KernelM.release, ends_onTables, ends_respond,
        ends_run_pure] at ends
      obtain ⟨tables, hint, released, rfl, rfl⟩ := ends
      obtain ⟨pipe, found, leaves⟩ := Tables.released_of_release released
      have calm := Tables.calm_dropHandle before.toTables caller position
      have wakes : (before.toTables.dropHandle caller position).processes.Wakes tables.processes
          (before.toTables.dropHandle caller position).processes[caller].priority hint :=
        leaves.wakes.1
      rw [(calm caller).2.1] at wakes
      exact .woke rfl ((wakes.after_calm calm).before_calm
        (ProcessTable.calm_set _ caller rfl rfl rfl))
  next =>
      obtain ⟨rfl, rfl⟩ := ends
      exact ⟨rfl, .refl _⟩

theorem turns_block (caller : Fin slots) (activity : Activity) :
    Turns caller (block caller activity) :=
  (Frees.kernel_bind fun _ => frees_other).turns

theorem turns_wake (caller : Fin slots) {blocked : ProcessState → Bool}
    (idle : ∀ state, blocked state = true → state.isRunnable = false) :
    Turns caller (kernel (KernelM.wake caller blocked)) := by
  intro before result after runs run
  have ends := run_eq_ok_iff.1 run
  rw [ends_kernel, ends_wake] at ends
  obtain ⟨rfl, rfl⟩ := ends
  exact .woke rfl (ProcessTable.wakes_wake _ caller idle).1

theorem turns_pipeRead (caller : Fin slots) : Turns caller (pipeRead caller) := by
  refine (steady_process caller).turns fun process => ?_
  refine (steady_transferArguments process).turns fun transfer => ?_
  split
  · exact (steady_complete caller transfer 0).turns fun _ => turns_same caller
  · refine (steady_guarded _).turns fun slice => (steady_guarded _).turns fun _ => ?_
    refine steady_get.turns fun system => (steady_orRefuse _ _).turns fun pipe => ?_
    split
    · split
      · exact (steady_complete caller transfer 0).turns fun _ => turns_same caller
      · exact turns_block caller _
    · refine (steady_checked _).turns fun moved => ?_
      refine (steady_putPipe _ _).turns fun _ => ?_
      refine (steady_kernel (calms_modifyMemory _)).turns fun _ => ?_
      refine (steady_complete caller transfer _).turns fun _ => turns_wake caller ?_
      exact fun state waits =>
        ProcessState.isRunnable_of_isBlockedOn (ProcessState.isBlockedOn_of_isWriting waits)

theorem turns_pipeWrite (caller : Fin slots) : Turns caller (pipeWrite caller) := by
  refine (steady_process caller).turns fun process => ?_
  refine (steady_transferArguments process).turns fun transfer => ?_
  split
  · exact (steady_complete caller transfer 0).turns fun _ => turns_same caller
  · refine (steady_guarded _).turns fun slice => (steady_guarded _).turns fun _ => ?_
    refine steady_get.turns fun system => (steady_orRefuse _ _).turns fun pipe => ?_
    split
    · exact (steady_reportCount caller transfer 0).turns fun _ => turns_refuse caller _
    · dsimp only
      split
      · exact (steady_putPipe _ _).turns fun _ => turns_block caller _
      · refine steady_get.turns fun system => (steady_checked _).turns fun moved => ?_
        refine (steady_putPipe _ _).turns fun _ => ?_
        refine (steady_complete caller transfer _).turns fun _ => turns_wake caller ?_
        exact fun state waits =>
          ProcessState.isRunnable_of_isBlockedOn (ProcessState.isBlockedOn_of_isReading waits)

/-! ## Every call -/

/-- Whatever call a process makes that the kernel provides, it asks of the scheduler what it
should. -/
theorem turns_handle (caller : Fin slots) {handler : Option Handler}
    (provided : ∀ run, handler ≠ some (.service run)) : Turns caller (handle handler caller) := by
  cases handler with
  | none => exact turns_refuse caller _
  | some handler =>
      cases handler with
      | service run => exact absurd rfl (provided run)
      | builtin call =>
          cases call with
          | exit => exact turns_exit caller
          | print => exact turns_print caller
          | getPid => exact turns_getPid caller
          | debug => exact turns_debug caller
          | spawn => exact turns_spawn caller
          | sleep => exact turns_sleep caller
          | yield => exact turns_yield caller
          | setPriority => exact turns_setPriority caller
          | getPriority => exact turns_getPriority caller
          | moveBreak => exact turns_moveBreak caller
          | pipeOpen => exact turns_pipeOpen caller
          | pipeClose => exact turns_pipeClose caller
          | pipeGet => exact turns_pipeGet caller
          | pipeRead => exact turns_pipeRead caller
          | pipeWrite => exact turns_pipeWrite caller

end CallM

namespace KernelM

variable {caller : Fin slots}

theorem turn_of_endForFault {before after : System slots} {fault : Fault} {hint : Hint}
    (runs : before.processes[caller].isRunnable = true)
    (run : endForFault caller fault before = .ok hint after) : Turn before caller hint after := by
  have ends := run_eq_ok_iff.1 run
  simp only [endForFault, ends_bind, ends_process, ends_logLine, KernelM.reap, ends_onTables,
    ends_modifyProcess, ends_pure] at ends
  obtain ⟨tables, hint, reaped, rfl, rfl⟩ := ends
  exact .woke rfl ((Tables.wakes_reap runs reaped).before_calm
    (ProcessTable.calm_set _ caller rfl rfl rfl))

/-- Whatever call a process makes that the kernel provides, and whatever comes of it, the scheduler
is asked what it should be. -/
theorem turn_of_handleCall {before left : System slots} {hint : Hint}
    (runs : before.processes[caller].isRunnable = true)
    (provided : ∀ run, before.calls.lookup? before.processes[caller].registers.callNumber ≠
      some (.service run))
    (call : handleCall caller before = .ok hint left) : Turn before caller hint left := by
  have ends := run_eq_ok_iff.1 call
  simp only [handleCall, ends_bind, ends_process, ends_get] at ends
  obtain ⟨result, between, handled, settled⟩ := ends
  have turn := CallM.turns_handle caller provided before result between runs handled
  cases result with
  | ok hint =>
      rw [settle, ends_pure] at settled
      obtain ⟨rfl, rfl⟩ := settled
      exact turn
  | error refusal =>
      cases refusal with
      | code error hint =>
          obtain ⟨rfl, calm⟩ := turn
          simp only [settle, ends_bind, ends_respond, ends_pure] at settled
          obtain ⟨rfl, rfl⟩ := settled
          have answered : between.processes.Calm (between.processes.set caller
              (between.processes[caller].respond error.code) caller.isLt) :=
            ProcessTable.calm_set _ caller rfl rfl rfl
          refine .of_calm ?_ caller
          exact ⟨calm.clock_eq, calm.processes.trans answered⟩
      | fault fault =>
          obtain ⟨_, _, ended, rfl, rfl⟩ := settled
          exact (turn_of_endForFault ((turn.processes.isRunnable_eq caller).trans runs)
            ended).after_calm turn

end KernelM
end Microkernel
