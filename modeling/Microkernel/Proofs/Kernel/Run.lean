import Microkernel.Proofs.Kernel.Startup
import Microkernel.Proofs.Kernel.Switch

/-!
# Runs of the kernel

In a run, the process on the processor does with its registers and its memory what it likes and
enters the kernel, which handles its call and puts the next process on the processor; in between,
time passes.  `Run` lists what can happen, together with every trap so far, and `Run.invariant` says
what holds all the time.
-/

namespace Microkernel

variable {slots : Nat}

/-- Whether a system comes from another by a program that ran in a slot.  It may have changed its
registers, and its memory where it may write.  Where a program sees its arguments, memory shows the
argument page of whoever runs. -/
structure System.UserStep (before : System slots) (caller : Fin slots) (entered : System slots) :
    Prop where
  /-- Registers and memory change, and nothing else. -/
  ran : ∃ registers memory, entered = { before with
    memory
    processes := before.processes.set caller
      { before.processes[caller] with registers } caller.isLt }
  /-- A program writes where it may. -/
  changes : before.memory.ChangesOnly entered.memory fun address =>
    before.processes[caller].May .write address ∨
      Extent.Covers ⟨Config.argumentAddress, Config.pageSize⟩ address

/-- A call that the kernel has handled. -/
structure Call (slots : Nat) where
  /-- The slot of the process that makes the call. -/
  caller : Fin slots
  /-- The system when the process enters the kernel. -/
  entered : System slots
  /-- What the call asks of the scheduler. -/
  hint : Hint
  /-- The system when the call has been handled. -/
  left : System slots

/-- A call from entering the kernel to leaving it. -/
structure Trap (slots : Nat) extends Call slots where
  /-- The slot of the process that runs next. -/
  next : Fin slots
  /-- The system when that process runs. -/
  after : System slots

/-- What can come about after a launch, with the traps that led to it. -/
inductive Run (launch : Launch slots) : List (Trap slots) → System slots → Prop where
  /-- The first process is started. -/
  | start {slot : Fin slots} {system : System slots}
      (started : (StartM.startFirst launch.entry launch.imageStart launch.imageStop).run
        launch.system = .ok (.ok slot) system) :
      Run launch [] system
  /-- Time passes. -/
  | advance {traps : List (Trap slots)} {system : System slots} (run : Run launch traps system)
      {later : System slots} (ticks : Nat)
      (passes : KernelM.advance ticks system = .ok () later) :
      Run launch traps later
  /-- The current process makes a call. -/
  | trap {traps : List (Trap slots)} {system : System slots} (run : Run launch traps system)
      (trap : Trap slots) (current : trap.caller.val = system.current)
      (user : system.UserStep trap.caller trap.entered)
      (call : KernelM.handleCall trap.caller trap.entered = .ok trap.hint trap.left)
      (switch : KernelM.switchAfter trap.caller trap.hint trap.left = .ok trap.next trap.after) :
      Run launch (traps ++ [trap]) trap.after

/-- Whether the process in a slot is the first process, which lives as long as its slot is not found
vacant after a call. -/
def Launch.RunsFirst (launch : Launch slots) (traps : List (Trap slots)) (slot : Fin slots) :
    Prop :=
  launch.IsFirst slot ∧ ∀ trap ∈ traps, trap.left.processes[slot].state ≠ .vacant

/-- What can be observed in a run: between two steps, and while a call is under way before and after
it is handled. -/
inductive Reached (launch : Launch slots) : System slots → Prop where
  /-- No call is under way. -/
  | settled {traps : List (Trap slots)} {system : System slots} (run : Run launch traps system) :
      Reached launch system
  /-- The current process has entered the kernel. -/
  | entered {traps : List (Trap slots)} {system entered : System slots} {caller : Fin slots}
      (run : Run launch traps system) (current : caller.val = system.current)
      (user : system.UserStep caller entered) :
      Reached launch entered
  /-- The call of the current process has been handled. -/
  | handled {traps : List (Trap slots)} {system entered left : System slots} {caller : Fin slots}
      {hint : Hint} (run : Run launch traps system) (current : caller.val = system.current)
      (user : system.UserStep caller entered)
      (call : KernelM.handleCall caller entered = .ok hint left) :
      Reached launch left

/-! ## Steps of a run -/

namespace System

variable {system entered : System slots} {caller : Fin slots} {layout : Layout slots}
  {author : Fin slots → Prop}

theorem UserStep.getElem (user : system.UserStep caller entered) (slot : Fin slots) :
    ∃ registers, entered.processes[slot] = { system.processes[slot] with registers } := by
  obtain ⟨registers, memory, rfl⟩ := user.ran
  rw [getElem_set]
  split
  next same => exact ⟨registers, by rw [same]⟩
  next => exact ⟨_, rfl⟩

theorem UserStep.state_eq (user : system.UserStep caller entered) (slot : Fin slots) :
    entered.processes[slot].state = system.processes[slot].state := by
  obtain ⟨registers, same⟩ := user.getElem slot
  rw [same]

theorem UserStep.pipes_eq (user : system.UserStep caller entered) :
    entered.pipes = system.pipes := by
  obtain ⟨registers, memory, rfl⟩ := user.ran
  rfl

theorem UserStep.calls_eq (user : system.UserStep caller entered) :
    entered.calls = system.calls := by
  obtain ⟨registers, memory, rfl⟩ := user.ran
  rfl

theorem UserStep.clock_eq (user : system.UserStep caller entered) :
    entered.clock = system.clock := by
  obtain ⟨registers, memory, rfl⟩ := user.ran
  rfl

theorem UserStep.getElem_of_ne (user : system.UserStep caller entered) {slot : Fin slots}
    (different : slot ≠ caller) : entered.processes[slot] = system.processes[slot] := by
  obtain ⟨registers, memory, rfl⟩ := user.ran
  rw [getElem_set, if_neg (Ne.symm different)]

theorem UserStep.sound (user : system.UserStep caller entered)
    (sound : system.toTables.Sound layout author) : entered.toTables.Sound layout author := by
  obtain ⟨registers, memory, rfl⟩ := user.ran
  have process := sound.slot caller
  exact sound.set caller
    (process.retain rfl rfl rfl (fun vacant => ⟨vacant, rfl⟩) id
      (process.timed.congr rfl rfl)) rfl

theorem UserStep.waiting (user : system.UserStep caller entered)
    (waiting : system.toTables.Waiting) : entered.toTables.Waiting := by
  obtain ⟨registers, memory, rfl⟩ := user.ran
  exact waiting.retain caller rfl rfl

end System

theorem Handled.calls_eq {before after : System slots} {caller : Fin slots} {hint : Hint}
    (handled : Handled before caller hint after) : after.calls = before.calls := by
  cases handled with
  | failed => rfl
  | ended => rfl
  | done outcome =>
      rw [CallOutcome] at outcome
      split at outcome
      · cases outcome <;> rfl
      · cases outcome <;> rfl
      · cases outcome with
        | started slot vacant between log hint started =>
            obtain ⟨_, _, _, rfl⟩ := started.keeps
            rfl
      · cases outcome <;> rfl

theorem Handled.clock_eq {before after : System slots} {caller : Fin slots} {hint : Hint}
    (handled : Handled before caller hint after) : after.clock = before.clock := by
  cases handled with
  | failed => rfl
  | ended => rfl
  | done outcome =>
      rw [CallOutcome] at outcome
      split at outcome
      · cases outcome <;> rfl
      · cases outcome <;> rfl
      · cases outcome with
        | started slot vacant between log hint started =>
            obtain ⟨_, _, _, rfl⟩ := started.keeps
            rfl
      · cases outcome <;> rfl

/-- The kernel is left by waking sleepers, letting time pass, and going on with a process that can
run. -/
theorem Preserved.resumes {layout : Layout slots} {author : Fin slots → Prop} {hint : Hint}
    {left after : System slots} (preserved : Preserved layout author hint left) {previous : Nat}
    (small : previous < slots) {next : Fin slots}
    (switch : KernelM.switchAfter previous hint left = .ok next after) :
    ∃ woken clock, after = { left with processes := woken, clock, current := next.val } ∧
      left.processes.RousedTo woken ∧ woken[next].isRunnable = true :=
  KernelM.switchAfter_ok (fun slot => (preserved.sound.slot slot).timed) small preserved.within
    switch

/-! ## What holds all the time -/

/-- What holds in a run all the time. -/
structure Run.Invariant (launch : Launch slots) (traps : List (Trap slots))
    (system : System slots) : Prop where
  /-- The tables are sound, and the first process alone may write the program. -/
  sound : system.toTables.Sound launch.layout (launch.RunsFirst traps)
  /-- Whoever waits has to. -/
  waiting : system.toTables.Waiting
  /-- The kernel provides its own calls. -/
  calls : system.calls = .withBuiltins .builtin
  /-- The current process can run. -/
  current : ∃ slot : Fin slots, slot.val = system.current ∧
    system.processes[slot].state = .live .runnable

namespace Run

variable {launch : Launch slots} {traps : List (Trap slots)} {system entered : System slots}
  {caller : Fin slots}

/-- A runnable process may do what it likes and make any call: the call is handled. -/
theorem Invariant.call (invariant : Invariant launch traps system)
    (runnable : system.processes[caller].state = .live .runnable)
    (user : system.UserStep caller entered) :
    (KernelM.handleCall caller).Ends entered fun hint left =>
      Handled entered caller hint left ∧
        Preserved launch.layout (launch.RunsFirst traps) hint left := by
  have sound := user.sound invariant.sound
  have waiting := user.waiting invariant.waiting
  have still_runnable := (user.state_eq caller).trans runnable
  have live := Process.live_of_runnable still_runnable
  refine (KernelM.handleCall_run sound (user.calls_eq.trans invariant.calls) (.inl live)).mono ?_
  rintro hint left ⟨handled, _⟩
  exact ⟨handled, handled.preserves sound waiting still_runnable⟩

theorem timed_of_sound {tables : Tables slots} {layout : Layout slots} {author : Fin slots → Prop}
    (sound : tables.Sound layout author) (slot : Fin slots) : tables.processes[slot].Timed :=
  (sound.slot slot).timed

theorem Invariant.ends (invariant : Invariant launch traps system)
    (current : caller.val = system.current) (user : system.UserStep caller entered) :
    ∃ hint left, KernelM.handleCall caller entered = .ok hint left := by
  obtain ⟨slot, slot_current, runnable⟩ := invariant.current
  cases Fin.ext (current.trans slot_current.symm)
  obtain ⟨hint, left, call, _⟩ := invariant.call runnable user
  exact ⟨hint, left, call⟩

theorem Invariant.handled (invariant : Invariant launch traps system)
    (current : caller.val = system.current) (user : system.UserStep caller entered) {hint : Hint}
    {left : System slots} (call : KernelM.handleCall caller entered = .ok hint left) :
    entered.processes[caller].state = .live .runnable ∧ Handled entered caller hint left ∧
      Preserved launch.layout (launch.RunsFirst traps) hint left := by
  obtain ⟨slot, slot_current, runnable⟩ := invariant.current
  cases Fin.ext (current.trans slot_current.symm)
  obtain ⟨found, between, run, handled, preserved⟩ := invariant.call runnable user
  rw [call] at run
  cases run
  exact ⟨(user.state_eq caller).trans runnable, handled, preserved⟩

theorem Invariant.trap (invariant : Invariant launch traps system) (trap : Trap slots)
    (current : trap.caller.val = system.current)
    (user : system.UserStep trap.caller trap.entered)
    (call : KernelM.handleCall trap.caller trap.entered = .ok trap.hint trap.left)
    (switch : KernelM.switchAfter trap.caller trap.hint trap.left = .ok trap.next trap.after) :
    Invariant launch (traps ++ [trap]) trap.after := by
  obtain ⟨_, handled, preserved⟩ := invariant.handled current user call
  obtain ⟨woken, clock, after_eq, roused, runs⟩ := preserved.resumes trap.caller.isLt switch
  have sound : trap.left.toTables.Sound launch.layout
      (launch.RunsFirst (traps ++ [trap])) := by
    refine preserved.sound.mono fun slot live first => ⟨first.1, fun other member => ?_⟩
    rcases List.mem_append.1 member with earlier | last
    · exact first.2 other earlier
    · cases List.mem_singleton.1 last
      exact live
  rw [after_eq]
  exact ⟨sound.rousedTo roused, preserved.waiting.rousedTo roused,
    handled.calls_eq.trans (user.calls_eq.trans invariant.calls), _, rfl,
    (Process.isRunnable_iff _).1 runs⟩

theorem invariant (run : Run launch traps system) : Invariant launch traps system := by
  induction run with
  | start started =>
      have begins := launch.begins started
      refine ⟨begins.sound.mono fun slot _ first => ⟨first, ?_⟩, begins.waiting, begins.calls, _,
        begins.current.symm, begins.runnable⟩
      intro trap member
      cases member
  | advance _ ticks passes invariant =>
      cases passes
      exact ⟨invariant.sound, invariant.waiting, invariant.calls, invariant.current⟩
  | trap _ trap current user call switch invariant =>
      exact invariant.trap trap current user call switch

end Run

/-! ## The traps of a run -/

/-- What is at a place in a list that is longer by one is at that place in the list, or at its
end. -/
theorem append_singleton_eq_split {α : Type} {elements before after : List α} {last middle : α}
    (split : elements ++ [last] = before ++ middle :: after) :
    (elements = before ∧ last = middle ∧ after = []) ∨
      ∃ rest, elements = before ++ middle :: rest ∧ after = rest ++ [last] := by
  rcases List.eq_nil_or_concat after with rfl | ⟨rest, final, rfl⟩
  · obtain ⟨rfl, same⟩ := List.append_inj' split rfl
    exact .inl ⟨rfl, List.singleton_inj.1 same, rfl⟩
  · rw [List.concat_eq_append, ← List.cons_append, ← List.append_assoc] at split
    obtain ⟨rfl, same⟩ := List.append_inj' split rfl
    cases same
    exact .inr ⟨rest, rfl, List.concat_eq_append⟩

/-- Whether a trap is what the current process does next. -/
structure Trap.Follows (trap : Trap slots) (system : System slots) : Prop where
  /-- The current process makes the call. -/
  current : trap.caller.val = system.current
  /-- Before it does, it does what it likes. -/
  user : system.UserStep trap.caller trap.entered
  /-- The call is handled. -/
  call : KernelM.handleCall trap.caller trap.entered = .ok trap.hint trap.left
  /-- The next process is put on the processor. -/
  switch : KernelM.switchAfter trap.caller trap.hint trap.left = .ok trap.next trap.after

namespace Run

variable {launch : Launch slots} {traps earlier later : List (Trap slots)} {trap : Trap slots}
  {system : System slots}

theorem follow (run : Run launch traps system) (follows : trap.Follows system) :
    Run launch (traps ++ [trap]) trap.after :=
  run.trap trap follows.current follows.user follows.call follows.switch

/-- What holds after a trap and is kept by every step holds in the rest of the run. -/
theorem since (run : Run launch (earlier ++ trap :: later) system)
    (holds : List (Trap slots) → System slots → Prop)
    (first : ∀ before, Run launch earlier before → trap.Follows before → holds [] trap.after)
    (advance : ∀ between before ticks after, holds between before →
      KernelM.advance ticks before = .ok () after → holds between after)
    (step : ∀ between before next, Run launch (earlier ++ trap :: between) before →
      next.Follows before → holds between before → holds (between ++ [next]) next.after) :
    holds later system := by
  generalize all : earlier ++ trap :: later = traps at run
  induction run generalizing later with
  | start => exact absurd all (by simp)
  | advance before ticks passes induction => exact advance _ _ _ _ (induction all) passes
  | trap before next current user call switch induction =>
      have follows : next.Follows _ := ⟨current, user, call, switch⟩
      rcases append_singleton_eq_split all.symm with ⟨rfl, rfl, rfl⟩ | ⟨between, rfl, rfl⟩
      · exact first _ before follows
      · exact step _ _ _ before follows (induction rfl)

theorem before_trap (run : Run launch (earlier ++ trap :: later) system) :
    ∃ before, Run launch earlier before ∧ trap.Follows before := by
  refine run.since (fun _ _ => ∃ before, Run launch earlier before ∧ trap.Follows before) ?_ ?_ ?_
  · exact fun before run follows => ⟨before, run, follows⟩
  · exact fun _ _ _ _ found _ => found
  · exact fun _ _ _ _ _ found => found

theorem timed_left (run : Run launch traps system) (follows : trap.Follows system)
    (slot : Fin slots) : trap.left.processes[slot].Timed :=
  timed_of_sound (run.invariant.handled follows.current follows.user follows.call).2.2.sound slot

theorem processes_after (run : Run launch traps system) (follows : trap.Follows system) :
    trap.after.processes = trap.left.processes.map (·.wakeIfDue trap.after.clock) ∧
      trap.left.clock ≤ trap.after.clock :=
  KernelM.processes_of_switchAfter (run.timed_left follows) trap.caller.isLt
    (run.invariant.handled follows.current follows.user follows.call).2.2.within follows.switch

theorem clock_le_after (run : Run launch traps system) (follows : trap.Follows system) :
    system.clock ≤ trap.after.clock := by
  obtain ⟨_, handled, _⟩ := run.invariant.handled follows.current follows.user follows.call
  calc system.clock
      = trap.left.clock := by rw [handled.clock_eq, follows.user.clock_eq]
    _ ≤ trap.after.clock := (run.processes_after follows).2

end Run

theorem Reached.sound_and_waiting {launch : Launch slots} {system : System slots}
    (reached : Reached launch system) :
    (∃ author, system.toTables.Sound launch.layout author) ∧ system.toTables.Waiting := by
  cases reached with
  | settled run => exact ⟨⟨_, run.invariant.sound⟩, run.invariant.waiting⟩
  | entered run _ user =>
      exact ⟨⟨_, user.sound run.invariant.sound⟩, user.waiting run.invariant.waiting⟩
  | handled run current user call =>
      obtain ⟨_, _, preserved⟩ := run.invariant.handled current user call
      exact ⟨⟨_, preserved.sound⟩, preserved.waiting⟩

theorem Reached.calls_eq {launch : Launch slots} {system : System slots}
    (reached : Reached launch system) : system.calls = .withBuiltins .builtin := by
  cases reached with
  | settled run => exact run.invariant.calls
  | entered run _ user => exact user.calls_eq.trans run.invariant.calls
  | handled run current user call =>
      obtain ⟨_, handled, _⟩ := run.invariant.handled current user call
      exact handled.calls_eq.trans (user.calls_eq.trans run.invariant.calls)

end Microkernel
