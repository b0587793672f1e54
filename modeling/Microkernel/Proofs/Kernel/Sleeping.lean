import Microkernel.Proofs.Kernel.Effects
import Microkernel.Proofs.Kernel.Isolation

/-!
# Sleep is neither cut short nor missed

A process that sleeps until a tick is left alone by all others until that tick has come.  Then it is
woken the next time that the kernel puts somebody on the processor, and goes on with the response
for success.
-/

namespace Microkernel

variable {slots : Nat}

/-! ## Asleep -/

namespace Process

/-- Whether a process sleeps until a tick, with the registers that it will go on with. -/
structure Slumbers (process : Process) (deadline : Nat) (registers : Registers) : Prop where
  /-- The process waits for its timer. -/
  state : process.state = .live .sleeping
  /-- The timer ends at the tick. -/
  deadline : process.deadline = some deadline
  /-- The registers are there. -/
  registers : process.registers = registers

/-- Whether a process can run again after its sleep, with the registers that it goes on with. -/
structure Rested (process : Process) (registers : Registers) : Prop where
  /-- The process can run. -/
  state : process.state = .live .runnable
  /-- The process has no deadline any more. -/
  deadline : process.deadline = none
  /-- The registers are there. -/
  registers : process.registers = registers

/-- The process after it has asked for sleep at some tick: it has a response, and it sleeps if it
has asked for any time at all. -/
def lulled (process : Process) (now : Nat) : Process :=
  let ticks := Clock.ticksFor (process.registers.argument 0)
  if ticks = 0 then process.respond Response.ok
  else { process.respond Response.ok with
    deadline := some (Clock.after now ticks), state := .live .sleeping }

variable {process : Process} {deadline now : Nat} {registers : Registers}

theorem Slumbers.ne_of_runnable {processes : ProcessTable slots} {caller slot : Fin slots}
    (slumbers : processes[slot].Slumbers deadline registers)
    (runnable : processes[caller].state = .live .runnable) : slot ≠ caller := by
  rintro rfl
  cases slumbers.state.symm.trans runnable

theorem Slumbers.wakeIfDue (slumbers : process.Slumbers deadline registers)
    (early : now < deadline) : (process.wakeIfDue now).Slumbers deadline registers := by
  rw [wakeIfDue_of_not_due]
  · exact slumbers
  · rw [isDue, slumbers.deadline, Option.any_some, decide_eq_false_iff_not]
    omega

theorem Slumbers.rested (slumbers : process.Slumbers deadline registers)
    (late : deadline ≤ now) : (process.wakeIfDue now).Rested registers := by
  rw [wakeIfDue_of_due]
  · exact ⟨rfl, rfl, slumbers.registers⟩
  · rw [isDue, slumbers.deadline, Option.any_some, decide_eq_true_eq]
    exact late

theorem lulled_of_zero (nothing : process.registers.argument 0 = 0) (now : Nat) :
    process.lulled now = process.respond Response.ok :=
  if_pos ((Clock.ticksFor_eq_zero_iff _).2 nothing)

theorem slumbers_lulled (wanted : process.registers.argument 0 ≠ 0) (now : Nat) :
    (process.lulled now).Slumbers
      (Clock.after now (Clock.ticksFor (process.registers.argument 0)))
      (process.registers.respond Response.ok) := by
  rw [lulled, if_neg fun none_left => wanted ((Clock.ticksFor_eq_zero_iff _).1 none_left)]
  exact ⟨rfl, rfl, rfl⟩

end Process

/-! ## One call -/

section

variable {before after system : System slots} {caller slot : Fin slots} {hint : Hint}
  {layout : Layout slots} {author : Fin slots → Prop} {deadline : Nat} {registers : Registers}

theorem KernelM.handleCall_sleep (calls : before.calls = .withBuiltins .builtin)
    (live : before.processes[caller].state ≠ .vacant)
    (asked : before.processes[caller].call? = some .sleep)
    (call : handleCall caller before = .ok hint after) :
    after.processes = before.processes.set caller
      (before.processes[caller].lulled before.clock) caller.isLt := by
  rw [← ends_of_run call fun _ after => after.processes = _]
  rw [ends_handleCall calls asked]
  simp only [CallM.builtin, CallM.sleep, ends_run_bind, CallM.ends_argument, CallM.ends_kernel,
    ends_respond, ends_run_ite]
  rw [Process.lulled]
  split
  next => simp only [ends_run_pure, settle, ends_pure]
  next =>
      simp only [ends_run_get, ends_updateProcess, ends_run_pure, settle, ends_pure,
        getElem_set_self, Vector.set_set]
      have responded : (before.processes[caller].respond Response.ok).state ≠ .vacant := live
      exact ⟨_, Process.sleepUntil_eq responded _, rfl⟩

theorem Process.Slumbers.entered (slumbers : system.processes[slot].Slumbers deadline registers)
    (runnable : system.processes[caller].state = .live .runnable)
    {entered : System slots} (user : system.UserStep caller entered) :
    entered.processes[slot].Slumbers deadline registers := by
  rw [user.getElem_of_ne (slumbers.ne_of_runnable runnable)]
  exact slumbers

theorem Process.Slumbers.handled (slumbers : before.processes[slot].Slumbers deadline registers)
    (handled : Handled before caller hint after) (sound : before.toTables.Sound layout author)
    (runnable : before.processes[caller].state = .live .runnable) :
    after.processes[slot].Slumbers deadline registers := by
  have live : before.processes[slot].state ≠ .vacant := by
    rw [slumbers.state]
    simp
  have spares := (handled.confines sound runnable).others slot
    (slumbers.ne_of_runnable runnable) live
  refine ⟨?_, ?_, ?_⟩
  · rcases spares.state with same | ⟨id, waits, _⟩
    · exact same.trans slumbers.state
    · rw [slumbers.state] at waits
      simp at waits
  · rw [spares.kept]
    exact slumbers.deadline
  · rw [spares.kept]
    exact slumbers.registers

end

/-! ## In a run -/

/-- The tick until which a call for sleep lets its caller sleep: the microseconds that it asks for,
rounded up to ticks, from when it is made, but not beyond the end of time. -/
def Call.wakeTime (call : Call slots) : Nat :=
  min (call.entered.clock + (call.registers.argument 0 + 999) / 1000) (2 ^ 64 - 1)

theorem Call.wakeTime_eq (call : Call slots) : call.wakeTime =
    Clock.after call.entered.clock (Clock.ticksFor (call.registers.argument 0)) :=
  rfl

/-- Whether the caller of a call for sleep is asleep after further calls, provided that the kernel
was left before the deadline each time. -/
def Trap.SlumbersThrough (sleeping : Trap slots) (between : List (Trap slots))
    (system : System slots) : Prop :=
  (∀ trap ∈ sleeping :: between, trap.after.clock < sleeping.wakeTime) →
    system.processes[sleeping.caller].Slumbers sleeping.wakeTime
      (sleeping.registers.respond Response.ok)

variable {launch : Launch slots} {traps earlier later : List (Trap slots)}
  {system seen : System slots} {sleeping trap : Trap slots} {slot : Fin slots} {deadline : Nat}
  {registers : Registers}

namespace Run

theorem slumbers_left (run : Run launch traps system) (follows : trap.Follows system)
    (slumbers : system.processes[slot].Slumbers deadline registers) :
    trap.left.processes[slot].Slumbers deadline registers := by
  obtain ⟨runnable, handled, _⟩ :=
    run.invariant.handled follows.current follows.user follows.call
  have was_runnable := (follows.user.state_eq trap.caller).symm.trans runnable
  exact (slumbers.entered was_runnable follows.user).handled handled
    (follows.user.sound run.invariant.sound) runnable

theorem getElem_left_of_sleep (run : Run launch traps system) (follows : trap.Follows system)
    (asked : trap.entered.processes[trap.caller].call? = some .sleep) :
    trap.left.processes[trap.caller] =
      trap.entered.processes[trap.caller].lulled trap.entered.clock := by
  obtain ⟨runnable, _⟩ := run.invariant.handled follows.current follows.user follows.call
  rw [KernelM.handleCall_sleep (follows.user.calls_eq.trans run.invariant.calls)
    (Process.live_of_runnable runnable) asked follows.call, getElem_set_self]

theorem slumbers_left_of_sleep (run : Run launch traps system) (follows : trap.Follows system)
    (asked : trap.entered.processes[trap.caller].call? = some .sleep)
    (wanted : trap.registers.argument 0 ≠ 0) :
    trap.left.processes[trap.caller].Slumbers trap.wakeTime
      (trap.registers.respond Response.ok) := by
  rw [run.getElem_left_of_sleep follows asked, Call.wakeTime_eq]
  exact Process.slumbers_lulled wanted _

/-- Whoever asks for no time at all gets its response and stays runnable. -/
theorem goes_on_of_sleep (run : Run launch traps system) (follows : trap.Follows system)
    (asked : trap.entered.processes[trap.caller].call? = some .sleep)
    (nothing : trap.registers.argument 0 = 0) :
    trap.left.processes[trap.caller] =
        trap.entered.processes[trap.caller].respond Response.ok ∧
      trap.after.processes[trap.caller].state = trap.entered.processes[trap.caller].state := by
  have left := run.getElem_left_of_sleep follows asked
  rw [Process.lulled_of_zero nothing] at left
  obtain ⟨runnable, _⟩ := run.invariant.handled follows.current follows.user follows.call
  have awake : trap.left.processes[trap.caller].state ≠ .live .sleeping := by
    rw [left, Process.respond, runnable]
    simp
  refine ⟨left, ?_⟩
  rw [(run.processes_after follows).1, getElem_map,
    (run.timed_left follows trap.caller).wakeIfDue_of_awake awake, left]
  rfl

/-- As long as the kernel has been left before the deadline only, the caller sleeps. -/
theorem slumbers_since (run : Run launch (earlier ++ sleeping :: later) system)
    (asked : sleeping.entered.processes[sleeping.caller].call? = some .sleep)
    (wanted : sleeping.registers.argument 0 ≠ 0)
    (early : ∀ trap ∈ sleeping :: later, trap.after.clock < sleeping.wakeTime) :
    system.processes[sleeping.caller].Slumbers sleeping.wakeTime
      (sleeping.registers.respond Response.ok) := by
  refine run.since sleeping.SlumbersThrough ?first ?advance ?step early
  case first =>
    intro before run follows early
    rw [(run.processes_after follows).1, getElem_map]
    exact (run.slumbers_left_of_sleep follows asked wanted).wakeIfDue
      (early sleeping List.mem_cons_self)
  case advance =>
    intro between before ticks after slumbers passes early
    cases passes
    exact slumbers early
  case step =>
    intro between before next run follows slumbers early
    rw [← List.cons_append] at early
    rw [(run.processes_after follows).1, getElem_map]
    exact (run.slumbers_left follows
      (slumbers fun trap member => early trap (List.mem_append_left _ member))).wakeIfDue
      (early next (List.mem_append_right _ (List.mem_singleton_self _)))

/-- Before a tick that is not beyond the end of time, the kernel has been left before it only. -/
theorem early_of_clock_lt (run : Run launch traps system) (in_time : deadline ≤ 2 ^ 64 - 1)
    (early : system.clock < deadline) : ∀ trap ∈ traps, trap.after.clock < deadline := by
  induction run with
  | start started => exact fun trap member => absurd member List.not_mem_nil
  | advance before ticks passes induction =>
      cases passes
      refine induction ?_
      simp only [Word.saturatingSum, Word.largest, Word.limit] at early
      omega
  | trap before last current user call switch induction =>
      intro trap member
      rcases List.mem_append.1 member with earlier | same
      · exact induction (Nat.lt_of_le_of_lt
          (before.clock_le_after ⟨current, user, call, switch⟩) early) trap earlier
      · cases List.mem_singleton.1 same
        exact early

end Run

/-- Whoever has asked for sleep sleeps in whatever is seen before the deadline. -/
theorem Seen.slumbers (seen_after : Seen launch (earlier ++ sleeping :: later) seen)
    (asked : sleeping.entered.processes[sleeping.caller].call? = some .sleep)
    (wanted : sleeping.registers.argument 0 ≠ 0) (early : seen.clock < sleeping.wakeTime) :
    seen.processes[sleeping.caller].Slumbers sleeping.wakeTime
      (sleeping.registers.respond Response.ok) := by
  have settled {system : System slots} (run : Run launch (earlier ++ sleeping :: later) system)
      (early : system.clock < sleeping.wakeTime) :=
    run.slumbers_since asked wanted fun trap member =>
      run.early_of_clock_lt (Nat.min_le_right _ _) early trap (List.mem_append_right _ member)
  cases seen_after with
  | settled run => exact settled run early
  | entered run current user =>
      rw [user.clock_eq] at early
      obtain ⟨slot, slot_current, runnable⟩ := run.invariant.current
      cases Fin.ext (current.trans slot_current.symm)
      exact (settled run early).entered runnable user
  | handled run current user call =>
      obtain ⟨runnable, handled, _⟩ := run.invariant.handled current user call
      rw [handled.clock_eq, user.clock_eq] at early
      exact ((settled run early).entered ((user.state_eq _).symm.trans runnable) user).handled
        handled (user.sound run.invariant.sound) runnable

namespace Run

/-- The first time that the kernel is left at the deadline or later, the caller is woken. -/
theorem rested_after (run : Run launch (earlier ++ sleeping :: later) system)
    (asked : sleeping.entered.processes[sleeping.caller].call? = some .sleep)
    (wanted : sleeping.registers.argument 0 ≠ 0) {before rest : List (Trap slots)}
    {woke : Trap slots} (since : sleeping :: later = before ++ woke :: rest)
    (early : ∀ trap ∈ before, trap.after.clock < sleeping.wakeTime)
    (late : sleeping.wakeTime ≤ woke.after.clock) :
    woke.after.processes[sleeping.caller].Rested (sleeping.registers.respond Response.ok) := by
  rw [since, ← List.append_assoc] at run
  obtain ⟨between, until_then, follows⟩ := run.before_trap
  rw [(until_then.processes_after follows).1, getElem_map]
  refine Process.Slumbers.rested ?_ late
  cases before with
  | nil =>
      cases since
      exact until_then.slumbers_left_of_sleep follows asked wanted
  | cons first others =>
      cases since
      exact until_then.slumbers_left follows (until_then.slumbers_since asked wanted early)

end Run

/-- At all times, those have a deadline who sleep.  A process that asks for sleep sleeps in whatever
is seen before its deadline has come, and can run again, with the response for success, as soon as
the kernel has been left at the deadline or later.  Who asks for no time at all goes on. -/
theorem Launch.sleep_ends_on_time (launch : Launch slots) :
    (∀ system, Reached launch system → ∀ slot : Fin slots,
      system.processes[slot].deadline.isSome ↔ system.processes[slot].state = .live .sleeping) ∧
    ∀ earlier sleeping later system, Run launch (earlier ++ sleeping :: later) system →
      sleeping.entered.processes[sleeping.caller].call? = some .sleep →
      (sleeping.registers.argument 0 = 0 →
        sleeping.left.processes[sleeping.caller] =
          sleeping.entered.processes[sleeping.caller].respond Response.ok ∧
        sleeping.after.processes[sleeping.caller].state =
          sleeping.entered.processes[sleeping.caller].state) ∧
      (sleeping.registers.argument 0 ≠ 0 →
        sleeping.left.processes[sleeping.caller].Slumbers sleeping.wakeTime
          (sleeping.registers.respond Response.ok) ∧
        (∀ seen, Seen launch (earlier ++ sleeping :: later) seen →
          seen.clock < sleeping.wakeTime →
            seen.processes[sleeping.caller].Slumbers sleeping.wakeTime
              (sleeping.registers.respond Response.ok)) ∧
        ∀ before woke rest, sleeping :: later = before ++ woke :: rest →
          (∀ trap ∈ before, trap.after.clock < sleeping.wakeTime) →
          sleeping.wakeTime ≤ woke.after.clock →
            woke.after.processes[sleeping.caller].Rested
              (sleeping.registers.respond Response.ok)) := by
  constructor
  · intro system reached slot
    obtain ⟨⟨_, sound⟩, _⟩ := reached.sound_and_waiting
    exact (Run.timed_of_sound sound slot).asleep_iff
  · intro earlier sleeping later system run asked
    obtain ⟨before, until_then, follows⟩ := run.before_trap
    exact ⟨until_then.goes_on_of_sleep follows asked, fun wanted =>
      ⟨until_then.slumbers_left_of_sleep follows asked wanted,
        fun seen seen_after => seen_after.slumbers asked wanted,
        fun before woke rest => run.rested_after asked wanted⟩⟩

/-- The first process sleeps for two ticks, while the second one runs and then sleeps longer. -/
theorem sleep_ends_on_time_small : ∃ traps sleeping woke, ∃ system : System 2,
    Run Launch.small (traps ++ [sleeping, woke]) system ∧
    sleeping.wakeTime = 2 ∧ woke.after.clock = 2 ∧
    sleeping.left.processes[sleeping.caller].Slumbers 2
      (sleeping.registers.respond Response.ok) ∧
    woke.after.processes[sleeping.caller].Rested (sleeping.registers.respond Response.ok) := by
  have evaluated : (Launch.small.play? (Launch.familyScript 1)).any (fun final =>
      (final.2.perform? (Launch.calling 0x80010 .sleep 1500 0 0)).any fun sleeping =>
        (sleeping.after.perform? (Launch.calling 0x147000 .sleep 5000 0 0)).any fun woke =>
          decide (sleeping.entered.processes[sleeping.caller].call? = some .sleep ∧
            sleeping.registers.argument 0 ≠ 0 ∧ sleeping.wakeTime = 2 ∧
            sleeping.after.clock < 2 ∧ woke.after.clock = 2)) = true := by
    decide +kernel
  simp only [Option.any_eq_true, decide_eq_true_eq] at evaluated
  obtain ⟨⟨traps, system⟩, played, sleeping, fell_asleep, woke, came_back, asked, wanted, wakeTime,
    early, late⟩ := evaluated
  have run := ((Run.play played).perform fell_asleep).perform came_back
  rw [List.append_assoc] at run
  have sleeps := (Launch.small.sleep_ends_on_time.2 traps sleeping [woke] woke.after run
    asked).2 wanted
  rw [wakeTime] at sleeps
  refine ⟨traps, sleeping, woke, woke.after, run, wakeTime, late, sleeps.1,
    sleeps.2.2 [sleeping] woke [] rfl ?_ (Nat.le_of_eq late.symm)⟩
  intro trap member
  cases List.mem_singleton.1 member
  exact early

end Microkernel
