import Microkernel.Proofs.Calls.Fate
import Microkernel.Proofs.Calls.Start
import Microkernel.Proofs.Kernel.Effects

/-!
# Who is who

Processes that live at the same time have different names, none of which is the stand-in for the
caller.  A call leaves a process its name and its pipes, unless the process makes the call itself,
and a process that is started in it has no pipes.
-/

namespace Microkernel

variable {slots : Nat} {before after : System slots} {caller slot : Fin slots} {hint : Hint}
  {layout : Layout slots} {author : Fin slots → Prop} {id : PipeId}

/-- Whether the names of live processes tell them apart, and names go on properly. -/
structure System.Identified (system : System slots) : Prop where
  /-- Two live processes have different names. -/
  distinct : ∀ one other : Fin slots, system.processes[one].state ≠ .vacant →
    system.processes[other].state ≠ .vacant →
      system.processes[one].pid = system.processes[other].pid → one = other
  /-- The name of a live process is its own. -/
  proper : ∀ slot : Fin slots, system.processes[slot].state ≠ .vacant →
    system.processes[slot].pid.Proper
  /-- The next name is one that a process can have. -/
  next : system.nextPid.Proper

/-! ## In a call -/

theorem System.Starts.handles_eq (starts : before.Starts caller slot after) :
    after.processes[slot].handles = Process.noHandles := by
  obtain ⟨between, ⟨⟨pid, _, taken, _, rootTable, registers, run, _, rfl⟩, _⟩, same, _⟩ :=
    starts.started
  rw [same, getElem_set_self]
  rcases Process.occupy_cases run with ⟨impossible, _⟩ | ⟨_, regions, rfl⟩
  · cases impossible
  · rfl

theorem System.Starts.pid_eq (starts : before.Starts caller slot after) :
    after.processes[slot].pid = before.processes.freshPid slots before.nextPid := by
  obtain ⟨between, started, same, _⟩ := starts.started
  rw [same]
  exact started.named.1

theorem System.Starts.nextPid_eq (starts : before.Starts caller slot after) :
    after.nextPid = (before.processes.freshPid slots before.nextPid).next := by
  obtain ⟨between, started, _, _, next⟩ := starts.started
  exact next.trans started.named.2

theorem System.Starts.unique {other : Fin slots} (starts : before.Starts caller slot after)
    (too : before.Starts caller other after) : slot = other :=
  Option.some.inj (starts.first.symm.trans too.first)

theorem Handled.nextPid_eq (handled : Handled before caller hint after) :
    after.nextPid = before.nextPid ∨
      after.nextPid = (before.processes.freshPid slots before.nextPid).next := by
  cases handled with
  | failed => exact .inl rfl
  | ended => exact .inl rfl
  | done outcome =>
      rw [CallOutcome] at outcome
      split at outcome
      · cases outcome <;> exact .inl rfl
      · cases outcome <;> exact .inl rfl
      · cases outcome with
        | started _ _ between _ _ started => exact .inr started.named.2
      · cases outcome <;> exact .inl rfl

/-- Names still tell processes apart after a call: whoever is started gets a name that nobody
had. -/
theorem Handled.identified (handled : Handled before caller hint after)
    (live : before.processes[caller].state ≠ .vacant) (identified : before.Identified)
    (few : slots ≤ Config.maxProcesses) : after.Identified := by
  have enough : slots < Pid.limit - 1 := Nat.lt_of_le_of_lt few (by decide)
  have fresh := ProcessTable.findPid?_eq_none_iff.1
    (ProcessTable.findPid?_freshPid before.processes identified.next enough)
  have kept := handled.continues_or_starts live
  constructor
  · intro one other one_live other_live same
    rcases kept one with one_continues | one_starts
    · rcases kept other with other_continues | other_starts
      · refine identified.distinct one other (one_continues.live one_live)
          (other_continues.live other_live) ?_
        rw [← one_continues.pid_eq one_live, ← other_continues.pid_eq other_live, same]
      · rw [one_continues.pid_eq one_live, other_starts.pid_eq] at same
        exact absurd same (fresh one (one_continues.live one_live))
    · rcases kept other with other_continues | other_starts
      · rw [one_starts.pid_eq, other_continues.pid_eq other_live] at same
        exact absurd same.symm (fresh other (other_continues.live other_live))
      · exact one_starts.unique other_starts
  · intro slot slot_live
    rcases kept slot with continues | starts
    · rw [continues.pid_eq slot_live]
      exact identified.proper slot (continues.live slot_live)
    · rw [starts.pid_eq]
      exact ProcessTable.proper_freshPid _ _ identified.next
  · rcases handled.nextPid_eq with same | next
    · exact same ▸ identified.next
    · exact next ▸ Pid.proper_next _

theorem Process.not_holds_of_vacant {process : Process} {memory : SlotMemory} {image : Extent}
    {mayWrite : Prop} (sound : process.Sound memory image mayWrite)
    (vacant : process.state = .vacant) : ¬ process.Holds id :=
  not_holds_of_noHandles (sound.vacant vacant).2

/-- Nobody but the caller comes to hold a pipe in a call, or ceases to. -/
theorem Handled.holds_iff (handled : Handled before caller hint after)
    (sound : before.toTables.Sound layout author) (after_sound : after.toTables.Sound layout author)
    (runnable : before.processes[caller].state = .live .runnable) (different : slot ≠ caller) :
    after.processes[slot].Holds id ↔ before.processes[slot].Holds id := by
  by_cases vacant : before.processes[slot].state = .vacant
  · have before_unheld : ¬ before.processes[slot].Holds id :=
      Process.not_holds_of_vacant (sound.slot slot) vacant
    refine iff_of_false (fun held => ?_) before_unheld
    rcases handled.continues_or_starts (Process.live_of_runnable runnable) slot with
      continues | starts
    · have after_vacant : after.processes[slot].state = .vacant :=
        Classical.byContradiction fun live => continues.live live vacant
      exact Process.not_holds_of_vacant (after_sound.slot slot) after_vacant held
    · exact Process.not_holds_of_noHandles starts.handles_eq held
  · have kept := ((handled.confines sound runnable).others slot different vacant).kept
    refine Process.holds_congr ?_
    rw [kept]

/-- Whoever holds a pipe lives and keeps its name as long as it holds the pipe. -/
theorem Handled.holder_stays (handled : Handled before caller hint after)
    (sound : before.toTables.Sound layout author) (after_sound : after.toTables.Sound layout author)
    (runnable : before.processes[caller].state = .live .runnable)
    (held : before.processes[slot].Holds id)
    (still : slot = caller → after.processes[slot].Holds id) :
    after.processes[slot].state ≠ .vacant ∧
      after.processes[slot].pid = before.processes[slot].pid ∧
        after.processes[slot].Holds id := by
  have holds : after.processes[slot].Holds id := by
    by_cases same : slot = caller
    · exact still same
    · exact (handled.holds_iff sound after_sound runnable same).2 held
  have live : after.processes[slot].state ≠ .vacant := fun vacant =>
    Process.not_holds_of_vacant (after_sound.slot slot) vacant holds
  rcases handled.continues_or_starts (Process.live_of_runnable runnable) slot with
    continues | starts
  · exact ⟨live, continues.pid_eq live, holds⟩
  · exact absurd holds (Process.not_holds_of_noHandles starts.handles_eq)

/-! ## In a run -/

variable {launch : Launch slots} {traps : List (Trap slots)} {system entered : System slots}

theorem System.UserStep.pid_eq (user : system.UserStep caller entered) (slot : Fin slots) :
    entered.processes[slot].pid = system.processes[slot].pid := by
  obtain ⟨registers, same⟩ := user.getElem slot
  rw [same]

theorem System.UserStep.nextPid_eq (user : system.UserStep caller entered) :
    entered.nextPid = system.nextPid := by
  obtain ⟨registers, memory, rfl⟩ := user.ran
  rfl

theorem System.Identified.congr (identified : system.Identified)
    (live : ∀ slot : Fin slots, after.processes[slot].state ≠ .vacant →
      system.processes[slot].state ≠ .vacant)
    (pid : ∀ slot : Fin slots, after.processes[slot].pid = system.processes[slot].pid)
    (next : after.nextPid = system.nextPid) : after.Identified where
  distinct one other one_live other_live same := by
    rw [pid, pid] at same
    exact identified.distinct one other (live one one_live) (live other other_live) same
  proper slot slot_live := by
    rw [pid]
    exact identified.proper slot (live slot slot_live)
  next := next ▸ identified.next

theorem System.UserStep.identified (user : system.UserStep caller entered)
    (identified : system.Identified) : entered.Identified :=
  identified.congr (fun slot live => user.state_eq slot ▸ live) user.pid_eq user.nextPid_eq

theorem Run.identified (run : Run launch traps system) (few : slots ≤ Config.maxProcesses) :
    system.Identified := by
  induction run with
  | start started =>
      have begins := launch.begins started
      obtain ⟨first_name, next_name⟩ := begins.named
      refine ⟨fun one other one_live other_live _ => ?_, fun slot live => ?_, ?_⟩
      · rw [begins.alone one one_live, begins.alone other other_live]
      · rw [begins.alone slot live, first_name]
        exact ⟨by decide, by decide⟩
      · rw [next_name]
        exact ⟨by decide, by decide⟩
  | advance _ ticks passes identified =>
      cases passes
      exact identified.congr (fun _ live => live) (fun _ => rfl) rfl
  | trap run trap current user call switch identified =>
      obtain ⟨runnable, handled, preserved⟩ := run.invariant.handled current user call
      obtain ⟨woken, clock, after_eq, roused, _⟩ := preserved.resumes trap.caller.isLt switch
      have left := handled.identified (Process.live_of_runnable runnable)
        (user.identified identified) few
      rw [after_eq]
      exact left.congr (fun slot => (roused slot).remains.live)
        (fun slot => (roused slot).remains.pid) rfl

theorem Reached.identified (reached : Reached launch system) (few : slots ≤ Config.maxProcesses) :
    system.Identified := by
  cases reached with
  | settled run => exact run.identified few
  | entered run _ user => exact user.identified (run.identified few)
  | handled run current user call =>
      obtain ⟨runnable, handled, _⟩ := run.invariant.handled current user call
      exact handled.identified (Process.live_of_runnable runnable)
        (user.identified (run.identified few)) few

end Microkernel
