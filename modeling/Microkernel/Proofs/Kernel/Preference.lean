import Microkernel.Proofs.Calls.Turns
import Microkernel.Proofs.Kernel.Script

/-!
# Who runs after a call

After a call the scheduler puts a process on the processor than which none that can run is more
important.  The exception is a call that wakes three or another odd number of processes more
important than its caller: merging their hints names the one merged last, which the scheduler then
takes at its word.
-/

namespace Microkernel

namespace Turn

variable {slots : Nat} {before left : System slots} {caller : Fin slots} {hint : Hint}

/-- A call that does not leave the choice to the scheduler leaves nobody asleep for too long. -/
theorem early (turn : Turn before caller hint left) (chosen : hint ≠ .other)
    (early : ∀ slot : Fin slots, before.processes[slot].isDue before.clock = false)
    (slot : Fin slots) : left.processes[slot].isDue left.clock = false := by
  cases turn with
  | free => exact absurd rfl chosen
  | woke clock_eq wakes =>
      rw [clock_eq]
      apply Bool.eq_false_iff.2
      intro due
      cases (early slot).symm.trans (wakes.isDue slot _ due)
  | started new clock_eq gains hint_eq =>
      rw [clock_eq]
      by_cases same : slot = new
      · rw [same, Process.isDue, gains.no_deadline]
        rfl
      · rw [Process.isDue, (gains.others slot same).2.2]
        exact early slot

/-- If a call asks for no switch, nobody who can run is more important than the caller. -/
theorem tops_of_same (turn : Turn before caller .same left)
    (runs : before.processes[caller].isRunnable = true) (top : before.processes.Tops caller) :
    left.processes.Tops caller := by
  cases turn with
  | woke clock_eq wakes =>
      intro other other_runs
      rw [wakes.priority_eq caller]
      exact wakes.le_of_same top other other_runs
  | started new clock_eq gains hint_eq =>
      have different : caller ≠ new := by
        rintro rfl
        rw [gains.vacant] at runs
        cases runs
      intro other other_runs
      by_cases same : other = new
      · subst same
        split at hint_eq
        next => cases hint_eq
        next no_more => exact Bool.eq_false_iff.2 no_more
      · obtain ⟨state, priority, _⟩ := gains.others other same
        rw [Process.isRunnable, state] at other_runs
        rw [priority, (gains.others caller different).2.1]
        exact top other other_runs

/-- If a call asks for a process, that is more important than all others who can run, unless it is
one of an odd number of at least three that were woken. -/
theorem tops_of_specific {position : Nat} (turn : Turn before caller (.specific position) left)
    (runs : before.processes[caller].isRunnable = true) (top : before.processes.Tops caller) :
    ∃ slot : Fin slots, slot.val = position ∧ (left.processes.Tops slot ∨
      slot ∈ before.processes.woken left.processes before.processes[caller].priority ∧
      Odd (before.processes.woken left.processes before.processes[caller].priority).card ∧
      3 ≤ (before.processes.woken left.processes before.processes[caller].priority).card) := by
  cases turn with
  | woke clock_eq wakes =>
      obtain ⟨slot, member, named, tops | odd⟩ := wakes.tops_or_odd top
      · exact ⟨slot, named, .inl tops⟩
      · exact ⟨slot, named, .inr ⟨member, odd⟩⟩
  | started new clock_eq gains hint_eq =>
      split at hint_eq
      next more =>
          cases hint_eq
          refine ⟨new, rfl, .inl fun other other_runs => ?_⟩
          have different : caller ≠ new := by
            rintro rfl
            rw [gains.vacant] at runs
            cases runs
          rw [Priority.moreImportant_iff, (gains.others caller different).2.1] at more
          rw [Priority.moreImportant_eq_false_iff]
          by_cases same : other = new
          · rw [same]
          · obtain ⟨state, priority, _⟩ := gains.others other same
            rw [Process.isRunnable, state] at other_runs
            have lower := top other other_runs
            rw [Priority.moreImportant_eq_false_iff] at lower
            rw [priority]
            omega
      next => cases hint_eq

theorem within (turn : Turn before caller hint left) : hint.Within slots := by
  cases turn with
  | free => exact Hint.within_other
  | woke clock_eq wakes =>
      intro position named
      subst named
      obtain ⟨_, slot, _, rfl⟩ := wakes.tallies
      exact slot.isLt
  | started new clock_eq gains hint_eq =>
      rw [hint_eq]
      split
      · exact Hint.within_specific new
      · exact Hint.within_same

end Turn

/-- In a run the kernel provides every call: nobody adds a service. -/
theorem Run.provides {slots : Nat} {launch : Launch slots} {traps : List (Trap slots)}
    {system entered : System slots} {caller : Fin slots} (run : Run launch traps system)
    (user : system.UserStep caller entered) (number : Nat)
    (service : Registers → Except Refusal (Registers × Hint)) :
    entered.calls.lookup? number ≠ some (.service service) := by
  rw [user.calls_eq, run.invariant.calls, CallTable.lookup?_withBuiltins, Ne,
    Option.map_eq_some_iff]
  rintro ⟨call, _, provided⟩
  cases provided

namespace KernelM

variable {slots : Nat} {before left after : System slots} {caller next : Fin slots} {hint : Hint}

/-- Whoever runs next is most important, unless it is one of an odd number of at least three
processes more important than the caller that the call woke. -/
theorem tops_or_odd_of_switchAfter (turn : Turn before caller hint left)
    (runs : before.processes[caller].isRunnable = true) (top : before.processes.Tops caller)
    (early : ∀ slot : Fin slots, before.processes[slot].isDue before.clock = false)
    (switch : switchAfter caller hint left = .ok next after) :
    after.processes[next].isRunnable = true ∧ (after.processes.Tops next ∨
      next ∈ before.processes.woken after.processes before.processes[caller].priority ∧
      Odd (before.processes.woken after.processes before.processes[caller].priority).card ∧
      3 ≤ (before.processes.woken after.processes before.processes[caller].priority).card) := by
  obtain ⟨woken, wakeHint, _, woke, rfl, ⟨final, clock, run, rfl, _⟩ |
    ⟨rfl, next_runs, followed⟩⟩ := of_switchAfter switch
  · obtain ⟨next_runs, tops⟩ := ProcessTable.tops_of_reschedule run
    exact ⟨next_runs, .inl tops⟩
  · have chosen : hint ≠ .other := by
      rintro rfl
      rw [Hint.combine_self, ite_self] at followed
      rcases followed with ⟨impossible, _⟩ | impossible
      · cases impossible
      · cases impossible
    cases (ProcessTable.wakeSleepers_of_nobody_due (turn.early chosen early)).symm.trans woke
    rw [if_pos rfl] at followed
    rcases followed with ⟨rfl, here⟩ | rfl
    · cases Fin.ext here
      exact ⟨next_runs, .inl (turn.tops_of_same runs top)⟩
    · obtain ⟨slot, here, tops⟩ := turn.tops_of_specific runs top
      cases Fin.ext here
      exact ⟨next_runs, tops⟩

/-- If the caller can run, nobody who can run is more important, and nobody is asleep for too long,
then after any call that the kernel provides a process runs than which none that can run is more
important, unless an odd number of at least three processes more important than the caller was
woken, of which it is one.  If the deadlines are those of sleepers, somebody runs next unless nobody
ever will. -/
theorem switchAfter_tops_or_odd (runs : before.processes[caller].isRunnable = true)
    (top : before.processes.Tops caller)
    (early : ∀ slot : Fin slots, before.processes[slot].isDue before.clock = false)
    (provided : ∀ run, before.calls.lookup? before.processes[caller].registers.callNumber ≠
      some (.service run))
    (call : handleCall caller before = .ok hint left) :
    (∀ next after, switchAfter caller hint left = .ok next after →
      after.processes[next].isRunnable = true ∧ (after.processes.Tops next ∨
        next ∈ before.processes.woken after.processes before.processes[caller].priority ∧
        Odd (before.processes.woken after.processes before.processes[caller].priority).card ∧
        3 ≤ (before.processes.woken after.processes before.processes[caller].priority).card)) ∧
    ((∀ slot : Fin slots, left.processes[slot].Timed) →
      (∃ slot : Fin slots, left.processes[slot].WillRun) →
      ∃ next after, switchAfter caller hint left = .ok next after) := by
  have turn := turn_of_handleCall runs provided call
  refine ⟨fun next after switch => tops_or_odd_of_switchAfter turn runs top early switch, ?_⟩
  rintro timed ⟨slot, will_run⟩
  rcases switchAfter_run timed caller.isLt turn.within with
    ⟨next, _, _, switch, _⟩ | ⟨_, nobody⟩
  · exact ⟨next, _, switch⟩
  · exact absurd will_run (nobody slot)

/-- The first process wakes a reader that is more important, which runs next. -/
theorem woken_reader_runs_next : ∃ trap : Trap 2, Reached Launch.small trap.entered ∧
    handleCall trap.caller trap.entered = .ok trap.hint trap.left ∧
    switchAfter trap.caller trap.hint trap.left = .ok trap.next trap.after ∧
    trap.caller = 0 ∧ trap.next = 1 ∧ trap.after.processes.Tops 1 := by
  have evaluated : (Launch.small.play?
    (Launch.familyScript 1 ++ Launch.readerWaits)).any (fun final =>
      (final.2.perform? Launch.writeMove).any fun trap => decide (
        trap.entered.processes[trap.caller].isRunnable = true ∧
        trap.entered.processes.Tops trap.caller ∧
        (∀ slot : Fin 2, trap.entered.processes[slot].isDue trap.entered.clock = false) ∧
        (trap.entered.processes.woken trap.after.processes
          trap.entered.processes[trap.caller].priority).card < 3 ∧
        trap.caller = 0 ∧ trap.next = 1)) = true := by
    decide +kernel
  simp only [Option.any_eq_true, decide_eq_true_eq] at evaluated
  obtain ⟨final, played, trap, performed, runs, top, early, few, caller, next⟩ := evaluated
  have run := Run.play played
  obtain ⟨current, user, call, switch⟩ := System.of_perform?_eq_some performed
  have provided := run.provides user trap.entered.processes[trap.caller].registers.callNumber
  obtain ⟨_, tops | ⟨_, _, many⟩⟩ :=
    (switchAfter_tops_or_odd runs top early provided call).1 _ _ switch
  · rw [next] at tops
    exact ⟨trap, .entered run current user, call, switch, caller, next, tops⟩
  · omega

/-- The first process wakes three readers that are more important, and the least important of these
runs next. -/
theorem third_reader_runs_next : ∃ trap : Trap 4, Reached Launch.wide trap.entered ∧
    trap.entered.processes[trap.caller].call? = some .pipeWrite ∧
    trap.entered.processes[trap.caller].isRunnable = true ∧
    trap.entered.processes.Tops trap.caller ∧
    (∀ slot : Fin 4, trap.entered.processes[slot].isDue trap.entered.clock = false) ∧
    handleCall trap.caller trap.entered = .ok trap.hint trap.left ∧
    switchAfter trap.caller trap.hint trap.left = .ok trap.next trap.after ∧
    ¬ trap.after.processes.Tops trap.next := by
  have evaluated : (Launch.wide.play? (Launch.familyScript 3 ++ Launch.readerWaits ++
      Launch.othersWait)).any (fun final =>
        (final.2.perform? Launch.writeMove).any fun trap => decide (
          trap.entered.processes[trap.caller].call? = some .pipeWrite ∧
          trap.entered.processes[trap.caller].isRunnable = true ∧
          trap.entered.processes.Tops trap.caller ∧
          (∀ slot : Fin 4, trap.entered.processes[slot].isDue trap.entered.clock = false) ∧
          ¬ trap.after.processes.Tops trap.next)) = true := by
    decide +kernel
  simp only [Option.any_eq_true, decide_eq_true_eq] at evaluated
  obtain ⟨final, played, trap, performed, write, runs, top, early, not_top⟩ := evaluated
  have run := Run.play played
  obtain ⟨current, user, call, switch⟩ := System.of_perform?_eq_some performed
  exact ⟨trap, .entered run current user, write, runs, top, early, call, switch, not_top⟩

end KernelM
end Microkernel
