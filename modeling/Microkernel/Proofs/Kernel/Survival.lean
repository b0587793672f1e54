import Microkernel.Proofs.Kernel.Script

/-!
# No program crashes the kernel

Whatever the programs do, every call is handled and leads to a process that can run, unless nobody
runs and nobody is asleep.  Then nobody ever will, and the kernel stops.
-/

namespace Microkernel

variable {slots : Nat}

theorem System.UserStep.refl (system : System slots) (caller : Fin slots) :
    system.UserStep caller system where
  ran := by
    refine ⟨system.processes[caller].registers, system.memory, ?_⟩
    have same : system.processes.set caller system.processes[caller] caller.isLt =
        system.processes :=
      Vector.set_getElem_self _
    rw [same]
  changes := .refl _ _

namespace Launch

/-- A kernel starts its first process, and in every run after that no step crashes: time passes, and
the current process can do what it likes and make any call.  After the call, somebody who can run is
put on the processor if anybody runs or sleeps, and otherwise the kernel stops for that reason.
Idling until a sleeper is due comes to an end, with what the scheduler computes. -/
theorem survives (launch : Launch slots) :
    (∃ line, Slots.report slots launch.rest = .ok line) ∧
    (∃ slot system, (StartM.startFirst launch.entry launch.imageStart launch.imageStop).run
      launch.system = .ok (.ok slot) system) ∧
    ∀ traps system, Run launch traps system →
      (∀ ticks, ∃ later, KernelM.advance ticks system = .ok () later) ∧
      ∃ caller : Fin slots, caller.val = system.current ∧
        ∀ entered, system.UserStep caller entered →
          ∃ hint left, KernelM.handleCall caller entered = .ok hint left ∧
            (∀ woken asked, left.processes.wakeSleepers left.clock = .ok (woken, asked) →
              woken.Idles caller left.clock (woken.reschedule left.clock caller)) ∧
            ((∃ slot : Fin slots, left.processes[slot].WillRun) →
              ∃ next after, KernelM.switchAfter caller hint left = .ok next after ∧
                after.processes[next].state = .live .runnable ∧ after.current = next.val) ∧
            ((∀ slot : Fin slots, ¬ left.processes[slot].WillRun) →
              ∃ final, KernelM.switchAfter caller hint left =
                .error (.died .noRunnableProcess) final) := by
  refine ⟨Slots.report_run launch.aligned launch.bounded launch.carved launch.first, ?_,
    fun traps system run => ⟨fun ticks => ⟨_, rfl⟩, ?_⟩⟩
  · obtain ⟨_, system, started, rfl, _⟩ := launch.startFirst_run
    exact ⟨launch.first, system, started⟩
  · have invariant := run.invariant
    obtain ⟨caller, current, runnable⟩ := invariant.current
    refine ⟨caller, current, fun entered user => ?_⟩
    obtain ⟨hint, left, call, _, preserved⟩ := invariant.call runnable user
    have timed := Run.timed_of_sound preserved.sound
    refine ⟨hint, left, call, fun woken asked wake => ?_, ?_⟩
    · have roused := ProcessTable.rousedTo_of_wakeSleepers timed wake
      exact ProcessTable.idles_reschedule (fun slot => (roused slot).timed (timed slot)) _ _
    rcases KernelM.switchAfter_run timed caller.isLt preserved.within with
      ⟨next, woken, clock, switch, roused, runs⟩ | ⟨stops, nobody⟩
    · have next_runs := (Process.isRunnable_iff _).1 runs
      refine ⟨fun _ => ⟨next, _, switch, next_runs, rfl⟩, fun nobody => ?_⟩
      exact absurd ((roused next).willRun_iff.1 (.inl next_runs)) (nobody next)
    · constructor
      · rintro ⟨slot, willRun⟩
        exact absurd willRun (nobody slot)
      · exact fun _ => stops

/-- With the first process waiting for bytes, the kernel handles the call of the second one. -/
theorem survives_small : ∃ traps system, Run small traps system ∧ system.current = 1 ∧
    ∃ (caller : Fin 2) (hint : Hint) (left : System 2), caller.val = system.current ∧
      KernelM.handleCall caller system = .ok hint left := by
  have evaluated : (small.play? readerScript).any (·.2.current == 1) = true := by decide +kernel
  rw [Option.any_eq_true] at evaluated
  obtain ⟨final, played, current⟩ := evaluated
  obtain ⟨_, caller, caller_current, handled⟩ := small.survives.2.2 _ _ (Run.play played)
  obtain ⟨hint, left, call, _⟩ := handled _ (.refl _ _)
  exact ⟨_, _, Run.play played, by simpa using current, caller, hint, left, caller_current, call⟩

end Launch
end Microkernel
