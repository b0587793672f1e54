import Microkernel.Proofs.Kernel.Preference

/-!
# Who runs once sleepers have woken

If the deadline of a sleeper has come when the kernel is left, somebody can run, and no time passes.
No sleeper that wakes is more important than whoever runs next, unless the call has left a hint that
names a process: merging leaves such a hint as it is, and the scheduler takes it at its word.
-/

namespace Microkernel

namespace ProcessTable

variable {slots : Nat} {processes woken : ProcessTable slots} {hint : Hint} {now : Nat}
  {sleeper slot : Fin slots}

/-- Whether no sleeper whose deadline has come by a tick is more important than a process. -/
def TopsWoken (processes : ProcessTable slots) (now : Nat) (slot : Fin slots) : Prop :=
  ∀ sleeper : Fin slots, processes[sleeper].isDue now = true →
    processes[sleeper].priority.moreImportant processes[slot].priority = false

instance (now : Nat) (slot : Fin slots) : Decidable (processes.TopsWoken now slot) :=
  inferInstanceAs (Decidable (∀ sleeper : Fin slots, processes[sleeper].isDue now = true →
    processes[sleeper].priority.moreImportant processes[slot].priority = false))

theorem priority_of_wakeSleepers (wake : processes.wakeSleepers now = .ok (woken, hint))
    (slot : Fin slots) : woken[slot].priority = processes[slot].priority := by
  rw [(of_wakeSleepers wake).1, getElem_map, Process.wakeIfDue]
  split <;> rfl

theorem Tops.topsWoken (tops : woken.Tops slot)
    (wake : processes.wakeSleepers now = .ok (woken, hint)) : processes.TopsWoken now slot := by
  intro sleeper due
  have lower := tops sleeper (isRunnable_of_wakeSleepers wake due)
  rwa [priority_of_wakeSleepers wake, priority_of_wakeSleepers wake] at lower

theorem hint_ne_same_of_isDue (wake : processes.wakeSleepers now = .ok (woken, hint))
    (due : processes[sleeper].isDue now = true) : hint ≠ .same := by
  obtain ⟨_, rfl⟩ := of_wakeSleepers wake
  intro nobody
  have tallies := tallies_hintFor (processes.nodup_slotsWhere (·.isDue now))
  rw [nobody] at tallies
  have member : sleeper ∈ processes.slotsWhere (·.isDue now) :=
    List.mem_filter.2 ⟨List.mem_finRange sleeper, due⟩
  have nowhere : (processes.slotsWhere (·.isDue now)).toFinset = ∅ := tallies
  exact Finset.notMem_empty sleeper (nowhere ▸ List.mem_toFinset.2 member)

theorem wakeSleepers_of_wakeSleepers (wake : processes.wakeSleepers now = .ok (woken, hint)) :
    woken.wakeSleepers now = .ok (woken, .same) := by
  refine wakeSleepers_of_nobody_due fun slot => ?_
  rw [(of_wakeSleepers wake).1, getElem_map]
  cases due : processes[slot].isDue now with
  | true =>
      rw [Process.wakeIfDue_of_due due]
      rfl
  | false => rw [Process.wakeIfDue_of_not_due due, due]

/-- As long as somebody has just woken, the scheduler chooses at once. -/
theorem reschedule_of_isDue (wake : processes.wakeSleepers now = .ok (woken, hint))
    (due : processes[sleeper].isDue now = true) (previous : Nat) :
    ∃ next, woken.reschedule now previous = .ok (woken, now, next) ∧ woken.Tops next := by
  obtain ⟨next, chosen⟩ := exists_select? previous (isRunnable_of_wakeSleepers wake due)
  refine ⟨next, ?_, (tops_of_select? chosen).2⟩
  simp only [reschedule, wakeSleepers_of_wakeSleepers wake, chosen, bind, Except.bind]
  rfl

end ProcessTable

namespace KernelM

variable {slots : Nat} {before after : System slots} {hint : Hint} {previous : Nat}
  {sleeper next : Fin slots}

private theorem combine_other_eq_specific_iff {position : Nat} :
    hint.combine .other = .specific position ↔ hint = .specific position := by
  cases hint <;> simp [Hint.combine]

/-- If somebody wakes, whoever runs next is named by the hint and can run, or is most important
among all who can run because the hint names nobody who can. -/
theorem of_switchAfter_of_isDue (due : before.processes[sleeper].isDue before.clock = true)
    (switch : switchAfter previous hint before = .ok next after) :
    ∃ woken wakeHint, before.processes.wakeSleepers before.clock = .ok (woken, wakeHint) ∧
      after = { before with processes := woken, current := next.val } ∧
      woken[next].isRunnable = true ∧
      (woken.Tops next ∧ (∀ named : Fin slots, hint = .specific named.val →
          woken[named].isRunnable = false) ∨
        hint = .specific next.val) := by
  obtain ⟨woken, wakeHint, _, wake, rfl, chosen⟩ := of_switchAfter switch
  refine ⟨woken, wakeHint, wake, ?_⟩
  rw [if_neg (ProcessTable.hint_ne_same_of_isDue wake due)] at chosen
  rcases chosen with ⟨final, clock, run, rfl, idle⟩ | ⟨rfl, runs, followed⟩
  · obtain ⟨choice, at_once, tops⟩ := ProcessTable.reschedule_of_isDue wake due previous
    cases at_once.symm.trans run
    have runs := (ProcessTable.tops_of_reschedule run).1
    exact ⟨rfl, runs, .inl ⟨tops, fun named wanted =>
      idle named (combine_other_eq_specific_iff.2 wanted)⟩⟩
  · refine ⟨rfl, runs, .inr ?_⟩
    rcases followed with ⟨impossible, _⟩ | named
    · cases hint <;> cases impossible
    · exact combine_other_eq_specific_iff.1 named

/-- If somebody wakes, somebody runs next, provided that no vacant slot has a deadline and the hint
names nobody who is not in the table. -/
theorem switchAfter_run_of_isDue (due : before.processes[sleeper].isDue before.clock = true)
    (settled : ∀ slot : Fin slots, before.processes[slot].state = .vacant →
      before.processes[slot].deadline = none) (within : hint.Within slots) (previous : Nat) :
    ∃ next after, switchAfter previous hint before = .ok next after := by
  have wake := ProcessTable.wakeSleepers_eq settled before.clock
  have switches := ProcessTable.hint_ne_same_of_isDue wake due
  obtain ⟨choice, at_once, _⟩ := ProcessTable.reschedule_of_isDue wake due previous
  generalize before.processes.map (·.wakeIfDue before.clock) = woken at *
  generalize ProcessTable.hintFor (before.processes.slotsWhere (·.isDue before.clock)) =
    wakeHint at *
  have ends : (switchAfter previous hint).Ends before fun _ _ => True := by
    simp only [switchAfter, ends_bind, ends_get, wakeSleepers, ends_ofChecked, ends_set, ends_pure,
      Prod.exists]
    refine ⟨woken, wakeHint, wake, ?_⟩
    rw [if_neg switches]
    obtain ⟨found, run, _⟩ : ∃ found, hinted? previous (hint.combine .other)
        { before with processes := woken } = .ok found { before with processes := woken } ∧ _ :=
      hinted?_run _ (by cases hint <;> rintro ⟨⟩) (within.combine Hint.within_other)
    refine ⟨found, _, run, ?_⟩
    cases found with
    | some next => simp only [ends_bind, ends_pure, ends_modify]
    | none =>
        simp only [reschedule, ends_bind, ends_get, ends_ofChecked, ends_set, ends_pure,
          ends_modify, Prod.exists]
        exact ⟨woken, before.clock, choice, at_once, trivial⟩
  obtain ⟨next, after, run, _⟩ := ends
  exact ⟨next, after, run⟩

/-- If the deadline of a sleeper has come when the kernel is left, whoever runs next can run, and no
sleeper that wakes is more important, unless a sleeper that wakes is more important than a process
that the hint names and that can run.  Somebody runs next, provided that no vacant slot has a
deadline and the hint names nobody who is not in the table. -/
theorem switchAfter_tops_woken (previous : Nat) (hint : Hint)
    (due : before.processes[sleeper].isDue before.clock = true) :
    (∀ next after, switchAfter previous hint before = .ok next after →
      after = { before with
        processes := before.processes.map (·.wakeIfDue before.clock), current := next.val } ∧
      after.processes[next].isRunnable = true ∧
      (before.processes.TopsWoken before.clock next ↔
        ∀ named : Fin slots, hint = .specific named.val →
          after.processes[named].isRunnable = true →
          before.processes.TopsWoken before.clock named)) ∧
    ((∀ slot : Fin slots, before.processes[slot].state = .vacant →
        before.processes[slot].deadline = none) → hint.Within slots →
      ∃ next after, switchAfter previous hint before = .ok next after) := by
  refine ⟨fun next after switch => ?_, fun settled within =>
    switchAfter_run_of_isDue due settled within previous⟩
  obtain ⟨woken, wakeHint, wake, rfl, runs, chosen⟩ := of_switchAfter_of_isDue due switch
  refine ⟨by rw [(ProcessTable.of_wakeSleepers wake).1], runs, ?_⟩
  rcases chosen with ⟨tops, nobody⟩ | followed
  · -- The scheduler has chosen, so nobody who is named can run.
    refine iff_of_true (tops.topsWoken wake) fun named wanted named_runs => ?_
    cases (nobody named wanted).symm.trans named_runs
  · -- The process that runs next is the one that is named.
    constructor
    · intro topsWoken named wanted _
      rw [followed, Hint.specific.injEq] at wanted
      rwa [← Fin.ext wanted]
    · intro all
      exact all next followed runs

/-- The first process asks for its number while a sleeper that is more important is due, which runs
next. -/
theorem woken_sleeper_runs_next : ∃ trap : Trap 2, Reached Launch.small trap.left ∧
    switchAfter trap.caller trap.hint trap.left = .ok trap.next trap.after ∧
    trap.left.processes[1].isDue trap.left.clock = true ∧
    trap.left.processes.TopsWoken trap.left.clock trap.next ∧ trap.next = 1 := by
  have evaluated : (Launch.small.play? (Launch.familyScript 1 ++ Launch.sleeperSleeps)).any
      (fun final => (System.perform?
        { final.2 with clock := Word.saturatingSum final.2.clock 5 }
        (Launch.calling 0x80010 .getPid 0 0 0)).any fun trap => decide (
          trap.hint = .same ∧ trap.left.processes[1].isDue trap.left.clock = true ∧
          trap.next = 1)) = true := by
    decide +kernel
  simp only [Option.any_eq_true, decide_eq_true_eq] at evaluated
  obtain ⟨final, played, trap, performed, hint, due, next⟩ := evaluated
  have run := (Run.play played).advance 5 rfl
  obtain ⟨current, user, call, switch⟩ := System.of_perform?_eq_some performed
  obtain ⟨_, _, tops⟩ := (switchAfter_tops_woken trap.caller trap.hint due).1 _ _ switch
  refine ⟨trap, .handled run current user call, switch, due, tops.2 fun named wanted => ?_, next⟩
  rw [hint] at wanted
  cases wanted

/-- The first process wakes a reader, which runs next although a sleeper is due that is more
important. -/
theorem reader_runs_before_sleeper : ∃ trap : Trap 4, Reached Launch.wide trap.left ∧
    trap.entered.processes[trap.caller].call? = some .pipeWrite ∧
    handleCall trap.caller trap.entered = .ok trap.hint trap.left ∧
    switchAfter trap.caller trap.hint trap.left = .ok trap.next trap.after ∧
    trap.hint = .specific 1 ∧ trap.left.processes[2].isDue trap.left.clock = true ∧
    trap.next = 1 ∧ ¬ trap.left.processes.TopsWoken trap.left.clock trap.next := by
  have evaluated : (Launch.wide.play? (Launch.familyScript 2 ++ Launch.readerWaits ++
      Launch.thirdSleeps)).any (fun final =>
        (System.perform? { final.2 with clock := Word.saturatingSum final.2.clock 5 }
          Launch.writeMove).any fun trap => decide (
            trap.entered.processes[trap.caller].call? = some .pipeWrite ∧
            trap.hint = .specific 1 ∧ trap.left.processes[2].isDue trap.left.clock = true ∧
            trap.next = 1 ∧ ¬ trap.left.processes.TopsWoken trap.left.clock trap.next)) = true := by
    decide +kernel
  simp only [Option.any_eq_true, decide_eq_true_eq] at evaluated
  obtain ⟨final, played, trap, performed, write, hint, due, next, not_top⟩ := evaluated
  have run := (Run.play played).advance 5 rfl
  obtain ⟨current, user, call, switch⟩ := System.of_perform?_eq_some performed
  exact ⟨trap, .handled run current user call, write, call, switch, hint, due, next, not_top⟩

end KernelM
end Microkernel
