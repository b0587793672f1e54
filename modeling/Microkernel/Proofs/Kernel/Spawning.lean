import Microkernel.Proofs.Kernel.Identity
import Microkernel.Proofs.Memory.ArgumentList

/-!
# Spawning a process

Whoever spawns a process and is told that this worked out has a child in the slot that was the first
vacant one.  The child runs the program of its parent, without the right to write it, on a stack and
a heap that are zero, and gets the texts that its parent passed when it reads its arguments.  Names
are handed out in increasing order until they go round.
-/

namespace Microkernel

variable {slots : Nat}

/-- What a call leaves that has spawned a process in a slot. -/
structure System.Spawned (before : System slots) (caller slot : Fin slots) (hint : Hint)
    (after : System slots) : Prop where
  /-- The slot was the first that was vacant. -/
  first : before.processes.vacantSlot? = some slot
  /-- Of all vacant slots this one has got a process. -/
  only : ∀ other : Fin slots, (before.processes[other].state = .vacant ∧
    after.processes[other].state ≠ .vacant) ↔ other = slot
  /-- The other slots are as they were, but for the response to the caller. -/
  others : ∀ other : Fin slots, other ≠ slot →
    after.processes[other] = (before.processes.answer caller Response.ok)[other]
  /-- The process is about to begin at the entry that the call names, with the pages of its slot and
  the program of the caller, which it may not write. -/
  new : after.processes[slot].New before.processes[slot].memory
    (before.processes[caller].registers.argument 0)
    (CallM.inherited before.processes[caller].regions)
  /-- The process has a name of its own. -/
  proper : after.processes[slot].pid.Proper
  /-- No process that lived already has that name. -/
  unnamed : ∀ other : Fin slots, before.processes[other].state ≠ .vacant →
    before.processes[other].pid ≠ after.processes[slot].pid
  /-- The stack and the heap are zero. -/
  zero : ∀ address, Extent.Covers ⟨before.processes[slot].memory.stack, Config.stackSize⟩ address ∨
    Extent.Covers ⟨before.processes[slot].memory.heap, Config.heapLimit⟩ address →
      after.memory.get address = 0
  /-- The process reads from its argument page the texts to which the pointers of the caller lead,
  as many as the call says. -/
  arguments : ∃ texts arguments,
    texts.length = before.processes[caller].registers.argument 1 ∧
    before.processes[caller].Passes before.memory
      (before.processes[caller].registers.argument 2) texts ∧
    Arguments.parse? (after.memory.read before.processes[slot].memory.arguments Config.pageSize)
      Config.argumentAddress = some arguments ∧
    arguments.count = texts.length ∧ arguments.toList = texts
  /-- The call asks for the process if that is more important than the caller, and for no switch
  otherwise. -/
  hint : hint = if after.processes[slot].priority.moreImportant before.processes[caller].priority
    then .specific slot.val else .same

variable {before after : System slots} {caller : Fin slots} {hint : Hint} {layout : Layout slots}
  {author : Fin slots → Prop}

/-! ## In a call -/

/-- A process that is spawned is as it should be. -/
theorem SpawnOutcome.spawned (outcome : SpawnOutcome before caller (.ok hint) after)
    (sound : before.toTables.Sound layout author)
    (live : before.processes[caller].state ≠ .vacant) (identified : before.Identified)
    (few : slots ≤ Config.maxProcesses) : ∃ slot, before.Spawned caller slot hint after := by
  cases outcome with
  | started slot free between log hint started chosen texts hands =>
      have vacant := CallM.vacant_of_vacantSlot?_eq_some free
      have different : slot ≠ caller := by
        rintro rfl
        exact live vacant
      obtain ⟨rights, part⟩ := CallM.inherited_sublist sound caller
      have new := started.new sound part
      have caller_kept := started.getElem_of_ne (Ne.symm different)
      have here := between.processes.getElem_answer_of_ne different Response.ok
      have others (other : Fin slots) (apart : other ≠ slot) :
          (between.processes.answer caller Response.ok)[other] =
            (before.processes.answer caller Response.ok)[other] := by
        by_cases same : other = caller
        · rw [same, ProcessTable.getElem_answer_self, ProcessTable.getElem_answer_self, caller_kept]
        · rw [ProcessTable.getElem_answer_of_ne same, ProcessTable.getElem_answer_of_ne same,
            started.getElem_of_ne apart]
      have enough : slots < Pid.limit - 1 := Nat.lt_of_le_of_lt few (by decide)
      have fresh := ProcessTable.findPid?_eq_none_iff.1
        (ProcessTable.findPid?_freshPid before.processes identified.next enough)
      have visible : Config.argumentAddress + Config.pageSize < Word.limit := by decide
      obtain ⟨arguments, parsed, count, all⟩ :=
        Arguments.parse?_of_hasArguments hands.has visible
      refine ⟨slot, free, ?only, others, ?new, ?proper, ?unnamed, started.zero,
        ⟨texts, arguments, hands.number, hands.passes, parsed, count, all⟩, ?hint⟩
      case only =>
        intro other
        constructor
        · rintro ⟨was_vacant, is_live⟩
          apply Classical.byContradiction
          intro apart
          rw [others other apart] at is_live
          by_cases same : other = caller
          · exact live (same ▸ was_vacant)
          · rw [ProcessTable.getElem_answer_of_ne same] at is_live
            exact is_live was_vacant
        · rintro rfl
          rw [here, new.runnable]
          exact ⟨vacant, by simp⟩
      case new =>
        rw [here]
        exact new
      case proper =>
        rw [here, started.named.1]
        exact ProcessTable.proper_freshPid _ _ identified.next
      case unnamed =>
        rw [here, started.named.1]
        exact fresh
      case hint =>
        rw [here, ← caller_kept]
        exact chosen

/-- A call to spawn whose caller finds that it worked out has spawned a process. -/
theorem Handled.spawned (handled : Handled before caller hint after)
    (asked : before.processes[caller].call? = some .spawn)
    (success : after.processes[caller].registers.response = Response.ok)
    (sound : before.toTables.Sound layout author)
    (live : before.processes[caller].state ≠ .vacant) (identified : before.Identified)
    (few : slots ≤ Config.maxProcesses) : ∃ slot, before.Spawned caller slot hint after := by
  cases handled with
  | done outcome =>
      rw [CallOutcome, asked] at outcome
      exact outcome.spawned sound live identified few
  | failed error memory outcome =>
      rw [ProcessTable.getElem_answer_self, Process.respond, Registers.response_respond] at success
      exact absurd success error.code_ne_ok
  | ended fault memory outcome log reaped hint run =>
      -- Whoever is ended still has the entry in the register of the response, which is not zero.
      rw [CallOutcome] at outcome
      simp only [asked] at outcome
      cases outcome with
      | refused _ _ _ _ entered =>
          obtain ⟨released, letsGo, rfl⟩ := Tables.letsGo_reap run
          have kept : released.processes[caller].registers.response =
              before.processes[caller].registers.response :=
            congrArg Registers.response letsGo.registers
          rw [getElem_set_self, Tables.modifyProcess, getElem_set_self] at success
          exact absurd (congrArg UInt64.toNat (kept.symm.trans success)) (entered fault rfl)

/-! ## Names in a run -/

/-- Whether a live process has a name. -/
def System.Names (system : System slots) (pid : Pid) : Prop :=
  ∃ slot : Fin slots, system.processes[slot].state ≠ .vacant ∧ system.processes[slot].pid = pid

/-- Whether the names that were handed out in a run have not gone round: no call has set the next
name back. -/
def NamesAscend (traps : List (Trap slots)) : Prop :=
  ∀ trap ∈ traps, trap.entered.nextPid.number ≤ trap.left.nextPid.number

/-- Whether a process has had a name before or after some call of a run. -/
def HaveNamed (traps : List (Trap slots)) (pid : Pid) : Prop :=
  ∃ trap ∈ traps, trap.entered.Names pid ∨ trap.left.Names pid

/-- Whether every name of a live process is smaller than the next one. -/
def System.NamedBelow (system : System slots) : Prop :=
  ∀ pid, system.Names pid → pid.number < system.nextPid.number

theorem System.NamedBelow.freshPid_eq (below : before.NamedBelow) :
    before.processes.freshPid slots before.nextPid = before.nextPid :=
  ProcessTable.freshPid_of_unnamed fun slot live same =>
    Nat.lt_irrefl _ (below _ ⟨slot, live, same⟩)

theorem Handled.namedBelow (handled : Handled before caller hint after)
    (live : before.processes[caller].state ≠ .vacant) (below : before.NamedBelow)
    (ascends : before.nextPid.number ≤ after.nextPid.number) : after.NamedBelow := by
  rintro _ ⟨slot, slot_live, rfl⟩
  rcases handled.continues_or_starts live slot with continues | starts
  · rw [continues.pid_eq slot_live]
    exact Nat.lt_of_lt_of_le (below _ ⟨slot, continues.live slot_live, rfl⟩) ascends
  · have next_eq := starts.nextPid_eq
    rw [below.freshPid_eq] at next_eq
    rw [starts.pid_eq, below.freshPid_eq]
    rw [next_eq, Pid.number_next] at ascends ⊢
    have three : 2 < Pid.limit := by decide
    split at ascends
    next larger => exact Nat.lt_of_lt_of_eq (Nat.lt_succ_self _) (if_pos larger).symm
    next round => omega

theorem System.NamedBelow.congr (below : before.NamedBelow)
    (live : ∀ slot : Fin slots, after.processes[slot].state ≠ .vacant →
      before.processes[slot].state ≠ .vacant)
    (pid : ∀ slot : Fin slots, after.processes[slot].pid = before.processes[slot].pid)
    (next : after.nextPid = before.nextPid) : after.NamedBelow := by
  rintro _ ⟨slot, slot_live, rfl⟩
  rw [next, pid]
  exact below _ ⟨slot, live slot slot_live, rfl⟩

variable {launch : Launch slots} {traps : List (Trap slots)} {system entered : System slots}

theorem System.UserStep.namedBelow (user : system.UserStep caller entered)
    (below : system.NamedBelow) : entered.NamedBelow :=
  below.congr (fun slot live => user.state_eq slot ▸ live) user.pid_eq user.nextPid_eq

namespace Run

/-- As long as names have not gone round, the next one is larger than all names that there are, and
that there were. -/
theorem namedBelow (run : Run launch traps system) (ascend : NamesAscend traps) :
    system.NamedBelow ∧ ∀ pid, HaveNamed traps pid → pid.number < system.nextPid.number := by
  induction run with
  | start started =>
      have begins := launch.begins started
      obtain ⟨first_name, next_name⟩ := begins.named
      refine ⟨?_, ?_⟩
      · rintro _ ⟨slot, live, rfl⟩
        rw [begins.alone slot live, first_name, next_name]
        exact Nat.lt_succ_self 1
      · rintro pid ⟨trap, member, _⟩
        cases member
  | advance _ ticks passes induction =>
      cases passes
      exact induction ascend
  | trap run trap current user call switch induction =>
      obtain ⟨below, earlier_below⟩ :=
        induction fun earlier member => ascend earlier (List.mem_append_left _ member)
      have ascends := ascend trap (List.mem_append_right _ (List.mem_singleton_self _))
      obtain ⟨runnable, handled, preserved⟩ := run.invariant.handled current user call
      obtain ⟨woken, clock, after_eq, roused, _⟩ := preserved.resumes trap.caller.isLt switch
      have entered_below := user.namedBelow below
      have left_below :=
        handled.namedBelow (Process.live_of_runnable runnable) entered_below ascends
      rw [after_eq]
      refine ⟨left_below.congr (fun slot => (roused slot).remains.live)
        (fun slot => (roused slot).remains.pid) rfl, ?_⟩
      rintro pid ⟨other, member, named⟩
      rcases List.mem_append.1 member with earlier | last
      · refine Nat.lt_of_lt_of_le (earlier_below pid ⟨other, earlier, named⟩) ?_
        rw [← user.nextPid_eq]
        exact ascends
      · cases List.mem_singleton.1 last
        rcases named with before | after
        · exact Nat.lt_of_lt_of_le (entered_below pid before) ascends
        · exact left_below pid after

/-- In a run every call to spawn ends, and if the caller finds that it worked out, then a process
has been spawned.  As long as names have not gone round, the name of that process is larger than all
names that there are or were. -/
theorem spawns (run : Run launch traps system) (few : slots ≤ Config.maxProcesses)
    (current : caller.val = system.current) (user : system.UserStep caller entered)
    (asked : entered.processes[caller].call? = some .spawn) :
    ∃ hint left, KernelM.handleCall caller entered = .ok hint left ∧
      (left.processes[caller].registers.response = Response.ok →
        ∃ slot, entered.Spawned caller slot hint left ∧
          (NamesAscend traps → ∀ pid, entered.Names pid ∨ HaveNamed traps pid →
            pid.number < left.processes[slot].pid.number)) := by
  obtain ⟨hint, left, call⟩ := run.invariant.ends current user
  obtain ⟨runnable, handled, _⟩ := run.invariant.handled current user call
  have live := Process.live_of_runnable runnable
  refine ⟨hint, left, call, fun success => ?_⟩
  obtain ⟨slot, spawned⟩ := handled.spawned asked success (user.sound run.invariant.sound) live
    (user.identified (run.identified few)) few
  refine ⟨slot, spawned, fun ascend => ?_⟩
  obtain ⟨below, earlier_below⟩ := run.namedBelow ascend
  have entered_below := user.namedBelow below
  have name_eq : left.processes[slot].pid = entered.nextPid := by
    obtain ⟨was_vacant, is_live⟩ := (spawned.only slot).2 rfl
    rcases handled.continues_or_starts live slot with continues | starts
    · exact absurd was_vacant (continues.live is_live)
    · rw [starts.pid_eq, entered_below.freshPid_eq]
  rintro pid (now | earlier)
  · rw [name_eq]
    exact entered_below pid now
  · rw [name_eq, user.nextPid_eq]
    exact earlier_below pid earlier

/-- The first process opens a pipe and passes two texts to a child. -/
theorem spawns_small : ∃ (traps : List (Trap 2)) (system : System 2) (spawning : Trap 2),
    Run Launch.small traps system ∧ spawning.Follows system ∧
    spawning.entered.processes[spawning.caller].call? = some .spawn ∧
    spawning.entered.processes[spawning.caller].registers.argument 1 = 2 ∧
    spawning.left.processes[spawning.caller].registers.response = Response.ok ∧
    traps ≠ [] ∧ NamesAscend traps ∧
    ∃ slot, spawning.entered.Spawned spawning.caller slot spawning.hint spawning.left ∧
      ∀ pid, spawning.entered.Names pid ∨ HaveNamed traps pid →
        pid.number < spawning.left.processes[slot].pid.number := by
  have evaluated : (Launch.small.play? [Launch.openMove]).any (fun final =>
      (final.2.perform? Launch.spawnMove).any fun spawning =>
        decide (spawning.entered.processes[spawning.caller].call? = some .spawn ∧
          spawning.entered.processes[spawning.caller].registers.argument 1 = 2 ∧
          spawning.left.processes[spawning.caller].registers.response = Response.ok ∧
          final.1.length = 1 ∧
          ∀ trap ∈ final.1, trap.entered.nextPid.number ≤ trap.left.nextPid.number)) = true := by
    decide +kernel
  simp only [Option.any_eq_true, decide_eq_true_eq] at evaluated
  obtain ⟨⟨traps, system⟩, played, spawning, performed, asked, two, success, one, ascend⟩ :=
    evaluated
  have run := Run.play played
  obtain ⟨current, user, call, switch⟩ := System.of_perform?_eq_some performed
  obtain ⟨hint, left, called, spawned⟩ := run.spawns (by decide) current user asked
  cases call.symm.trans called
  obtain ⟨slot, child, larger⟩ := spawned success
  refine ⟨traps, system, spawning, run, ⟨current, user, call, switch⟩, asked, two, success, ?_,
    ascend, slot, child, larger ascend⟩
  rintro rfl
  cases one

end Run

end Microkernel
