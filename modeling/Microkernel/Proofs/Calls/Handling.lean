import Microkernel.Proofs.Calls.Spawn
import Microkernel.Proofs.Calls.Transfer

/-!
# Every call is handled

Whatever the registers of a process hold, the handler for its call ends without a crash, and so does
the kernel when it settles the outcome.  On the way it stores only where the caller may write, or,
to spawn a process, in the pages of the slot that the new process takes.
-/

namespace Microkernel

namespace CallTable

variable {α : Type}

private theorem lookup?_foldl_register? (handler : Syscall → α) (calls : List Syscall)
    (distinct : (calls.map Syscall.number).Pairwise (· ≠ ·))
    (small : ∀ call ∈ calls, call.number < Config.callLimit) (table : CallTable α)
    (free : ∀ call ∈ calls, table.lookup? call.number = none) (number : Nat) :
    (calls.foldl (fun table call =>
      (table.register? call.number (handler call)).getD table) table).lookup? number =
        ((calls.find? fun call => call.number == number).map handler).or
          (table.lookup? number) := by
  induction calls generalizing table with
  | nil => rfl
  | cons call rest induction =>
      have inside := small call List.mem_cons_self
      have vacant := free call List.mem_cons_self
      rw [lookup?, Vector.getElem?_eq_getElem inside, Option.join_some] at vacant
      have registered : table.register? call.number (handler call) =
          some (table.set call.number (some (handler call))) := by
        rw [register?, dif_pos inside, vacant]
      have lookup_set (other : Nat) :
          CallTable.lookup? (table.set call.number (some (handler call))) other =
            if call.number = other then some (handler call) else table.lookup? other := by
        rw [lookup?, Vector.getElem?_set]
        split
        · rfl
        · rfl
      rw [List.map_cons, List.pairwise_cons] at distinct
      rw [List.foldl_cons, registered, Option.getD_some, induction distinct.2
        (fun other member => small other (List.mem_cons_of_mem _ member)) _ ?_, lookup_set,
        List.find?_cons]
      · by_cases same : call.number = number
        · have absent : rest.find? (fun other => other.number == number) = none := by
            rw [List.find?_eq_none]
            intro other member here
            have other_same : other.number = number := by simpa using here
            exact distinct.1 _ (List.mem_map_of_mem member) (same.trans other_same.symm)
          simp [same, absent]
        · have differs : (call.number == number) = false := by simpa using same
          simp [same, differs]
      · intro other member
        rw [lookup_set, if_neg (distinct.1 _ (List.mem_map_of_mem member))]
        exact free other (List.mem_cons_of_mem _ member)

/-- A new table has the kernel's own handlers under their numbers and no others. -/
theorem lookup?_withBuiltins (handler : Syscall → α) (number : Nat) :
    (withBuiltins handler).lookup? number = (Syscall.ofNumber? number).map handler := by
  have empty_lookup (place : Nat) : (empty : CallTable α).lookup? place = none := by
    rw [lookup?, empty, Vector.getElem?_replicate]
    split <;> rfl
  rw [withBuiltins, lookup?_foldl_register? handler Syscall.all (by decide) (by decide) _
    (fun call _ => empty_lookup call.number), empty_lookup, Option.or_none]
  rfl

end CallTable

variable {slots : Nat}

/-- What the call of a process can come to. -/
def CallOutcome (before : System slots) (caller : Fin slots) (result : Except Refusal Hint)
    (after : System slots) : Prop :=
  match before.processes[caller].call? with
  | some .pipeRead => CallM.ReadOutcome before caller result after
  | some .pipeWrite => CallM.WriteOutcome before caller result after
  | some .spawn => SpawnOutcome before caller result after
  | _ => Outcome before caller result after

/-- Where a call may store: where the caller may write, and to spawn a process in the pages of the
first vacant slot. -/
def System.Reaches (system : System slots) (caller : Fin slots) (address : Nat) : Prop :=
  system.processes[caller].May .write address ∨
    (system.processes[caller].call? = some .spawn ∧ ∃ slot : Fin slots,
      system.processes.vacantSlot? = some slot ∧ system.processes[slot].memory.Owns address)

namespace CallM

open KernelM

variable {system : System slots} {layout : Layout slots} {author : Fin slots → Prop}
  {caller : Fin slots}

/-- The handler for the call of a process ends, and stores only where it may. -/
theorem handle_run (sound : system.toTables.Sound layout author)
    (calls : system.calls = .withBuiltins .builtin)
    (able : system.processes[caller].state ≠ .vacant ∨
      system.processes[caller].call? ≠ some .sleep) :
    (handle (system.calls.lookup? system.processes[caller].registers.callNumber)
      caller).run.Ends system fun result after =>
        CallOutcome system caller result after ∧
          system.memory.ChangesOnly after.memory (system.Reaches caller) := by
  have bounded := (sound.slot caller).bounded (layout.houses caller)
  have plain {action : CallM slots Hint} (run : action.run.Ends system (Settles system caller)) :
      action.run.Ends system fun result after => Outcome system caller result after ∧
        system.memory.ChangesOnly after.memory (system.Reaches caller) :=
    run.mono fun _ _ settles => ⟨settles.1, settles.2.mono fun _ => .inl⟩
  rw [calls, CallTable.lookup?_withBuiltins]
  simp only [CallOutcome]
  change Ends (handle (system.processes[caller].call?.map Handler.builtin) caller).run _ _
  cases called : system.processes[caller].call? with
  | none =>
      refine plain ?_
      simp only [Option.map_none, handle, ends_refuse]
      exact settles_refused _
  | some call =>
      cases call with
      | exit =>
          obtain ⟨reaped, hint, run, _⟩ := sound.reap caller
          exact plain (exit_run ⟨reaped, hint, run⟩ called)
      | print => exact plain (print_run bounded called)
      | getPid => exact plain getPid_run
      | debug => exact plain (debug_run called)
      | spawn =>
          refine (spawn_run sound).mono fun result after spawns => ⟨spawns.1, ?_⟩
          exact spawns.2.mono fun address owns => .inr ⟨called, owns⟩
      | sleep =>
          refine plain (sleep_run ?_ called)
          rcases able with live | other
          · exact live
          · exact absurd called other
      | yield => exact plain yield_run
      | setPriority => exact plain (setPriority_run called)
      | getPriority => exact plain (getPriority_run bounded called)
      | moveBreak => exact plain (moveBreak_run called)
      | pipeOpen => exact plain (pipeOpen_run bounded called)
      | pipeClose => exact plain (pipeClose_run sound called)
      | pipeGet => exact plain (pipeGet_run bounded called)
      | pipeRead =>
          exact (pipeRead_run sound).mono fun result after transfers =>
            ⟨transfers.1, transfers.2.mono fun _ => .inl⟩
      | pipeWrite =>
          exact (pipeWrite_run sound).mono fun result after transfers =>
            ⟨transfers.1, transfers.2.mono fun _ => .inl⟩

end CallM

section

variable {before after : System slots} {caller : Fin slots} {refusal : Refusal}

/-- A call that is turned away has at most stored something, and asks for no switch. -/
theorem CallOutcome.turnedAway (outcome : CallOutcome before caller (.error refusal) after) :
    (∃ memory, after = { before with memory }) ∧
      ∀ error hint, refusal = .code error hint → hint = .same := by
  rw [CallOutcome] at outcome
  split at outcome
  · cases outcome with
    | refused _ hint => exact ⟨⟨_, rfl⟩, hint⟩
  · cases outcome with
    | refused _ hint => exact ⟨⟨_, rfl⟩, hint⟩
    | hungUp => exact ⟨⟨_, rfl⟩, by rintro _ _ ⟨⟩; rfl⟩
  · cases outcome with
    | refused _ memory hint => exact ⟨⟨_, rfl⟩, hint⟩
  · cases outcome with
    | refused _ hint => exact ⟨⟨_, rfl⟩, hint⟩

theorem CallOutcome.not_turned_away {transfer : CallM.Transfer}
    (asked : before.processes[caller].call? = some .pipeRead)
    (valid : transfer.ValidFor before.processes[caller] .write) :
    ¬ CallOutcome before caller (.error refusal) after := by
  intro outcome
  simp only [CallOutcome, asked] at outcome
  cases outcome with
  | refused _ _ invalid => exact invalid transfer valid

/-- A write with which everything is in order is turned away only because the pipe is hung up. -/
theorem CallOutcome.of_turned_away (outcome : CallOutcome before caller (.error refusal) after)
    {transfer : CallM.Transfer} (asked : before.processes[caller].call? = some .pipeWrite)
    (valid : transfer.ValidFor before.processes[caller] .read) :
    refusal = .code .pipeClosed .same ∧ transfer.size ≠ 0 ∧
      after.memory = transfer.reported before.memory 0 ∧
        ∃ pipe, before.pipes.get? transfer.pipe = some pipe ∧ pipe.hungUp = true := by
  simp only [CallOutcome, asked] at outcome
  cases outcome with
  | refused _ _ invalid => exact absurd valid (invalid transfer)
  | hungUp other too pipe found closed wanted =>
      cases valid.toRequestedBy.unique too
      exact ⟨rfl, wanted, rfl, pipe, found, closed⟩

end

/-- What handling a call comes to: the outcome of the call, with an error code put into the caller's
registers and a fault punished. -/
inductive Handled (before : System slots) (caller : Fin slots) :
    Hint → System slots → Prop where
  | done {hint : Hint} {after : System slots}
      (outcome : CallOutcome before caller (.ok hint) after) :
      Handled before caller hint after
  | failed (error : ErrorCode) (memory : Memory)
      (outcome : CallOutcome before caller (.error (.code error .same)) { before with memory }) :
      Handled before caller .same { before with
        memory, processes := before.processes.answer caller error.code }
  | ended (fault : Fault) (memory : Memory)
      (outcome : CallOutcome before caller (.error (.fault fault)) { before with memory })
      (log : List String) (reaped : Tables slots) (hint : Hint)
      (run : before.toTables.reap caller = .ok (reaped, hint)) :
      Handled before caller hint { before with
        memory, log
        pipes := reaped.pipes
        processes := reaped.processes.set caller
          { reaped.processes[caller] with lastFault := some fault } caller.isLt }

namespace KernelM

variable {system : System slots} {layout : Layout slots} {author : Fin slots → Prop}
  {caller : Fin slots}

/-- Handling a call ends, unless a vacant slot is to sleep, and stores only where the call may. -/
theorem handleCall_run (sound : system.toTables.Sound layout author)
    (calls : system.calls = .withBuiltins .builtin)
    (able : system.processes[caller].state ≠ .vacant ∨
      system.processes[caller].call? ≠ some .sleep) :
    (handleCall caller).Ends system fun hint after =>
      Handled system caller hint after ∧
        system.memory.ChangesOnly after.memory (system.Reaches caller) := by
  simp only [handleCall, ends_bind, ends_process, ends_get]
  refine (CallM.handle_run sound calls able).mono ?_
  rintro result between ⟨outcome, changes⟩
  cases result with
  | ok hint =>
      simp only [settle, ends_pure]
      exact ⟨.done outcome, changes⟩
  | error refusal =>
      obtain ⟨⟨memory, rfl⟩, same⟩ := outcome.turnedAway
      cases refusal with
      | code error hint =>
          have := same error hint rfl
          subst this
          simp only [settle, ends_bind, ends_respond, ends_pure]
          exact ⟨.failed error memory outcome, changes⟩
      | fault fault =>
          obtain ⟨reaped, hint, run, _⟩ := sound.reap caller
          simp only [settle, endForFault, ends_bind, ends_process, ends_logLine, KernelM.reap,
            ends_onTables, ends_modifyProcess, ends_pure]
          exact ⟨reaped, hint, run, .ended fault memory outcome _ reaped hint run, changes⟩

theorem ends_handleCall (calls : system.calls = .withBuiltins .builtin) {call : Syscall}
    (asked : system.processes[caller].call? = some call) (outcome : Hint → System slots → Prop) :
    (handleCall caller).Ends system outcome ↔
      (CallM.builtin call caller).run.Ends system fun result between =>
        (settle caller result).Ends between outcome := by
  simp only [handleCall, ends_bind, ends_process, ends_get]
  rw [calls, CallTable.lookup?_withBuiltins]
  change Ends (CallM.handle (system.processes[caller].call?.map Handler.builtin) caller).run _ _ ↔ _
  rw [asked]
  rfl

end KernelM
end Microkernel
