import Microkernel.Proofs.Kernel.Names

/-!
# How a word names a process

Three calls take a word that names a process, zero being the caller.  Those about priorities refuse
a word with more than 32 bits, while the one that obtains a pipe looks at the lower half only.  The
three agree on all words that a name fits into, but a word with more bits may obtain a pipe from a
process that the other two do not find.
-/

namespace Microkernel

open KernelM

variable {slots : Nat}

/-- The slot of the process that a word names: the caller for zero, and otherwise the live process
that has this name. -/
def ProcessTable.named? (processes : ProcessTable slots) (caller : Fin slots) (word : Nat) :
    Option (Fin slots) :=
  if word = 0 then some caller else processes.findPid? ⟨word⟩

/-- Whether the owners of all open pipes are live processes. -/
def Tables.OwnersLive (tables : Tables slots) : Prop :=
  ∀ id pipe, tables.pipes.get? id = some pipe → pipe.hungUp = false →
    ∃ slot : Fin slots, tables.processes[slot].state ≠ .vacant ∧
      tables.processes[slot].pid = pipe.owner

theorem Tables.Named.ownersLive {tables : Tables slots} (named : tables.Named) :
    tables.OwnersLive := by
  intro id pipe found still_open
  obtain ⟨slot, live, own, _⟩ := named.owned id _ _ ⟨pipe, found, still_open, rfl, rfl⟩
  exact ⟨slot, live, own⟩

namespace ProcessTable

variable {processes : ProcessTable slots} {caller slot : Fin slots} {pid : Pid} {word : Nat}

theorem pid_of_findPid?_eq_some (found : processes.findPid? pid = some slot) :
    processes[slot].pid = pid := by
  have named := (findFinIdx?_eq_some_iff.1 found).1
  rw [Bool.and_eq_true, beq_iff_eq] at named
  exact named.2

theorem pid_of_named?_eq_some (found : processes.named? caller word = some slot) :
    processes[slot].pid = if word = 0 then processes[caller].pid else ⟨word⟩ := by
  rw [named?] at found
  split at found
  next zero =>
      cases found
      rw [if_pos zero]
  next other =>
      rw [if_neg other]
      exact pid_of_findPid?_eq_some found

theorem unnamed_of_named?_eq_none (nobody : processes.named? caller word = none) :
    word ≠ 0 ∧ ∀ slot : Fin slots, processes[slot].state ≠ .vacant →
      processes[slot].pid ≠ ⟨word⟩ := by
  rw [named?] at nobody
  split at nobody
  next => cases nobody
  next other => exact ⟨other, findPid?_eq_none_iff.1 nobody⟩

end ProcessTable

/-! ## Priorities -/

namespace System

variable (system : System slots) (caller : Fin slots)

/-- Whether the calls of a process about priorities act on the process in a slot. -/
structure PrioritisesSlot (slot : Fin slots) : Prop where
  /-- A priority that the scheduler accepts goes to this process. -/
  given : Priority.isValid ⟨system.processes[caller].registers.argument 1⟩ = true →
    (CallM.setPriority caller).run system = .ok (.ok .other) { system with
      processes := ProcessTable.answer
        (system.processes.set slot { system.processes[slot] with
          priority := ⟨system.processes[caller].registers.argument 1⟩ } slot.isLt) caller
        Response.ok }
  /-- The priority that the caller is told is the one of this process, if the caller may write it
  where it asks for it. -/
  told : system.processes[caller].registers.argument 1 ≠ 0 → ∀ memory,
    (system.processes[caller].writeElement system.memory .word32
      (system.processes[caller].registers.argument 1)
      system.processes[slot].priority.level).run = .ok (.ok memory) →
    (CallM.getPriority caller).run system = .ok (.ok .same) { system with
      memory, processes := system.processes.answer caller Response.ok }

/-- Whether the calls of a process about priorities are refused because they name nobody. -/
structure PrioritisesNobody : Prop where
  given : (CallM.setPriority caller).run system = .ok (.error (.code .invalidPid .same)) system
  /-- That there is no place for the answer is found out first. -/
  told : system.processes[caller].registers.argument 1 ≠ 0 →
    (CallM.getPriority caller).run system = .ok (.error (.code .invalidPid .same)) system

/-- Whether the calls of a process about priorities act on the process in a slot, or on nobody. -/
def PrioritiesGoBy : Option (Fin slots) → Prop
  | some slot => system.PrioritisesSlot caller slot
  | none => system.PrioritisesNobody caller

end System

namespace CallM

variable {system : System slots} {caller slot : Fin slots}

/-- Asking whom a word names leads to the process, or to a refusal.  A word that no name can be is
refused without a look at the processes. -/
theorem ends_target_iff (word : Nat) (outcome : Except Refusal (Fin slots) → System slots → Prop) :
    (target caller word).run.Ends system outcome ↔
      match if word < Pid.limit then system.processes.named? caller word else none with
      | some slot => outcome (.ok slot) system
      | none => outcome (.error (.code .invalidPid .same)) system := by
  simp only [target, ends_run_ite, ends_run_bind, ends_run_get, ends_orRefuse, ends_run_pure,
    ends_refuse, ProcessTable.named?, Pid.isCaller, Pid.caller, beq_iff_eq, Pid.mk.injEq]
  split
  next =>
      split
      next => rfl
      next => cases system.processes.findPid? ⟨word⟩ <;> rfl
  next => rfl

/-- The calls about priorities act on the process that the first argument names, if it can be a
name at all. -/
theorem prioritiesGoBy_target (system : System slots) (caller : Fin slots) :
    system.PrioritiesGoBy caller
      (if system.processes[caller].registers.argument 0 < Pid.limit then
        system.processes.named? caller (system.processes[caller].registers.argument 0)
      else none) := by
  generalize target_eq : (if system.processes[caller].registers.argument 0 < Pid.limit then
    system.processes.named? caller (system.processes[caller].registers.argument 0)
    else none) = target
  cases target with
  | some slot =>
      constructor
      · intro valid
        apply run_eq_ok_iff.2
        simp only [setPriority, ends_run_bind, ends_callProcess, ends_target_iff, target_eq,
          ends_run_ite, if_pos valid, ends_kernel, ends_updateProcess, ends_respond, ends_run_pure]
        refine ⟨_, ?_, trivial, rfl⟩
        rw [Process.setPriority, require, if_pos valid]
        rfl
      · intro somewhere memory stored
        apply run_eq_ok_iff.2
        simp only [getPriority, ends_run_bind, ends_callProcess, ends_run_ite, if_neg somewhere,
          ends_target_iff, target_eq, storeElement, ends_run_get, ends_guarded, stored,
          ends_run_modify, ends_kernel, ends_respond, ends_run_pure]
        exact ⟨_, rfl, trivial, rfl⟩
  | none =>
      constructor
      · apply run_eq_ok_iff.2
        simp only [setPriority, ends_run_bind, ends_callProcess, ends_target_iff, target_eq,
          and_self]
      · intro somewhere
        apply run_eq_ok_iff.2
        simp only [getPriority, ends_run_bind, ends_callProcess, ends_run_ite, if_neg somewhere,
          ends_target_iff, target_eq, and_self]

/-! ## Pipes -/

/-- Obtain a handle on the pipe that an owner has under the name at the second argument. -/
def obtainFrom (caller : Fin slots) (owner : Pid) : CallM slots Hint := do
  let process ← process caller
  match ← readName process (process.registers.argument 1) with
  | none => respondHandle caller none
  | some name => applyHandle caller (sharePipe? (← get).toTables caller owner name)

theorem run_process_bind {α : Type} (system : System slots) (caller : Fin slots)
    (next : Process → CallM slots α) :
    (process caller >>= next).run system = (next system.processes[caller]).run system :=
  rfl

theorem pipeGet_run_eq (system : System slots) (caller : Fin slots) :
    (pipeGet caller).run system =
      (obtainFrom caller system.processes[caller].askedOwner).run system := by
  rw [obtainFrom, run_process_bind, ← Process.askedOwner_eq]
  exact run_process_bind system caller _

theorem obtainFrom_run_of_unowned {owner : Pid} (owned : system.toTables.OwnersLive)
    (nobody : ∀ slot : Fin slots, system.processes[slot].state ≠ .vacant →
      system.processes[slot].pid ≠ owner) {name : Option (List UInt8)}
    (reads : (readName system.processes[caller]
      (system.processes[caller].registers.argument 1)).run system = .ok (.ok name) system) :
    (obtainFrom caller owner).run system = .ok (.ok .same) { system with
      processes := system.processes.answer caller PipeHandle.null.word.toUInt64 } := by
  have unshared (text : List UInt8) : sharePipe? system.toTables caller owner text = none := by
    rw [Option.eq_none_iff_forall_ne_some]
    rintro ⟨shared, handle⟩ found
    obtain ⟨id, ⟨pipe, here, still_open, rfl, _⟩, _⟩ := Tables.names_of_sharePipe? found
    obtain ⟨slot, live, own⟩ := owned id pipe here still_open
    exact nobody slot live own
  apply run_eq_ok_iff.2
  simp only [obtainFrom, ends_run_bind, ends_callProcess, ends_of_run reads]
  cases name with
  | none =>
      simp only [respondHandle, ends_run_bind, ends_kernel, ends_respond, ends_run_pure]
      exact ⟨trivial, rfl⟩
  | some text =>
      simp only [ends_run_bind, ends_run_get, applyHandle, unshared, respondHandle, ends_kernel,
        ends_respond, ends_run_pure]
      exact ⟨trivial, rfl⟩

end CallM

namespace System

variable {system : System slots} {caller : Fin slots}

/-- Whether the call of a process that obtains a pipe looks among those of the process in a slot, or
among nobody's. -/
def PipesGoBy (system : System slots) (caller : Fin slots) : Option (Fin slots) → Prop
  | some slot =>
      (CallM.pipeGet caller).run system =
        (CallM.obtainFrom caller system.processes[slot].pid).run system
  | none => ∀ name, (CallM.readName system.processes[caller]
      (system.processes[caller].registers.argument 1)).run system = .ok (.ok name) system →
        (CallM.pipeGet caller).run system = .ok (.ok .same) { system with
          processes := system.processes.answer caller PipeHandle.null.word.toUInt64 }

/-- The call that obtains a pipe goes by the lower half of the word. -/
theorem pipesGoBy_low (owned : system.toTables.OwnersLive) (caller : Fin slots) :
    system.PipesGoBy caller (system.processes.named? caller
      (system.processes[caller].registers.argument 0 % Pid.limit)) := by
  cases found : system.processes.named? caller
      (system.processes[caller].registers.argument 0 % Pid.limit) with
  | some slot =>
      rw [PipesGoBy, ProcessTable.pid_of_named?_eq_some found]
      exact CallM.pipeGet_run_eq system caller
  | none =>
      intro name reads
      obtain ⟨other, nobody⟩ := ProcessTable.unnamed_of_named?_eq_none found
      have owner_eq : system.processes[caller].askedOwner =
          ⟨system.processes[caller].registers.argument 0 % Pid.limit⟩ := if_neg other
      rw [CallM.pipeGet_run_eq, owner_eq]
      exact CallM.obtainFrom_run_of_unowned owned nobody reads

/-- While the owners of all open pipes live, the three calls that take a word for a process go by
the same process, as long as the word has no more than 32 bits: the caller for zero, and otherwise
the live process that has this name.  If there is none, those about priorities are refused and the
other obtains nothing.  A word with more bits is refused by those about priorities, whereas the one
that obtains a pipe goes by the lower half of the word. -/
theorem words_agree_below (system : System slots) (caller : Fin slots)
    (owned : system.toTables.OwnersLive) :
    (system.processes[caller].registers.argument 0 < Pid.limit →
      system.PrioritiesGoBy caller (system.processes.named? caller
        (system.processes[caller].registers.argument 0)) ∧
      system.PipesGoBy caller (system.processes.named? caller
        (system.processes[caller].registers.argument 0))) ∧
    (Pid.limit ≤ system.processes[caller].registers.argument 0 →
      system.PrioritiesGoBy caller none ∧
      system.PipesGoBy caller (system.processes.named? caller
        (system.processes[caller].registers.argument 0 % Pid.limit))) := by
  have priorities := CallM.prioritiesGoBy_target system caller
  have pipes := pipesGoBy_low owned caller
  constructor
  · intro small
    rw [if_pos small] at priorities
    rw [Nat.mod_eq_of_lt small] at pipes
    exact ⟨priorities, pipes⟩
  · intro large
    rw [if_neg (Nat.not_lt.2 large)] at priorities
    exact ⟨priorities, pipes⟩

/-- The second process asks for a pipe of the first by the name of the first, and it would act on
the first as well if it asked about priorities. -/
theorem words_agree_below_small : ∃ system : System 2, Reached Launch.small system ∧
    system.toTables.OwnersLive ∧ system.processes[(1 : Fin 2)].registers.argument 0 = 1 ∧
    system.PrioritiesGoBy 1 (some 0) ∧ system.PipesGoBy 1 (some 0) := by
  have evaluated : (Launch.small.play? (Launch.familyScript 1 ++
      [Launch.calling 0x80010 .setPriority 2 20 0])).any (fun final =>
        (final.2.perform? (Launch.calling 0x147000 .pipeGet 1 0x80010 0)).any fun trap =>
          decide (trap.entered.processes[(1 : Fin 2)].registers.argument 0 = 1 ∧
            trap.entered.processes.named? 1 1 = some 0)) = true := by
    decide +kernel
  simp only [Option.any_eq_true, decide_eq_true_eq] at evaluated
  obtain ⟨final, played, trap, performed, word, found⟩ := evaluated
  obtain ⟨current, user, _⟩ := System.of_perform?_eq_some performed
  have reached := Reached.entered (Run.play played) current user
  have owned := reached.named.ownersLive
  have agree := (words_agree_below trap.entered 1 owned).1 (by rw [word]; decide)
  rw [word, found] at agree
  exact ⟨trap.entered, reached, owned, word, agree⟩

/-- A word beyond the names is refused by the calls about priorities, and yet the second process
obtains the pipe of the first with it. -/
theorem word_beyond_obtains : ∃ (system : System 2) (hint : Hint) (left : System 2),
    Reached Launch.small system ∧ system.toTables.OwnersLive ∧
    system.processes[(1 : Fin 2)].registers.argument 0 = 0x100000001 ∧
    system.PrioritiesGoBy 1 none ∧
    system.processes[(1 : Fin 2)].call? = some .pipeGet ∧
    KernelM.handleCall 1 system = .ok hint left ∧
    left.processes[(1 : Fin 2)].registers.response ≠ PipeHandle.null.word.toUInt64 := by
  have evaluated : (Launch.small.play? (Launch.familyScript 1 ++
      [Launch.calling 0x80010 .setPriority 2 20 0])).any (fun final =>
        (final.2.perform? (Launch.calling 0x147000 .pipeGet 0x100000001 0x80010 0)).any fun trap =>
          decide (trap.entered.processes[(1 : Fin 2)].call? = some .pipeGet ∧
            trap.entered.processes[(1 : Fin 2)].registers.argument 0 = 0x100000001 ∧
            trap.entered.processes[(1 : Fin 2)].registers.argument 1 = 0x80010 ∧
            (trap.entered.processes[(1 : Fin 2)].readString trap.entered.memory 0x80010
              Config.pipeNameLimit).run = .ok (.ok (.complete [112])) ∧
            (trap.entered.pipes.lookup? ⟨1⟩ [112]).isSome ∧
            trap.entered.processes[(1 : Fin 2)].handles[(⟨0, by decide⟩ : Fin Config.maxHandles)] =
              none)) = true := by
    decide +kernel
  simp only [Option.any_eq_true, decide_eq_true_eq] at evaluated
  obtain ⟨final, played, trap, performed, asked, word, place, read, opened, room⟩ := evaluated
  obtain ⟨current, user, _⟩ := System.of_perform?_eq_some performed
  have reached := Reached.entered (Run.play played) current user
  have refused := CallM.prioritiesGoBy_target trap.entered 1
  rw [word, if_neg (by decide)] at refused
  have owner : trap.entered.processes[(1 : Fin 2)].askedOwner = ⟨1⟩ := by
    rw [Process.askedOwner, word]
    rfl
  have reads := CallM.readName_of_readString (by decide) (by simp) read
  rw [← place] at reads
  obtain ⟨id, opened⟩ := Option.isSome_iff_exists.1 opened
  obtain ⟨hint, left, call, obtains⟩ :=
    KernelM.handleCall_pipeGet reached.calls_eq reached.named asked reads
  obtain ⟨leads, _⟩ := obtains.found id _ rfl
    (owner ▸ PipeTable.lookup?_eq_some opened) (.inr ⟨_, room⟩)
  refine ⟨trap.entered, hint, left, reached, reached.named.ownersLive, word, refused, asked, call,
    fun null => ?_⟩
  rw [null, Process.pipeOf?_null] at leads
  cases leads

end System

end Microkernel
