import Microkernel.Kernel.Dispatch

/-!
# Running the kernel

`KernelM.Ends` says of a computation of the kernel that it comes to an end without a crash, with
which result and in which state.  The rules below run a computation step by step: each of them
replaces a step by what it does to the state.
-/

namespace Microkernel

section

variable {α β ε σ : Type} {action : EStateM ε σ α} {next : α → EStateM ε σ β} {before after : σ}

theorem bind_of_ok {value : α} (run : action before = .ok value after) :
    (action >>= next) before = next value after := by
  simp only [bind, EStateM.bind, run]

theorem bind_of_error {error : ε} (run : action before = .error error after) :
    (action >>= next) before = .error error after := by
  simp only [bind, EStateM.bind, run]

theorem bind_eq_ok_iff {result : β} :
    (action >>= next) before = .ok result after ↔
      ∃ value between, action before = .ok value between ∧
        next value between = .ok result after := by
  constructor
  · intro run
    cases first : action before with
    | ok value between => exact ⟨value, between, rfl, (bind_of_ok first).symm.trans run⟩
    | error error left => cases (bind_of_error first).symm.trans run
  · rintro ⟨value, between, first, run⟩
    exact (bind_of_ok first).trans run

theorem run_get (state : σ) : (get : EStateM ε σ σ) state = .ok state state :=
  rfl

end

namespace KernelM

variable {slots : Nat} {α β ε : Type}

/-- The computation ends without a crash, with a result and a state that fit `outcome`. -/
def Ends (action : KernelM slots α) (before : System slots)
    (outcome : α → System slots → Prop) : Prop :=
  ∃ value after, action before = .ok value after ∧ outcome value after

theorem Ends.mono {action : KernelM slots α} {before : System slots}
    {outcome weaker : α → System slots → Prop} (ends : action.Ends before outcome)
    (implies : ∀ value after, outcome value after → weaker value after) :
    action.Ends before weaker := by
  obtain ⟨value, after, run, holds⟩ := ends
  exact ⟨value, after, run, implies value after holds⟩

theorem ends_of_run {action : KernelM slots α} {before after : System slots} {value : α}
    (run : action before = .ok value after) (outcome : α → System slots → Prop) :
    action.Ends before outcome ↔ outcome value after := by
  constructor
  · rintro ⟨found, left, found_run, holds⟩
    rw [run] at found_run
    cases found_run
    exact holds
  · intro holds
    exact ⟨value, after, run, holds⟩

/-- What is known of the end of a computation is all that there is to its run. -/
theorem run_eq_ok_iff {action : KernelM slots α} {before after : System slots} {value : α} :
    action before = .ok value after ↔
      action.Ends before fun found left => found = value ∧ left = after := by
  constructor
  · exact fun run => ⟨value, after, run, rfl, rfl⟩
  · rintro ⟨_, _, run, rfl, rfl⟩
    exact run

@[simp] theorem ends_bind (action : KernelM slots α) (next : α → KernelM slots β)
    (before : System slots) (outcome : β → System slots → Prop) :
    (action >>= next).Ends before outcome ↔
      action.Ends before fun value between => (next value).Ends between outcome := by
  constructor
  · rintro ⟨value, after, run, holds⟩
    obtain ⟨first, between, first_run, rest⟩ := bind_eq_ok_iff.1 run
    exact ⟨first, between, first_run, value, after, rest, holds⟩
  · rintro ⟨first, between, first_run, value, after, rest, holds⟩
    exact ⟨value, after, bind_eq_ok_iff.2 ⟨first, between, first_run, rest⟩, holds⟩

@[simp] theorem ends_map (action : KernelM slots α) (change : α → β) (before : System slots)
    (outcome : β → System slots → Prop) :
    (change <$> action).Ends before outcome ↔
      action.Ends before fun value after => outcome (change value) after := by
  change (action >>= fun value => pure (change value)).Ends before outcome ↔ _
  rw [ends_bind]
  have last (value : α) (after : System slots) :
      (pure (change value) : KernelM slots β).Ends after outcome ↔
        outcome (change value) after := ends_of_run rfl _
  simp only [last]

@[simp] theorem ends_pure (value : α) (before : System slots)
    (outcome : α → System slots → Prop) :
    (pure value : KernelM slots α).Ends before outcome ↔ outcome value before :=
  ends_of_run rfl outcome

@[simp] theorem ends_get (before : System slots)
    (outcome : System slots → System slots → Prop) :
    (get : KernelM slots (System slots)).Ends before outcome ↔ outcome before before :=
  ends_of_run rfl outcome

@[simp] theorem ends_set (system before : System slots)
    (outcome : PUnit → System slots → Prop) :
    (set system : KernelM slots PUnit).Ends before outcome ↔ outcome .unit system :=
  ends_of_run rfl outcome

@[simp] theorem ends_modify (change : System slots → System slots) (before : System slots)
    (outcome : PUnit → System slots → Prop) :
    (modify change : KernelM slots PUnit).Ends before outcome ↔ outcome .unit (change before) :=
  ends_of_run rfl outcome

@[simp] theorem ends_ofChecked (result : Checked α) (before : System slots)
    (outcome : α → System slots → Prop) :
    (ofChecked result : KernelM slots α).Ends before outcome ↔
      ∃ value, result = .ok value ∧ outcome value before := by
  cases result with
  | ok value => simp [ofChecked]
  | error crash =>
      simp only [ofChecked, reduceCtorEq, false_and, exists_false, iff_false]
      rintro ⟨value, after, run, holds⟩
      cases run

/-! ## Steps of the kernel -/

@[simp] theorem ends_process (slot : Fin slots) (before : System slots)
    (outcome : Process → System slots → Prop) :
    (process slot).Ends before outcome ↔ outcome before.processes[slot] before :=
  ends_of_run rfl outcome

@[simp] theorem ends_setProcess (slot : Fin slots) (process : Process) (before : System slots)
    (outcome : Unit → System slots → Prop) :
    (setProcess slot process).Ends before outcome ↔
      outcome () { before with processes := before.processes.set slot process slot.isLt } :=
  ends_of_run rfl outcome

@[simp] theorem ends_modifyProcess (slot : Fin slots) (change : Process → Process)
    (before : System slots) (outcome : Unit → System slots → Prop) :
    (modifyProcess slot change).Ends before outcome ↔
      outcome ()
        { before with
          processes := before.processes.set slot (change before.processes[slot]) slot.isLt } :=
  ends_of_run rfl outcome

@[simp] theorem ends_updateProcess (slot : Fin slots) (change : Process → Checked Process)
    (before : System slots) (outcome : Unit → System slots → Prop) :
    (updateProcess slot change).Ends before outcome ↔
      ∃ process, change before.processes[slot] = .ok process ∧
        outcome () { before with processes := before.processes.set slot process slot.isLt } := by
  simp [updateProcess]

@[simp] theorem ends_respond (slot : Fin slots) (response : UInt64) (before : System slots)
    (outcome : Unit → System slots → Prop) :
    (respond slot response).Ends before outcome ↔
      outcome () { before with
        processes :=
          before.processes.set slot (before.processes[slot].respond response) slot.isLt } :=
  ends_of_run rfl outcome

@[simp] theorem ends_logLine (line : String) (before : System slots)
    (outcome : Unit → System slots → Prop) :
    (logLine line).Ends before outcome ↔
      outcome () { before with log := before.log ++ [line] } :=
  ends_of_run rfl outcome

@[simp] theorem ends_modifyMemory (change : Memory → Memory) (before : System slots)
    (outcome : Unit → System slots → Prop) :
    (modifyMemory change).Ends before outcome ↔
      outcome () { before with memory := change before.memory } :=
  ends_of_run rfl outcome

@[simp] theorem ends_onTables (change : Tables slots → Checked (Tables slots × Hint))
    (before : System slots) (outcome : Hint → System slots → Prop) :
    (onTables change).Ends before outcome ↔
      ∃ tables hint, change before.toTables = .ok (tables, hint) ∧
        outcome hint { before with toTables := tables } := by
  simp [onTables]

@[simp] theorem ends_wake (slot : Fin slots) (blocked : ProcessState → Bool)
    (before : System slots) (outcome : Hint → System slots → Prop) :
    (wake slot blocked).Ends before outcome ↔
      outcome (before.processes.wake slot blocked).2
        { before with processes := (before.processes.wake slot blocked).1 } :=
  ends_of_run rfl outcome

@[simp] theorem ends_onMemory (change : MemoryM α) (before : System slots)
    (outcome : α → System slots → Prop) :
    (onMemory change).Ends before outcome ↔
      ∃ value memory, change before.memory = .ok value memory ∧
        outcome value { before with memory } := by
  simp only [onMemory, ends_bind, ends_get, EStateM.run]
  cases change before.memory with
  | ok value memory =>
      simp only [ends_bind, ends_set, ends_pure, EStateM.Result.ok.injEq]
      constructor
      · exact fun holds => ⟨value, memory, ⟨rfl, rfl⟩, holds⟩
      · rintro ⟨_, _, ⟨rfl, rfl⟩, holds⟩
        exact holds
  | error crash memory =>
      simp only [ends_bind, ends_set, reduceCtorEq, false_and, exists_false, iff_false]
      rintro ⟨value, after, run, holds⟩
      cases run

/-! ## Computations that can be refused -/

/-- What is left of a computation after a refusal is skipped. -/
@[simp] theorem ends_run_bind (action : ExceptT ε (KernelM slots) α)
    (next : α → ExceptT ε (KernelM slots) β) (before : System slots)
    (outcome : Except ε β → System slots → Prop) :
    (action >>= next).run.Ends before outcome ↔
      action.run.Ends before fun result between => match result with
        | .ok value => (next value).run.Ends between outcome
        | .error refusal => outcome (.error refusal) between := by
  rw [ExceptT.run_bind, ends_bind]
  unfold Ends
  refine exists_congr fun result => exists_congr fun between => and_congr_right fun _ => ?_
  cases result with
  | ok value => rfl
  | error refusal => exact ends_pure _ _ _

@[simp] theorem ends_run_pure (value : α) (before : System slots)
    (outcome : Except ε α → System slots → Prop) :
    (pure value : ExceptT ε (KernelM slots) α).run.Ends before outcome ↔
      outcome (.ok value) before :=
  ends_of_run rfl outcome

@[simp] theorem ends_run_throw (refusal : ε) (before : System slots)
    (outcome : Except ε α → System slots → Prop) :
    (throw refusal : ExceptT ε (KernelM slots) α).run.Ends before outcome ↔
      outcome (.error refusal) before :=
  ends_of_run rfl outcome

@[simp] theorem ends_run_lift (action : KernelM slots α) (before : System slots)
    (outcome : Except ε α → System slots → Prop) :
    (ExceptT.lift action : ExceptT ε (KernelM slots) α).run.Ends before outcome ↔
      action.Ends before fun value after => outcome (.ok value) after := by
  rw [ExceptT.run_lift, ends_map]

@[simp] theorem ends_run_get (before : System slots)
    (outcome : Except ε (System slots) → System slots → Prop) :
    (get : ExceptT ε (KernelM slots) (System slots)).run.Ends before outcome ↔
      outcome (.ok before) before :=
  ends_of_run rfl outcome

@[simp] theorem ends_run_modify (change : System slots → System slots) (before : System slots)
    (outcome : Except ε PUnit → System slots → Prop) :
    (modify change : ExceptT ε (KernelM slots) PUnit).run.Ends before outcome ↔
      outcome (.ok .unit) (change before) :=
  ends_of_run rfl outcome

theorem ends_run_ite (condition : Prop) [Decidable condition]
    (first second : ExceptT ε (KernelM slots) α) (before : System slots)
    (outcome : Except ε α → System slots → Prop) :
    (if condition then first else second).run.Ends before outcome ↔
      if condition then first.run.Ends before outcome else second.run.Ends before outcome := by
  split <;> rfl

end KernelM

namespace CallM

open KernelM

variable {slots : Nat} {α : Type}

@[simp] theorem ends_kernel (action : KernelM slots α) (before : System slots)
    (outcome : Except Refusal α → System slots → Prop) :
    (kernel action).run.Ends before outcome ↔
      action.Ends before fun value after => outcome (.ok value) after :=
  ends_run_lift action before outcome

@[simp] theorem ends_callProcess (slot : Fin slots) (before : System slots)
    (outcome : Except Refusal Process → System slots → Prop) :
    (CallM.process slot).run.Ends before outcome ↔
      outcome (.ok before.processes[slot]) before := by
  simp [CallM.process]

@[simp] theorem ends_argument (caller : Fin slots) (place : Fin 5) (before : System slots)
    (outcome : Except Refusal Nat → System slots → Prop) :
    (CallM.argument caller place).run.Ends before outcome ↔
      outcome (.ok (before.processes[caller].registers.argument place)) before := by
  simp [CallM.argument, Except.map]

@[simp] theorem ends_refuse (error : ErrorCode) (before : System slots)
    (outcome : Except Refusal α → System slots → Prop) :
    (refuse error : CallM slots α).run.Ends before outcome ↔
      outcome (.error (.code error .same)) before :=
  ends_run_throw _ before outcome

@[simp] theorem ends_orRefuse (error : ErrorCode) (found : Option α) (before : System slots)
    (outcome : Except Refusal α → System slots → Prop) :
    (orRefuse error found : CallM slots α).run.Ends before outcome ↔
      match found with
      | some value => outcome (.ok value) before
      | none => outcome (.error (.code error .same)) before := by
  cases found <;> simp [orRefuse]

/-- The refusal that a guarded computation leads to. -/
def ofFault : Except Fault α → Except Refusal α
  | .ok value => .ok value
  | .error fault => .error (.fault fault)

@[simp] theorem ofFault_ok (value : α) : ofFault (.ok value) = .ok value := rfl

@[simp] theorem ofFault_error (fault : Fault) :
    ofFault (.error fault : Except Fault α) = .error (.fault fault) := rfl

@[simp] theorem ends_guarded (result : Guarded α) (before : System slots)
    (outcome : Except Refusal α → System slots → Prop) :
    (liftM result : CallM slots α).run.Ends before outcome ↔
      ∃ found, result.run = .ok found ∧ outcome (ofFault found) before := by
  change (ofGuarded result : CallM slots α).run.Ends before outcome ↔ _
  rw [ofGuarded, ends_run_bind, ends_kernel, ends_ofChecked]
  refine exists_congr fun found => and_congr_right fun _ => ?_
  cases found <;> simp

@[simp] theorem ends_checked (result : Checked α) (before : System slots)
    (outcome : Except Refusal α → System slots → Prop) :
    (liftM result : CallM slots α).run.Ends before outcome ↔
      ∃ value, result = .ok value ∧ outcome (.ok value) before := by
  have same : (liftM result : CallM slots α).run =
      (kernel (ofChecked result) : CallM slots α).run := by
    funext system
    cases result <;> rfl
  rw [same, ends_kernel, ends_ofChecked]

end CallM

namespace StartM

open KernelM

variable {slots : Nat} {α : Type}

@[simp] theorem ends_startKernel (action : KernelM slots α) (before : System slots)
    (outcome : Except ErrorCode α → System slots → Prop) :
    (StartM.kernel action).run.Ends before outcome ↔
      action.Ends before fun value after => outcome (.ok value) after :=
  ends_run_lift action before outcome

@[simp] theorem ends_startChecked (result : Checked α) (before : System slots)
    (outcome : Except ErrorCode α → System slots → Prop) :
    (liftM result : StartM slots α).run.Ends before outcome ↔
      ∃ value, result = .ok value ∧ outcome (.ok value) before := by
  change (StartM.kernel (ofChecked result) : StartM slots α).run.Ends before outcome ↔ _
  rw [ends_startKernel, ends_ofChecked]

end StartM
end Microkernel
