import Microkernel.Proofs.Execution
import Microkernel.Proofs.Tables.Hints
import Microkernel.Proofs.Tables.Obtain

/-!
# Steps that the scheduler does not notice

Most of what calls do changes memory, registers, regions, handles or pipes, and nothing that the
scheduler looks at.  This holds of any system, sound or not, as long as the step comes to an end.
-/

namespace Microkernel

variable {slots : Nat} {α β : Type}

/-- Whether no time has passed, and nothing has changed that the scheduler looks at. -/
structure System.Calm (before after : System slots) : Prop where
  /-- No time has passed. -/
  clock_eq : after.clock = before.clock
  /-- The scheduler takes the processes for the same. -/
  processes : before.processes.Calm after.processes

namespace System.Calm

variable {before between after : System slots}

theorem refl (system : System slots) : system.Calm system :=
  ⟨rfl, .refl _⟩

theorem trans (first : before.Calm between) (second : between.Calm after) : before.Calm after :=
  ⟨second.clock_eq.trans first.clock_eq, first.processes.trans second.processes⟩

end System.Calm

namespace KernelM

/-- Whether a computation does nothing that the scheduler notices, if it ends. -/
def Calms (action : KernelM slots α) : Prop :=
  ∀ before value after, action before = .ok value after → before.Calm after

theorem calms_logLine (line : String) : (logLine line : KernelM slots Unit).Calms := by
  rintro before value after ⟨⟩
  exact ⟨rfl, .refl _⟩

theorem calms_modifyMemory (change : Memory → Memory) :
    (modifyMemory change : KernelM slots Unit).Calms := by
  rintro before value after ⟨⟩
  exact ⟨rfl, .refl _⟩

theorem calms_respond (slot : Fin slots) (response : UInt64) : (respond slot response).Calms := by
  rintro before value after ⟨⟩
  exact ⟨rfl, ProcessTable.calm_set _ slot rfl rfl rfl⟩

theorem calms_onMemory (change : MemoryM α) : (onMemory change : KernelM slots α).Calms := by
  intro before value after run
  have ends : (onMemory change).Ends before fun _ left => left = after :=
    ⟨value, after, run, rfl⟩
  rw [ends_onMemory] at ends
  obtain ⟨_, memory, _, rfl⟩ := ends
  exact ⟨rfl, .refl _⟩

theorem calms_updateProcess (slot : Fin slots) {change : Process → Checked Process}
    (keeps : ∀ process changed, change process = .ok changed → changed.state = process.state ∧
      changed.priority = process.priority ∧ changed.deadline = process.deadline) :
    (updateProcess slot change).Calms := by
  intro before value after run
  have ends : (updateProcess slot change).Ends before fun _ left => left = after :=
    ⟨value, after, run, rfl⟩
  rw [ends_updateProcess] at ends
  obtain ⟨changed, change_run, rfl⟩ := ends
  obtain ⟨state, priority, deadline⟩ := keeps _ _ change_run
  exact ⟨rfl, ProcessTable.calm_set _ slot state priority deadline⟩

end KernelM

namespace CallM

open KernelM

/-- Whether a part of a call does nothing that the scheduler notices, and does not ask for a switch
if it turns the call away. -/
def Steady (action : CallM slots α) : Prop :=
  ∀ before result after, action.run before = .ok result after → before.Calm after ∧
    ∀ error hint, result = .error (.code error hint) → hint = .same

theorem Steady.bind {action : CallM slots α} {next : α → CallM slots β} (first : action.Steady)
    (second : ∀ value, (next value).Steady) : (action >>= next).Steady := by
  intro before result after run
  have ends := run_eq_ok_iff.1 run
  rw [ends_run_bind] at ends
  obtain ⟨found, between, first_run, rest⟩ := ends
  obtain ⟨calm, refused⟩ := first before found between first_run
  cases found with
  | ok value =>
      obtain ⟨_, _, second_run, rfl, rfl⟩ := rest
      obtain ⟨calm_again, refused_again⟩ := second value _ _ _ second_run
      exact ⟨calm.trans calm_again, refused_again⟩
  | error refusal =>
      obtain ⟨rfl, rfl⟩ := rest
      refine ⟨calm, fun error hint same => refused error hint ?_⟩
      cases same
      rfl

theorem steady_pure (value : α) : (pure value : CallM slots α).Steady := by
  rintro before result after ⟨⟩
  exact ⟨.refl _, by rintro _ _ ⟨⟩⟩

theorem steady_refuse (error : ErrorCode) : (refuse error : CallM slots α).Steady := by
  rintro before result after ⟨⟩
  refine ⟨.refl _, ?_⟩
  rintro _ _ ⟨⟩
  rfl

theorem steady_orRefuse (error : ErrorCode) (found : Option α) :
    (orRefuse error found : CallM slots α).Steady := by
  cases found with
  | none => exact steady_refuse error
  | some value => exact steady_pure value

theorem steady_get : (get : CallM slots (System slots)).Steady := by
  rintro before result after ⟨⟩
  exact ⟨.refl _, by rintro _ _ ⟨⟩⟩

theorem steady_modify {change : System slots → System slots}
    (calm : ∀ system : System slots, system.Calm (change system)) :
    (modify change : CallM slots PUnit).Steady := by
  rintro before result after ⟨⟩
  exact ⟨calm before, by rintro _ _ ⟨⟩⟩

theorem steady_kernel {action : KernelM slots α} (calms : action.Calms) :
    (kernel action).Steady := by
  intro before result after run
  have ends := run_eq_ok_iff.1 run
  rw [ends_kernel] at ends
  obtain ⟨value, left, kernel_run, rfl, rfl⟩ := ends
  exact ⟨calms before value _ kernel_run, by rintro _ _ ⟨⟩⟩

theorem steady_guarded (result : Guarded α) : (liftM result : CallM slots α).Steady := by
  intro before found after run
  have ends := run_eq_ok_iff.1 run
  rw [ends_guarded] at ends
  obtain ⟨outcome, _, rfl, rfl⟩ := ends
  refine ⟨.refl _, fun error hint refused => ?_⟩
  cases outcome with
  | ok value => cases refused
  | error fault => cases refused

theorem steady_checked (result : Checked α) : (liftM result : CallM slots α).Steady := by
  intro before found after run
  have ends := run_eq_ok_iff.1 run
  rw [ends_checked] at ends
  obtain ⟨value, _, rfl, rfl⟩ := ends
  exact ⟨.refl _, by rintro _ _ ⟨⟩⟩

theorem steady_process (slot : Fin slots) : (CallM.process slot).Steady := by
  rintro before result after ⟨⟩
  exact ⟨.refl _, by rintro _ _ ⟨⟩⟩

theorem steady_argument (caller : Fin slots) (place : Fin 5) :
    (CallM.argument caller place).Steady := by
  rintro before result after ⟨⟩
  exact ⟨.refl _, by rintro _ _ ⟨⟩⟩

theorem steady_respond (caller : Fin slots) (response : UInt64) :
    (kernel (KernelM.respond caller response)).Steady :=
  steady_kernel (calms_respond caller response)

theorem steady_storeElement (caller : Fin slots) (layout : ElementLayout) (address number : Nat) :
    (storeElement caller layout address number).Steady := by
  refine .bind (steady_process caller) fun process => .bind steady_get fun system => ?_
  exact .bind (steady_guarded _) fun memory => steady_modify fun system => ⟨rfl, .refl _⟩

theorem steady_readString (process : Process) (address most : Nat) :
    (CallM.readString process address most : CallM slots UserString).Steady :=
  .bind steady_get fun _ => steady_guarded _

theorem steady_target (caller : Fin slots) (word : Nat) : (target caller word).Steady := by
  rw [target]
  split
  · split
    · exact steady_pure caller
    · exact .bind steady_get fun system => steady_orRefuse _ _
  · exact steady_refuse _

theorem steady_readName (process : Process) (address : Nat) :
    (readName process address : CallM slots (Option (List UInt8))).Steady := by
  rw [readName]
  split
  · exact steady_pure none
  · refine .bind (steady_readString process address _) fun text => ?_
    split
    · exact steady_pure none
    · exact steady_pure none
    · exact steady_pure _

theorem steady_transferArguments (process : Process) :
    (transferArguments process : CallM slots Transfer).Steady := by
  refine .bind (steady_orRefuse _ _) fun pipe => ?_
  dsimp only
  split
  · exact steady_refuse _
  · split
    · exact steady_pure _
    · exact .bind (steady_guarded _) fun _ => steady_pure _

theorem steady_reportCount (caller : Fin slots) (transfer : Transfer) (count : Nat) :
    (reportCount caller transfer count).Steady := by
  rw [reportCount]
  split
  · exact steady_pure _
  · exact steady_storeElement caller _ _ _

theorem steady_complete (caller : Fin slots) (transfer : Transfer) (count : Nat) :
    (complete caller transfer count).Steady :=
  .bind (steady_reportCount caller transfer count) fun _ => steady_respond caller _

theorem steady_putPipe (id : PipeId) (pipe : Pipe) :
    (putPipe id pipe : CallM slots Unit).Steady :=
  steady_modify fun _ => ⟨rfl, .refl _⟩

theorem steady_copyArguments (process : Process) (writer : ArgumentWriter) (table left : Nat) :
    (copyArguments process writer table left : CallM slots ArgumentWriter).Steady := by
  induction left generalizing writer table with
  | zero => exact steady_pure writer
  | succ left induction =>
      refine .bind steady_get fun system => ?_
      dsimp only
      split
      · exact steady_refuse _
      · refine .bind (steady_readString process _ _) fun text => ?_
        split
        · exact steady_refuse _
        · refine .bind (steady_kernel (calms_onMemory _)) fun pushed => ?_
          exact .bind (steady_orRefuse _ _) fun larger => induction larger _

end CallM
end Microkernel
