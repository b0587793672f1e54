import Microkernel.Proofs.Execution
import Microkernel.Proofs.Process.Checks

/-!
# What a call learns from memory

Two systems that differ in memory alone can be told apart only by reading.  A part of the kernel
that reads no more than some places does the same on both if their memories agree there: it ends in
the same way, with the same result and the same tables, and stores the same bytes.  This holds of
any system, sound or not, and also of a computation that crashes.
-/

namespace Microkernel

variable {slots : Nat} {α β ε : Type} {readable : Nat → Prop}

/-! ## Computations that only store -/

/-- Whether a change of memory does the same whatever memory holds. -/
def MemoryM.Blind (change : MemoryM α) : Prop :=
  ∀ first second, ∃ firstAfter secondAfter,
    Memory.ChangeAlike first firstAfter second secondAfter ∧
      ((∃ value, change first = .ok value firstAfter ∧ change second = .ok value secondAfter) ∨
        ∃ crash, change first = .error crash firstAfter ∧
          change second = .error crash secondAfter)

namespace MemoryM

theorem blind_pure (value : α) : Blind (pure value : MemoryM α) :=
  fun first second => ⟨first, second, .refl _ _, .inl ⟨value, rfl, rfl⟩⟩

theorem blind_throw (crash : Crash) : Blind (throw crash : MemoryM α) :=
  fun first second => ⟨first, second, .refl _ _, .inr ⟨crash, rfl, rfl⟩⟩

theorem blind_write (address : Nat) (bytes : List UInt8) :
    Blind (modify fun memory => memory.write address bytes : MemoryM Unit) :=
  fun first second =>
    ⟨_, _, Memory.changeAlike_write first second address bytes, .inl ⟨(), rfl, rfl⟩⟩

theorem Blind.bind {change : MemoryM α} {next : α → MemoryM β} (blind : Blind change)
    (blind_next : ∀ value, Blind (next value)) : Blind (change >>= next) := by
  intro first second
  obtain ⟨firstBetween, secondBetween, alike, ⟨value, first_run, second_run⟩ |
    ⟨crash, first_run, second_run⟩⟩ := blind first second
  · obtain ⟨firstAfter, secondAfter, later_alike, outcome⟩ :=
      blind_next value firstBetween secondBetween
    refine ⟨firstAfter, secondAfter, alike.trans later_alike, ?_⟩
    rw [bind_of_ok first_run, bind_of_ok second_run]
    exact outcome
  · refine ⟨firstBetween, secondBetween, alike, .inr ⟨crash, ?_, ?_⟩⟩
    · exact bind_of_error first_run
    · exact bind_of_error second_run

end MemoryM

namespace ArgumentWriter

theorem blind_push? (writer : ArgumentWriter) (text : List UInt8) :
    MemoryM.Blind (writer.push? text) := by
  rw [push?]
  split
  · exact MemoryM.blind_pure none
  · refine (MemoryM.blind_write _ _).bind fun _ => ?_
    split
    · exact MemoryM.blind_throw _
    · exact (MemoryM.blind_write _ _).bind fun _ => MemoryM.blind_pure _

theorem blind_finish (writer : ArgumentWriter) : MemoryM.Blind writer.finish := by
  rw [finish]
  split
  · refine (MemoryM.blind_write _ _).bind fun _ => ?_
    exact (MemoryM.blind_write _ _).bind fun _ => MemoryM.blind_pure _
  · exact MemoryM.blind_throw _

end ArgumentWriter

/-! ## Computations of the kernel -/

namespace KernelM

/-- How a computation ends on two systems that differ in memory alone: with the same result and the
same crash, and with systems that again differ in memory alone, which has changed alike. -/
inductive EndAlike (first second : Memory) :
    EStateM.Result Crash (System slots) α → EStateM.Result Crash (System slots) α → Prop where
  | ok (value : α) (after : System slots) (firstAfter secondAfter : Memory)
      (alike : Memory.ChangeAlike first firstAfter second secondAfter) :
      EndAlike first second (.ok value { after with memory := firstAfter })
        (.ok value { after with memory := secondAfter })
  | error (crash : Crash) (after : System slots) (firstAfter secondAfter : Memory)
      (alike : Memory.ChangeAlike first firstAfter second secondAfter) :
      EndAlike first second (.error crash { after with memory := firstAfter })
        (.error crash { after with memory := secondAfter })

/-- Whether a computation that starts from a system does the same on memories that agree on what is
readable. -/
def DiscreetFrom (readable : Nat → Prop) (action : KernelM slots α) (system : System slots) :
    Prop :=
  ∀ first second : Memory, first.AgreeOn second readable →
    EndAlike first second (action { system with memory := first })
      (action { system with memory := second })

/-- Whether a computation does the same on memories that agree on what is readable. -/
def Discreet (readable : Nat → Prop) (action : KernelM slots α) : Prop :=
  ∀ system, action.DiscreetFrom readable system

theorem EndAlike.after {first firstBetween second secondBetween : Memory}
    {firstResult secondResult : EStateM.Result Crash (System slots) α}
    (ends : EndAlike firstBetween secondBetween firstResult secondResult)
    (alike : Memory.ChangeAlike first firstBetween second secondBetween) :
    EndAlike first second firstResult secondResult := by
  cases ends with
  | ok value after firstAfter secondAfter later => exact .ok value after _ _ (alike.trans later)
  | error crash after firstAfter secondAfter later =>
      exact .error crash after _ _ (alike.trans later)

theorem DiscreetFrom.bind {action : KernelM slots α} {next : α → KernelM slots β}
    {system : System slots} (discreet : action.DiscreetFrom readable system)
    (discreet_next : ∀ value, (next value).Discreet readable) :
    (action >>= next).DiscreetFrom readable system := by
  intro first second agree
  have ends := discreet first second agree
  simp only [Bind.bind, EStateM.bind]
  generalize action { system with memory := first } = firstResult at ends
  generalize action { system with memory := second } = secondResult at ends
  cases ends with
  | ok value after firstAfter secondAfter alike =>
      exact (discreet_next value after _ _ (alike.agreeOn agree)).after alike
  | error crash after firstAfter secondAfter alike => exact .error crash after _ _ alike

theorem Discreet.bind {action : KernelM slots α} {next : α → KernelM slots β}
    (discreet : action.Discreet readable)
    (discreet_next : ∀ value, (next value).Discreet readable) :
    (action >>= next).Discreet readable :=
  fun system => (discreet system).bind discreet_next

theorem discreet_pure (value : α) : (pure value : KernelM slots α).Discreet readable :=
  fun system first second _ => .ok value system first second (.refl _ _)

theorem discreet_ofChecked (result : Checked α) :
    (ofChecked result : KernelM slots α).Discreet readable := by
  intro system first second _
  cases result with
  | ok value => exact .ok value system first second (.refl _ _)
  | error crash => exact .error crash system first second (.refl _ _)

theorem discreet_modify {change : System slots → System slots}
    (apart : ∀ (system : System slots) (memory : Memory),
      change { system with memory } = { change system with memory }) :
    (modify change : KernelM slots PUnit).Discreet readable := by
  intro system first second _
  have ends := EndAlike.ok PUnit.unit (change system) first second (.refl _ _)
  rw [← apart, ← apart] at ends
  exact ends

theorem discreet_modifyMemory {change : Memory → Memory}
    (alike : ∀ first second, Memory.ChangeAlike first (change first) second (change second)) :
    (modifyMemory change : KernelM slots Unit).Discreet readable :=
  fun system first second _ => .ok () system _ _ (alike first second)

theorem discreet_process (slot : Fin slots) : (process slot).Discreet readable :=
  fun system first second _ => .ok _ system first second (.refl _ _)

theorem discreet_get {next : System slots → KernelM slots β}
    (same : ∀ (system : System slots) (first second : Memory), first.AgreeOn second readable →
      next { system with memory := first } = next { system with memory := second })
    (discreet : ∀ system, (next system).Discreet readable) :
    (get >>= next).Discreet readable := by
  intro system first second agree
  rw [bind_of_ok (run_get _), bind_of_ok (run_get _), same system first second agree]
  exact discreet _ system first second agree

theorem discreet_updateProcess (slot : Fin slots) (change : Process → Checked Process) :
    (updateProcess slot change).Discreet readable :=
  (discreet_process slot).bind fun _ => (discreet_ofChecked _).bind fun _ =>
    discreet_modify fun _ _ => rfl

theorem discreet_respond (slot : Fin slots) (response : UInt64) :
    (respond slot response).Discreet readable :=
  discreet_modify fun _ _ => rfl

theorem discreet_logLine (line : String) : (logLine line : KernelM slots Unit).Discreet readable :=
  discreet_modify fun _ _ => rfl

theorem discreet_onTables (change : Tables slots → Checked (Tables slots × Hint)) :
    (onTables change).Discreet readable := by
  intro system first second _
  rw [onTables, bind_of_ok (run_get _), bind_of_ok (run_get _)]
  cases change system.toTables with
  | ok result =>
      exact .ok result.2 { system with toTables := result.1 } first second (.refl _ _)
  | error crash => exact .error crash system first second (.refl _ _)

theorem discreet_wake (slot : Fin slots) (blocked : ProcessState → Bool) :
    (wake slot blocked).Discreet readable :=
  fun system first second _ => .ok _
    { system with processes := (system.processes.wake slot blocked).1 } first second (.refl _ _)

theorem discreet_onMemory {change : MemoryM α} (blind : change.Blind) :
    (onMemory change : KernelM slots α).Discreet readable := by
  intro system first second _
  rw [onMemory, bind_of_ok (run_get _), bind_of_ok (run_get _)]
  simp only [EStateM.run]
  obtain ⟨firstAfter, secondAfter, alike, ⟨value, first_run, second_run⟩ |
    ⟨crash, first_run, second_run⟩⟩ := blind first second
  · rw [first_run, second_run]
    exact .ok value system firstAfter secondAfter alike
  · rw [first_run, second_run]
    exact .error crash system firstAfter secondAfter alike

theorem discreet_allocatePid : (allocatePid : KernelM slots Pid).Discreet readable :=
  fun system first second _ => .ok _
    { system with nextPid := (system.processes.freshPid slots system.nextPid).next }
    first second (.refl _ _)

theorem discreet_zeroPages (address pages : Nat) :
    (zeroPages address pages : KernelM slots Unit).Discreet readable := by
  intro system first second _
  rw [zeroPages, bind_of_ok (run_get _), bind_of_ok (run_get _)]
  simp only [Paging.zeroPages]
  cases require (address % Config.pageSize = 0) with
  | error crash => exact .error crash system first second (.refl _ _)
  | ok aligned =>
      cases Word.product pages (Config.pageSize / 8) with
      | error crash => exact .error crash system first second (.refl _ _)
      | ok words =>
          exact .ok () system _ _ (Memory.changeAlike_fill first second address (words * 8) 0)

/-! ## Computations that can be refused -/

theorem DiscreetFrom.run_bind {action : ExceptT ε (KernelM slots) α}
    {next : α → ExceptT ε (KernelM slots) β} {system : System slots}
    (discreet : action.run.DiscreetFrom readable system)
    (discreet_next : ∀ value, (next value).run.Discreet readable) :
    (action >>= next).run.DiscreetFrom readable system := by
  rw [ExceptT.run_bind]
  refine discreet.bind fun result => ?_
  cases result with
  | ok value => exact discreet_next value
  | error refusal => exact discreet_pure _

theorem Discreet.run_bind {action : ExceptT ε (KernelM slots) α}
    {next : α → ExceptT ε (KernelM slots) β} (discreet : action.run.Discreet readable)
    (discreet_next : ∀ value, (next value).run.Discreet readable) :
    (action >>= next).run.Discreet readable :=
  fun system => (discreet system).run_bind discreet_next

theorem discreet_run_pure (value : α) :
    (pure value : ExceptT ε (KernelM slots) α).run.Discreet readable :=
  discreet_pure _

theorem discreet_run_throw (refusal : ε) :
    (throw refusal : ExceptT ε (KernelM slots) α).run.Discreet readable :=
  discreet_pure _

theorem Discreet.run_lift {action : KernelM slots α} (discreet : action.Discreet readable) :
    (ExceptT.lift action : ExceptT ε (KernelM slots) α).run.Discreet readable := by
  rw [ExceptT.run_lift]
  exact discreet.bind fun _ => discreet_pure _

theorem discreet_run_modify {change : System slots → System slots}
    (apart : ∀ (system : System slots) (memory : Memory),
      change { system with memory } = { change system with memory }) :
    (modify change : ExceptT ε (KernelM slots) PUnit).run.Discreet readable :=
  (discreet_modify apart).run_lift

theorem discreet_run_get {next : System slots → ExceptT ε (KernelM slots) β}
    (same : ∀ (system : System slots) (first second : Memory), first.AgreeOn second readable →
      next { system with memory := first } = next { system with memory := second })
    (discreet : ∀ system, (next system).run.Discreet readable) :
    (get >>= next).run.Discreet readable := by
  change (get >>= fun system => (next system).run : KernelM slots (Except ε β)).Discreet readable
  refine discreet_get (fun system first second agree => ?_) discreet
  rw [same system first second agree]

end KernelM

namespace CallM

open KernelM

theorem discreet_refuse (error : ErrorCode) :
    (refuse error : CallM slots α).run.Discreet readable :=
  discreet_run_throw _

theorem discreet_orRefuse (error : ErrorCode) (found : Option α) :
    (orRefuse error found : CallM slots α).run.Discreet readable := by
  cases found with
  | none => exact discreet_refuse error
  | some value => exact discreet_run_pure value

theorem discreet_callProcess (slot : Fin slots) :
    (CallM.process slot).run.Discreet readable :=
  (discreet_process slot).run_lift

/-- What comes after a look at a process may be discreet for that process alone. -/
theorem discreetFrom_of_process {slot : Fin slots} {next : Process → CallM slots β}
    {system : System slots}
    (discreet : (next system.processes[slot]).run.Discreet readable) :
    (CallM.process slot >>= next).run.DiscreetFrom readable system :=
  discreet system

theorem discreet_argument (caller : Fin slots) (place : Fin 5) :
    (CallM.argument caller place).run.Discreet readable :=
  (discreet_callProcess caller).run_bind fun _ => discreet_run_pure _

/-- What comes after a guarded computation may rely on what that has found. -/
theorem discreet_guarded_bind {result : Guarded α} {next : α → CallM slots β}
    (passed : ∀ value, result.run = .ok (.ok value) → (next value).run.Discreet readable) :
    (liftM result >>= next : CallM slots β).run.Discreet readable := by
  obtain ⟨crash⟩ | ⟨⟨fault⟩ | ⟨value⟩⟩ := result
  · exact fun system first second _ => .error crash system first second (.refl _ _)
  · exact fun system first second _ =>
      .ok (Except.error (Refusal.fault fault)) system first second (.refl _ _)
  · exact passed value rfl

theorem discreet_guarded (result : Guarded α) :
    (liftM result : CallM slots α).run.Discreet readable := by
  obtain ⟨crash⟩ | ⟨⟨fault⟩ | ⟨value⟩⟩ := result
  · exact fun system first second _ => .error crash system first second (.refl _ _)
  · exact discreet_run_throw (Refusal.fault fault)
  · exact discreet_run_pure value

theorem discreet_checked (result : Checked α) :
    (liftM result : CallM slots α).run.Discreet readable := by
  have same : (liftM result : CallM slots α).run =
      (kernel (ofChecked result) : CallM slots α).run := by
    funext system
    cases result <;> rfl
  rw [same]
  exact (discreet_ofChecked result).run_lift

end CallM
end Microkernel
