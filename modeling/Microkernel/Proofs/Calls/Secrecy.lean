import Microkernel.Proofs.Calls.Discreet

/-!
# A call reads what its caller may read

Every handler looks at memory only after it has checked that the caller may read there, so that its
outcome, and what it stores, does not depend on any other byte.
-/

namespace Microkernel

variable {slots : Nat} {α : Type} {readable : Nat → Prop} {process : Process}
  {system : System slots} {caller : Fin slots}

namespace CallM

open KernelM

theorem discreet_answer (caller : Fin slots) (response : UInt64) (hint : Hint) :
    (do
      kernel (KernelM.respond caller response)
      return hint : CallM slots Hint).run.Discreet readable :=
  (discreet_respond caller response).run_lift.run_bind fun _ => discreet_run_pure _

theorem discreet_storeElement (caller : Fin slots) (layout : ElementLayout)
    (address number : Nat) :
    (storeElement caller layout address number).run.Discreet readable := by
  refine (discreet_callProcess caller).run_bind fun process => ?_
  intro system first second _
  simp only [Process.writeElement]
  generalize process.checkPlace layout address = checked
  obtain ⟨crash⟩ | ⟨⟨fault⟩ | ⟨⟨⟩⟩⟩ := checked
  · exact .error crash system first second (.refl _ _)
  · exact .ok (Except.error (Refusal.fault fault)) system first second (.refl _ _)
  · exact .ok (Except.ok PUnit.unit) system _ _ (Memory.changeAlike_write first second _ _)

theorem discreet_readString (bounded : process.Bounded) (address most : Nat) :
    (CallM.readString process address most : CallM slots UserString).run.Discreet
      (process.May .read) := by
  refine discreet_run_get (fun system first second agree => ?_) fun system => ?_
  · simp only [process.readString_eq bounded agree]
  · exact discreet_guarded _

theorem discreet_checkSlice (bounded : process.Bounded) {layout : ElementLayout}
    (sized : layout.size ≠ 0) (base length : Nat) (needed : Rights) {next : CallM slots α}
    (passed : (∀ address, Extent.Covers ⟨base, length * layout.size⟩ address →
      process.May needed address) → next.run.Discreet readable) :
    (do
      process.checkAccess (← UserSlice.ofRaw layout base length) needed
      next : CallM slots α).run.Discreet readable := by
  refine discreet_guarded_bind fun slice made => discreet_guarded_bind fun _ allowed => passed ?_
  intro address covered
  rcases UserSlice.ofRaw_run layout base length sized with
    ⟨found, run, extent, _⟩ | ⟨fault, run⟩
  · cases made.symm.trans run
    rcases Process.checkAccess_run bounded slice needed with ⟨_, may⟩ | ⟨fault, run⟩
    · exact may address (extent ▸ covered)
    · cases allowed.symm.trans run
  · cases made.symm.trans run

/-! ## Calls about processes -/

theorem discreet_exit (caller : Fin slots) : (exit caller).run.Discreet readable := by
  refine (discreet_callProcess caller).run_bind fun process => ?_
  refine (discreet_logLine _).run_lift.run_bind fun _ => ?_
  exact (discreet_onTables _).run_lift

theorem discreet_print (bounded : system.processes[caller].Bounded) :
    (print caller).run.DiscreetFrom (system.processes[caller].May .read) system := by
  apply discreetFrom_of_process
  dsimp only
  split
  · exact discreet_refuse _
  · refine (discreet_readString bounded _ _).run_bind fun text => ?_
    refine (discreet_logLine _).run_lift.run_bind fun _ => ?_
    exact discreet_answer caller _ _

theorem discreet_getPid (caller : Fin slots) : (getPid caller).run.Discreet readable :=
  (discreet_callProcess caller).run_bind fun _ => discreet_answer caller _ _

theorem discreet_debug (caller : Fin slots) : (debug caller).run.Discreet readable := by
  refine (discreet_callProcess caller).run_bind fun process => ?_
  refine (discreet_logLine _).run_lift.run_bind fun _ => ?_
  exact discreet_answer caller _ _

theorem discreet_sleep (caller : Fin slots) : (sleep caller).run.Discreet readable := by
  refine (discreet_argument caller 0).run_bind fun microseconds => ?_
  refine (discreet_respond caller _).run_lift.run_bind fun _ => ?_
  split
  · exact discreet_run_pure _
  · refine discreet_run_get (fun _ _ _ _ => rfl) fun system => ?_
    exact (discreet_updateProcess caller _).run_lift.run_bind fun _ => discreet_run_pure _

theorem discreet_yield (caller : Fin slots) : (yield caller).run.Discreet readable :=
  discreet_answer caller _ _

theorem discreet_target (caller : Fin slots) (word : Nat) :
    (target caller word).run.Discreet readable := by
  rw [target]
  split
  · split
    · exact discreet_run_pure _
    · exact discreet_run_get (fun _ _ _ _ => rfl) fun system => discreet_orRefuse _ _
  · exact discreet_refuse _

theorem discreet_setPriority (caller : Fin slots) :
    (setPriority caller).run.Discreet readable := by
  refine (discreet_callProcess caller).run_bind fun process => ?_
  refine (discreet_target caller _).run_bind fun slot => ?_
  dsimp only
  split
  · refine (discreet_updateProcess slot _).run_lift.run_bind fun _ => ?_
    exact discreet_answer caller _ _
  · exact discreet_refuse _

theorem discreet_getPriority (caller : Fin slots) :
    (getPriority caller).run.Discreet readable := by
  refine (discreet_callProcess caller).run_bind fun process => ?_
  dsimp only
  split
  · exact discreet_refuse _
  · refine (discreet_target caller _).run_bind fun slot => ?_
    refine (discreet_callProcess slot).run_bind fun named => ?_
    refine (discreet_storeElement caller _ _ _).run_bind fun _ => ?_
    exact discreet_answer caller _ _

theorem discreet_moveBreak (caller : Fin slots) : (moveBreak caller).run.Discreet readable := by
  refine (discreet_callProcess caller).run_bind fun process => ?_
  refine (discreet_argument caller 0).run_bind fun increment => ?_
  dsimp only
  split
  · refine (discreet_updateProcess caller _).run_lift.run_bind fun _ => ?_
    exact discreet_answer caller _ _
  · exact discreet_answer caller _ _

/-! ## Spawning -/

/-- Copying arguments reads the table of pointers, which the process may read, and texts that it may
read. -/
theorem discreet_copyArguments (bounded : process.Bounded) (writer : ArgumentWriter)
    (table left : Nat)
    (inside : ∀ offset < left * pointerSize, process.May .read (table + offset)) :
    (copyArguments process writer table left : CallM slots ArgumentWriter).run.Discreet
      (process.May .read) := by
  induction left generalizing writer table with
  | zero => exact discreet_run_pure writer
  | succ left induction =>
      have here : ∀ offset < 8, process.May .read (table + offset) := by
        intro offset small
        exact inside offset (by simp only [pointerSize]; omega)
      have behind : ∀ offset < left * pointerSize,
          process.May .read (table + pointerSize + offset) := by
        intro offset small
        rw [Nat.add_assoc]
        exact inside _ (by simp only [pointerSize] at *; omega)
      refine discreet_run_get (fun system first second agree => ?_) fun system => ?_
      · simp only [agree.readWord_eq here]
      · dsimp only
        split
        · exact discreet_refuse _
        · refine (discreet_readString bounded _ _).run_bind fun text => ?_
          split
          · exact discreet_refuse _
          · refine (discreet_onMemory (writer.blind_push? _)).run_lift.run_bind fun pushed => ?_
            exact (discreet_orRefuse _ _).run_bind fun larger => induction larger _ behind

section Map

open Memory

variable (first second : Memory)

private theorem changeAlike_store (table index : Nat) (descriptor : Descriptor) :
    ChangeAlike first (Paging.store first table index descriptor) second
      (Paging.store second table index descriptor) :=
  changeAlike_write first second _ _

private theorem changeAlike_storeFrom (table index : Nat) (descriptors : List Descriptor) :
    ChangeAlike first (Paging.storeFrom first table index descriptors) second
      (Paging.storeFrom second table index descriptors) :=
  changeAlike_write first second _ _

theorem changeAlike_writeProcessMap (tables deviceBase argumentPage : Nat)
    (access : Nat → UserAccess) :
    ChangeAlike first
      (Paging.writeProcessMap first tables deviceBase argumentPage access) second
      (Paging.writeProcessMap second tables deviceBase argumentPage access) := by
  refine .trans ?_ (changeAlike_storeFrom _ _ _ _ _)
  refine .trans ?_ (changeAlike_store _ _ _ _ _)
  refine .trans ?_ (changeAlike_storeFrom _ _ _ _ _)
  refine .trans ?_ (changeAlike_store _ _ _ _ _)
  refine .trans ?_ (changeAlike_store _ _ _ _ _)
  exact changeAlike_store _ _ _ _ _

end Map

theorem discreet_writeMap (process : Process) :
    (writeMap process : KernelM slots Nat).Discreet readable := by
  refine (discreet_ofChecked _).bind fun accesses => ?_
  refine (discreet_modifyMemory fun first second => ?_).bind fun _ => discreet_pure _
  exact changeAlike_writeProcessMap first second _ _ _ _

theorem discreet_startProcess (slot : Fin slots) (entry : Nat) (program : List Region) :
    (StartM.startProcess slot entry program).run.Discreet readable := by
  refine (discreet_process slot).run_lift.run_bind fun vacant => ?_
  refine (discreet_ofChecked _).run_lift.run_bind fun _ => ?_
  refine discreet_allocatePid.run_lift.run_bind fun pid => ?_
  refine (discreet_ofChecked _).run_lift.run_bind fun taken => ?_
  refine Discreet.run_bind (Discreet.run_lift (discreet_modify fun _ _ => rfl)) fun _ => ?_
  split
  · refine (discreet_zeroPages _ _).run_lift.run_bind fun _ => ?_
    refine (discreet_zeroPages _ _).run_lift.run_bind fun _ => ?_
    refine (discreet_zeroPages _ _).run_lift.run_bind fun _ => ?_
    refine (discreet_writeMap _).run_lift.run_bind fun rootTable => ?_
    refine (discreet_ofChecked _).run_lift.run_bind fun stackTop => ?_
    refine Discreet.run_bind (Discreet.run_lift (discreet_modify fun _ _ => rfl)) fun _ => ?_
    exact discreet_run_pure pid
  · exact discreet_run_throw _

theorem discreet_spawn (bounded : system.processes[caller].Bounded) :
    (spawn caller).run.DiscreetFrom (system.processes[caller].May .read) system := by
  apply discreetFrom_of_process
  dsimp only
  split
  · exact discreet_refuse _
  · refine discreet_run_get (fun _ _ _ _ => rfl) fun system => ?_
    refine (discreet_orRefuse _ _).run_bind fun slot => ?_
    refine (discreet_callProcess slot).run_bind fun vacant => ?_
    refine (discreet_modifyMemory fun first second =>
      Memory.changeAlike_fill first second _ _ _).run_lift.run_bind fun _ => ?_
    refine (discreet_orRefuse _ _).run_bind fun writer => ?_
    refine discreet_checkSlice bounded (by decide) _ _ .read fun may => ?_
    refine (discreet_copyArguments bounded writer _ _ fun offset small => ?_).run_bind
      fun writer => ?_
    · exact may _ ⟨Nat.le_add_right _ _, Nat.add_lt_add_left small _⟩
    · refine (discreet_onMemory writer.blind_finish).run_lift.run_bind fun _ => ?_
      refine (discreet_startProcess slot _ _).run_lift.run_bind fun started => ?_
      cases started with
      | error error => exact discreet_refuse error
      | ok pid =>
          refine (discreet_callProcess caller).run_bind fun parent => ?_
          refine (discreet_logLine _).run_lift.run_bind fun _ => ?_
          refine (discreet_respond caller _).run_lift.run_bind fun _ => ?_
          refine (discreet_callProcess slot).run_bind fun child => ?_
          split
          · exact discreet_run_pure _
          · exact discreet_run_pure _

/-! ## Calls about pipes -/

theorem discreet_readName (bounded : process.Bounded) (address : Nat) :
    (readName process address : CallM slots (Option (List UInt8))).run.Discreet
      (process.May .read) := by
  rw [readName]
  split
  · exact discreet_run_pure none
  · refine (discreet_readString bounded _ _).run_bind fun text => ?_
    split
    · exact discreet_run_pure none
    · exact discreet_run_pure none
    · exact discreet_run_pure _

theorem discreet_respondHandle (caller : Fin slots) (handle : Option PipeHandle) :
    (respondHandle caller handle).run.Discreet readable :=
  discreet_answer caller _ _

theorem discreet_applyHandle (caller : Fin slots) (result : Option (Tables slots × PipeHandle)) :
    (applyHandle caller result).run.Discreet readable := by
  cases result with
  | none => exact discreet_respondHandle caller none
  | some pair =>
      refine Discreet.run_bind (discreet_run_modify fun _ _ => rfl) fun _ => ?_
      exact discreet_respondHandle caller _

theorem discreet_pipeOpen (bounded : system.processes[caller].Bounded) :
    (pipeOpen caller).run.DiscreetFrom (system.processes[caller].May .read) system := by
  apply discreetFrom_of_process
  refine (discreet_readName bounded _).run_bind fun name => ?_
  cases name with
  | none => exact discreet_respondHandle caller none
  | some name =>
      exact discreet_run_get (fun _ _ _ _ => rfl) fun system => discreet_applyHandle caller _

theorem discreet_pipeGet (bounded : system.processes[caller].Bounded) :
    (pipeGet caller).run.DiscreetFrom (system.processes[caller].May .read) system := by
  apply discreetFrom_of_process
  refine (discreet_readName bounded _).run_bind fun name => ?_
  cases name with
  | none => exact discreet_respondHandle caller none
  | some name =>
      exact discreet_run_get (fun _ _ _ _ => rfl) fun system => discreet_applyHandle caller _

theorem discreet_pipeClose (caller : Fin slots) : (pipeClose caller).run.Discreet readable := by
  refine (discreet_callProcess caller).run_bind fun process => ?_
  refine (discreet_orRefuse _ _).run_bind fun removed => ?_
  refine Discreet.run_bind (Discreet.run_lift (discreet_modify fun _ _ => rfl)) fun _ => ?_
  refine (discreet_onTables _).run_lift.run_bind fun hint => ?_
  exact discreet_answer caller _ _

theorem discreet_transferArguments (process : Process) :
    (transferArguments process : CallM slots Transfer).run.Discreet readable := by
  refine (discreet_orRefuse _ _).run_bind fun pipe => ?_
  dsimp only
  split
  · exact discreet_refuse _
  · split
    · exact discreet_run_pure _
    · exact discreet_guarded_bind fun _ _ => discreet_run_pure _

theorem discreet_reportCount (caller : Fin slots) (transfer : Transfer) (count : Nat) :
    (reportCount caller transfer count).run.Discreet readable := by
  rw [reportCount]
  split
  · exact discreet_run_pure _
  · exact discreet_storeElement caller _ _ _

theorem discreet_complete (caller : Fin slots) (transfer : Transfer) (count : Nat) :
    (complete caller transfer count).run.Discreet readable :=
  (discreet_reportCount caller transfer count).run_bind fun _ =>
    (discreet_respond caller _).run_lift

theorem discreet_block (caller : Fin slots) (activity : Activity) :
    (block caller activity).run.Discreet readable :=
  (discreet_updateProcess caller _).run_lift.run_bind fun _ => discreet_run_pure _

theorem discreet_putPipe (id : PipeId) (pipe : Pipe) :
    (putPipe id pipe : CallM slots Unit).run.Discreet readable :=
  discreet_run_modify fun _ _ => rfl

theorem discreet_pipeRead (bounded : system.processes[caller].Bounded) :
    (pipeRead caller).run.DiscreetFrom (system.processes[caller].May .read) system := by
  apply discreetFrom_of_process
  refine (discreet_transferArguments _).run_bind fun transfer => ?_
  split
  · exact (discreet_complete caller transfer 0).run_bind fun _ => discreet_run_pure _
  · refine discreet_checkSlice bounded (by decide) _ _ .write fun _ => ?_
    refine discreet_run_get (fun _ _ _ _ => rfl) fun system => ?_
    refine (discreet_orRefuse _ _).run_bind fun pipe => ?_
    split
    · split
      · exact (discreet_complete caller transfer 0).run_bind fun _ => discreet_run_pure _
      · exact discreet_block caller _
    · refine (discreet_checked _).run_bind fun taken => ?_
      refine (discreet_putPipe _ _).run_bind fun _ => ?_
      refine (discreet_modifyMemory fun first second =>
        Memory.changeAlike_write first second _ _).run_lift.run_bind fun _ => ?_
      refine (discreet_complete caller transfer _).run_bind fun _ => ?_
      exact (discreet_wake caller _).run_lift

/-- Writing to a pipe reads the buffer of the caller, which the caller may read. -/
theorem discreet_pipeWrite (bounded : system.processes[caller].Bounded) :
    (pipeWrite caller).run.DiscreetFrom (system.processes[caller].May .read) system := by
  apply discreetFrom_of_process
  refine (discreet_transferArguments _).run_bind fun transfer => ?_
  split
  · exact (discreet_complete caller transfer 0).run_bind fun _ => discreet_run_pure _
  · refine discreet_checkSlice bounded (by decide) _ _ .read fun may => ?_
    refine discreet_run_get (fun _ _ _ _ => rfl) fun system => ?_
    refine (discreet_orRefuse _ _).run_bind fun pipe => ?_
    split
    · exact (discreet_reportCount caller transfer 0).run_bind fun _ => discreet_refuse _
    · dsimp only
      split
      · exact (discreet_putPipe _ _).run_bind fun _ => discreet_block caller _
      · refine discreet_run_get (fun system first second agree => ?_) fun system => ?_
        · have same : first.read transfer.buffer (min transfer.size Config.pipeCapacity) =
              second.read transfer.buffer (min transfer.size Config.pipeCapacity) := by
            refine agree.read_eq fun offset small => may _ ⟨Nat.le_add_right _ _, ?_⟩
            simp only [Extent.stop, ElementLayout.byte]
            omega
          simp only [same]
        · refine (discreet_checked _).run_bind fun put => ?_
          refine (discreet_putPipe _ _).run_bind fun _ => ?_
          refine (discreet_complete caller transfer _).run_bind fun _ => ?_
          exact (discreet_wake caller _).run_lift

/-! ## Every call -/

/-- Whatever call a process makes, its handler reads what the process may read. -/
theorem discreet_handle (bounded : system.processes[caller].Bounded) (handler : Option Handler) :
    (handle handler caller).run.DiscreetFrom (system.processes[caller].May .read) system := by
  cases handler with
  | none => exact discreet_refuse _ system
  | some handler =>
      cases handler with
      | service run =>
          refine Discreet.run_bind (discreet_callProcess caller) (fun process => ?_) system
          split
          · refine Discreet.run_bind (Discreet.run_lift (discreet_modify fun _ _ => rfl))
              fun _ => ?_
            exact discreet_run_pure _
          · exact discreet_run_throw _
      | builtin call =>
          cases call with
          | exit => exact discreet_exit caller system
          | print => exact discreet_print bounded
          | getPid => exact discreet_getPid caller system
          | debug => exact discreet_debug caller system
          | spawn => exact discreet_spawn bounded
          | sleep => exact discreet_sleep caller system
          | yield => exact discreet_yield caller system
          | setPriority => exact discreet_setPriority caller system
          | getPriority => exact discreet_getPriority caller system
          | moveBreak => exact discreet_moveBreak caller system
          | pipeOpen => exact discreet_pipeOpen bounded
          | pipeClose => exact discreet_pipeClose caller system
          | pipeGet => exact discreet_pipeGet bounded
          | pipeRead => exact discreet_pipeRead bounded
          | pipeWrite => exact discreet_pipeWrite bounded

end CallM

namespace KernelM

theorem discreet_settle (caller : Fin slots) (outcome : Except Refusal Hint) :
    (settle caller outcome).Discreet readable := by
  cases outcome with
  | ok hint => exact discreet_pure hint
  | error refusal =>
      cases refusal with
      | code error hint => exact (discreet_respond caller _).bind fun _ => discreet_pure hint
      | fault fault =>
          refine (discreet_process caller).bind fun process => ?_
          refine (discreet_logLine _).bind fun _ => (discreet_onTables _).bind fun hint => ?_
          exact (discreet_modify fun _ _ => rfl).bind fun _ => discreet_pure hint

/-- The kernel handles a call in the same way, whatever the memory holds that the caller may not
read. -/
theorem discreet_handleCall (bounded : system.processes[caller].Bounded) :
    (handleCall caller).DiscreetFrom (system.processes[caller].May .read) system := by
  have handled := (CallM.discreet_handle bounded (system.calls.lookup?
    system.processes[caller].registers.callNumber)).bind fun result =>
      discreet_settle caller result
  exact handled

end KernelM
end Microkernel
