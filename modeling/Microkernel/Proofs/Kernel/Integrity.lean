import Microkernel.Proofs.Kernel.Script

/-!
# Calls leave the memory of others alone

The kernel stores for a process only where the process itself may write, and in the pages of a slot
that is being filled.
-/

namespace Microkernel

variable {slots : Nat} {α β ε : Type}

namespace KernelM

/-- The contents of memory after a computation, also if that crashes. -/
def memoryAfter (action : KernelM slots α) (before : System slots) : Memory :=
  match action before with
  | .ok _ after => after.memory
  | .error _ after => after.memory

theorem Ends.memoryAfter {action : KernelM slots α} {before : System slots}
    {outcome : α → System slots → Prop} (ends : action.Ends before outcome) :
    ∃ value after, outcome value after ∧ action.memoryAfter before = after.memory := by
  obtain ⟨value, after, run, fits⟩ := ends
  refine ⟨value, after, fits, ?_⟩
  rw [KernelM.memoryAfter, run]

/-- Whether a computation stores nothing, also if it crashes. -/
def KeepsMemory (action : KernelM slots α) : Prop :=
  ∀ before, action.memoryAfter before = before.memory

theorem KeepsMemory.bind {action : KernelM slots α} {next : α → KernelM slots β}
    (first : action.KeepsMemory) (second : ∀ value, (next value).KeepsMemory) :
    (action >>= next).KeepsMemory := by
  intro before
  have kept := first before
  simp only [memoryAfter, Bind.bind, EStateM.bind] at kept ⊢
  cases run : action before with
  | ok value between =>
      rw [run] at kept
      exact (second value between).trans kept
  | error crash between =>
      rw [run] at kept
      exact kept

theorem keepsMemory_pure (value : α) : (pure value : KernelM slots α).KeepsMemory :=
  fun _ => rfl

theorem keepsMemory_ofChecked (result : Checked α) :
    (ofChecked result : KernelM slots α).KeepsMemory := by
  intro before
  cases result <;> rfl

theorem keepsMemory_modifyProcess (slot : Fin slots) (change : Process → Process) :
    (modifyProcess slot change).KeepsMemory :=
  fun _ => rfl

theorem keepsMemory_updateProcess (slot : Fin slots) (change : Process → Checked Process) :
    (updateProcess slot change).KeepsMemory := by
  refine .bind (fun _ => rfl) fun process => .bind (keepsMemory_ofChecked _) fun changed => ?_
  exact fun _ => rfl

theorem keepsMemory_reap (slot : Fin slots) : (reap slot).KeepsMemory := by
  intro before
  rw [reap, onTables, memoryAfter, bind_of_ok (run_get before)]
  cases before.toTables.reap slot with
  | ok result => rfl
  | error crash => rfl

theorem keepsMemory_settle (caller : Fin slots) (outcome : Except Refusal Hint) :
    (settle caller outcome).KeepsMemory := by
  cases outcome with
  | ok hint => exact keepsMemory_pure hint
  | error refusal =>
      cases refusal with
      | code error hint =>
          exact .bind (keepsMemory_modifyProcess _ _) fun _ => keepsMemory_pure hint
      | fault fault =>
          refine .bind (fun _ => rfl) fun process => .bind (fun _ => rfl) fun _ => ?_
          refine .bind (keepsMemory_reap caller) fun hint => ?_
          exact .bind (keepsMemory_modifyProcess _ _) fun _ => keepsMemory_pure hint

theorem KeepsMemory.run_bind {action : ExceptT ε (KernelM slots) α}
    {next : α → ExceptT ε (KernelM slots) β} (first : action.run.KeepsMemory)
    (second : ∀ value, (next value).run.KeepsMemory) : (action >>= next).run.KeepsMemory := by
  rw [ExceptT.run_bind]
  refine first.bind fun result => ?_
  cases result with
  | ok value => exact second value
  | error refusal => exact keepsMemory_pure _

theorem KeepsMemory.run_kernel {action : KernelM slots α} (keeps : action.KeepsMemory) :
    (CallM.kernel action).run.KeepsMemory := by
  rw [CallM.kernel, ExceptT.run_lift]
  exact keeps.bind fun _ => keepsMemory_pure _

theorem keepsMemory_sleep (caller : Fin slots) : (CallM.sleep caller).run.KeepsMemory := by
  refine .run_bind (fun _ => rfl) fun microseconds => ?_
  refine .run_bind (.run_kernel (keepsMemory_modifyProcess _ _)) fun _ => ?_
  split
  · exact keepsMemory_pure _
  · refine .run_bind (fun _ => rfl) fun system => ?_
    exact .run_bind (.run_kernel (keepsMemory_updateProcess _ _)) fun _ => keepsMemory_pure _

variable {system : System slots} {layout : Layout slots} {author : Fin slots → Prop}
  {caller : Fin slots}

/-- Whoever makes a call, only bytes that the call may reach are stored. -/
theorem handleCall_changesOnly (sound : system.toTables.Sound layout author)
    (calls : system.calls = .withBuiltins .builtin) :
    system.memory.ChangesOnly ((handleCall caller).memoryAfter system)
      (system.Reaches caller) := by
  by_cases asleep : system.processes[caller].call? = some .sleep
  · have handler : system.calls.lookup? system.processes[caller].registers.callNumber =
        some (.builtin .sleep) := by
      rw [calls, CallTable.lookup?_withBuiltins]
      change system.processes[caller].call?.map Handler.builtin = _
      rw [asleep]
      rfl
    have keeps : ((CallM.sleep caller).run >>= settle caller).KeepsMemory :=
      (keepsMemory_sleep caller).bind (keepsMemory_settle caller)
    have same : handleCall caller system = ((CallM.handle (system.calls.lookup?
        system.processes[caller].registers.callNumber) caller).run >>= settle caller) system :=
      rfl
    rw [handler] at same
    rw [memoryAfter, same]
    have kept := keeps system
    rw [memoryAfter] at kept
    rw [show CallM.handle (some (.builtin .sleep)) caller = CallM.sleep caller from rfl, kept]
    exact .refl _ _
  · obtain ⟨_, _, ⟨_, changes⟩, same⟩ := (handleCall_run sound calls (.inr asleep)).memoryAfter
    rw [same]
    exact changes

end KernelM

namespace Tables.Sound

variable {system : System slots} {layout : Layout slots} {author : Fin slots → Prop}
  {caller : Fin slots} {address : Nat}

/-- What a call reaches in the pages of a live slot is the stack and the heap of the caller. -/
theorem part_of_reaches (sound : system.toTables.Sound layout author)
    (reaches : system.Reaches caller address) {slot : Fin slots}
    (live : system.processes[slot].state ≠ .vacant) {part : Extent}
    (member : part ∈ layout.pages[slot].parts) (covered : part.Covers address) :
    slot = caller ∧ (Extent.Covers ⟨layout.pages[caller].stack, Config.stackSize⟩ address ∨
      Extent.Covers ⟨layout.pages[caller].heap, Config.heapLimit⟩ address) := by
  have of_own {own : Extent} (inside : own ∈ layout.pages[caller].parts)
      (owned : own.Covers address) : slot = caller := by
    apply Classical.byContradiction
    intro different
    exact (layout.apart slot caller different part member own inside).not_covers covered owned
  rcases reaches with writable | ⟨_, vacated, found, owner, inside, owned⟩
  · rcases (sound.slot caller).may_write writable with stack | heap | ⟨image, _⟩
    · exact ⟨of_own (SlotMemory.stack_mem_parts _) stack, .inl stack⟩
    · exact ⟨of_own (SlotMemory.heap_mem_parts _) heap, .inr heap⟩
    · exact absurd covered (((layout.houses slot).apart part member).not_covers image)
  · have different : slot ≠ vacated := by
      rintro rfl
      exact live (CallM.vacant_of_vacantSlot?_eq_some found)
    rw [(sound.slot vacated).memory_eq] at inside
    exact absurd owned
      ((layout.apart slot vacated different part member owner inside).not_covers covered)

theorem not_owns_of_reaches (sound : system.toTables.Sound layout author)
    (reaches : system.Reaches caller address) {slot : Fin slots} (different : slot ≠ caller)
    (live : system.processes[slot].state ≠ .vacant) :
    ¬ system.processes[slot].memory.Owns address := by
  rintro ⟨part, member, covered⟩
  rw [(sound.slot slot).memory_eq] at member
  exact different (sound.part_of_reaches reaches live member covered).1

/-- A call reaches no argument page and no page map of a live slot, not even of the caller's. -/
theorem not_covers_of_reaches (sound : system.toTables.Sound layout author)
    (reaches : system.Reaches caller address) {slot : Fin slots}
    (live : system.processes[slot].state ≠ .vacant) :
    ¬ Extent.Covers ⟨system.processes[slot].memory.arguments, Config.pageSize⟩ address ∧
      ¬ (Paging.mapExtent system.processes[slot].memory.tables).Covers address := by
  rw [(sound.slot slot).memory_eq]
  have separate := (layout.houses slot).sound.separate
  simp only [SlotMemory.parts, List.pairwise_cons, List.forall_mem_cons, List.not_mem_nil,
    false_imp_iff, implies_true, and_true] at separate
  obtain ⟨⟨stack_arguments, _, stack_tables⟩, ⟨arguments_heap, _⟩, heap_tables, _⟩ := separate
  constructor
  · intro covered
    obtain ⟨rfl, owned | owned⟩ :=
      sound.part_of_reaches reaches live (SlotMemory.arguments_mem_parts _) covered
    · exact stack_arguments.not_covers owned covered
    · exact arguments_heap.not_covers covered owned
  · intro covered
    obtain ⟨rfl, owned | owned⟩ :=
      sound.part_of_reaches reaches live (SlotMemory.tables_mem_parts _) covered
    · exact stack_tables.not_covers owned covered
    · exact heap_tables.not_covers owned covered

theorem author_of_reaches (sound : system.toTables.Sound layout author)
    (reaches : system.Reaches caller address) (covered : layout.image.Covers address) :
    author caller := by
  have not_owned {slot : Fin slots} {part : Extent} (member : part ∈ layout.pages[slot].parts) :
      ¬ part.Covers address :=
    ((layout.houses slot).apart part member).not_covers covered
  rcases reaches with writable | ⟨_, vacated, _, owner, inside, owned⟩
  · rcases (sound.slot caller).may_write writable with stack | heap | ⟨_, authored⟩
    · exact absurd stack (not_owned (SlotMemory.stack_mem_parts _))
    · exact absurd heap (not_owned (SlotMemory.heap_mem_parts _))
    · exact authored
  · rw [(sound.slot vacated).memory_eq] at inside
    exact absurd owned (not_owned inside)

end Tables.Sound

/-- A byte that a call changes lies where the caller may write, or the call spawns a process and the
byte lies in the pages of the first vacant slot.  So it lies in no page of another live slot, in no
argument page or page map of a live slot, and not in the program unless the first process calls. -/
theorem Run.call_changes {launch : Launch slots} {traps : List (Trap slots)}
    {system entered : System slots} (run : Run launch traps system) {caller : Fin slots}
    (user : system.UserStep caller entered) {address : Nat}
    (changed : ((KernelM.handleCall caller).memoryAfter entered).get address ≠
      entered.memory.get address) :
    (entered.processes[caller].May .write address ∨
      (entered.processes[caller].call? = some .spawn ∧ ∃ slot : Fin slots,
        entered.processes.vacantSlot? = some slot ∧
          entered.processes[slot].memory.Owns address)) ∧
    (∀ other : Fin slots, other ≠ caller → entered.processes[other].state ≠ .vacant →
      ¬ entered.processes[other].memory.Owns address) ∧
    (∀ slot : Fin slots, entered.processes[slot].state ≠ .vacant →
      ¬ Extent.Covers ⟨entered.processes[slot].memory.arguments, Config.pageSize⟩ address ∧
        ¬ (Paging.mapExtent entered.processes[slot].memory.tables).Covers address) ∧
    (¬ launch.RunsFirst traps caller → ¬ launch.image.Covers address) := by
  have sound := user.sound run.invariant.sound
  have calls := user.calls_eq.trans run.invariant.calls
  have reaches := KernelM.handleCall_changesOnly sound calls address changed
  refine ⟨reaches, fun other different live => sound.not_owns_of_reaches reaches different live,
    fun slot live => sound.not_covers_of_reaches reaches live, fun other covered => ?_⟩
  exact other (sound.author_of_reaches reaches covered)

/-- Reading from a pipe changes the buffer of the reader, which the reader may write. -/
theorem call_changes_small : ∃ traps system entered, Run Launch.small traps system ∧
    system.UserStep 0 entered ∧
    ((KernelM.handleCall 0).memoryAfter entered).get 0x100020 ≠ entered.memory.get 0x100020 ∧
    (entered.processes[(0 : Fin 2)].May .write 0x100020 ∨
      (entered.processes[(0 : Fin 2)].call? = some .spawn ∧ ∃ slot : Fin 2,
        entered.processes.vacantSlot? = some slot ∧
          entered.processes[slot].memory.Owns 0x100020)) := by
  have evaluated : (Launch.small.play? Launch.writerScript).any (fun final =>
      let entered := final.2.entering 0 Launch.readMove
      final.2.processes[(0 : Fin 2)].writes ⟨Launch.readMove.place, 0⟩ &&
        ((KernelM.handleCall 0).memoryAfter entered).get 0x100020 !=
          entered.memory.get 0x100020) = true := by
    decide +kernel
  rw [Option.any_eq_true] at evaluated
  obtain ⟨final, played, holds⟩ := evaluated
  obtain ⟨writes, changed⟩ := Bool.and_eq_true_iff.1 holds
  have run := Run.play played
  have user : final.2.UserStep 0 (final.2.entering 0 Launch.readMove) :=
    System.userStep_entering writes
  have differs := bne_iff_ne.1 changed
  exact ⟨_, _, _, run, user, differs, (run.call_changes user differs).1⟩

end Microkernel
