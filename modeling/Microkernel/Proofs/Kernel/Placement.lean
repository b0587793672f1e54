import Microkernel.Kernel.Slots
import Microkernel.Proofs.Arena
import Microkernel.Proofs.Execution
import Microkernel.Proofs.Memory.Extent

/-!
# The pages of the slots do not meet

An arena hands out runs of pages one behind the other.  So the runs that the slots receive begin at
page boundaries, end inside the address space, and have no address in common with one another or
with the page at which processes see their arguments.
-/

namespace Microkernel

namespace SlotMemory

/-- The runs of pages that a slot owns. -/
def parts (memory : SlotMemory) : List Extent :=
  [⟨memory.stack, Config.stackSize⟩, ⟨memory.arguments, Config.pageSize⟩,
    ⟨memory.heap, Config.heapLimit⟩, Paging.mapExtent memory.tables]

theorem stack_mem_parts (memory : SlotMemory) :
    ⟨memory.stack, Config.stackSize⟩ ∈ memory.parts := by
  simp [parts]

theorem arguments_mem_parts (memory : SlotMemory) :
    ⟨memory.arguments, Config.pageSize⟩ ∈ memory.parts := by
  simp [parts]

theorem heap_mem_parts (memory : SlotMemory) :
    ⟨memory.heap, Config.heapLimit⟩ ∈ memory.parts := by
  simp [parts]

theorem tables_mem_parts (memory : SlotMemory) :
    Paging.mapExtent memory.tables ∈ memory.parts := by
  simp [parts]

theorem forall_mem_parts {memory : SlotMemory} {property : Extent → Prop} :
    (∀ part ∈ memory.parts, property part) ↔
      property ⟨memory.stack, Config.stackSize⟩ ∧ property ⟨memory.arguments, Config.pageSize⟩ ∧
        property ⟨memory.heap, Config.heapLimit⟩ ∧ property (Paging.mapExtent memory.tables) := by
  simp only [parts, List.forall_mem_cons, List.not_mem_nil, false_imp_iff, implies_true, and_true]

theorem whole_parts (memory : SlotMemory) :
    ∀ part ∈ memory.parts, part.length % Config.pageSize = 0 :=
  forall_mem_parts.2 ⟨Nat.mul_mod_left Config.stackPages _, Nat.mod_self _,
    Nat.mul_mod_left Config.heapPages _, Nat.mul_mod_left Paging.processPages _⟩

/-- Whether an address lies in the pages of a slot. -/
def Owns (memory : SlotMemory) (address : Nat) : Prop :=
  ∃ part ∈ memory.parts, part.Covers address

/-- The runs of a slot are whole pages inside the address space, apart from one another and from the
page at which processes see their arguments. -/
structure Sound (memory : SlotMemory) : Prop where
  /-- Every run begins at a page boundary. -/
  aligned : ∀ part ∈ memory.parts, part.start % Config.pageSize = 0
  /-- Every run ends inside the address space. -/
  bounded : ∀ part ∈ memory.parts, part.stop < Word.limit
  /-- No two runs meet. -/
  separate : memory.parts.Pairwise Extent.Apart
  /-- No run meets the page at which processes see their arguments. -/
  unseen : ∀ part ∈ memory.parts, part.Apart ⟨Config.argumentAddress, Config.pageSize⟩

/-- Whether the pages of two slots do not meet. -/
def Apart (first second : SlotMemory) : Prop :=
  ∀ part ∈ first.parts, ∀ other ∈ second.parts, part.Apart other

end SlotMemory

namespace Arena

/-- Whether an arena comes from another by handing out pages. -/
structure Extends (before after : Arena .virtual) : Prop where
  /-- The arena begins where it did. -/
  base_eq : after.base = before.base
  /-- The arena ends where it did. -/
  bound_eq : after.bound = before.bound
  /-- Pages are not taken back. -/
  cursor_le : before.cursor ≤ after.cursor
  /-- Handing out pages stays before the bound. -/
  settled : after = before ∨ after.cursor < after.bound.value

theorem Extends.refl (arena : Arena .virtual) : arena.Extends arena :=
  ⟨rfl, rfl, Nat.le_refl _, .inl rfl⟩

theorem Extends.trans {first second third : Arena .virtual} (before : first.Extends second)
    (after : second.Extends third) : first.Extends third where
  base_eq := after.base_eq.trans before.base_eq
  bound_eq := after.bound_eq.trans before.bound_eq
  cursor_le := Nat.le_trans before.cursor_le after.cursor_le
  settled := by
    rcases after.settled with rfl | inside
    · exact before.settled
    · exact .inr inside

end Arena

namespace Slots

/-- Whether an extent lies between two states of an arena and inside its bound. -/
structure Taken (before after : Arena .virtual) (extent : Extent) : Prop where
  /-- The extent begins behind what was handed out. -/
  start_le : before.cursor ≤ extent.start
  /-- The extent has been handed out. -/
  le_stop : extent.stop ≤ after.cursor
  /-- The extent ends before the bound. -/
  stop_lt : extent.stop < before.bound.value

theorem Taken.mono {outer before after later : Arena .virtual} {extent : Extent}
    (taken : Taken before after extent) (earlier : outer.Extends before)
    (next : after.Extends later) : Taken outer later extent :=
  ⟨Nat.le_trans earlier.cursor_le taken.start_le, Nat.le_trans taken.le_stop next.cursor_le,
    earlier.bound_eq ▸ taken.stop_lt⟩

theorem Taken.apart {first second third fourth : Arena .virtual} {extent other : Extent}
    (taken : Taken first second extent) (next : second.Extends third)
    (later : Taken third fourth other) : extent.Apart other :=
  .inl (Nat.le_trans taken.le_stop (Nat.le_trans next.cursor_le later.start_le))

theorem takeRun_ok {pages first : Nat} {before after : Arena .virtual}
    (run : takeRun pages before = .ok first after) :
    before.Extends after ∧ first = before.cursor ∧
      Taken before after ⟨first, pages * Config.pageSize⟩ := by
  cases found : before.allocate? pages with
  | none =>
      rw [takeRun, bind_of_ok (run_get before), found] at run
      cases run
  | some result =>
      rw [takeRun, bind_of_ok (run_get before), found] at run
      cases run
      obtain ⟨left, start⟩ := result
      obtain ⟨rfl, rfl, room⟩ := Arena.of_allocate?_eq_some found
      have cursor_eq : Arena.cursor { before with allocated := before.allocated + pages } =
          before.cursor + pages * Config.pageSize := by
        rw [Arena.cursor, Arena.cursor, Nat.add_mul, Nat.add_assoc]
      refine ⟨⟨rfl, rfl, ?_, .inr ?_⟩, rfl, Nat.le_refl _, Nat.le_of_eq cursor_eq.symm, room⟩
      · rw [cursor_eq]
        exact Nat.le_add_right _ _
      · rw [cursor_eq]
        exact room

private theorem coversArguments_iff (first pages : Nat) :
    coversArguments first pages = true ↔
      first ≤ Config.argumentAddress ∧
        Config.argumentAddress < first + pages * Config.pageSize := by
  simp [coversArguments]

private theorem cursor_aligned {arena : Arena .virtual}
    (aligned : arena.base.value % Config.pageSize = 0) :
    arena.cursor % Config.pageSize = 0 := by
  simp only [Arena.cursor, Config.pageSize] at *
  omega

private theorem argumentAddress_aligned : Config.argumentAddress % Config.pageSize = 0 := by
  decide

/-- A run that is carved out begins at a page boundary, and does not meet the page at which
processes see their arguments. -/
theorem carve_ok {pages first : Nat} {before after : Arena .virtual}
    (aligned : before.base.value % Config.pageSize = 0)
    (run : carve pages before = .ok first after) :
    before.Extends after ∧ Taken before after ⟨first, pages * Config.pageSize⟩ ∧
      first % Config.pageSize = 0 ∧
        Extent.Apart ⟨first, pages * Config.pageSize⟩
          ⟨Config.argumentAddress, Config.pageSize⟩ := by
  have page_aligned := argumentAddress_aligned
  obtain ⟨start, between, taken, run⟩ := bind_eq_ok_iff.1 run
  obtain ⟨extends_first, rfl, taken_first⟩ := takeRun_ok taken
  have first_aligned := cursor_aligned aligned
  split at run
  next covers =>
      obtain ⟨extends_second, rfl, taken_second⟩ := takeRun_ok run
      have second_aligned := cursor_aligned (extends_first.base_eq ▸ aligned)
      refine ⟨extends_first.trans extends_second,
        taken_second.mono extends_first (.refl _), second_aligned, .inr ?_⟩
      have behind := taken_first.le_stop
      have covered := (coversArguments_iff _ _).1 covers
      simp only [Extent.stop] at *
      generalize Config.argumentAddress = address at *
      simp only [Config.pageSize] at *
      omega
  next clear =>
      cases run
      refine ⟨extends_first, taken_first, first_aligned, ?_⟩
      rw [coversArguments_iff] at clear
      simp only [Extent.Apart, Extent.stop]
      generalize Config.argumentAddress = address at *
      simp only [Config.pageSize] at *
      omega

theorem carveSlot_ok {memory : SlotMemory} {before after : Arena .virtual}
    (aligned : before.base.value % Config.pageSize = 0)
    (word : before.bound.value ≤ Word.limit)
    (run : carveSlot before = .ok memory after) :
    before.Extends after ∧ (∀ part ∈ memory.parts, Taken before after part) ∧ memory.Sound := by
  simp only [carveSlot, bind_eq_ok_iff] at run
  obtain ⟨stack, first, stack_run, arguments, second, arguments_run, heap, third, heap_run, tables,
    fourth, tables_run, finished⟩ := run
  cases finished
  obtain ⟨step_one, stack_taken, stack_aligned, stack_unseen⟩ := carve_ok aligned stack_run
  obtain ⟨step_two, arguments_taken, arguments_aligned, arguments_unseen⟩ :=
    carve_ok (by rwa [step_one.base_eq]) arguments_run
  obtain ⟨step_three, heap_taken, heap_aligned, heap_unseen⟩ :=
    carve_ok (by rwa [step_two.base_eq, step_one.base_eq]) heap_run
  obtain ⟨step_four, tables_taken, tables_aligned, tables_unseen⟩ :=
    carve_ok (by rwa [step_three.base_eq, step_two.base_eq, step_one.base_eq]) tables_run
  have taken : ∀ part ∈ SlotMemory.parts ⟨stack, arguments, heap, tables⟩,
      Taken before after part := SlotMemory.forall_mem_parts.2
    ⟨stack_taken.mono (.refl _) (step_two.trans (step_three.trans step_four)),
      arguments_taken.mono step_one (step_three.trans step_four),
      heap_taken.mono (step_one.trans step_two) step_four,
      tables_taken.mono (step_one.trans (step_two.trans step_three)) (.refl _)⟩
  refine ⟨step_one.trans (step_two.trans (step_three.trans step_four)), taken, ?_, ?_, ?_, ?_⟩
  · exact SlotMemory.forall_mem_parts.2
      ⟨stack_aligned, arguments_aligned, heap_aligned, tables_aligned⟩
  · exact fun part member => Nat.lt_of_lt_of_le (taken part member).stop_lt word
  · simp only [SlotMemory.parts, List.pairwise_cons, List.forall_mem_cons,
      List.not_mem_nil, false_imp_iff, implies_true, and_true, List.Pairwise.nil]
    exact ⟨⟨stack_taken.apart (.refl _) arguments_taken,
      stack_taken.apart step_two heap_taken,
      stack_taken.apart (step_two.trans step_three) tables_taken⟩,
      ⟨arguments_taken.apart (.refl _) heap_taken,
        arguments_taken.apart step_three tables_taken⟩,
      heap_taken.apart (.refl _) tables_taken⟩
  · exact SlotMemory.forall_mem_parts.2
      ⟨stack_unseen, arguments_unseen, heap_unseen, tables_unseen⟩

private theorem carveList_ok {α : Type} {slots : List α} {pages : List SlotMemory}
    {before after : Arena .virtual} (aligned : before.base.value % Config.pageSize = 0)
    (word : before.bound.value ≤ Word.limit)
    (run : (slots.mapM fun _ => carveSlot) before = .ok pages after) :
    before.Extends after ∧
      (∀ memory ∈ pages, memory.Sound ∧ ∀ part ∈ memory.parts, Taken before after part) ∧
        pages.Pairwise SlotMemory.Apart := by
  induction slots generalizing before pages with
  | nil =>
      rw [List.mapM_nil] at run
      cases run
      exact ⟨.refl _, by simp, .nil⟩
  | cons slot rest induction =>
      simp only [List.mapM_cons, bind_eq_ok_iff] at run
      obtain ⟨memory, between, slot_run, others, last, rest_run, finished⟩ := run
      cases finished
      obtain ⟨step, taken, sound⟩ := carveSlot_ok aligned word slot_run
      obtain ⟨steps, others_sound, separate⟩ :=
        induction (step.base_eq ▸ aligned) (step.bound_eq ▸ word) rest_run
      refine ⟨step.trans steps, ?_, .cons ?_ separate⟩
      · intro found member
        rcases List.mem_cons.1 member with rfl | member
        · exact ⟨sound, fun part inside => (taken part inside).mono (.refl _) steps⟩
        · obtain ⟨other_sound, other_taken⟩ := others_sound found member
          exact ⟨other_sound, fun part inside => (other_taken part inside).mono step (.refl _)⟩
      · intro other member part inside other_part other_inside
        exact (taken part inside).apart (.refl _)
          ((others_sound other member).2 other_part other_inside)

theorem toList_carveAll (slots : Nat) :
    Array.toList <$> Vector.toArray <$> carveAll slots =
      (Vector.range slots).toArray.toList.mapM fun _ => carveSlot := by
  rw [carveAll, Vector.toArray_mapM, Array.toList_mapM]

theorem carveAll_toList_ok {slots : Nat} {pages : Vector SlotMemory slots}
    {before after : Arena .virtual} (aligned : before.base.value % Config.pageSize = 0)
    (word : before.bound.value ≤ Word.limit) (run : carveAll slots before = .ok pages after) :
    before.Extends after ∧
      (∀ memory ∈ pages.toList, memory.Sound ∧ ∀ part ∈ memory.parts, Taken before after part) ∧
      pages.toList.Pairwise SlotMemory.Apart := by
  have list_run : ((Vector.range slots).toArray.toList.mapM fun _ => carveSlot) before =
      .ok pages.toList after := by
    rw [← toList_carveAll]
    simp only [Functor.map, EStateM.map, run]
    rfl
  exact carveList_ok aligned word list_run

/-- The pages of all slots are whole pages that do not meet, provided that the arena begins at a
page boundary and ends inside the address space. -/
theorem carveAll_ok {slots : Nat} {pages : Vector SlotMemory slots}
    {before after : Arena .virtual} (aligned : before.base.value % Config.pageSize = 0)
    (word : before.bound.value ≤ Word.limit) (run : carveAll slots before = .ok pages after) :
    before.Extends after ∧
      (∀ slot : Fin slots, pages[slot].Sound ∧
        ∀ part ∈ pages[slot].parts, Taken before after part) ∧
      ∀ first second : Fin slots, first ≠ second → pages[first].Apart pages[second] := by
  obtain ⟨step, sound, separate⟩ := carveAll_toList_ok aligned word run
  rw [List.pairwise_iff_getElem] at separate
  refine ⟨step, fun slot => sound _ (by simp), fun first second different => ?_⟩
  rcases Nat.lt_or_gt_of_ne (Fin.val_ne_of_ne different) with before | before
  · exact separate first second (by simp) (by simp) before
  · intro part inside other other_inside
    exact (separate second first (by simp) (by simp) before other other_inside part inside).symm

theorem report_run {slots : Nat} {pages : Vector SlotMemory slots}
    {before after : Arena .virtual} (aligned : before.base.value % Config.pageSize = 0)
    (word : before.bound.value ≤ Word.limit) (run : carveAll slots before = .ok pages after)
    (slot : Fin slots) : ∃ line, report slots after = .ok line := by
  obtain ⟨step, sound, _⟩ := carveAll_ok aligned word run
  have taken := (sound slot).2 _ (SlotMemory.stack_mem_parts _)
  have stack_some : 0 < Config.stackSize := by decide
  have inside : after.cursor < Word.limit := by
    rcases step.settled with rfl | below
    · have start_le := taken.start_le
      have le_stop := taken.le_stop
      simp only [Extent.stop] at *
      omega
    · exact Nat.lt_of_lt_of_le (step.bound_eq ▸ below) word
  rw [report, Arena.stop_eq inside]
  exact ⟨_, rfl⟩

end Slots
end Microkernel
