import Microkernel.Proofs.Process.Mapped

/-!
# A slot is made ready for a process

Before a process begins, its stack, its heap and its tables are cleared, and its map is written into
the tables.  The argument page stays as it is.
-/

namespace Microkernel

namespace Process

theorem accessWithin_total {probe : Region} (probe_bounded : probe.Bounded) {regions : List Region}
    (bounded : ∀ region ∈ regions, region.Bounded) (found : UserAccess) :
    ∃ access, accessWithin probe regions found = .ok access := by
  induction regions generalizing found with
  | nil => exact ⟨found, rfl⟩
  | cons region rest induction =>
      have rest_bounded : ∀ other ∈ rest, other.Bounded :=
        fun other member => bounded other (List.mem_cons_of_mem _ member)
      have overlap : ∃ answer, region.overlaps probe = .ok answer := by
        rw [Region.overlaps, probe_bounded.stop_eq]
        simp only [bind, Except.bind]
        split
        · rw [(bounded region List.mem_cons_self).stop_eq]
          exact ⟨_, rfl⟩
        · exact ⟨_, rfl⟩
      obtain ⟨answer, run⟩ := overlap
      simp only [accessWithin, run, bind, Except.bind]
      split
      · split
        · exact ⟨_, rfl⟩
        · exact induction rest_bounded _
      · exact induction rest_bounded _

private theorem mapM_total {α β : Type} {action : α → Checked β} {elements : List α}
    (total : ∀ element ∈ elements, ∃ result, action element = .ok result) :
    ∃ results, elements.mapM action = .ok results := by
  induction elements with
  | nil => exact ⟨[], rfl⟩
  | cons element rest induction =>
      obtain ⟨result, run⟩ := total element List.mem_cons_self
      obtain ⟨results, rest_run⟩ :=
        induction fun other member => total other (List.mem_cons_of_mem _ member)
      refine ⟨result :: results, ?_⟩
      rw [List.mapM_cons, run]
      simp only [bind, Except.bind, rest_run]
      rfl

theorem userAccess_total {process : Process} (bounded : process.Bounded)
    (heap : process.heap.base + process.heap.limit < Word.limit) {start stop : Nat}
    (ahead : start ≤ stop) (word : stop < Word.limit) :
    ∃ access, process.userAccess start stop = .ok access := by
  have size : Word.difference stop start = .ok (stop - start) :=
    (Word.difference_eq_ok_iff _ _ _).2 ⟨ahead, rfl⟩
  simp only [userAccess, size, bind, Except.bind]
  refine accessWithin_total ?_ (fun region member => ?_) _
  · simp only [Region.Bounded, Region.extent, Extent.stop]
    omega
  · rcases List.mem_append.1 member with own | added
    · exact bounded region (List.mem_filter.1 own).1
    · cases List.mem_singleton.1 added
      exact heap

theorem blockAccess_total {process : Process} (bounded : process.Bounded)
    (heap : process.heap.base + process.heap.limit < Word.limit) :
    ∃ access, process.blockAccess Config.deviceBase = .ok access := by
  rw [blockAccess]
  refine mapM_total fun index _ => ?_
  have near : Config.deviceBase + Paging.block < Word.limit := by decide
  simp only
  split
  · exact userAccess_total bounded heap (Nat.le_add_right _ _) (by omega)
  · exact ⟨_, rfl⟩

end Process

namespace SlotMemory

variable {pages : SlotMemory} {memory : Memory} {address : Nat}

/-- Memory once the stack, the heap and the tables of a slot are zero. -/
def clear (pages : SlotMemory) (memory : Memory) : Memory :=
  ((memory.fill pages.stack (Config.stackPages * Config.pageSize) 0).fill
    pages.heap (Config.heapPages * Config.pageSize) 0).fill
      pages.tables (Paging.processPages * Config.pageSize) 0

theorem changesOnly_clear (pages : SlotMemory) (memory : Memory) :
    memory.ChangesOnly (pages.clear memory) pages.Owns :=
  have changes {part : Extent} (member : part ∈ pages.parts) (memory : Memory) :
      memory.ChangesOnly (memory.fill part.start part.length 0) pages.Owns :=
    (Memory.changesOnly_fill _ _ _ _).mono fun _ covered => ⟨part, member, covered⟩
  ((changes pages.stack_mem_parts _).trans (changes pages.heap_mem_parts _)).trans
    (changes pages.tables_mem_parts _)

theorem get_clear (covered : Extent.Covers ⟨pages.stack, Config.stackSize⟩ address ∨
      Extent.Covers ⟨pages.heap, Config.heapLimit⟩ address ∨
        (Paging.mapExtent pages.tables).Covers address) :
    (pages.clear memory).get address = 0 := by
  by_cases inside : address < Word.limit
  · rw [clear, Memory.get_fill _ _ _ _ _ inside, Memory.get_fill _ _ _ _ _ inside,
      Memory.get_fill _ _ _ _ _ inside]
    rcases covered with stack | heap | tables
    · split
      · rfl
      · split
        · rfl
        · exact if_pos stack
    · split
      · rfl
      · exact if_pos heap
    · exact if_pos tables
  · exact Memory.get_eq_zero_of_limit_le _ _ (Nat.le_of_not_lt inside)

/-- What becomes of memory when the pages of a slot are made ready for a process. -/
structure Readies (pages : SlotMemory) (before after : Memory) : Prop where
  /-- Nothing but the pages of the slot changes. -/
  changes : before.ChangesOnly after pages.Owns
  /-- The stack and the heap are zero. -/
  zero : ∀ address, Extent.Covers ⟨pages.stack, Config.stackSize⟩ address ∨
    Extent.Covers ⟨pages.heap, Config.heapLimit⟩ address → after.get address = 0
  /-- The argument page stays as it is. -/
  kept : ∀ address, Extent.Covers ⟨pages.arguments, Config.pageSize⟩ address →
    after.get address = before.get address

/-- A slot is ready once its pages are cleared and a map is written into its tables. -/
theorem readies_clear (sound : pages.Sound) {written : Memory}
    (changes : (pages.clear memory).ChangesOnly written
      (Paging.mapExtent pages.tables).Covers) : pages.Readies memory written where
  changes := (pages.changesOnly_clear memory).trans
    (changes.mono fun _ covered => ⟨_, pages.tables_mem_parts, covered⟩)
  zero address covered := by
    have separate := sound.separate
    simp only [parts, List.pairwise_cons, List.forall_mem_cons] at separate
    have elsewhere : ¬ (Paging.mapExtent pages.tables).Covers address := by
      rcases covered with stack | heap
      · exact separate.1.2.2.1.not_covers stack
      · exact separate.2.2.1.1.not_covers heap
    rw [← get_clear (covered.imp_right .inl)]
    exact Classical.byContradiction fun changed => elsewhere (changes address changed)
  kept address covered := by
    have separate := sound.separate
    simp only [parts, List.pairwise_cons, List.forall_mem_cons] at separate
    have outside := separate.1.1.symm.not_covers covered
    have beside := separate.2.1.1.not_covers covered
    have behind := separate.2.1.2.1.not_covers covered
    refine (Classical.byContradiction fun changed => behind (changes address changed) :
      written.get address = (pages.clear memory).get address).trans ?_
    by_cases inside : address < Word.limit
    · rw [clear, Memory.get_fill _ _ _ _ _ inside, Memory.get_fill _ _ _ _ _ inside,
        Memory.get_fill _ _ _ _ _ inside]
      exact ((if_neg behind).trans (if_neg beside)).trans (if_neg outside)
    · rw [Memory.get_eq_zero_of_limit_le _ _ (Nat.le_of_not_lt inside),
        Memory.get_eq_zero_of_limit_le _ _ (Nat.le_of_not_lt inside)]

end SlotMemory

/-- The map that a process gets once its pages are cleared is its map, and its slot is ready. -/
theorem Process.mapped_of_clear {process : Process} {pages : SlotMemory} (sound : pages.Sound)
    (home : process.memory = pages) {accesses : List UserAccess}
    (opened : process.blockAccess Config.deviceBase = .ok accesses) (memory : Memory) :
    ∃ written, written = Paging.writeProcessMap (pages.clear memory) process.memory.tables
        Config.deviceBase process.memory.arguments
        (fun base => accesses.toArray.getD (base / Paging.block) .none) ∧
      pages.Readies memory written ∧
      ({ process with rootTable := process.memory.tables } : Process).Mapped written := by
  subst home
  have inside : Paging.page process.memory.tables Paging.processPages ≤ Word.limit :=
    Nat.le_of_lt (sound.bounded _ process.memory.tables_mem_parts)
  have still_opened : ({ process with rootTable := process.memory.tables } :
      Process).blockAccess Config.deviceBase = .ok accesses := opened
  refine ⟨_, rfl, SlotMemory.readies_clear sound (Paging.changesOnly_writeProcessMap _ _ _ _ _),
    mapped_of_writeProcessMap still_opened rfl inside fun _ covered =>
      SlotMemory.get_clear (.inr (.inr covered))⟩

end Microkernel
