import Microkernel.Proofs.Boot.Attempt
import Microkernel.Proofs.Kernel.Room

/-!
# What boot hands out

The pages between the kernel and the device tree are handed out in order, first to the first page
map and then to the process slots.  So nobody gets a page that somebody else has, and neither the
kernel nor the device tree is touched.
-/

namespace Microkernel

namespace Boot

variable {record : BootRecord} {layout : BootLayout} {deviceBase : Nat} {memory : Memory}
  {outcome : BootOutcome}

/-- If the first page map is built, it lies in the pages from the end of the kernel on, and the
arena is what is left of the pages up to the device tree. -/
theorem of_bootstrap
    (started : (bootstrap record layout deviceBase memory).run = .ok (.ok outcome)) :
    ∃ first, layout.kernelStop.pageCeil? = some first ∧ layout.tree.value < Word.limit ∧
      first.value + Paging.bootPages * Config.pageSize < layout.tree.pageFloor.value ∧
      outcome.arena = ⟨first, Paging.bootPages, layout.tree.pageFloor⟩ ∧
      outcome.record.rootTable = first.value := by
  obtain ⟨ready, built⟩ := built_of_bootstrap started
  refine ⟨⟨layout.kernelStop.pageAbove⟩, ?_, ?_, ready.room, built.arena_eq, ?_⟩
  · rw [Address.pageCeil?_eq, if_pos ready.kernel]
  · exact Nat.lt_of_le_of_lt (Nat.le_trans (Nat.le_add_right _ _) layout.treeEnd.le_pageAbove)
      ready.tree
  · rw [built.record_eq, recordOf]

/-- The pages of the first page map. -/
def mapPages (outcome : BootOutcome) : List Extent :=
  (List.range Paging.bootPages).map fun place =>
    ⟨outcome.record.rootTable + place * Config.pageSize, Config.pageSize⟩

/-- The runs of pages of all slots. -/
def slotParts {slots : Nat} (pages : Vector SlotMemory slots) : List Extent :=
  pages.toList.flatMap SlotMemory.parts

/-- Whether extents are whole pages between two addresses, of which none is in two extents. -/
structure WholePages (extents : List Extent) (first last : Nat) : Prop where
  /-- Every extent begins and ends at a page boundary. -/
  aligned : ∀ extent ∈ extents,
    extent.start % Config.pageSize = 0 ∧ extent.length % Config.pageSize = 0
  /-- No two extents meet. -/
  separate : extents.Pairwise Extent.Apart
  /-- Every extent lies between the addresses. -/
  inside : ∀ extent ∈ extents, first ≤ extent.start ∧ extent.stop ≤ last

variable {extents others : List Extent} {first middle last : Nat}

theorem WholePages.append (below : WholePages extents first middle)
    (above : WholePages others middle last) (first_le : first ≤ middle) (le_last : middle ≤ last) :
    WholePages (extents ++ others) first last where
  aligned := List.forall_mem_append.2 ⟨below.aligned, above.aligned⟩
  separate := List.pairwise_append.2 ⟨below.separate, above.separate,
    fun extent member other other_member =>
      .inl (Nat.le_trans (below.inside extent member).2 (above.inside other other_member).1)⟩
  inside := List.forall_mem_append.2
    ⟨fun extent member => ⟨(below.inside extent member).1,
      Nat.le_trans (below.inside extent member).2 le_last⟩,
    fun extent member => ⟨Nat.le_trans first_le (above.inside extent member).1,
      (above.inside extent member).2⟩⟩

theorem wholePages_mapPages (outcome : BootOutcome)
    (aligned : outcome.record.rootTable % Config.pageSize = 0) :
    WholePages (mapPages outcome) outcome.record.rootTable
      (outcome.record.rootTable + Paging.bootPages * Config.pageSize) where
  aligned := by
    rintro extent member
    obtain ⟨place, _, rfl⟩ := List.mem_map.1 member
    exact ⟨(Nat.add_mul_mod_self_right _ _ _).trans aligned, Nat.mod_self _⟩
  separate := by
    rw [mapPages, List.pairwise_map]
    refine List.pairwise_lt_range.imp fun {place other} before => .inl ?_
    simp only [Extent.stop, Config.pageSize]
    omega
  inside := by
    rintro extent member
    obtain ⟨place, small, rfl⟩ := List.mem_map.1 member
    have few := List.mem_range.1 small
    simp only [Extent.stop, Config.pageSize]
    omega

open Slots in
theorem wholePages_slotParts {slots : Nat} {pages : Vector SlotMemory slots}
    {before after : Arena .virtual} (aligned : before.base.value % Config.pageSize = 0)
    (word : before.bound.value ≤ Word.limit) (run : carveAll slots before = .ok pages after) :
    WholePages (slotParts pages) before.cursor after.cursor := by
  obtain ⟨_, sound, separate⟩ := carveAll_toList_ok aligned word run
  refine ⟨fun part member => ?_, ?_, fun part member => ?_⟩
  · obtain ⟨memory, here, owned⟩ := List.mem_flatMap.1 member
    exact ⟨(sound memory here).1.aligned part owned, memory.whole_parts part owned⟩
  · exact List.pairwise_flatMap.2 ⟨fun memory here => (sound memory here).1.separate,
      separate.imp fun {first second} apart => apart⟩
  · obtain ⟨memory, here, owned⟩ := List.mem_flatMap.1 member
    have taken := (sound memory here).2 part owned
    exact ⟨taken.start_le, taken.le_stop⟩

theorem apart_of_mem_slotParts {slots : Nat} {pages : Vector SlotMemory slots}
    {before after : Arena .virtual} (aligned : before.base.value % Config.pageSize = 0)
    (word : before.bound.value ≤ Word.limit)
    (run : Slots.carveAll slots before = .ok pages after) :
    ∀ part ∈ slotParts pages, part.Apart ⟨Config.argumentAddress, Config.pageSize⟩ := by
  intro part member
  obtain ⟨memory, here, owned⟩ := List.mem_flatMap.1 member
  exact ((Slots.carveAll_toList_ok aligned word run).2.1 memory here).1.unseen part owned

/-- Whether an arena has the pages that are left for the slots: those behind the first page map, up
to the device tree. -/
structure Leaves (layout : BootLayout) (first : Nat) (arena : Arena .virtual) : Prop where
  /-- The arena begins at a page boundary. -/
  aligned : arena.base.value % Config.pageSize = 0
  /-- The arena ends inside the address space. -/
  word : arena.bound.value ≤ Word.limit
  /-- The arena ends where the device tree begins. -/
  bound : arena.bound.value = layout.tree.pageFloor.value
  /-- The next page lies behind the first page map. -/
  cursor : arena.cursor = first + Paging.bootPages * Config.pageSize
  /-- There is a page left. -/
  room : arena.cursor < arena.bound.value

theorem leaves_of_bootstrap
    (started : (bootstrap record layout deviceBase memory).run = .ok (.ok outcome)) :
    ∃ first, layout.kernelStop.pageCeil? = some first ∧
      layout.kernelStop.value ≤ first.value ∧ first.value % Config.pageSize = 0 ∧
      outcome.record.rootTable = first.value ∧
      Leaves layout first.value outcome.arena.identityMapped := by
  obtain ⟨first, ceiling, tree, room, arena_eq, root_eq⟩ := of_bootstrap started
  obtain ⟨aligned, behind⟩ := Address.of_pageCeil?_eq_some ceiling
  refine ⟨first, ceiling, behind, aligned, root_eq, ?_⟩
  rw [arena_eq]
  exact {
    aligned
    word := Nat.le_of_lt (Nat.lt_of_le_of_lt layout.tree.pageFloor_le tree)
    bound := rfl
    cursor := rfl
    room }

/-- The pages of the first page map and those that the slots get are whole pages in front of the
device tree. -/
theorem Leaves.wholePages {arena rest : Arena .virtual}
    (leaves : Leaves layout outcome.record.rootTable arena)
    (aligned : outcome.record.rootTable % Config.pageSize = 0) {slots : Nat}
    {pages : Vector SlotMemory slots} (run : Slots.carveAll slots arena = .ok pages rest) :
    ∃ stop, rest.stop = .ok stop ∧ stop.value < layout.tree.pageFloor.value ∧
      WholePages (mapPages outcome ++ slotParts pages) outcome.record.rootTable stop.value := by
  have took := Slots.takes_carveAll slots arena leaves.word leaves.room
  rw [run] at took
  cases took with
  | took _ steps _ inside =>
      have slot_pages := wholePages_slotParts leaves.aligned leaves.word run
      rw [leaves.cursor] at slot_pages
      exact ⟨_, Arena.stop_eq (Nat.lt_of_lt_of_le inside leaves.word), leaves.bound ▸ inside,
        (wholePages_mapPages outcome aligned).append slot_pages (Nat.le_add_right _ _)
          (leaves.cursor ▸ steps.cursor_le)⟩

/-- If the first page map is built, its pages and those that the slots then get out of the rest of
the arena are whole pages of which no two meet, between the kernel and the device tree, and what is
left of the arena begins behind them.  No run of a slot meets the page at which processes see their
arguments.  The slots get their pages exactly if these, and the run that is passed over, end in
front of the device tree; otherwise the pages are too few, and this is found out without looking for
a run more than twice. -/
theorem hands_out_once
    (started : (bootstrap record layout deviceBase memory).run = .ok (.ok outcome))
    (slots : Nat) :
    ∃ first, layout.kernelStop.pageCeil? = some first ∧
      layout.kernelStop.value ≤ first.value ∧
      layout.tree.pageFloor.value ≤ layout.tree.value ∧
      (∀ (pages : Vector SlotMemory slots) (rest : Arena .virtual),
        Slots.carveAll slots outcome.arena.identityMapped = .ok pages rest →
        ∃ stop, rest.stop = .ok stop ∧ stop.value < layout.tree.pageFloor.value ∧
          WholePages (mapPages outcome ++ slotParts pages) first.value stop.value ∧
          ∀ part ∈ slotParts pages, part.Apart ⟨Config.argumentAddress, Config.pageSize⟩) ∧
      (Slots.stopAfter (first.value + Paging.bootPages * Config.pageSize) (Slots.runsOf slots) <
          layout.tree.pageFloor.value →
        ∃ pages rest, Slots.carveAll slots outcome.arena.identityMapped = .ok pages rest) ∧
      (layout.tree.pageFloor.value ≤
          Slots.stopAfter (first.value + Paging.bootPages * Config.pageSize)
            (Slots.runsOf slots) →
        ∃ left, Slots.carveAll slots outcome.arena.identityMapped = .error .outOfPages left) ∧
      ∀ pages arena, ∃ count ≤ 2, Slots.Rounds pages count arena (Slots.carve pages arena) := by
  obtain ⟨first, ceiling, behind, aligned, root_eq, leaves⟩ := leaves_of_bootstrap started
  have takes := Slots.takes_carveAll slots
  refine ⟨first, ceiling, behind, layout.tree.pageFloor_le, fun pages rest run => ?_,
    fun fits => ?_, fun full => ?_, Slots.rounds_carve⟩
  · rw [← root_eq] at aligned leaves ⊢
    obtain ⟨stop, ends, below, whole⟩ := leaves.wholePages aligned run
    exact ⟨stop, ends, below, whole, apart_of_mem_slotParts leaves.aligned leaves.word run⟩
  · rw [← leaves.cursor, ← leaves.bound] at fits
    exact takes.ok_of_fits leaves.word leaves.room fits
  · rw [← leaves.cursor, ← leaves.bound] at full
    exact takes.error_of_full leaves.word leaves.room full

/-- The argument address lies inside the first run for a heap, which is passed over. -/
theorem hands_out_once_around_window : ∃ outcome pages rest stop,
    (bootstrap .blank ⟨⟨0x80000⟩, ⟨0xFF8010⟩, ⟨0x2000100⟩, 0x1000, 0⟩ 0x3F000000 .zero).run =
      .ok (.ok outcome) ∧
    Slots.passedOver 0xFFC000 (Slots.runsOf Config.maxProcesses) = Config.heapPages ∧
    Slots.carveAll Config.maxProcesses outcome.arena.identityMapped = .ok pages rest ∧
    rest.stop = .ok stop ∧
    WholePages (mapPages outcome ++ slotParts pages) 0xFF9000 stop.value := by
  have evaluated : (match (bootstrap .blank
      ⟨⟨0x80000⟩, ⟨0xFF8010⟩, ⟨0x2000100⟩, 0x1000, 0⟩ 0x3F000000 .zero).run with
      | .ok (.ok _) => true
      | _ => false) = true := by
    decide +kernel
  split at evaluated
  next outcome started =>
    obtain ⟨first, ceiling, _, _, parts, fits, _, _⟩ :=
      hands_out_once started Config.maxProcesses
    cases ceiling
    obtain ⟨pages, rest, run⟩ := fits (by decide +kernel)
    obtain ⟨stop, ends, _, whole, _⟩ := parts pages rest run
    exact ⟨outcome, pages, rest, stop, started, by decide +kernel, run, ends, whole⟩
  next => cases evaluated

end Boot
end Microkernel
