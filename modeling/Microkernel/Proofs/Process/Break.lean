import Microkernel.Proofs.Process.Ownership
import Microkernel.Proofs.Process.Sound

/-!
# Where the break lies

The part of a heap up to the break is one region of the process.  Moving the break resizes this
region where it stands in the table and leaves the others alone.  Of the pages of its heap, a
program may use what lies before the break, and nothing else.
-/

namespace Microkernel

namespace Heap

/-- The part of a heap that is in use, as a region of its owner. -/
def region (heap : Heap) : Region where
  base := heap.base
  size := heap.brk - heap.base
  rights := .readWrite

/-- Whether the break has room to move by a signed number of bytes. -/
def HasRoom (heap : Heap) (increment : Int) : Prop :=
  (heap.base : Int) ≤ heap.brk + increment ∧ heap.brk + increment ≤ heap.base + heap.limit

variable {heap : Heap} {increment : Int}

theorem shifted?_of_hasRoom (bounded : heap.base + heap.limit < Word.limit)
    (room : heap.HasRoom increment) :
    ∃ brk, heap.shifted? increment = some brk ∧ heap.Admits brk ∧
      (brk : Int) = heap.brk + increment := by
  obtain ⟨above, below⟩ := room
  obtain ⟨brk, sum⟩ := Int.eq_ofNat_of_zero_le (Int.le_trans (Int.natCast_nonneg _) above)
  have admits : heap.Admits brk := ⟨by omega, by omega⟩
  refine ⟨brk, (shifted?_eq_some_iff _ _ _).2 ⟨⟨sum.symm, fun _ => ?_⟩, admits⟩, admits, sum.symm⟩
  exact Nat.lt_of_le_of_lt (by omega) bounded

theorem shifted?_of_not_hasRoom (no_room : ¬ heap.HasRoom increment) :
    heap.shifted? increment = none := by
  rw [Option.eq_none_iff_forall_ne_some]
  intro brk moved
  obtain ⟨⟨sum, _⟩, above, below⟩ := (shifted?_eq_some_iff _ _ _).1 moved
  exact no_room ⟨by omega, by omega⟩

end Heap

namespace Process

/-- What is left of a process when its break has moved by a signed number of bytes. -/
structure BreakMoved (process : Process) (increment : Int) (moved : Process) : Prop where
  /-- The break has moved as over the integers. -/
  brk : (moved.heap.brk : Int) = process.heap.brk + increment
  /-- The response tells where the break was. -/
  told : moved.registers.response.toNat = process.heap.brk
  /-- The region of the heap, the only one that begins there, ends at the break, and the other
  regions are what and where they were. -/
  regions : ∃ before behind, process.regions = before ++ process.heap.region :: behind ∧
    moved.regions = before ++ moved.heap.region :: behind ∧
      ∀ other ∈ before ++ behind, other.base ≠ process.heap.base
  /-- The regions are in order, and none runs into another. -/
  ordered : Region.Ordered moved.regions
  /-- Nothing else has changed. -/
  rest : moved = { process with
    registers := process.registers.respond moved.registers.response
    heap := { process.heap with brk := moved.heap.brk }
    regions := moved.regions }

namespace Sound

variable {process : Process} {memory : SlotMemory} {image : Extent} {author : Prop}

theorem heap_bounded (sound : process.Sound memory image author)
    (houses : memory.Houses image) : process.heap.base + process.heap.limit < Word.limit := by
  rw [sound.heap_base, sound.heap_limit]
  exact houses.sound.bounded _ memory.heap_mem_parts

theorem heap_region_mem (sound : process.Sound memory image author)
    (live : process.state ≠ .vacant) : process.heap.region ∈ process.regions := by
  obtain ⟨_, rights, perm, _⟩ := sound.live live
  rw [perm.mem_iff, regionsFor, ← sound.heap_base]
  exact List.mem_cons_self

/-- Putting the break of a live process elsewhere in the heap moves the end of one region. -/
theorem breakMoved (sound : process.Sound memory image author) (houses : memory.Houses image)
    (live : process.state ≠ .vacant) {increment : Int} {brk : Nat}
    (admits : process.heap.Admits brk) (sum : (brk : Int) = process.heap.brk + increment) :
    ∃ moved, process.setBreak brk = .ok moved ∧
      process.BreakMoved increment (moved.respond process.heap.brk.toUInt64) := by
  obtain ⟨moved, run, moved_sound, state, _⟩ := sound.setBreak houses admits
  refine ⟨moved, run, ?_⟩
  obtain ⟨before, behind, split⟩ := List.append_of_mem (sound.heap_region_mem live)
  have ordered := (sound.live live).ordered
  rw [split] at ordered
  obtain ⟨resized, distinct⟩ := ordered.resize_eq (brk - process.heap.base)
  have still_ordered := (moved_sound.live (state ▸ live)).ordered
  obtain ⟨_, rfl⟩ := Process.setBreak_eq_ok_iff.1 run
  have word : process.heap.brk < Word.limit := by
    have bounded := sound.heap_bounded houses
    obtain ⟨_, used⟩ := sound.admits
    omega
  refine ⟨sum, ?_, ⟨before, behind, split, ?_, distinct⟩, still_ordered, ?_⟩
  · rw [respond, Registers.response_respond]
    exact Nat.mod_eq_of_lt word
  · rw [respond, split]
    exact resized
  · simp only [respond, Registers.response_respond]

/-- What a program may use of the pages of its heap lies before the break. -/
theorem may_heap_iff (sound : process.Sound memory image author) (houses : memory.Houses image)
    (live : process.state ≠ .vacant) {needed : Rights}
    (granted : Rights.readWrite.includes needed = true) {address : Nat}
    (behind : process.heap.base ≤ address)
    (before : address < process.heap.base + process.heap.limit) :
    process.May needed address ↔ address < process.heap.brk := by
  have used := sound.admits
  constructor
  · rintro ⟨region, member, _, covers⟩
    obtain ⟨ordered, rights, perm, _⟩ := sound.live live
    have clear := pairwise_clear_regionsFor houses rights (Nat.le_refl Config.heapLimit)
    have heap_clear := (List.pairwise_cons.1 clear).1
    rw [perm.mem_iff, regionsFor, List.mem_cons] at member
    rw [sound.heap_base, sound.heap_limit] at before
    rw [sound.heap_base] at behind
    rcases member with rfl | member
    · have inside := covers.2
      simp only [Region.extent, Extent.stop, Heap.Admits, sound.heap_base] at inside used
      omega
    · -- the other regions are clear of the heap even at its largest
      have apart := heap_clear region member
      simp only [Region.Clear, Region.extent, Extent.stop, Extent.Covers] at apart covers
      omega
  · intro below
    refine ⟨process.heap.region, sound.heap_region_mem live, granted, behind, ?_⟩
    simp only [Heap.region, Region.extent, Extent.stop, Heap.Admits] at *
    omega

/-- A slice of the pages of the heap is accepted if it ends at the break or before. -/
theorem canAccess_heap_iff (sound : process.Sound memory image author)
    (houses : memory.Houses image) (live : process.state ≠ .vacant) {needed : Rights}
    (granted : Rights.readWrite.includes needed = true) {layout : ElementLayout}
    (sized : layout.size ≠ 0) {slice : UserSlice layout} (nonempty : slice.isEmpty = false)
    (behind : process.heap.base ≤ slice.base)
    (before : slice.stop ≤ process.heap.base + process.heap.limit) :
    process.canAccess slice needed = .ok true ↔ slice.stop ≤ process.heap.brk := by
  have spaced := (sound.live live).ordered.spaced (sound.bounded houses)
  have some_address := slice.base_lt_stop sized nonempty
  have stop_eq : slice.extent.stop = slice.stop := slice.stop_eq.symm
  have may_iff {address : Nat} (covered : slice.extent.Covers address) :
      process.May needed address ↔ address < process.heap.brk := by
    refine sound.may_heap_iff houses live granted (Nat.le_trans behind covered.1) ?_
    exact Nat.lt_of_lt_of_le covered.2 (stop_eq ▸ before)
  rw [canAccess_eq_true_iff spaced sized]
  constructor
  · rintro (empty | may)
    · rw [nonempty] at empty
      cases empty
    · -- the last address of the slice decides
      have last : slice.extent.Covers (slice.stop - 1) := by
        simp only [Extent.Covers, stop_eq]
        exact ⟨Nat.le_sub_one_of_lt some_address, by omega⟩
      have below := (may_iff last).1 (may _ last)
      omega
  · intro below
    refine .inr fun address covered => (may_iff covered).2 ?_
    exact Nat.lt_of_lt_of_le covered.2 (stop_eq ▸ below)

end Sound
end Process
end Microkernel
