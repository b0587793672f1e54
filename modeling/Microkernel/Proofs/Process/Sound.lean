import Microkernel.Kernel.Calls
import Microkernel.Proofs.Kernel.Placement
import Microkernel.Proofs.Process.Checks
import Microkernel.Proofs.Region.Order
import Microkernel.Proofs.Schedule.Choice

/-!
# What holds of every process slot

A vacant slot gives access to nothing.  A live process has four regions: its heap up to the break,
the program, its stack, and the page at which it sees its arguments.  They do not meet, whatever
the break, because the heap at its largest does not meet the others.
-/

namespace Microkernel

namespace Rights

theorem includes_image_without_write {rights : Rights} (marked : rights.includes .image = true) :
    (rights.without .write).includes .image = true := by
  simp only [includes, without, beq_iff_eq] at *
  rw [UInt32.and_assoc, show ~~~write.bits &&& image.bits = image.bits by decide]
  exact marked

theorem includes_write_without_write (rights : Rights) :
    (rights.without .write).includes .write = false := by
  simp only [includes, without, beq_eq_false_iff_ne]
  rw [UInt32.and_assoc, show ~~~write.bits &&& write.bits = 0 by decide, UInt32.and_zero]
  decide

end Rights

namespace Region

theorem clear_of_apart {first second : Region} {outer other : Extent} (apart : outer.Apart other)
    (first_base : first.base = outer.start) (first_size : first.size ≤ outer.length)
    (second_base : second.base = other.start) (second_size : second.size ≤ other.length)
    (outer_some : 0 < outer.length) (other_some : 0 < other.length) : first.Clear second := by
  simp only [Extent.Apart, Extent.stop, Clear, extent] at *
  omega

end Region

namespace SlotMemory

/-- Whether a program can run in a slot: its image is not empty, ends inside the address space, and
does not meet the pages of the slot or the page at which processes see their arguments. -/
structure Houses (memory : SlotMemory) (image : Extent) : Prop where
  /-- The pages of the slot do not meet. -/
  sound : memory.Sound
  /-- The image is not empty. -/
  nonempty : 0 < image.length
  /-- The image ends inside the address space. -/
  bounded : image.stop < Word.limit
  /-- The image does not meet the pages of the slot. -/
  apart : ∀ part ∈ memory.parts, image.Apart part
  /-- The image does not meet the page at which processes see their arguments. -/
  unseen : image.Apart ⟨Config.argumentAddress, Config.pageSize⟩

end SlotMemory

namespace Process

/-- The regions of a process whose heap is in use up to a given size. -/
def regionsFor (memory : SlotMemory) (image : Extent) (rights : Rights) (size : Nat) :
    List Region :=
  { base := memory.heap, size, rights := .readWrite } ::
    { base := image.start, size := image.length, rights } :: fixedRegions memory

/-- Whether a region table is the one of a live process: in order, with the program marked as such,
and written only by whoever may. -/
structure Equipped (regions : List Region) (memory : SlotMemory) (image : Extent) (size : Nat)
    (author : Prop) : Prop where
  /-- The regions are in the order of their addresses and do not overlap. -/
  ordered : Region.Ordered regions
  /-- There are four regions. -/
  made : ∃ rights, regions.Perm (regionsFor memory image rights size) ∧
    rights.includes .image = true ∧ (rights.includes .write = true → author)

/-- What holds of a process slot at all times.  The last argument says whether its process may write
the program. -/
structure Sound (process : Process) (memory : SlotMemory) (image : Extent) (author : Prop) :
    Prop where
  /-- The slot keeps its pages. -/
  memory_eq : process.memory = memory
  /-- The heap begins with the first of its pages. -/
  heap_base : process.heap.base = memory.heap
  /-- The heap has all of its pages. -/
  heap_limit : process.heap.limit = Config.heapLimit
  /-- The break lies in the heap. -/
  admits : process.heap.Admits process.heap.brk
  /-- A vacant slot gives access to nothing. -/
  vacant : process.state = .vacant → process.regions = [] ∧ process.handles = noHandles
  /-- A live process can use its own memory. -/
  live : process.state ≠ .vacant →
    Equipped process.regions memory image (process.heap.brk - process.heap.base) author
  /-- The deadline is that of a sleeper. -/
  timed : process.Timed

variable {process : Process} {memory : SlotMemory} {image : Extent} {author : Prop}

/-- The regions of a process are clear of one another, whatever the size of its heap. -/
theorem pairwise_clear_regionsFor (houses : memory.Houses image) (rights : Rights) {size : Nat}
    (small : size ≤ Config.heapLimit) :
    (regionsFor memory image rights size).Pairwise Region.Clear := by
  have page : 0 < Config.pageSize := by decide
  have stack_some : 0 < Config.stackSize := by decide
  have heap_some : 0 < Config.heapLimit := by decide
  have stack_part := memory.stack_mem_parts
  have heap_part := memory.heap_mem_parts
  have stack_heap : Extent.Apart ⟨memory.stack, Config.stackSize⟩
      ⟨memory.heap, Config.heapLimit⟩ := by
    have separate := houses.sound.separate
    simp only [SlotMemory.parts, List.pairwise_cons, List.forall_mem_cons] at separate
    exact separate.1.2.1
  simp only [regionsFor, fixedRegions, List.pairwise_cons, List.forall_mem_cons,
    List.not_mem_nil, false_imp_iff, implies_true, and_true, List.Pairwise.nil]
  refine ⟨⟨?_, ?_, ?_⟩, ⟨?_, ?_⟩, ?_⟩
  · exact Region.clear_of_apart (houses.apart _ heap_part).symm rfl small rfl (Nat.le_refl _)
      heap_some houses.nonempty
  · exact Region.clear_of_apart stack_heap.symm rfl small rfl (Nat.le_refl _) heap_some stack_some
  · exact Region.clear_of_apart (houses.sound.unseen _ heap_part) rfl small rfl (Nat.le_refl _)
      heap_some page
  · exact Region.clear_of_apart (houses.apart _ stack_part) rfl (Nat.le_refl _) rfl
      (Nat.le_refl _) houses.nonempty stack_some
  · exact Region.clear_of_apart houses.unseen rfl (Nat.le_refl _) rfl (Nat.le_refl _)
      houses.nonempty page
  · exact Region.clear_of_apart (houses.sound.unseen _ stack_part) rfl (Nat.le_refl _) rfl
      (Nat.le_refl _) stack_some page

theorem bounded_regionsFor (houses : memory.Houses image) (rights : Rights) {size : Nat}
    (small : size ≤ Config.heapLimit) :
    ∀ region ∈ regionsFor memory image rights size, region.Bounded := by
  have stack_bounded := houses.sound.bounded _ memory.stack_mem_parts
  have heap_bounded := houses.sound.bounded _ memory.heap_mem_parts
  simp only [regionsFor, fixedRegions, List.forall_mem_cons, List.not_mem_nil, false_imp_iff,
    implies_true, and_true, Region.Bounded, Region.extent, Extent.stop] at *
  refine ⟨by omega, houses.bounded, stack_bounded, by decide⟩

theorem Sound.used_le (sound : process.Sound memory image author) :
    process.heap.brk - process.heap.base ≤ Config.heapLimit :=
  sound.heap_limit ▸ sound.admits.2

theorem Sound.bounded (sound : process.Sound memory image author)
    (houses : memory.Houses image) : process.Bounded := by
  intro region member
  by_cases vacant : process.state = .vacant
  · rw [(sound.vacant vacant).1] at member
    exact absurd member List.not_mem_nil
  · obtain ⟨rights, perm, _⟩ := (sound.live vacant).made
    exact bounded_regionsFor houses rights sound.used_le region (perm.mem_iff.1 member)

/-- A process may write its stack, its heap, and the program if it is the one that may. -/
theorem Sound.may_write (sound : process.Sound memory image author) {address : Nat}
    (may : process.May .write address) :
    Extent.Covers ⟨memory.stack, Config.stackSize⟩ address ∨
      Extent.Covers ⟨memory.heap, Config.heapLimit⟩ address ∨
        (image.Covers address ∧ author) := by
  obtain ⟨region, member, writable, covers⟩ := may
  by_cases vacant : process.state = .vacant
  · rw [(sound.vacant vacant).1] at member
    exact absurd member List.not_mem_nil
  · obtain ⟨rights, perm, _, authored⟩ := (sound.live vacant).made
    have used_le := sound.used_le
    have found := perm.mem_iff.1 member
    simp only [regionsFor, fixedRegions, List.mem_cons, List.not_mem_nil, or_false] at found
    rcases found with rfl | rfl | rfl | rfl
    · refine .inr (.inl ⟨covers.1, ?_⟩)
      have before := covers.2
      simp only [Region.extent, Extent.stop] at *
      omega
    · exact .inr (.inr ⟨covers, authored writable⟩)
    · exact .inl covers
    · exact absurd writable (by decide)

/-- A process has rights in its own pages, the program, and where it sees its arguments. -/
theorem Sound.owns_of_may (sound : process.Sound memory image author) {needed : Rights}
    {address : Nat} (may : process.May needed address) :
    memory.Owns address ∨ image.Covers address ∨
      Extent.Covers ⟨Config.argumentAddress, Config.pageSize⟩ address := by
  obtain ⟨region, member, _, covers⟩ := may
  by_cases vacant : process.state = .vacant
  · rw [(sound.vacant vacant).1] at member
    exact absurd member List.not_mem_nil
  · obtain ⟨rights, perm, _⟩ := (sound.live vacant).made
    have used_le := sound.used_le
    have found := perm.mem_iff.1 member
    simp only [regionsFor, fixedRegions, List.mem_cons, List.not_mem_nil, or_false] at found
    rcases found with rfl | rfl | rfl | rfl
    · refine .inl ⟨_, memory.heap_mem_parts, covers.1, ?_⟩
      have before := covers.2
      simp only [Region.extent, Extent.stop] at *
      omega
    · exact .inr (.inl covers)
    · exact .inl ⟨_, memory.stack_mem_parts, covers⟩
    · exact .inr (.inr covers)

/-! ## Changes that keep a slot sound -/

/-- The registers, the priority, the handles and the last fault of a live process do not matter, nor
does what it waits for, as long as its deadline agrees with that. -/
theorem Sound.retain (sound : process.Sound memory image author) {changed : Process}
    (memory_eq : changed.memory = process.memory) (heap_eq : changed.heap = process.heap)
    (regions_eq : changed.regions = process.regions)
    (vacant : changed.state = .vacant → process.state = .vacant ∧
      changed.handles = process.handles)
    (live : changed.state ≠ .vacant → process.state ≠ .vacant)
    (timed : changed.Timed) :
    changed.Sound memory image author where
  memory_eq := memory_eq.trans sound.memory_eq
  heap_base := heap_eq ▸ sound.heap_base
  heap_limit := heap_eq ▸ sound.heap_limit
  admits := heap_eq ▸ sound.admits
  vacant is_vacant := by
    obtain ⟨was_vacant, handles_eq⟩ := vacant is_vacant
    rw [regions_eq, handles_eq]
    exact sound.vacant was_vacant
  live is_live := by
    rw [regions_eq, heap_eq]
    exact sound.live (live is_live)
  timed := timed

/-- The break of a live process can be put wherever the heap admits it. -/
theorem Sound.setBreak (sound : process.Sound memory image author)
    (houses : memory.Houses image) {brk : Nat} (admits : process.heap.Admits brk) :
    ∃ moved, process.setBreak brk = .ok moved ∧ moved.Sound memory image author ∧
      moved.state = process.state ∧ moved.handles = process.handles := by
  refine ⟨_, setBreak_eq_ok_iff.2 ⟨admits, rfl⟩, ⟨sound.memory_eq, sound.heap_base,
    sound.heap_limit, admits, ?_, ?_, sound.timed.congr rfl rfl⟩, rfl, rfl⟩
  · intro vacant
    obtain ⟨no_regions, no_handles⟩ := sound.vacant vacant
    refine ⟨?_, no_handles⟩
    simp only [no_regions]
    rfl
  · intro live
    have small : brk - process.heap.base ≤ Config.heapLimit := sound.heap_limit ▸ admits.2
    obtain ⟨ordered, rights, perm, marked, authored⟩ := sound.live live
    have clear := (List.pairwise_cons.1 (pairwise_clear_regionsFor houses rights small)).1
    obtain ⟨resized_ordered, resized_perm⟩ := ordered.resize perm (brk - process.heap.base)
      fun other member => (clear other member).symm
    refine ⟨?_, rights, ?_, marked, authored⟩
    · simp only [sound.heap_base] at *
      exact resized_ordered
    · simp only [sound.heap_base] at *
      exact resized_perm

/-- A slot can be taken by a process that runs the program, or by one that has none. -/
theorem Sound.occupy_run (sound : process.Sound memory image author)
    (houses : memory.Houses image) (pid : Pid) (priority : Priority) {rights : Rights}
    {program : List Region}
    (part : program.Sublist [{ base := image.start, size := image.length, rights }]) :
    ∃ taken, process.occupy pid priority program = .ok (taken, true) ∧
      Region.Ordered taken.regions ∧
      taken.regions.Perm ({ base := memory.heap, size := 0, rights := .readWrite } ::
        (program ++ fixedRegions memory)) ∧
      taken = { process with
        regions := taken.regions, heap := process.heap.reset, pid, priority
        deadline := none, handles := noHandles, lastFault := none, state := .live .runnable } := by
  have memory_eq := sound.memory_eq
  subst memory_eq
  have sublist := (part.append_right (fixedRegions process.memory)).cons_cons
    ({ base := process.memory.heap, size := 0, rights := .readWrite } : Region)
  have few : 4 ≤ Config.maxRegions := by decide
  obtain ⟨regions, granted, heap_granted, ordered, perm⟩ := Region.grantAll_grant?_eq
    (fun region member =>
      bounded_regionsFor houses rights (Nat.zero_le _) region (sublist.subset member))
    ((pairwise_clear_regionsFor houses rights (Nat.zero_le _)).sublist sublist)
    (Nat.le_trans sublist.length_le few)
  refine ⟨{ process with
    regions := Region.insertByBase regions _
    heap := process.heap.reset
    pid, priority
    deadline := none
    handles := noHandles
    lastFault := none
    state := .live .runnable }, ?_, ordered, perm, rfl⟩
  simp only [Process.occupy, granted, Heap.reset, sound.heap_base, heap_granted, bind,
    Except.bind, if_true]
  rfl

theorem Sound.occupy (sound : process.Sound memory image author) (houses : memory.Houses image)
    {pid : Pid} {priority : Priority} {rights : Rights} {taken : Process}
    (run : process.occupy pid priority
      [{ base := image.start, size := image.length, rights }] = .ok (taken, true))
    (marked : rights.includes .image = true) {mayWrite : Prop}
    (authored : rights.includes .write = true → mayWrite) :
    taken.Sound memory image mayWrite ∧ taken.state = .live .runnable ∧
      taken.handles = noHandles := by
  obtain ⟨found, found_run, ordered, perm, shape⟩ :=
    sound.occupy_run houses pid priority (List.Sublist.refl _)
  rw [found_run] at run
  cases run
  refine ⟨⟨?_, ?_, ?_, ?_, ?_, fun _ => ?_, ?_⟩, ?_, ?_⟩
  · rw [shape]
    exact sound.memory_eq
  · rw [shape]
    exact sound.heap_base
  · rw [shape]
    exact sound.heap_limit
  · rw [shape]
    exact ⟨Nat.le_refl _, Nat.le_trans (Nat.le_of_eq (Nat.sub_self _)) (Nat.zero_le _)⟩
  · rw [shape]
    intro vacant
    cases vacant
  · refine ⟨ordered, rights, ?_, marked, authored⟩
    have unused : taken.heap.brk - taken.heap.base = 0 := by
      rw [shape]
      exact Nat.sub_self _
    rw [unused]
    exact perm
  · rw [shape]
    exact timed_of_awake rfl (by simp)
  · rw [shape]
  · rw [shape]

theorem Sound.depart (sound : process.Sound memory image author)
    (no_handles : process.handles = noHandles) {mayWrite : Prop} :
    process.depart.Sound memory image mayWrite where
  memory_eq := sound.memory_eq
  heap_base := sound.heap_base
  heap_limit := sound.heap_limit
  admits := ⟨Nat.le_refl _, Nat.le_trans (Nat.le_of_eq (Nat.sub_self _)) (Nat.zero_le _)⟩
  vacant _ := ⟨rfl, no_handles⟩
  live is_live := absurd rfl is_live
  timed := timed_of_awake rfl (by simp [Process.depart])

theorem sound_vacant (memory : SlotMemory) (image : Extent) (author : Prop) :
    (Process.vacant memory Config.heapLimit).Sound memory image author where
  memory_eq := rfl
  heap_base := rfl
  heap_limit := rfl
  admits := ⟨Nat.le_refl _, Nat.le_trans (Nat.le_of_eq (Nat.sub_self _)) (Nat.zero_le _)⟩
  vacant _ := ⟨rfl, rfl⟩
  live is_live := absurd rfl is_live
  timed := timed_of_awake rfl (by simp [Process.vacant])

theorem Sound.inherited (sound : process.Sound memory image author)
    (live : process.state ≠ .vacant) :
    ∃ rights : Rights, CallM.inherited process.regions =
        [{ base := image.start, size := image.length, rights }] ∧
      rights.includes .image = true ∧ rights.includes .write = false := by
  obtain ⟨_, rights, perm, marked, _⟩ := sound.live live
  refine ⟨rights.without .write, ?_, Rights.includes_image_without_write marked,
    Rights.includes_write_without_write rights⟩
  have unmarked : Rights.readWrite.includes .image = false := by decide
  have window_unmarked : Rights.read.includes .image = false := by decide
  have filtered := perm.filter fun region => region.rights.includes .image
  simp only [regionsFor, fixedRegions, List.filter_cons, marked, unmarked, window_unmarked,
    List.filter_nil, Bool.false_eq_true, if_true, if_false] at filtered
  rw [CallM.inherited, List.perm_singleton.1 filtered]
  rfl

end Process
end Microkernel
