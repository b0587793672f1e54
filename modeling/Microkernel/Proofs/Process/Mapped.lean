import Microkernel.Proofs.Paging.WholeMap
import Microkernel.Proofs.Process.Blocks
import Microkernel.Proofs.Process.Sound

/-!
# The map of a process agrees with its regions

What a process may do is written down twice: byte by byte in its region table, which the kernel goes
by, and block by block in its page map, which the processor goes by.  `Process.Mapped` says how the
map is made, and `Process.Agrees` what follows for every address.  The map counts the heap at its
largest, so it fits wherever the break is.
-/

namespace Microkernel
namespace Process

variable {process changed : Process} {memory later : Memory} {slotMemory : SlotMemory}
  {image : Extent} {author : Prop} {address : Nat}

/-! ## How the map is made -/

/-- Whether the tables of a slot hold the map of the process in it. -/
structure Mapped (process : Process) (memory : Memory) : Prop where
  /-- The process uses the tables of its slot. -/
  root : process.rootTable = process.memory.tables
  /-- A block is opened if memory of the process lies there. -/
  map : ∃ access, Paging.MapsOnly memory process.memory.tables Config.deviceBase
      process.memory.arguments access ∧
    ∀ address < Config.deviceBase,
      (access (address / Paging.block * Paging.block) ≠ .none ↔ process.Opens address) ∧
      (access (address / Paging.block * Paging.block) = .readWrite ↔
        process.OpensToWrite address)

theorem mapped_of_writeProcessMap {accesses : List UserAccess}
    (run : process.blockAccess Config.deviceBase = .ok accesses)
    (root : process.rootTable = process.memory.tables)
    (inside : Paging.page process.memory.tables Paging.processPages ≤ Word.limit)
    (zero : ∀ address, (Paging.mapExtent process.memory.tables).Covers address →
      memory.get address = 0) :
    process.Mapped (Paging.writeProcessMap memory process.memory.tables Config.deviceBase
      process.memory.arguments fun base => accesses.toArray.getD (base / Paging.block) .none) := by
  refine ⟨root, _, Paging.mapsOnly_writeProcessMap _ _ _ inside zero, fun address below => ?_⟩
  have near : address < Paging.largeBlock := Nat.lt_of_lt_of_le below (by decide)
  exact ⟨blockAccess_opens run near below, blockAccess_opensToWrite run near below⟩

theorem Mapped.retain (mapped : process.Mapped memory)
    (root : changed.rootTable = process.rootTable) (pages : changed.memory = process.memory)
    (regions : changed.regions = process.regions) (heap : changed.heap = process.heap) :
    changed.Mapped memory := by
  have opens (address : Nat) : changed.Opens address ↔ process.Opens address := by
    rw [Opens, Opens, openExtents, openExtents, regions, heap]
  have opensToWrite (address : Nat) :
      changed.OpensToWrite address ↔ process.OpensToWrite address := by
    rw [OpensToWrite, OpensToWrite, writeExtents, writeExtents, regions, heap]
  obtain ⟨access, maps, gives⟩ := mapped.map
  refine ⟨?_, access, ?_, fun address below => ?_⟩
  · rw [root, pages]
    exact mapped.root
  · rw [pages]
    exact maps
  · rw [opens, opensToWrite]
    exact gives address below

theorem Mapped.of_agree (mapped : process.Mapped memory)
    (agree : later.AgreeOn memory (Paging.mapExtent process.memory.tables).Covers) :
    process.Mapped later := by
  obtain ⟨access, maps, gives⟩ := mapped.map
  exact ⟨mapped.root, access, maps.of_agree agree, gives⟩

private theorem meets_iff {keep : Region → Bool} {regions others : List Region} {region : Region}
    {heap : Heap} {other : Extent} (perm : regions.Perm (region :: others))
    (base : region.base = heap.base) (small : region.size ≤ heap.limit) :
    (∃ extent ∈ (regions.filter keep).map (·.extent) ++ [⟨heap.base, heap.limit⟩],
      ¬ extent.Apart other) ↔
    ∃ extent ∈ (others.filter keep).map (·.extent) ++ [⟨heap.base, heap.limit⟩],
      ¬ extent.Apart other := by
  simp only [List.mem_append, List.mem_map, List.mem_filter, List.mem_cons, List.not_mem_nil,
    or_false, perm.mem_iff]
  constructor
  · rintro ⟨_, ⟨found, ⟨rfl | member, kept⟩, rfl⟩ | rfl, meets⟩
    · refine ⟨_, .inr rfl, fun apart => meets ?_⟩
      simp only [Extent.Apart, Extent.stop, Region.extent] at *
      omega
    · exact ⟨_, .inl ⟨found, ⟨member, kept⟩, rfl⟩, meets⟩
    · exact ⟨_, .inr rfl, meets⟩
  · rintro ⟨_, ⟨found, ⟨member, kept⟩, rfl⟩ | rfl, meets⟩
    · exact ⟨_, .inl ⟨found, ⟨.inr member, kept⟩, rfl⟩, meets⟩
    · exact ⟨_, .inr rfl, meets⟩

/-- The map of a live process fits wherever its break is put. -/
theorem Mapped.setBreak (mapped : process.Mapped memory)
    (sound : process.Sound slotMemory image author) (houses : slotMemory.Houses image)
    (live : process.state ≠ .vacant) {brk : Nat} (admits : process.heap.Admits brk)
    (run : process.setBreak brk = .ok changed) : changed.Mapped memory := by
  obtain ⟨_, rfl⟩ := Process.setBreak_eq_ok_iff.1 run
  have used_le := sound.used_le
  have size_le : brk - process.heap.base ≤ Config.heapLimit := sound.heap_limit ▸ admits.2
  obtain ⟨ordered, rights, perm, _⟩ := sound.live live
  have clear := (List.pairwise_cons.1 (pairwise_clear_regionsFor houses rights size_le)).1
  have resized := (ordered.resize perm (brk - process.heap.base)
    fun other member => (clear other member).symm).2
  rw [← sound.heap_base] at resized
  rw [← sound.heap_limit] at used_le size_le
  obtain ⟨access, maps, gives⟩ := mapped.map
  refine ⟨mapped.root, access, maps, fun address below => ?_⟩
  obtain ⟨opens, opensToWrite⟩ := gives address below
  -- Before and after, the heap region lies in the largest heap, which counts anyway.
  constructor
  · exact opens.trans ((meets_iff perm sound.heap_base.symm used_le).trans
      (meets_iff resized rfl size_le).symm)
  · exact opensToWrite.trans ((meets_iff perm sound.heap_base.symm used_le).trans
      (meets_iff resized rfl size_le).symm)

/-! ## What follows for every address -/

/-- Whether an address shares its block with an address in one of some extents. -/
def SharesBlock (extents : List Extent) (address : Nat) : Prop :=
  ∃ extent ∈ extents, ∃ place, extent.Covers place ∧
    place / Paging.block = address / Paging.block

/-- Whether the map of a process lets its program do what its regions say, and, as far as blocks can
tell, no more. -/
structure Agrees (process : Process) (memory : Memory) : Prop where
  /-- The program can reach every address of its regions, write where it may, and execute where it
  may.  There it finds the memory at that very address, or its argument page, which nobody can
  write. -/
  gives : ∀ region ∈ process.regions, ∀ address, region.extent.Covers address → ∃ leaf size,
    Paging.lookup memory process.rootTable address = some (leaf, size) ∧
    leaf.includes .user = true ∧
    (region.rights.includes .write = true → leaf.includes .readOnly = false) ∧
    (region.rights.includes .execute = true → leaf.includes .userExecuteNever = false) ∧
    if Extent.Covers ⟨Config.argumentAddress, Config.pageSize⟩ address then
      leaf.address + address % size =
          process.memory.arguments + (address - Config.argumentAddress) ∧
        leaf.includes .readOnly = true
    else leaf.address + address % size = address
  /-- What the program can reach lies in its argument page or in a block with memory of the process,
  what it can write lies in a block with memory that it may write, and none of it is a device. -/
  only : ∀ address < 2 ^ 48, ∀ leaf size,
    Paging.lookup memory process.rootTable address = some (leaf, size) →
    leaf.includes .user = true →
    (Extent.Covers ⟨Config.argumentAddress, Config.pageSize⟩ address ∨
      SharesBlock process.openExtents address) ∧
    (leaf.includes .readOnly = false → SharesBlock process.writeExtents address) ∧
    leaf.includes .device = false ∧ leaf.address + address % size < Config.deviceBase

/-- The regions of a live process besides the argument page lie away from that, and below the
devices if the pages of the slot and the program do. -/
theorem Sound.region_cases (sound : process.Sound slotMemory image author)
    (houses : slotMemory.Houses image)
    (below : ∀ part ∈ slotMemory.parts, part.stop ≤ Config.deviceBase)
    (image_below : image.stop ≤ Config.deviceBase) {region : Region}
    (member : region ∈ process.regions) :
    region = { base := Config.argumentAddress, size := Config.pageSize, rights := .read } ∨
      (region.base ≠ Config.argumentAddress ∧
        region.extent.Apart ⟨Config.argumentAddress, Config.pageSize⟩ ∧
          region.extent.stop ≤ Config.deviceBase) := by
  have live : process.state ≠ .vacant := by
    intro vacant
    rw [(sound.vacant vacant).1] at member
    cases member
  obtain ⟨_, rights, perm, _⟩ := sound.live live
  have found := perm.mem_iff.1 member
  have used_le := sound.used_le
  have stack_below := below _ slotMemory.stack_mem_parts
  have heap_below := below _ slotMemory.heap_mem_parts
  have stack_unseen := houses.sound.unseen _ slotMemory.stack_mem_parts
  have heap_unseen := houses.sound.unseen _ slotMemory.heap_mem_parts
  have image_unseen := houses.unseen
  have nonempty := houses.nonempty
  simp only [regionsFor, fixedRegions, List.mem_cons, List.not_mem_nil, or_false] at found
  rcases found with rfl | rfl | rfl | rfl
  · right
    simp only [Extent.Apart, Extent.stop, Region.extent, Config.heapLimit, Config.heapPages,
      Config.argumentAddress, Config.pageSize] at *
    omega
  · right
    simp only [Extent.Apart, Extent.stop, Region.extent, Config.argumentAddress,
      Config.pageSize] at *
    omega
  · right
    simp only [Extent.Apart, Extent.stop, Region.extent, Config.stackSize, Config.stackPages,
      Config.argumentAddress, Config.pageSize] at *
    omega
  · exact .inl rfl

private theorem not_apart_of_covers {extent : Extent} (covered : extent.Covers address) :
    ¬ extent.Apart ⟨address / Paging.block * Paging.block, Paging.block⟩ := by
  simp only [Extent.Covers, Extent.Apart, Extent.stop, Paging.block] at *
  omega

theorem opens_of_covers {region : Region} (member : region ∈ process.regions)
    (outside : region.base ≠ Config.argumentAddress) (covered : region.extent.Covers address) :
    process.Opens address ∧
      (region.rights.includes .write = true → process.OpensToWrite address) := by
  have meets := not_apart_of_covers covered
  have kept : (region.base != Config.argumentAddress) = true := by simpa using outside
  refine ⟨⟨region.extent, ?_, meets⟩, fun writable => ⟨region.extent, ?_, meets⟩⟩
  · exact List.mem_append_left _ (List.mem_map_of_mem (List.mem_filter.2 ⟨member, kept⟩))
  · refine List.mem_append_left _ (List.mem_map_of_mem (List.mem_filter.2 ⟨member, ?_⟩))
    rw [kept, writable]
    rfl

private theorem covers_of_meets {extent : Extent} (nonempty : 0 < extent.length)
    (meets : ¬ extent.Apart ⟨address / Paging.block * Paging.block, Paging.block⟩) :
    ∃ place, extent.Covers place ∧ place / Paging.block = address / Paging.block := by
  refine ⟨max extent.start (address / Paging.block * Paging.block), ?_⟩
  simp only [Extent.Covers, Extent.Apart, Extent.stop, Paging.block] at *
  omega

/-- If memory of a live process meets a block, then some of it lies there: only the heap can be
empty, and the largest heap is not. -/
theorem Sound.sharesBlock (sound : process.Sound slotMemory image author)
    (houses : slotMemory.Houses image) (live : process.state ≠ .vacant) {keep : Region → Bool}
    (meets : ∃ extent ∈ (process.regions.filter keep).map (·.extent) ++
        [⟨process.heap.base, process.heap.limit⟩],
      ¬ extent.Apart ⟨address / Paging.block * Paging.block, Paging.block⟩) :
    SharesBlock ((process.regions.filter keep).map (·.extent) ++
      [⟨process.heap.base, process.heap.limit⟩]) address := by
  obtain ⟨_, rights, perm, _⟩ := sound.live live
  have used_le := sound.used_le
  have limit_eq := sound.heap_limit
  rw [meets_iff perm sound.heap_base.symm (limit_eq ▸ used_le)] at meets
  obtain ⟨extent, member, meets⟩ := meets
  rcases List.mem_append.1 member with found | window
  · obtain ⟨region, kept, rfl⟩ := List.mem_map.1 found
    obtain ⟨other, keeps⟩ := List.mem_filter.1 kept
    have mine := List.mem_filter.2 ⟨perm.mem_iff.2 (List.mem_cons_of_mem _ other), keeps⟩
    have some_address : 0 < region.size := by
      simp only [fixedRegions, List.mem_cons, List.not_mem_nil, or_false] at other
      rcases other with rfl | rfl | rfl
      · exact houses.nonempty
      · exact (by decide : 0 < Config.stackSize)
      · exact (by decide : 0 < Config.pageSize)
    exact ⟨_, List.mem_append_left _ (List.mem_map_of_mem mine),
      covers_of_meets some_address meets⟩
  · cases List.mem_singleton.1 window
    have some_address : 0 < process.heap.limit := by
      rw [limit_eq]
      decide
    exact ⟨_, List.mem_append_right _ window, covers_of_meets some_address meets⟩

/-- Whether descriptors can lead to the argument page and to the tables of a process. -/
structure Placed (process : Process) : Prop where
  /-- They can lead to the argument page. -/
  arguments : Descriptor.Fits process.memory.arguments
  /-- The argument page lies below the devices. -/
  arguments_below : process.memory.arguments + Config.pageSize ≤ Config.deviceBase
  /-- They can lead to each of the tables. -/
  tables : ∀ number < Paging.processPages,
    Descriptor.Fits (Paging.page process.memory.tables number)

theorem Sound.placed (sound : process.Sound slotMemory image author)
    (houses : slotMemory.Houses image)
    (below : ∀ part ∈ slotMemory.parts, part.stop ≤ Config.deviceBase) : process.Placed := by
  have arguments_below := below _ slotMemory.arguments_mem_parts
  have tables_below := below _ slotMemory.tables_mem_parts
  rw [← sound.memory_eq] at arguments_below tables_below
  have aligned := houses.sound.aligned
  rw [← sound.memory_eq] at aligned
  refine ⟨⟨aligned _ process.memory.arguments_mem_parts, ?_⟩, arguments_below, fun _ => ?_⟩
  · simp only [Extent.stop, Config.deviceBase, Config.pageSize] at arguments_below
    omega
  · exact Paging.fits_page (aligned _ process.memory.tables_mem_parts)
      (Nat.le_trans tables_below (by decide))

/-- Below the devices and outside the argument page an address is mapped onto itself, and a program
can do there what the memory of its process in the block allows. -/
theorem Mapped.lookup_below (mapped : process.Mapped memory) (placed : process.Placed)
    (below : address < Config.deviceBase)
    (unseen : ¬ Extent.Covers ⟨Config.argumentAddress, Config.pageSize⟩ address) :
    ∃ leaf size access, Paging.lookup memory process.rootTable address = some (leaf, size) ∧
      leaf.address + address % size = address ∧ leaf.Gives access ∧
      (access ≠ .none ↔ process.Opens address) ∧
      (access = .readWrite ↔ process.OpensToWrite address) := by
  obtain ⟨access, maps, spec⟩ := mapped.map
  obtain ⟨leaf, size, found, identity, gives⟩ :=
    maps.lookup_below placed.tables (by decide) below unseen
  rw [← mapped.root] at found
  refine ⟨leaf, size, _, found, ?_, gives, spec address below⟩
  rw [identity, Nat.mul_comm]
  exact Nat.div_add_mod ..

theorem Mapped.lookup_arguments (mapped : process.Mapped memory) (placed : process.Placed)
    (seen : Extent.Covers ⟨Config.argumentAddress, Config.pageSize⟩ address) :
    ∃ leaf, Paging.lookup memory process.rootTable address = some (leaf, Config.pageSize) ∧
      leaf.address + address % Config.pageSize =
        process.memory.arguments + (address - Config.argumentAddress) ∧
      leaf.includes .user = true ∧ leaf.includes .readOnly = true ∧
        leaf.includes .device = false := by
  obtain ⟨access, maps, _⟩ := mapped.map
  rw [mapped.root]
  refine ⟨_, maps.lookup_arguments placed.tables seen, ?_, Paging.argumentEntry_reads _⟩
  rw [Paging.argumentEntry_address placed.arguments]
  simp only [Extent.Covers, Extent.stop, Config.argumentAddress, Config.pageSize] at *
  omega

theorem Mapped.below_of_user (mapped : process.Mapped memory) (placed : process.Placed)
    (small : address < 2 ^ 48) {leaf : Descriptor} {size : Nat}
    (found : Paging.lookup memory process.rootTable address = some (leaf, size))
    (user : leaf.includes .user = true) : address < Config.deviceBase := by
  obtain ⟨access, maps, _⟩ := mapped.map
  rw [mapped.root] at found
  apply Classical.byContradiction
  intro behind
  have unreachable := maps.user_of_device placed.tables (Nat.le_of_not_lt behind) small found
  rw [user] at unreachable
  cases unreachable

/-- The map of a live process agrees with its regions if the pages of the slot and the program lie
below the devices. -/
theorem Mapped.agrees (mapped : process.Mapped memory)
    (sound : process.Sound slotMemory image author) (houses : slotMemory.Houses image)
    (live : process.state ≠ .vacant)
    (below : ∀ part ∈ slotMemory.parts, part.stop ≤ Config.deviceBase)
    (image_below : image.stop ≤ Config.deviceBase) : process.Agrees memory := by
  have placed := sound.placed houses below
  constructor
  case gives =>
    intro region member address covered
    rcases sound.region_cases houses below image_below member with
      rfl | ⟨outside, unseen, region_below⟩
    · have seen : Extent.Covers ⟨Config.argumentAddress, Config.pageSize⟩ address := covered
      obtain ⟨leaf, found, place, user, readOnly, _⟩ := mapped.lookup_arguments placed seen
      refine ⟨leaf, _, found, user, fun writes => ?_, fun executes => ?_, ?_⟩
      · exact absurd writes (by decide)
      · exact absurd executes (by decide)
      · rw [if_pos seen]
        exact ⟨place, readOnly⟩
    · have unseen_address := unseen.not_covers covered
      have address_below := Nat.lt_of_lt_of_le covered.2 region_below
      obtain ⟨leaf, size, access, found, place, gives, opens_iff, opensToWrite_iff⟩ :=
        mapped.lookup_below placed address_below unseen_address
      obtain ⟨opens, opensToWrite⟩ := opens_of_covers member outside covered
      have user := gives.user.2 (opens_iff.2 opens)
      refine ⟨leaf, size, found, user, fun writes => ?_, fun _ => gives.executable user, ?_⟩
      · exact (gives.writable user).2 (opensToWrite_iff.2 (opensToWrite writes))
      · rw [if_neg unseen_address]
        exact place
  case only =>
    intro address small leaf size found user
    have address_below := mapped.below_of_user placed small found user
    by_cases seen : Extent.Covers ⟨Config.argumentAddress, Config.pageSize⟩ address
    case pos =>
      obtain ⟨_, here, place, _, readOnly, normal⟩ := mapped.lookup_arguments placed seen
      cases here.symm.trans found
      refine ⟨.inl seen, fun writable => ?_, normal, ?_⟩
      · rw [readOnly] at writable
        cases writable
      · have arguments_below := placed.arguments_below
        rw [place]
        simp only [Extent.Covers, Extent.stop, Config.argumentAddress, Config.pageSize] at *
        omega
    case neg =>
      obtain ⟨_, _, access, here, place, gives, opens_iff, opensToWrite_iff⟩ :=
        mapped.lookup_below placed address_below seen
      cases here.symm.trans found
      rw [place]
      refine ⟨.inr ?_, fun writable => ?_, gives.normal, address_below⟩
      · exact sound.sharesBlock houses live (opens_iff.1 (gives.user.1 user))
      · exact sound.sharesBlock houses live
          (opensToWrite_iff.1 ((gives.writable user).1 writable))

end Process

/-- Whether the tables of every live process hold its map. -/
def System.Mapped {slots : Nat} (system : System slots) : Prop :=
  ∀ slot : Fin slots, system.processes[slot].state ≠ .vacant →
    system.processes[slot].Mapped system.memory

end Microkernel
