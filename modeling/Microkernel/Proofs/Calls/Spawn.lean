import Microkernel.Proofs.Calls.Outcome
import Microkernel.Proofs.Memory.ArgumentBlock
import Microkernel.Proofs.Process.Program
import Microkernel.Proofs.Process.Readiness

/-!
# What starting a process comes to

A process is started in a vacant slot.  Everything that the kernel writes on the way lies in the
pages of that slot, also if the start is given up half-way; only a start that works out takes the
slot.  A process that is spawned has the texts that its parent passes in its argument page: nothing
that the parent may read changes while they are copied.
-/

namespace Microkernel

namespace KernelM

variable {slots : Nat}

@[simp] theorem ends_allocatePid (before : System slots) (outcome : Pid → System slots → Prop) :
    (allocatePid : KernelM slots Pid).Ends before outcome ↔
      outcome (before.processes.freshPid slots before.nextPid) { before with
        nextPid := (before.processes.freshPid slots before.nextPid).next } :=
  ends_of_run rfl outcome

theorem ends_zeroPages {address pages : Nat} (aligned : address % Config.pageSize = 0)
    (few : pages * (Config.pageSize / 8) < Word.limit) (before : System slots)
    (outcome : Unit → System slots → Prop) :
    (zeroPages address pages).Ends before outcome ↔
      outcome () { before with
        memory := before.memory.fill address (pages * Config.pageSize) 0 } := by
  have size : pages * (Config.pageSize / 8) * 8 = pages * Config.pageSize := by
    rw [Nat.mul_assoc]
    rfl
  simp only [zeroPages, ends_bind, ends_get, ends_ofChecked, ends_modify,
    Paging.zeroPages_eq _ _ _ aligned few, size]
  constructor
  · rintro ⟨_, ⟨⟩, holds⟩
    exact holds
  · exact fun holds => ⟨_, rfl, holds⟩

theorem ends_writeMap {process : Process} (bounded : process.Bounded)
    (heap : process.heap.base + process.heap.limit < Word.limit) (before : System slots)
    {outcome : Nat → System slots → Prop}
    (written : ∀ accesses, process.blockAccess Config.deviceBase = .ok accesses →
      outcome process.memory.tables { before with
        memory := Paging.writeProcessMap before.memory process.memory.tables Config.deviceBase
          process.memory.arguments fun base =>
            accesses.toArray.getD (base / Paging.block) .none }) :
    (writeMap process).Ends before outcome := by
  obtain ⟨accesses, run⟩ := Process.blockAccess_total bounded heap
  simp only [writeMap, ends_bind, ends_ofChecked, run, ends_modifyMemory, ends_pure]
  exact ⟨accesses, rfl, written accesses run⟩

end KernelM

/-- Whether a process is about to begin at an entry, with the pages of a slot and a program. -/
structure Process.New (process : Process) (pages : SlotMemory) (entry : Nat)
    (program : List Region) : Prop where
  /-- The process can run. -/
  runnable : process.state = .live .runnable
  /-- The process has the priority that processes have at first. -/
  priority : process.priority = .default
  /-- The process begins at its entry, with its stack, and its other registers are zero. -/
  registers : process.registers =
    { general := Vector.replicate 31 0
      stackPointer := (pages.stack + Config.stackSize).toUInt64
      programCounter := entry.toUInt64
      status := 0 }
  /-- The process has the pages of the slot. -/
  memory_eq : process.memory = pages
  /-- The process has no handles. -/
  handles : process.handles = noHandles
  /-- The process waits for no time. -/
  deadline : process.deadline = none
  /-- Nothing of the heap is in use. -/
  heap : process.heap = { base := pages.heap, limit := Config.heapLimit, brk := pages.heap }
  /-- The regions are in order. -/
  ordered : Region.Ordered process.regions
  /-- The regions are the program, the stack, the page at which processes see their arguments, and
  the empty heap. -/
  regions : process.regions.Perm ({ base := pages.heap, size := 0, rights := .readWrite } ::
    (program ++ fixedRegions pages))

/-- What a start comes to: the process in the slot, with the pages of the slot cleared and its page
map written. -/
structure Started {slots : Nat} (before : System slots) (slot : Fin slots) (entry : Nat)
    (program : List Region) (after : System slots) : Prop where
  /-- The slot is taken, and nothing else changes but the next name and the pages of the slot. -/
  taken : ∃ pid nextPid taken memory rootTable registers,
    before.processes[slot].occupy pid .default program = .ok (taken, true) ∧
      before.memory.ChangesOnly memory before.processes[slot].memory.Owns ∧
        after = { before with
          memory, nextPid
          processes := before.processes.set slot { taken with rootTable, registers } slot.isLt }
  /-- The tables of the slot hold the map of the process. -/
  mapped : after.processes[slot].Mapped after.memory
  /-- The process has the next name that nobody has, and the names go on behind it. -/
  named : after.processes[slot].pid = before.processes.freshPid slots before.nextPid ∧
    after.nextPid = (before.processes.freshPid slots before.nextPid).next
  /-- The process begins at its entry, with its stack. -/
  enters : after.processes[slot].registers = .start entry.toUInt64
    (before.processes[slot].memory.stack + Config.stackSize).toUInt64
  /-- The stack and the heap of the process are zero. -/
  zero : ∀ address,
    Extent.Covers ⟨before.processes[slot].memory.stack, Config.stackSize⟩ address ∨
      Extent.Covers ⟨before.processes[slot].memory.heap, Config.heapLimit⟩ address →
    after.memory.get address = 0

namespace Started

variable {slots : Nat} {before after : System slots} {slot : Fin slots} {entry : Nat}
  {program : List Region}

theorem changesOnly (started : Started before slot entry program after) :
    before.memory.ChangesOnly after.memory before.processes[slot].memory.Owns := by
  obtain ⟨_, _, _, _, _, _, _, changes, rfl⟩ := started.taken
  exact changes

/-- A start also comes to this from what the pages of its slot held before they were last
changed. -/
theorem of_changesOnly {copied : Memory}
    (started : Started { before with memory := copied } slot entry program after)
    (changes : before.memory.ChangesOnly copied before.processes[slot].memory.Owns) :
    Started before slot entry program after := by
  obtain ⟨⟨pid, nextPid, taken, memory, rootTable, registers, run, started_changes, rfl⟩, mapped,
    named, enters, zero⟩ := started
  exact ⟨⟨pid, nextPid, taken, memory, rootTable, registers, run, changes.trans started_changes,
    rfl⟩, mapped, named, enters, zero⟩

theorem getElem_of_ne (started : Started before slot entry program after) {other : Fin slots}
    (different : other ≠ slot) : after.processes[other] = before.processes[other] := by
  obtain ⟨_, _, _, _, _, _, _, _, rfl⟩ := started.taken
  rw [getElem_set, if_neg (Ne.symm different)]

theorem keeps (started : Started before slot entry program after) :
    ∃ memory nextPid processes, after = { before with memory, nextPid, processes } := by
  obtain ⟨_, _, _, _, _, _, _, _, rfl⟩ := started.taken
  exact ⟨_, _, _, rfl⟩

/-- A process that is started with a part of the program is as it should be. -/
theorem new (started : Started before slot entry program after) {layout : Layout slots}
    {author : Fin slots → Prop} (sound : before.toTables.Sound layout author) {rights : Rights}
    (part : program.Sublist [{ base := layout.image.start, size := layout.image.length, rights }]) :
    after.processes[slot].New before.processes[slot].memory entry program := by
  have slot_sound := sound.slot slot
  obtain ⟨⟨pid, _, taken, _, _, _, run, _, rfl⟩, _, _, enters, _⟩ := started
  obtain ⟨found, found_run, ordered, perm, shape⟩ :=
    slot_sound.occupy_run (layout.houses slot) pid .default part
  cases found_run.symm.trans run
  rw [← slot_sound.memory_eq] at perm
  have heap : before.processes[slot].heap.reset =
      { base := before.processes[slot].memory.heap, limit := Config.heapLimit
        brk := before.processes[slot].memory.heap } := by
    rw [slot_sound.memory_eq, ← slot_sound.heap_base, ← slot_sound.heap_limit]
    rfl
  rw [getElem_set_self] at enters ⊢
  exact {
    runnable := congrArg Process.state shape
    priority := congrArg Process.priority shape
    registers := enters
    memory_eq := (congrArg Process.memory shape).trans rfl
    handles := congrArg Process.handles shape
    deadline := congrArg Process.deadline shape
    heap := (congrArg Process.heap shape).trans heap
    ordered
    regions := perm }

theorem grants {layout : Layout slots} {author : Fin slots → Prop} {rights : Rights}
    (started : Started before slot entry
      [{ base := layout.image.start, size := layout.image.length, rights }] after)
    (sound : before.toTables.Sound layout author) : after.processes[slot].Grants rights := by
  obtain ⟨_, _, taken, _, _, _, run, _, rfl⟩ := started.taken
  rw [getElem_set_self]
  exact ((sound.slot slot).grants (layout.houses slot) run).retain id rfl

end Started

namespace StartM

open KernelM

variable {slots : Nat} {system : System slots} {layout : Layout slots}
  {author : Fin slots → Prop} {slot : Fin slots}

private theorem part_aligned {memory : SlotMemory} (sound : memory.Sound) :
    memory.stack % Config.pageSize = 0 ∧ memory.heap % Config.pageSize = 0 ∧
      memory.tables % Config.pageSize = 0 := by
  obtain ⟨stack, _, heap, tables⟩ := SlotMemory.forall_mem_parts.1 sound.aligned
  exact ⟨stack, heap, tables⟩

private theorem bounded_regionsFor_of_sublist {memory : SlotMemory} {image : Extent}
    (houses : memory.Houses image) {rights : Rights} {program : List Region}
    (part : program.Sublist [{ base := image.start, size := image.length, rights }]) :
    ∀ region ∈ ({ base := memory.heap, size := 0, rights := .readWrite } : Region) ::
      (program ++ Process.fixedRegions memory), region.Bounded := by
  intro region member
  have sublist := (part.append_right (Process.fixedRegions memory)).cons_cons
    ({ base := memory.heap, size := 0, rights := .readWrite } : Region)
  exact Process.bounded_regionsFor houses rights (Nat.zero_le _) region (sublist.subset member)

/-- The process that takes a vacant slot, as far as writing its map and its registers needs it. -/
private theorem exists_occupant (sound : system.toTables.Sound layout author) (slot : Fin slots)
    (pid : Pid) {rights : Rights} {program : List Region}
    (part : program.Sublist
      [{ base := layout.image.start, size := layout.image.length, rights }]) :
    ∃ taken, system.processes[slot].occupy pid .default program = .ok (taken, true) ∧
      taken.pid = pid ∧ taken.memory = layout.pages[slot] ∧ taken.Bounded ∧
      taken.heap.base + taken.heap.limit < Word.limit ∧
      taken.memory.stackTop = .ok (layout.pages[slot].stack + Config.stackSize) := by
  have houses := layout.houses slot
  have process_sound := sound.slot slot
  obtain ⟨taken, run, ordered, perm, shape⟩ := process_sound.occupy_run houses pid .default part
  have memory_eq : taken.memory = layout.pages[slot] := by
    rw [shape]
    exact process_sound.memory_eq
  refine ⟨taken, run, congrArg Process.pid shape, memory_eq, fun region member =>
    bounded_regionsFor_of_sublist houses part region (perm.mem_iff.1 member), ?_, ?_⟩
  · rw [shape]
    simp only [Heap.reset, process_sound.heap_base, process_sound.heap_limit]
    exact houses.sound.bounded _ (SlotMemory.heap_mem_parts _)
  · rw [memory_eq]
    exact (Word.sum_eq_ok_iff _ _ _).2
      ⟨houses.sound.bounded _ (SlotMemory.stack_mem_parts _), rfl⟩

/-- A process can be started in a vacant slot, whose argument page stays as it is. -/
theorem startProcess_run (sound : system.toTables.Sound layout author)
    (vacant : system.processes[slot].state = .vacant) (entry : Nat) {rights : Rights}
    {program : List Region} (part : program.Sublist
      [{ base := layout.image.start, size := layout.image.length, rights }]) :
    (startProcess slot entry program).run.Ends system fun result after =>
      ∃ pid, result = .ok pid ∧ Started system slot entry program after ∧
        ∀ address, Extent.Covers
          ⟨system.processes[slot].memory.arguments, Config.pageSize⟩ address →
            after.memory.get address = system.memory.get address := by
  have houses := layout.houses slot
  have memory_eq := (sound.slot slot).memory_eq
  obtain ⟨stack_aligned, heap_aligned, tables_aligned⟩ := part_aligned houses.sound
  have is_vacant : system.processes[slot].isVacant = true :=
    (Process.isVacant_iff _).2 vacant
  obtain ⟨taken, run, pid_eq, taken_memory, bounded, heap_bounded, stackTop⟩ :=
    exists_occupant sound slot (system.processes.freshPid slots system.nextPid) part
  simp only [startProcess, ends_run_bind, ends_startKernel, ends_process, ends_startChecked,
    ends_allocatePid]
  refine ⟨(), require_eq_ok_iff.2 is_vacant, (taken, true), run, ?_⟩
  simp only [ends_setProcess, if_true, ends_run_bind, ends_startKernel, taken_memory,
    ends_zeroPages stack_aligned
      (by decide : Config.stackPages * (Config.pageSize / 8) < Word.limit),
    ends_zeroPages heap_aligned (by decide : Config.heapPages * (Config.pageSize / 8) < Word.limit),
    ends_zeroPages tables_aligned
      (by decide : Paging.processPages * (Config.pageSize / 8) < Word.limit)]
  refine ends_writeMap bounded heap_bounded _ fun accesses opened => ?_
  obtain ⟨memory, written, readies, mapped⟩ :=
    Process.mapped_of_clear houses.sound taken_memory opened system.memory
  rw [← SlotMemory.clear]
  dsimp only
  rw [← written]
  simp only [← taken_memory, ends_startChecked, stackTop]
  refine ⟨_, rfl, ?_⟩
  simp only [ends_run_pure, Vector.set_set]
  rw [← memory_eq] at readies
  refine ⟨_, rfl, ⟨⟨_, _, taken, memory, _, _, run, readies.changes, rfl⟩, ?_, ⟨?_, rfl⟩, ?_,
    readies.zero⟩, readies.kept⟩
  · rw [getElem_set_self]
    exact mapped.retain rfl rfl rfl rfl
  · rw [getElem_set_self]
    exact pid_eq
  · rw [getElem_set_self, memory_eq, taken_memory]

end StartM

/-- Whether an address lies in the block that gets the arguments of a process that is spawned: the
argument page of the first vacant slot. -/
def System.InBlock {slots : Nat} (system : System slots) (address : Nat) : Prop :=
  ∃ slot : Fin slots, system.processes.vacantSlot? = some slot ∧
    Extent.Covers ⟨system.processes[slot].memory.arguments, Config.pageSize⟩ address

/-- Whether the pointers of a table lead to texts that a process may read, one after the other. -/
def Process.Passes (process : Process) (memory : Memory) (table : Nat)
    (texts : List (List UInt8)) : Prop :=
  ∀ index text, texts[index]? = some text →
    memory.TextAt (memory.readWord (table + index * pointerSize)).toNat text ∧
      ∀ offset ≤ text.length,
        process.May .read ((memory.readWord (table + index * pointerSize)).toNat + offset)

theorem Process.Passes.cons {process : Process} {memory : Memory} {table : Nat} {text : List UInt8}
    {texts : List (List UInt8)} (there : memory.TextAt (memory.readWord table).toNat text)
    (may : ∀ offset ≤ text.length, process.May .read ((memory.readWord table).toNat + offset))
    (rest : process.Passes memory (table + pointerSize) texts) :
    process.Passes memory table (text :: texts) := by
  intro index other found
  cases index with
  | zero =>
      cases found
      rw [Nat.zero_mul, Nat.add_zero]
      exact ⟨there, may⟩
  | succ index =>
      rw [Nat.succ_mul, Nat.add_comm _ pointerSize, ← Nat.add_assoc]
      exact rest index other found

theorem Process.Passes.of_agreeOn {process : Process} {first second : Memory} {table : Nat}
    {texts : List (List UInt8)} (passes : process.Passes first table texts)
    (agree : first.AgreeOn second (process.May .read))
    (readable : ∀ offset < texts.length * pointerSize, process.May .read (table + offset)) :
    process.Passes second table texts := by
  intro index text found
  have small := (List.getElem?_eq_some_iff.1 found).1
  obtain ⟨there, may⟩ := passes index text found
  have pointer : first.readWord (table + index * pointerSize) =
      second.readWord (table + index * pointerSize) := by
    refine agree.readWord_eq fun offset less => ?_
    rw [Nat.add_assoc]
    exact readable _ (by simp only [pointerSize]; omega)
  rw [← pointer]
  exact ⟨there.of_agreeOn agree may, may⟩

/-- Whether the argument page of a slot has the texts that a caller passes with its call. -/
structure System.HandsOver {slots : Nat} (before : System slots) (caller slot : Fin slots)
    (memory : Memory) (texts : List (List UInt8)) : Prop where
  /-- There are as many as the call says. -/
  number : texts.length = before.processes[caller].registers.argument 1
  /-- The pointers of the caller lead to them. -/
  passes : before.processes[caller].Passes before.memory
    (before.processes[caller].registers.argument 2) texts
  /-- The page has them as its arguments. -/
  has : memory.HasArguments ⟨before.processes[slot].memory.arguments, Config.pageSize⟩
    Config.argumentAddress texts

/-- What spawning can come to. -/
inductive SpawnOutcome {slots : Nat} (before : System slots) (caller : Fin slots) :
    Except Refusal Hint → System slots → Prop where
  | refused (refusal : Refusal) (memory : Memory)
      (hint : ∀ error left, refusal = .code error left → left = .same)
      (block : before.memory.ChangesOnly memory before.InBlock)
      (entered : ∀ fault, refusal = .fault fault →
        before.processes[caller].registers.argument 0 ≠ 0) :
      SpawnOutcome before caller (.error refusal) { before with memory }
  | started (slot : Fin slots) (vacant : before.processes.vacantSlot? = some slot)
      (after : System slots) (log : List String) (hint : Hint)
      (started : Started before slot (before.processes[caller].registers.argument 0)
        (CallM.inherited before.processes[caller].regions) after)
      (chosen : hint = if after.processes[slot].priority.moreImportant
        after.processes[caller].priority then .specific slot.val else .same)
      (texts : List (List UInt8)) (hands : before.HandsOver caller slot after.memory texts) :
      SpawnOutcome before caller (.ok hint)
        { after with log, processes := after.processes.answer caller Response.ok }

namespace CallM

open KernelM

variable {slots : Nat} {system : System slots} {layout : Layout slots}
  {author : Fin slots → Prop} {caller : Fin slots}

/-- What copying the arguments that are left comes to: only the block is changed, and all of them
are written into it behind those that were there, or the call is turned away. -/
def Copies (process : Process) (writer : ArgumentWriter) (table left : Nat)
    (texts : List (List UInt8)) (before : System slots) (result : Except Refusal ArgumentWriter)
    (after : System slots) : Prop :=
  (∃ memory, after = { before with memory } ∧
    before.memory.ChangesOnly memory writer.extent.Covers) ∧
  match result with
  | .ok last => last.extent = writer.extent ∧ last.base = writer.base ∧
      last.announced = writer.announced ∧ ∃ more : List (List UInt8), more.length = left ∧
        last.Holds after.memory (texts ++ more) ∧ process.Passes before.memory table more
  | .error refusal => ∀ error hint, refusal = .code error hint → hint = .same

/-- Copying a text and then those behind it is copying them all.  What the process may read lies
outside of the block, so copying the one text does not spoil the others. -/
private theorem Copies.cons {process : Process} {writer grown : ArgumentWriter} {table left : Nat}
    {texts : List (List UInt8)} {text : List UInt8} {before after : System slots} {memory : Memory}
    {result : Except Refusal ArgumentWriter}
    (rest : Copies process grown (table + pointerSize) left (texts ++ [text])
      { before with memory } result after)
    (changes : before.memory.ChangesOnly memory writer.extent.Covers)
    (extent_eq : grown.extent = writer.extent) (base_eq : grown.base = writer.base)
    (announced_eq : grown.announced = writer.announced)
    (there : before.memory.TextAt (before.memory.readWord table).toNat text)
    (may : ∀ offset ≤ text.length,
      process.May .read ((before.memory.readWord table).toNat + offset))
    (readable : ∀ offset < left * pointerSize, process.May .read (table + pointerSize + offset))
    (apart : ∀ address, process.May .read address → ¬ writer.extent.Covers address) :
    Copies process writer table (left + 1) texts before result after := by
  obtain ⟨⟨final, rfl, final_changes⟩, outcome⟩ := rest
  refine ⟨⟨final, rfl, changes.trans (extent_eq ▸ final_changes)⟩, ?_⟩
  cases result with
  | error refusal => exact outcome
  | ok last =>
      obtain ⟨last_extent, last_base, last_announced, more, number, holds, passes⟩ := outcome
      refine ⟨last_extent.trans extent_eq, last_base.trans base_eq,
        last_announced.trans announced_eq, text :: more, congrArg Nat.succ number, ?_, ?_⟩
      · rwa [List.append_cons]
      · exact .cons there may (passes.of_agreeOn (changes.agreeOn apart) (number ▸ readable))

/-- Copying arguments stays inside the block, and ends with all of them written or with the call
turned away. -/
theorem copyArguments_run {process : Process} (bounded : process.Bounded) (left table : Nat)
    {writer : ArgumentWriter} {texts : List (List UInt8)} (before : System slots)
    (holds : writer.Holds before.memory texts)
    (readable : ∀ offset < left * pointerSize, process.May .read (table + offset))
    (apart : ∀ address, process.May .read address → ¬ writer.extent.Covers address) :
    (copyArguments process writer table left).run.Ends before
      (Copies process writer table left texts before) := by
  induction left generalizing writer texts table before with
  | zero =>
      rw [copyArguments, ends_run_pure]
      refine ⟨⟨before.memory, rfl, .refl _ _⟩, rfl, rfl, rfl, [], rfl, ?_, by simp [Process.Passes]⟩
      rwa [List.append_nil]
  | succ left induction =>
      have turned : (∃ memory, before = { before with memory } ∧
          before.memory.ChangesOnly memory writer.extent.Covers) := ⟨_, rfl, .refl _ _⟩
      have behind : ∀ offset < left * pointerSize,
          process.May .read (table + pointerSize + offset) := by
        intro offset small
        rw [Nat.add_assoc]
        exact readable _ (by simp only [pointerSize] at *; omega)
      simp only [copyArguments, ends_run_bind, ends_run_get, ends_run_ite]
      split
      · rw [ends_refuse]
        exact ⟨turned, by rintro _ _ ⟨⟩; rfl⟩
      · refine ends_readString bounded (UInt64.toNat_lt _) _ (fun text read => ?_)
          (fun fault => ⟨turned, by rintro _ _ ⟨⟩⟩)
        cases text with
        | truncated bytes =>
            simp only [ends_refuse]
            exact ⟨turned, by rintro _ _ ⟨⟩; rfl⟩
        | complete text =>
            obtain ⟨there, _, may⟩ := Process.textAt_of_readString bounded read
            obtain ⟨pushed, memory, run, changes, next⟩ :=
              ArgumentWriter.push_run holds there.nonzero
            simp only [ends_run_bind, ends_kernel, ends_onMemory]
            refine ⟨pushed, memory, run, ?_⟩
            rw [ends_orRefuse]
            cases pushed with
            | none => exact ⟨⟨memory, rfl, changes⟩, by rintro _ _ ⟨⟩; rfl⟩
            | some grown =>
                obtain ⟨grown_holds, extent_eq, base_eq, announced_eq⟩ := next grown rfl
                refine (induction (table + pointerSize) { before with memory } grown_holds behind
                  (extent_eq ▸ apart)).mono fun result after rest => ?_
                exact rest.cons changes extent_eq base_eq announced_eq there may behind apart

/-- What spawning comes to, and where it stores: in the pages of the first vacant slot. -/
def Spawns (system : System slots) (caller : Fin slots) (result : Except Refusal Hint)
    (after : System slots) : Prop :=
  SpawnOutcome system caller result after ∧
    system.memory.ChangesOnly after.memory fun address =>
      ∃ slot, system.processes.vacantSlot? = some slot ∧
        system.processes[slot].memory.Owns address

theorem vacant_of_vacantSlot?_eq_some {processes : ProcessTable slots} {slot : Fin slots}
    (found : processes.vacantSlot? = some slot) : processes[slot].state = .vacant :=
  (Process.isVacant_iff _).1 (of_findFinIdx?_eq_some found)

theorem inherited_sublist (sound : system.toTables.Sound layout author) (caller : Fin slots) :
    ∃ rights, (inherited system.processes[caller].regions).Sublist
      [{ base := layout.image.start, size := layout.image.length, rights }] := by
  by_cases vacant : system.processes[caller].state = .vacant
  · rw [((sound.slot caller).vacant vacant).1]
    exact ⟨.none, List.nil_sublist _⟩
  · obtain ⟨rights, program, _⟩ := (sound.slot caller).inherited vacant
    exact ⟨rights, program ▸ List.Sublist.refl _⟩

private theorem block_copied {slot : Fin slots} (free : system.processes.vacantSlot? = some slot)
    {memory : Memory} (changes : (system.memory.fill system.processes[slot].memory.arguments
        Config.pageSize 0).ChangesOnly memory
      (Extent.Covers ⟨system.processes[slot].memory.arguments, Config.pageSize⟩)) :
    system.memory.ChangesOnly memory system.InBlock :=
  ((Memory.changesOnly_fill _ _ _ _).trans changes).mono fun _ covered => ⟨slot, free, covered⟩

private theorem owns_of_inBlock {slot : Fin slots} (free : system.processes.vacantSlot? = some slot)
    {address : Nat} (inside : system.InBlock address) :
    system.processes[slot].memory.Owns address := by
  obtain ⟨other, found, covered⟩ := inside
  rw [free] at found
  cases found
  exact ⟨_, system.processes[slot].memory.arguments_mem_parts, covered⟩

private theorem not_inBlock_of_may (sound : system.toTables.Sound layout author)
    {needed : Rights} {address : Nat} (may : system.processes[caller].May needed address) :
    ¬ system.InBlock address := by
  intro inside
  have ⟨slot, free, _⟩ := inside
  exact sound.not_owns_of_may (vacant_of_vacantSlot?_eq_some free) may (owns_of_inBlock free inside)

private theorem spawns_refused {refusal : Refusal} {memory : Memory}
    (hint : ∀ error left, refusal = .code error left → left = .same)
    (block : system.memory.ChangesOnly memory system.InBlock)
    (entered : ∀ fault, refusal = .fault fault →
      system.processes[caller].registers.argument 0 ≠ 0) :
    Spawns system caller (.error refusal) { system with memory } := by
  refine ⟨.refused refusal memory hint block entered, block.mono fun address inside => ?_⟩
  have ⟨slot, free, _⟩ := inside
  exact ⟨slot, free, owns_of_inBlock free inside⟩

/-- The block gets its arguments and is finished, or the call is turned away. -/
private theorem ends_arguments (sound : system.toTables.Sound layout author) {slot : Fin slots}
    (free : system.processes.vacantSlot? = some slot)
    (entered : system.processes[caller].registers.argument 0 ≠ 0) {writer : ArgumentWriter}
    (started : ArgumentWriter.start? system.processes[slot].memory.arguments Config.pageSize
      Config.argumentAddress (system.processes[caller].registers.argument 1) = some writer)
    {next : CallM slots Hint}
    (finished : ∀ memory texts, system.HandsOver caller slot memory texts →
      system.memory.ChangesOnly memory system.InBlock →
        next.run.Ends { system with memory } (Spawns system caller)) :
    (do
      system.processes[caller].checkReadable (← UserSlice.ofRaw .word64
        (system.processes[caller].registers.argument 2)
        (system.processes[caller].registers.argument 1))
      let writer ← copyArguments system.processes[caller] writer
        (system.processes[caller].registers.argument 2)
        (system.processes[caller].registers.argument 1)
      let _ ← kernel (KernelM.onMemory writer.finish)
      next : CallM slots Hint).run.Ends { system with
        memory := system.memory.fill system.processes[slot].memory.arguments Config.pageSize 0 }
          (Spawns system caller) := by
  have bounded := (sound.slot caller).bounded (layout.houses caller)
  have apart (address : Nat) (may : system.processes[caller].May .read address) :
      ¬ Extent.Covers ⟨system.processes[slot].memory.arguments, Config.pageSize⟩ address :=
    fun covered => not_inBlock_of_may sound may ⟨slot, free, covered⟩
  obtain ⟨holds, extent_eq, base_eq, announced_eq⟩ :=
    ArgumentWriter.holds_of_start? started (by decide) (sound.argumentPage_le slot)
      (system.memory.fill system.processes[slot].memory.arguments Config.pageSize 0)
  refine ends_checkSlice bounded (by decide) _ _ .read (fun _ may => ?_) fun fault _ =>
    spawns_refused (by rintro _ _ ⟨⟩) (block_copied free (.refl _ _)) fun _ _ => entered
  have readable : ∀ offset < system.processes[caller].registers.argument 1 * pointerSize,
      system.processes[caller].May .read
        (system.processes[caller].registers.argument 2 + offset) :=
    fun offset small => may _ ⟨Nat.le_add_right _ _, Nat.add_lt_add_left small _⟩
  rw [ends_run_bind]
  refine (copyArguments_run bounded _ _ { system with
    memory := system.memory.fill system.processes[slot].memory.arguments
      Config.pageSize 0 } holds readable (by rwa [extent_eq])).mono ?_
  rintro result after ⟨⟨memory, rfl, changes⟩, outcome⟩
  rw [extent_eq] at changes
  cases result with
  | error refusal => exact spawns_refused outcome (block_copied free changes) fun _ _ => entered
  | ok last =>
      obtain ⟨last_extent, last_base, last_announced, texts, number, last_holds, passes⟩ := outcome
      rw [List.nil_append] at last_holds
      obtain ⟨after, finish, finish_below, has⟩ :=
        ArgumentWriter.finish_run last_holds (last_holds.number.symm.trans
          (number.trans (last_announced.trans announced_eq).symm))
      have finish_changes := finish_below.mono fun _ => last_holds.inside
      rw [last_extent, extent_eq] at finish_changes has
      rw [last_base, base_eq] at has
      dsimp only
      rw [ends_run_bind, ends_kernel, ends_onMemory]
      refine ⟨_, after, finish, finished after texts ⟨number, ?_, has⟩
        (block_copied free (changes.trans finish_changes))⟩
      exact passes.of_agreeOn ((Memory.changesOnly_fill _ _ _ _).agreeOn apart) (number ▸ readable)

theorem spawn_run (sound : system.toTables.Sound layout author) :
    (spawn caller).run.Ends system (Spawns system caller) := by
  have turned (error : ErrorCode) :
      Spawns system caller (.error (.code error .same)) system :=
    spawns_refused (by rintro _ _ ⟨⟩; rfl) (.refl _ _) (by rintro _ ⟨⟩)
  rw [spawn, ends_run_bind, ends_callProcess]
  dsimp only
  rw [ends_run_ite]
  split
  · rw [ends_refuse]
    exact turned _
  · rename_i proper
    rw [ends_run_bind, ends_run_get]
    dsimp only
    rw [ends_run_bind, ends_orRefuse]
    split
    next found slot free =>
        dsimp only
        rw [ends_run_bind, ends_callProcess]
        dsimp only
        rw [ends_run_bind, ends_kernel, ends_modifyMemory]
        dsimp only
        rw [ends_run_bind, ends_orRefuse]
        split
        next started_writer writer started =>
            refine ends_arguments sound free (not_or.1 proper).1 started
              fun memory texts hands copied => ?_
            obtain ⟨rights, part⟩ := inherited_sublist sound caller
            rw [ends_run_bind, ends_kernel]
            have still_sound :
                ({ system with memory } : System slots).toTables.Sound layout author := sound
            refine (StartM.startProcess_run still_sound (vacant_of_vacantSlot?_eq_some free)
              (system.processes[caller].registers.argument 0) part).mono ?_
            rintro result after ⟨new, rfl, started, kept⟩
            have whole := started.of_changesOnly (copied.mono fun _ => owns_of_inBlock free)
            have spawned (hint : Hint)
                (chosen : hint = if after.processes[slot].priority.moreImportant
                  after.processes[caller].priority then .specific slot.val else .same)
                (log : List String) : Spawns system caller (.ok hint)
                  { after with log, processes := after.processes.answer caller Response.ok } :=
              ⟨.started slot free after log hint whole chosen texts ⟨hands.number, hands.passes,
                hands.has.of_agreeOn fun address covered => (kept address covered).symm⟩,
                whole.changesOnly.mono fun _ owns => ⟨slot, free, owns⟩⟩
            have same_bar : (after.processes.answer caller Response.ok)[slot].priority =
                after.processes[slot].priority := ProcessTable.priority_answer _
            simp only [ends_run_bind, ends_callProcess, ends_kernel, ends_logLine, ends_respond,
              ends_run_ite, ends_run_pure]
            split
            next more => exact spawned _ (if_pos (same_bar ▸ more)).symm _
            next no_more => exact spawned _ (if_neg (same_bar ▸ no_more)).symm _
        next =>
            exact spawns_refused (by rintro _ _ ⟨⟩; rfl) (block_copied free (.refl _ _))
              (by rintro _ ⟨⟩)
    next => exact turned _

end CallM

end Microkernel
