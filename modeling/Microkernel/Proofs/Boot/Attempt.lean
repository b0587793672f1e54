import Microkernel.Boot.Bootstrap
import Microkernel.Proofs.Arena
import Microkernel.Proofs.Execution
import Microkernel.Proofs.Memory.Extent

/-!
# An attempt to boot

Boot looks at its conditions one after the other and changes nothing before it knows that all are
met.  `Boot.obstacle?` is the first condition that is not met, and `Boot.Ready` says that there is
none; whether boot succeeds, and how it fails, depends on nothing else.
-/

namespace Microkernel

/-! ## Whole pages -/

/-- The first page boundary at or after an address, which may lie beyond the address space. -/
def Address.pageAbove {space : AddressSpace} (address : Address space) : Nat :=
  (address.value + (Config.pageSize - 1)) / Config.pageSize * Config.pageSize

namespace Address

variable {space : AddressSpace} (address : Address space)

theorem le_pageAbove : address.value ≤ address.pageAbove := by
  simp only [pageAbove, Config.pageSize]
  omega

theorem pageAbove_aligned : address.pageAbove % Config.pageSize = 0 :=
  Nat.mul_mod_left _ _

theorem pageFloor_aligned : address.pageFloor.value % Config.pageSize = 0 :=
  Nat.mul_mod_left _ _

theorem pageFloor_le : address.pageFloor.value ≤ address.value :=
  Nat.div_mul_le_self _ _

/-- Rounding up to a page fails exactly if it leaves the address space. -/
theorem pageCeil?_eq :
    address.pageCeil? =
      if address.pageAbove < Word.limit then some ⟨address.pageAbove⟩ else none := by
  have inside : address.pageAbove < Word.limit ↔
      address.value + (Config.pageSize - 1) < Word.limit := by
    simp only [pageAbove, Config.pageSize, Word.limit]
    omega
  by_cases fits : address.value + (Config.pageSize - 1) < Word.limit
  · rw [if_pos (inside.2 fits), pageCeil?, (Word.sum?_eq_some_iff _ _ _).2 ⟨fits, rfl⟩]
    rfl
  · have none_left : Word.sum? address.value (Config.pageSize - 1) = none := by
      simp only [Word.sum?, Word.ofNat?, if_neg fits]
    rw [if_neg (mt inside.1 fits), pageCeil?, none_left]
    rfl

variable {address} in
theorem of_pageCeil?_eq_some {above : Address space} (found : address.pageCeil? = some above) :
    above.value % Config.pageSize = 0 ∧ address.value ≤ above.value := by
  rw [pageCeil?_eq, Option.ite_none_right_eq_some, Option.some.injEq] at found
  obtain ⟨_, rfl⟩ := found
  exact ⟨address.pageAbove_aligned, address.le_pageAbove⟩

end Address

/-- The address behind the device tree, which may lie beyond the address space. -/
def BootLayout.treeEnd (layout : BootLayout) : Address .physical :=
  ⟨layout.tree.value + layout.treeSize⟩

theorem BootLayout.treeStop?_eq (layout : BootLayout) :
    (layout.tree.add? layout.treeSize).bind (·.pageCeil?) =
      if layout.treeEnd.pageAbove < Word.limit then some ⟨layout.treeEnd.pageAbove⟩ else none := by
  by_cases fits : layout.tree.value + layout.treeSize < Word.limit
  · have sum : layout.tree.add? layout.treeSize = some layout.treeEnd := by
      rw [Address.add?, (Word.sum?_eq_some_iff _ _ _).2 ⟨fits, rfl⟩]
      rfl
    rw [sum, Option.bind_some, Address.pageCeil?_eq]
  · have none_left : Word.sum? layout.tree.value layout.treeSize = none := by
      simp only [Word.sum?, Word.ofNat?, if_neg fits]
    rw [if_neg (fun inside => fits (Nat.lt_of_le_of_lt layout.treeEnd.le_pageAbove inside)),
      Address.add?, none_left]
    rfl

theorem BootLayout.pageFloor_le_limit {layout : BootLayout}
    (inside : layout.treeEnd.pageAbove < Word.limit) :
    layout.tree.pageFloor.value ≤ Word.limit := by
  have floor := layout.tree.pageFloor_le
  have above := layout.treeEnd.le_pageAbove
  simp only [BootLayout.treeEnd] at *
  omega

namespace Boot

/-! ## The conditions of boot -/

/-- The first condition that is not met, in the order in which boot looks at them. -/
def obstacle? (record : BootRecord) (layout : BootLayout) : Option BootError :=
  if record.magic ≠ BootRecord.expectedMagic then some .badRecord
  else if Word.limit ≤ layout.kernelStop.pageAbove then some .noRoomForArena
  else if Word.limit ≤ layout.treeEnd.pageAbove then some .badDeviceTree
  else if layout.tree.pageFloor.value ≤ layout.kernelStop.pageAbove then some .noRoomForArena
  else if layout.tree.pageFloor.value ≤
      layout.kernelStop.pageAbove + Paging.bootPages * Config.pageSize then some .outOfPages
  else none

/-- The conditions under which boot succeeds. -/
structure Ready (record : BootRecord) (layout : BootLayout) : Prop where
  /-- The record is recognised. -/
  magic : record.magic = BootRecord.expectedMagic
  /-- The pages of the kernel end in the address space. -/
  kernel : layout.kernelStop.pageAbove < Word.limit
  /-- The pages of the device tree end in the address space. -/
  tree : layout.treeEnd.pageAbove < Word.limit
  /-- The tables, and a page behind them, lie between the kernel and the device tree. -/
  room : layout.kernelStop.pageAbove + Paging.bootPages * Config.pageSize <
    layout.tree.pageFloor.value

theorem obstacle?_eq_none_iff {record : BootRecord} {layout : BootLayout} :
    obstacle? record layout = none ↔ Ready record layout := by
  have refused {condition : Prop} [Decidable condition] {error : BootError}
      {rest : Option BootError} :
      (if condition then some error else rest) = none ↔ ¬ condition ∧ rest = none := by
    split <;> simp [*]
  simp only [obstacle?, refused, Nat.not_le, ne_eq, Decidable.not_not, and_true]
  constructor
  · rintro ⟨magic, kernel, tree, _, room⟩
    exact ⟨magic, kernel, tree, room⟩
  · rintro ⟨magic, kernel, tree, room⟩
    exact ⟨magic, kernel, tree, Nat.lt_of_le_of_lt (Nat.le_add_right _ _) room, room⟩

example : obstacle? .blank ⟨⟨0x80000⟩, ⟨0x90010⟩, ⟨0x95100⟩, 0x1000, 0⟩ = none := by decide

/-- The record of a boot that succeeded. -/
def recordOf (layout : BootLayout) : BootRecord where
  magic := BootRecord.expectedMagic
  rootTable := layout.kernelStop.pageAbove
  arenaBase := layout.kernelStop.pageAbove
  arenaAllocated := Paging.bootPages
  arenaBound := layout.tree.pageFloor.value
  properties := layout.properties
  treeStart := layout.tree.pageFloor.value
  treeStop := layout.treeEnd.pageAbove
  kernelStart := layout.kernelStart.value
  kernelStop := layout.kernelStop.value

/-- What a boot that succeeded has built: the map lies in the first pages behind the kernel, which
were set to zero before, and the arena reaches from there to the device tree. -/
structure Built (layout : BootLayout) (deviceBase : Nat) (memory : Memory)
    (outcome : BootOutcome) : Prop where
  record_eq : outcome.record = recordOf layout
  arena_eq : outcome.arena =
    ⟨⟨layout.kernelStop.pageAbove⟩, Paging.bootPages, layout.tree.pageFloor⟩
  memory_eq : outcome.memory =
    Paging.writeBootMap
      (memory.fill layout.kernelStop.pageAbove (Paging.bootPages * Config.pageSize) 0)
      layout.kernelStop.pageAbove deviceBase

variable {record : BootRecord} {layout : BootLayout} {deviceBase : Nat} {memory : Memory}

/-- Boot fails with the first condition that is not met, or there is none and it builds a map.  It
never crashes. -/
theorem bootstrap_ends (record : BootRecord) (layout : BootLayout) (deviceBase : Nat)
    (memory : Memory) :
    match obstacle? record layout with
    | some error => (bootstrap record layout deviceBase memory).run = .ok (.error error)
    | none => ∃ outcome, (bootstrap record layout deviceBase memory).run = .ok (.ok outcome) ∧
        Built layout deviceBase memory outcome := by
  have clear : Paging.zeroPages memory layout.kernelStop.pageAbove Paging.bootPages =
      .ok (memory.fill layout.kernelStop.pageAbove (Paging.bootPages * Config.pageSize) 0) :=
    Paging.zeroPages_eq memory _ _ layout.kernelStop.pageAbove_aligned (by decide)
  rw [obstacle?, bootstrap]
  by_cases magic : record.magic ≠ BootRecord.expectedMagic
  case pos =>
    simp only [if_pos magic]
    rfl
  by_cases kernel : Word.limit ≤ layout.kernelStop.pageAbove
  case pos =>
    have ceiling : layout.kernelStop.pageCeil? = none := by
      rw [Address.pageCeil?_eq, if_neg (Nat.not_lt.2 kernel)]
    simp only [if_neg magic, if_pos kernel, ceiling]
    rfl
  have ceiling : layout.kernelStop.pageCeil? = some ⟨layout.kernelStop.pageAbove⟩ := by
    rw [Address.pageCeil?_eq, if_pos (Nat.lt_of_not_le kernel)]
  by_cases tree : Word.limit ≤ layout.treeEnd.pageAbove
  case pos =>
    have stop : (layout.tree.add? layout.treeSize).bind (·.pageCeil?) = none := by
      rw [BootLayout.treeStop?_eq, if_neg (Nat.not_lt.2 tree)]
    simp only [if_neg magic, if_neg kernel, if_pos tree, ceiling, stop]
    rfl
  have stop : (layout.tree.add? layout.treeSize).bind (·.pageCeil?) =
      some ⟨layout.treeEnd.pageAbove⟩ := by
    rw [BootLayout.treeStop?_eq, if_pos (Nat.lt_of_not_le tree)]
  by_cases order : layout.tree.pageFloor.value ≤ layout.kernelStop.pageAbove
  case pos =>
    simp only [if_neg magic, if_neg kernel, if_neg tree, if_pos order, ceiling, stop, orFail,
      pure_bind]
    rfl
  have word := BootLayout.pageFloor_le_limit (Nat.lt_of_not_le tree)
  have pages := Arena.allocate?_eq
    (Arena.fresh ⟨layout.kernelStop.pageAbove⟩ layout.tree.pageFloor) Paging.bootPages word
  simp only [Arena.fresh, Nat.zero_mul, Nat.add_zero, Nat.zero_add] at pages
  by_cases room : layout.tree.pageFloor.value ≤
      layout.kernelStop.pageAbove + Paging.bootPages * Config.pageSize
  case pos =>
    rw [if_neg (Nat.not_lt.2 room)] at pages
    simp only [if_neg magic, if_neg kernel, if_neg tree, if_neg order, if_pos room, ceiling, stop,
      orFail, pure_bind, Arena.fresh, pages]
    rfl
  case neg =>
    rw [if_pos (Nat.lt_of_not_le room)] at pages
    simp only [if_neg magic, if_neg kernel, if_neg tree, if_neg order, if_neg room, ceiling, stop,
      orFail, pure_bind, Arena.fresh, pages, clear]
    exact ⟨_, rfl, rfl, rfl, by dsimp only⟩

theorem built_of_bootstrap {record : BootRecord} {layout : BootLayout} {deviceBase : Nat}
    {memory : Memory} {outcome : BootOutcome}
    (started : (bootstrap record layout deviceBase memory).run = .ok (.ok outcome)) :
    Ready record layout ∧ Built layout deviceBase memory outcome := by
  have ends := bootstrap_ends record layout deviceBase memory
  rw [started] at ends
  cases obstacle : obstacle? record layout with
  | some error =>
      rw [obstacle] at ends
      cases ends
  | none =>
      rw [obstacle] at ends
      obtain ⟨other, same, built⟩ := ends
      cases same
      exact ⟨obstacle?_eq_none_iff.1 obstacle, built⟩

/-! ## Boot in place -/

/-- What boot finds and changes: the record in the kernel's image, and memory. -/
structure Machine where
  record : BootRecord
  memory : Memory

/-- A computation that changes the machine in place, and can fail or crash. -/
abbrev BootM := ExceptT BootError (EStateM Crash Machine)

/-- The result of a computation that may crash and changes nothing. -/
def BootM.ofChecked {α : Type} : Checked α → BootM α
  | .ok value => return value
  | .error crash => ExceptT.lift (throw crash)

/-- Boot as it changes the machine: the pages of the tables are set to zero, the map is written into
them, and then the record is written. -/
def start (layout : BootLayout) (deviceBase : Nat) : BootM (Arena .physical) := do
  if (← get).record.magic ≠ BootRecord.expectedMagic then throw .badRecord
  let arenaBase ← layout.kernelStop.pageCeil?.getDM (throw .noRoomForArena)
  let treeStart := layout.tree.pageFloor
  let treeStop ← ((layout.tree.add? layout.treeSize).bind (·.pageCeil?)).getDM
    (throw .badDeviceTree)
  if treeStart.value ≤ arenaBase.value then throw .noRoomForArena
  let (arena, tables) ← ((Arena.fresh arenaBase treeStart).allocate? Paging.bootPages).getDM
    (throw .outOfPages)
  let cleared ← BootM.ofChecked (Paging.zeroPages (← get).memory tables.value Paging.bootPages)
  modify fun machine => { machine with memory := cleared }
  modify fun machine =>
    { machine with memory := Paging.writeBootMap machine.memory tables.value deviceBase }
  modify fun machine =>
    { machine with
      record := {
        magic := BootRecord.expectedMagic
        rootTable := tables.value
        arenaBase := arena.base.value
        arenaAllocated := arena.allocated
        arenaBound := arena.bound.value
        properties := layout.properties
        treeStart := treeStart.value
        treeStop := treeStop.value
        kernelStart := layout.kernelStart.value
        kernelStop := layout.kernelStop.value } }
  return arena

/-- Boot in place does what boot says: if it succeeds, the machine has the record and the memory
that come out of it, and if it fails, the machine is as it was. -/
theorem start_run (layout : BootLayout) (deviceBase : Nat) (machine : Machine) :
    (start layout deviceBase).run machine =
      match (bootstrap machine.record layout deviceBase machine.memory).run with
      | .ok (.ok outcome) => .ok (.ok outcome.arena) ⟨outcome.record, outcome.memory⟩
      | .ok (.error error) => .ok (.error error) machine
      | .error crash => .error crash machine := by
  have reads (next : Machine → BootM (Arena .physical)) :
      (get >>= next).run machine = (next machine).run machine := rfl
  simp only [start, bootstrap, reads]
  by_cases magic : machine.record.magic ≠ BootRecord.expectedMagic
  case pos =>
    simp only [if_pos magic]
    rfl
  simp only [if_neg magic]
  cases layout.kernelStop.pageCeil? with
  | none => rfl
  | some arenaBase =>
  cases (layout.tree.add? layout.treeSize).bind (·.pageCeil?) with
  | none => rfl
  | some treeStop =>
  simp only [Option.getDM, orFail, pure_bind]
  by_cases order : layout.tree.pageFloor.value ≤ arenaBase.value
  case pos =>
    simp only [if_pos order]
    rfl
  simp only [if_neg order]
  cases (Arena.fresh arenaBase layout.tree.pageFloor).allocate? Paging.bootPages with
  | none => rfl
  | some taken =>
  simp only [pure_bind, reads]
  cases Paging.zeroPages machine.memory taken.2.value Paging.bootPages with
  | ok cleared => rfl
  | error crash => rfl

/-- What a record says about the arena that boot returns and about the device tree. -/
structure Describes (record : BootRecord) (layout : BootLayout) (arena : Arena .physical) :
    Prop where
  /-- The arena can be put together again from its parts. -/
  arena_eq : arena = ⟨⟨record.arenaBase⟩, record.arenaAllocated, ⟨record.arenaBound⟩⟩
  /-- The tables are the first pages of the arena. -/
  root_eq : record.rootTable = arena.base.value
  /-- The device tree is given by whole pages. -/
  tree_aligned : record.treeStart % Config.pageSize = 0 ∧ record.treeStop % Config.pageSize = 0
  /-- These pages hold all of it. -/
  tree_inside : record.treeStart ≤ layout.tree.value ∧
    layout.tree.value + layout.treeSize ≤ record.treeStop
  /-- The next pages that the arena hands out begin right behind the tables, if they end before the
  bound, and otherwise there are none. -/
  next_pages : ∀ pages, (arena.allocate? pages).map (·.2.value) =
    if record.rootTable + (Paging.bootPages + pages) * Config.pageSize < record.arenaBound then
      some (record.rootTable + Paging.bootPages * Config.pageSize)
    else none

theorem Built.describes {record : BootRecord} {layout : BootLayout} {deviceBase : Nat}
    {memory : Memory} {outcome : BootOutcome} (built : Built layout deviceBase memory outcome)
    (ready : Ready record layout) : Describes outcome.record layout outcome.arena := by
  have word := BootLayout.pageFloor_le_limit ready.tree
  constructor
  case arena_eq => rw [built.record_eq, built.arena_eq, recordOf]
  case root_eq => rw [built.record_eq, built.arena_eq, recordOf]
  case tree_aligned =>
    rw [built.record_eq]
    exact ⟨layout.tree.pageFloor_aligned, layout.treeEnd.pageAbove_aligned⟩
  case tree_inside =>
    rw [built.record_eq]
    exact ⟨layout.tree.pageFloor_le, layout.treeEnd.le_pageAbove⟩
  case next_pages =>
    intro pages
    rw [built.record_eq, built.arena_eq, Arena.allocate?_eq _ pages word, recordOf, Nat.add_mul,
      ← Nat.add_assoc]
    split
    · rfl
    · rfl

/-- Boot succeeds exactly if it is ready, and then the record describes what it returns; otherwise
it fails with the first condition that is not met, and record and memory are as they were.  It never
crashes. -/
theorem start_all_or_nothing (layout : BootLayout) (deviceBase : Nat) (machine : Machine) :
    (Ready machine.record layout ↔
      ∃ arena after, (start layout deviceBase).run machine = .ok (.ok arena) after ∧
        Describes after.record layout arena) ∧
    (¬ Ready machine.record layout ↔
      ∃ error, obstacle? machine.record layout = some error ∧
        (start layout deviceBase).run machine = .ok (.error error) machine) := by
  have run := start_run layout deviceBase machine
  have ends := bootstrap_ends machine.record layout deviceBase machine.memory
  rw [← obstacle?_eq_none_iff]
  cases obstacle : obstacle? machine.record layout with
  | some error =>
      rw [obstacle] at ends
      rw [ends] at run
      refine ⟨⟨nofun, ?_⟩, ⟨fun _ => ⟨error, rfl, run⟩, fun _ => nofun⟩⟩
      rintro ⟨arena, after, succeeded, _⟩
      rw [run] at succeeded
      cases succeeded
  | none =>
      rw [obstacle] at ends
      obtain ⟨outcome, started, built⟩ := ends
      rw [started] at run
      refine ⟨⟨fun _ => ⟨outcome.arena, _, run, ?_⟩, fun _ => rfl⟩,
        ⟨fun some => absurd rfl some, ?_⟩⟩
      · exact built.describes (obstacle?_eq_none_iff.1 obstacle)
      · rintro ⟨error, impossible, _⟩
        cases impossible

end Boot
end Microkernel
