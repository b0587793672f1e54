import Microkernel.Proofs.Calls.Continuity
import Microkernel.Proofs.Kernel.Script

/-!
# Processes are kept apart

Every live process has the same four regions: the program, its own stack, the page at which it sees
its arguments, and its own heap up to the break.  Only the first process may write the program, so
no address can be written by two processes.
-/

namespace Microkernel

variable {slots : Nat} {before after : System slots} {layout : Layout slots}
  {author : Fin slots → Prop} {caller : Fin slots} {hint : Hint} {rights : Fin slots → Rights}

/-! ## What a call keeps -/

theorem Process.Grants.continues {process changed : Process} {rights : Rights}
    (grants : process.Grants rights) (continues : process.Continues changed) :
    changed.Grants rights := by
  cases continues with
  | remains same => exact grants.retain same.live same.regions
  | resized brk admits resized run same =>
      exact (grants.setBreak run).retain same.live same.regions
  | gone vacant => exact fun live => absurd vacant live

/-- A process that is started has the rights of its parent, apart from that to write the program. -/
theorem System.Starts.grants {slot : Fin slots} (starts : before.Starts caller slot after)
    (sound : before.toTables.Sound layout author)
    (live : before.processes[caller].state ≠ .vacant) (grants : before.processes.Grants rights) :
    after.processes[slot].Grants ((rights caller).without .write) := by
  obtain ⟨between, started, same, _⟩ := starts.started
  obtain ⟨inherited_rights, inherited, _, _⟩ := (sound.slot caller).inherited live
  have rights_eq : inherited_rights = (rights caller).without .write :=
    (grants caller).inherited live _ (inherited ▸ List.mem_singleton_self _)
  rw [inherited, rights_eq] at started
  rw [same]
  exact started.grants sound

theorem Handled.grants (handled : Handled before caller hint after)
    (sound : before.toTables.Sound layout author)
    (live : before.processes[caller].state ≠ .vacant) (grants : before.processes.Grants rights)
    (fresh : ∀ slot : Fin slots, before.processes[slot].state = .vacant →
      rights slot = (rights caller).without .write) : after.processes.Grants rights := by
  intro slot
  rcases handled.continues_or_starts live slot with continues | starts
  · exact (grants slot).continues continues
  · rw [fresh slot starts.vacant]
    exact starts.grants sound live grants

theorem System.UserStep.remains {system entered : System slots}
    (user : system.UserStep caller entered) : system.processes.Remains entered.processes := by
  obtain ⟨registers, memory, rfl⟩ := user.ran
  exact ProcessTable.remains_set ⟨fun live => live, rfl, rfl, rfl, rfl, rfl⟩

theorem System.UserStep.grants {system entered : System slots}
    (user : system.UserStep caller entered) (grants : system.processes.Grants rights) :
    entered.processes.Grants rights :=
  fun slot => (grants slot).continues (.remains (user.remains slot))

/-! ## What a run keeps -/

namespace Launch

variable (launch : Launch slots)

instance (traps : List (Trap slots)) (slot : Fin slots) : Decidable (launch.RunsFirst traps slot) :=
  inferInstanceAs (Decidable (slot = launch.first ∧
    ∀ trap ∈ traps, trap.left.processes[slot].state ≠ .vacant))

/-- What the process in a slot may do with the program: the first process anything, and all others
anything but write it. -/
def programRights (traps : List (Trap slots)) (slot : Fin slots) : Rights :=
  if launch.RunsFirst traps slot then .program else Rights.program.without .write

theorem programRights_without_write (traps : List (Trap slots)) (slot : Fin slots) :
    (launch.programRights traps slot).without .write = Rights.program.without .write := by
  rw [programRights]
  split <;> decide

theorem includes_write_programRights_iff (traps : List (Trap slots)) (slot : Fin slots) :
    (launch.programRights traps slot).includes .write = true ↔ launch.RunsFirst traps slot := by
  rw [programRights]
  split
  next first => exact iff_of_true (by decide) first
  next later => exact iff_of_false (by decide) later

theorem programRights_append {traps : List (Trap slots)} {trap : Trap slots} {slot : Fin slots}
    (live : trap.left.processes[slot].state ≠ .vacant) :
    launch.programRights (traps ++ [trap]) slot = launch.programRights traps slot := by
  have same : launch.RunsFirst (traps ++ [trap]) slot ↔ launch.RunsFirst traps slot := by
    simp only [RunsFirst, List.forall_mem_append, List.forall_mem_singleton, live, ne_eq,
      not_false_eq_true, and_true]
  simp only [programRights, same]

end Launch

variable {launch : Launch slots} {traps : List (Trap slots)} {system : System slots}

/-- What holds of the first process and the rights of all in a run: the slot of the first process is
not vacant as long as it counts as that, and nobody has other rights than are due. -/
structure Run.Rightful (launch : Launch slots) (traps : List (Trap slots))
    (system : System slots) : Prop where
  /-- The first process lives. -/
  first_live : ∀ slot : Fin slots, launch.RunsFirst traps slot →
    system.processes[slot].state ≠ .vacant
  /-- Everybody has the rights that are due. -/
  grants : system.processes.Grants (launch.programRights traps)

namespace Run

theorem Rightful.handled {entered left : System slots} (rightful : Rightful launch traps system)
    (run : Run launch traps system) (current : caller.val = system.current)
    (user : system.UserStep caller entered)
    (call : KernelM.handleCall caller entered = .ok hint left) :
    left.processes.Grants (launch.programRights traps) := by
  obtain ⟨runnable, handled, _⟩ := run.invariant.handled current user call
  refine handled.grants (user.sound run.invariant.sound) (Process.live_of_runnable runnable)
    (user.grants rightful.grants) fun slot vacant => ?_
  rw [user.state_eq] at vacant
  rw [launch.programRights_without_write, Launch.programRights, if_neg]
  exact fun first => rightful.first_live slot first vacant

theorem rightful (run : Run launch traps system) : Rightful launch traps system := by
  induction run with
  | start started =>
      have begins := launch.begins started
      refine ⟨?_, begins.grants _
        (if_pos ⟨rfl, fun trap member => absurd member List.not_mem_nil⟩)⟩
      rintro slot ⟨rfl, _⟩
      exact Process.live_of_runnable begins.runnable
  | advance _ ticks passes rightful =>
      cases passes
      exact ⟨rightful.first_live, rightful.grants⟩
  | trap run trap current user call switch rightful =>
      obtain ⟨_, _, preserved⟩ := run.invariant.handled current user call
      obtain ⟨woken, clock, after_eq, roused, _⟩ := preserved.resumes trap.caller.isLt switch
      have grants := rightful.handled run current user call
      rw [after_eq]
      refine ⟨fun slot first vacant => ?_, fun slot live => ?_⟩
      · exact first.2 trap (List.mem_append_right _ (List.mem_singleton_self _))
          ((roused slot).vacant_iff.1 vacant)
      · have was_live := fun vacant => live ((roused slot).vacant_iff.2 vacant)
        rw [launch.programRights_append was_live]
        exact (grants slot).continues (.remains (roused slot).remains) live

end Run

/-! ## What can be observed -/

/-- What can be observed in a run after some traps: the system between two steps, or while one more
call is under way before or after it is handled. -/
inductive Seen (launch : Launch slots) (traps : List (Trap slots)) : System slots → Prop where
  /-- No call is under way. -/
  | settled {system : System slots} (run : Run launch traps system) : Seen launch traps system
  /-- The current process has entered the kernel. -/
  | entered {system entered : System slots} {caller : Fin slots} (run : Run launch traps system)
      (current : caller.val = system.current) (user : system.UserStep caller entered) :
      Seen launch traps entered
  /-- The call of the current process has been handled. -/
  | handled {system entered left : System slots} {caller : Fin slots} {hint : Hint}
      (run : Run launch traps system) (current : caller.val = system.current)
      (user : system.UserStep caller entered)
      (call : KernelM.handleCall caller entered = .ok hint left) :
      Seen launch traps left

theorem reached_iff_seen : Reached launch system ↔ ∃ traps, Seen launch traps system := by
  constructor
  · intro reached
    cases reached with
    | settled run => exact ⟨_, .settled run⟩
    | entered run current user => exact ⟨_, .entered run current user⟩
    | handled run current user call => exact ⟨_, .handled run current user call⟩
  · rintro ⟨traps, seen⟩
    cases seen with
    | settled run => exact .settled run
    | entered run current user => exact .entered run current user
    | handled run current user call => exact .handled run current user call

/-- At all times the tables are sound, and nobody has other rights to the program than are due. -/
theorem Seen.sound_and_grants (seen : Seen launch traps system) :
    system.toTables.Sound launch.layout (launch.RunsFirst traps) ∧
      system.processes.Grants (launch.programRights traps) := by
  cases seen with
  | settled run => exact ⟨run.invariant.sound, run.rightful.grants⟩
  | entered run current user =>
      exact ⟨user.sound run.invariant.sound, user.grants run.rightful.grants⟩
  | handled run current user call =>
      exact ⟨(run.invariant.handled current user call).2.2.sound,
        run.rightful.handled run current user call⟩

namespace Process

variable {process : Process} {memory : SlotMemory} {image : Extent} {first : Prop} {address : Nat}

/-- Whether the memory of a process is its own heap up to the break, the program, its own stack and
the page at which it sees its arguments. -/
structure Confined (process : Process) (memory : SlotMemory) (image : Extent) (rights : Rights) :
    Prop where
  /-- Each region begins and ends before those behind it begin. -/
  ordered : Region.Ordered process.regions
  /-- There are four regions. -/
  regions_perm : process.regions.Perm
    [{ base := memory.heap, size := process.heap.brk - memory.heap, rights := .readWrite },
      { base := image.start, size := image.length, rights },
      { base := memory.stack, size := Config.stackSize, rights := .readWrite },
      { base := Config.argumentAddress, size := Config.pageSize, rights := .read }]
  /-- The heap is that of the slot. -/
  heap_base : process.heap.base = memory.heap
  /-- The heap can grow to all of its pages. -/
  heap_limit : process.heap.limit = Config.heapLimit
  /-- The break does not lie before the heap. -/
  base_le_brk : memory.heap ≤ process.heap.brk
  /-- The break does not lie behind the heap. -/
  brk_le : process.heap.brk ≤ memory.heap + Config.heapLimit

theorem Sound.confined {rights : Rights} (sound : process.Sound memory image first)
    (grants : process.Grants rights) (live : process.state ≠ .vacant) :
    process.Confined memory image rights := by
  obtain ⟨ordered, own, perm, marked, _⟩ := sound.live live
  have same : own = rights :=
    grants live _ (perm.mem_iff.2 (List.mem_cons_of_mem _ List.mem_cons_self)) marked
  have admits := sound.admits
  simp only [Heap.Admits, sound.heap_base, sound.heap_limit] at admits
  refine ⟨ordered, ?_, sound.heap_base, sound.heap_limit, admits.1, by omega⟩
  rw [same, sound.heap_base] at perm
  exact perm

theorem Sound.owns_of_may_write (sound : process.Sound memory image first)
    (may : process.May .write address) : memory.Owns address ∨ (image.Covers address ∧ first) := by
  rcases sound.may_write may with stack | heap | program
  · exact .inl ⟨_, memory.stack_mem_parts, stack⟩
  · exact .inl ⟨_, memory.heap_mem_parts, heap⟩
  · exact .inr program

end Process

namespace Tables.Sound

variable {tables : Tables slots} {one other : Fin slots} {address : Nat}

theorem authors_of_may_write (sound : tables.Sound layout author) (different : one ≠ other)
    (writes : tables.processes[one].May .write address)
    (writes_too : tables.processes[other].May .write address) : author one ∧ author other := by
  rcases (sound.slot one).owns_of_may_write writes with owned | ⟨covered, first⟩
  · rcases (sound.slot other).owns_of_may_write writes_too with owned_too | ⟨covered, _⟩
    · exact absurd owned_too (layout.not_owns different owned)
    · exact absurd covered (layout.not_covers_image owned)
  · rcases (sound.slot other).owns_of_may_write writes_too with owned | ⟨_, first_too⟩
    · exact absurd covered (layout.not_covers_image owned)
    · exact ⟨first, first_too⟩

theorem covers_of_may_read (sound : tables.Sound layout author) (different : one ≠ other)
    (writes : tables.processes[one].May .write address)
    (reads : tables.processes[other].May .read address) : layout.image.Covers address := by
  rcases (sound.slot one).owns_of_may_write writes with owned | ⟨covered, _⟩
  · rcases (sound.slot other).owns_of_may reads with owned_too | covered | window
    · exact absurd owned_too (layout.not_owns different owned)
    · exact covered
    · exact absurd window (layout.not_covers_window owned)
  · exact covered

end Tables.Sound

/-- At all times each live process has the four regions that go with its slot, in order, and only
the first process may write the program.  So no address can be written by two processes, and an
address that one can write and another can read lies in the program. -/
theorem Seen.isolated (seen : Seen launch traps system) :
    (∀ slot : Fin slots, system.processes[slot].state ≠ .vacant →
      system.processes[slot].Confined launch.pages[slot] launch.image
        (launch.programRights traps slot)) ∧
    (∀ slot : Fin slots, (launch.programRights traps slot).includes .write = true ↔
      launch.RunsFirst traps slot) ∧
    ∀ one other : Fin slots, one ≠ other → ∀ address,
      ¬ (system.processes[one].May .write address ∧
        system.processes[other].May .write address) ∧
      (system.processes[one].May .write address → system.processes[other].May .read address →
        launch.image.Covers address) := by
  obtain ⟨sound, grants⟩ := seen.sound_and_grants
  refine ⟨fun slot live => (sound.slot slot).confined (grants slot) live,
    launch.includes_write_programRights_iff traps,
    fun one other different address => ⟨?_, fun writes reads =>
      sound.covers_of_may_read different writes reads⟩⟩
  rintro ⟨writes, writes_too⟩
  obtain ⟨first, first_too⟩ := sound.authors_of_may_write different writes writes_too
  exact different (first.1.trans first_too.1.symm)

/-- The first process, which may write the program, and one that it has started, which may not. -/
theorem isolated_small : ∃ traps system, Seen Launch.small traps system ∧
    Launch.small.RunsFirst traps 0 ∧ ¬ Launch.small.RunsFirst traps 1 ∧
    (∀ slot : Fin 2, system.processes[slot].state ≠ .vacant ∧
      system.processes[slot].Confined Launch.smallPages[slot] ⟨0x80000, 0x1000⟩
        (Launch.small.programRights traps slot)) ∧
    ∀ address, ¬ (system.processes[(0 : Fin 2)].May .write address ∧
      system.processes[(1 : Fin 2)].May .write address) := by
  have evaluated : (Launch.small.play? Launch.readerScript).any (fun final =>
      decide (Launch.small.RunsFirst final.1 0 ∧
        ∀ slot : Fin 2, final.2.processes[slot].state ≠ .vacant)) = true := by
    decide +kernel
  rw [Option.any_eq_true] at evaluated
  obtain ⟨final, played, holds⟩ := evaluated
  obtain ⟨first, live⟩ := of_decide_eq_true holds
  have seen := Seen.settled (Run.play played)
  obtain ⟨confined, _, apart⟩ := seen.isolated
  refine ⟨_, _, seen, first, fun later => ?_, fun slot => ⟨live slot, confined slot (live slot)⟩,
    fun address => (apart 0 1 (by decide) address).1⟩
  exact absurd (show (1 : Fin 2) = 0 from later.1) (by decide)

end Microkernel
