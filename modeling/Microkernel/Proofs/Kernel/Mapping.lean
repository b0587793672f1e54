import Microkernel.Proofs.Kernel.Integrity
import Microkernel.Proofs.Kernel.Isolation

/-!
# The map of every process agrees with its regions

A process gets its map when it is started, and nobody writes the tables of a live process after
that.  The break may move, but the map counts the heap at its largest.  So whenever the kernel or a
program looks, the map of every live process says the same as its regions.
-/

namespace Microkernel

variable {slots : Nat} {layout : Layout slots} {author : Fin slots → Prop} {caller : Fin slots}

theorem Process.Mapped.continues {process changed : Process} {memory : Memory}
    {slotMemory : SlotMemory} {image : Extent} {may : Prop} (mapped : process.Mapped memory)
    (sound : process.Sound slotMemory image may) (houses : slotMemory.Houses image)
    (continues : process.Continues changed) (live : changed.state ≠ .vacant) :
    changed.Mapped memory := by
  have was_live := continues.live live
  cases continues with
  | remains same => exact mapped.retain same.root same.pages same.regions same.heap
  | resized brk admits resized run same =>
      exact (mapped.setBreak sound houses was_live admits run).retain same.root same.pages
        same.regions same.heap
  | gone vacant => exact absurd vacant live

namespace System

variable {system entered left : System slots}

theorem UserStep.mapped (user : system.UserStep caller entered)
    (sound : system.toTables.Sound layout author) (mapped : system.Mapped) : entered.Mapped := by
  intro slot live
  have same := user.remains slot
  have was_live := same.live live
  have process_sound := sound.slot slot
  refine ((mapped slot was_live).of_agree fun address covered => ?_).continues process_sound
    (layout.houses slot) (.remains same) live
  apply Classical.byContradiction
  intro changed
  rcases user.changes address changed with writable | seen
  · exact (sound.not_covers_of_reaches (.inl writable) was_live).2 covered
  · rw [process_sound.memory_eq] at covered
    exact ((layout.houses slot).sound.unseen _ (SlotMemory.tables_mem_parts _)).not_covers
      covered seen

/-- A call leaves the maps of live processes alone, and a process that is started gets its own. -/
theorem Mapped.handled (mapped : entered.Mapped) (sound : entered.toTables.Sound layout author)
    (live : entered.processes[caller].state ≠ .vacant) {hint : Hint}
    (handled : Handled entered caller hint left)
    (changes : entered.memory.ChangesOnly left.memory (entered.Reaches caller)) : left.Mapped := by
  intro slot slot_live
  rcases handled.continues_or_starts live slot with continues | starts
  · -- The slot was live before the call, so its tables were out of reach.
    have was_live := continues.live slot_live
    refine ((mapped slot was_live).of_agree fun address covered => ?_).continues
      (sound.slot slot) (layout.houses slot) continues slot_live
    apply Classical.byContradiction
    intro changed
    exact (sound.not_covers_of_reaches (changes address changed) was_live).2 covered
  · obtain ⟨between, started, same, memory_eq, _⟩ := starts.started
    rw [same, memory_eq]
    exact started.mapped

end System

variable {launch : Launch slots} {traps : List (Trap slots)} {system entered left : System slots}

theorem Run.mapped_handled (run : Run launch traps system) (mapped : system.Mapped)
    (current : caller.val = system.current) (user : system.UserStep caller entered) {hint : Hint}
    (call : KernelM.handleCall caller entered = .ok hint left) : left.Mapped := by
  obtain ⟨runnable, handled, _⟩ := run.invariant.handled current user call
  have sound := user.sound run.invariant.sound
  have changes : entered.memory.ChangesOnly ((KernelM.handleCall caller).memoryAfter entered)
      (entered.Reaches caller) :=
    KernelM.handleCall_changesOnly sound (user.calls_eq.trans run.invariant.calls)
  rw [KernelM.memoryAfter, call] at changes
  exact (user.mapped run.invariant.sound mapped).handled sound
    (Process.live_of_runnable runnable) handled changes

theorem Run.mapped (run : Run launch traps system) : system.Mapped := by
  induction run with
  | start started => exact (launch.begins started).mapped
  | advance _ ticks passes mapped =>
      cases passes
      exact mapped
  | trap run trap current user call switch mapped =>
      obtain ⟨_, _, preserved⟩ := run.invariant.handled current user call
      obtain ⟨woken, clock, after_eq, roused, _⟩ := preserved.resumes trap.caller.isLt switch
      have left_mapped := run.mapped_handled mapped current user call
      rw [after_eq]
      intro slot live
      have same := (roused slot).remains
      exact (left_mapped slot (same.live live)).retain same.root same.pages same.regions same.heap

theorem Reached.mapped (reached : Reached launch system) : system.Mapped := by
  cases reached with
  | settled run => exact run.mapped
  | entered run _ user => exact user.mapped run.invariant.sound run.mapped
  | handled run current user call => exact run.mapped_handled run.mapped current user call

/-- If the arena and the program lie below the devices, then at all times the map of every live
process agrees with its regions, wherever its break is. -/
theorem Reached.maps_agree (reached : Reached launch system)
    (arena_below : launch.arena.bound.value ≤ Config.deviceBase)
    (image_below : launch.imageStop ≤ Config.deviceBase) (slot : Fin slots)
    (live : system.processes[slot].state ≠ .vacant) :
    system.processes[slot].Agrees system.memory := by
  obtain ⟨⟨author, sound⟩, _⟩ := reached.sound_and_waiting
  have carved := Slots.carveAll_ok launch.aligned launch.bounded launch.carved
  refine (reached.mapped slot live).agrees (sound.slot slot) (launch.layout.houses slot) live
    (fun part member => ?_) ?_
  · have taken := (carved.2.1 slot).2 part member
    exact Nat.le_of_lt (Nat.lt_of_lt_of_le taken.stop_lt arena_below)
  · have nonempty := launch.nonempty
    change launch.imageStart + (launch.imageStop - launch.imageStart) ≤ _
    omega

/-- The first process moves its break by a page and starts another, and the maps of both agree with
their regions. -/
theorem maps_agree_small : ∃ system, Reached Launch.small system ∧
    system.processes[(0 : Fin 2)].heap.brk = 0x104000 ∧
    ∀ slot : Fin 2, system.processes[slot].state ≠ .vacant ∧
      system.processes[slot].Agrees system.memory := by
  have evaluated : (Launch.small.play? [Launch.calling 0x80010 .moveBreak 0x1000 0 0,
      Launch.calling 0x80010 .spawn 0x80000 0 0]).any (fun final => decide (
        final.2.processes[(0 : Fin 2)].heap.brk = 0x104000 ∧
        ∀ slot : Fin 2, final.2.processes[slot].state ≠ .vacant)) = true := by
    decide +kernel
  simp only [Option.any_eq_true, decide_eq_true_eq] at evaluated
  obtain ⟨final, played, moved, live⟩ := evaluated
  have reached : Reached Launch.small final.2 := .settled (Run.play played)
  exact ⟨_, reached, moved, fun slot =>
    ⟨live slot, reached.maps_agree (by decide) (by decide) slot (live slot)⟩⟩

end Microkernel
