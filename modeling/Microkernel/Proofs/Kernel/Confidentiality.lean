import Microkernel.Proofs.Calls.Secrecy
import Microkernel.Proofs.Kernel.Script

/-!
# Calls do not tell secrets

What memory holds where a process may not read makes no difference to its calls: neither to the
process itself, nor to a process that it starts, nor to what goes into a pipe or into the log.
-/

namespace Microkernel

variable {slots : Nat}

/-- The system in which a process has entered the kernel with certain registers, and memory has
certain contents. -/
def System.asking (system : System slots) (caller : Fin slots) (registers : Registers)
    (memory : Memory) : System slots :=
  { system with
    memory
    processes := system.processes.set caller
      { system.processes[caller] with registers } caller.isLt }

/-- Let a process enter the kernel with any registers, with memory of any two contents that agree
where the process may read.  A live process has its call handled.  If the call is handled with one
of the contents, it is handled with the other too, with the same hint and the same system apart from
memory, in which each byte is the same afterwards or has not changed in either. -/
theorem Reached.confidential {launch : Launch slots} {system : System slots}
    (reached : Reached launch system) (caller : Fin slots) (registers : Registers)
    {first second : Memory} (agree : first.AgreeOn second (system.processes[caller].May .read)) :
    (system.processes[caller].state ≠ .vacant → ∃ hint left,
      KernelM.handleCall caller (system.asking caller registers first) = .ok hint left) ∧
    ∀ hint left,
      KernelM.handleCall caller (system.asking caller registers first) = .ok hint left →
      ∃ memory,
        KernelM.handleCall caller (system.asking caller registers second) =
          .ok hint { left with memory } ∧
        Memory.ChangeAlike first left.memory second memory := by
  obtain ⟨⟨author, sound⟩, _⟩ := reached.sound_and_waiting
  have asked : (system.asking caller registers first).processes[caller] =
      { system.processes[caller] with registers } := getElem_set_self _ _ _
  constructor
  · intro live
    have process := sound.slot caller
    have sound_asking : (system.asking caller registers first).toTables.Sound launch.layout
        author :=
      sound.set caller
        (process.retain rfl rfl rfl (fun vacant => ⟨vacant, rfl⟩) id
          (process.timed.congr rfl rfl)) rfl
    have still_live : (system.asking caller registers first).processes[caller].state ≠
        .vacant := by
      rw [asked]
      exact live
    obtain ⟨hint, left, run, _⟩ :=
      KernelM.handleCall_run sound_asking reached.calls_eq (.inl still_live)
    exact ⟨hint, left, run⟩
  · intro hint left run
    have bounded : (system.asking caller registers first).processes[caller].Bounded := by
      rw [asked]
      exact (sound.slot caller).bounded (launch.layout.houses caller)
    have readable : first.AgreeOn second
        ((system.asking caller registers first).processes[caller].May .read) := by
      rw [asked]
      exact agree
    have ends := KernelM.discreet_handleCall bounded first second readable
    change KernelM.EndAlike first second
      (KernelM.handleCall caller (system.asking caller registers first))
      (KernelM.handleCall caller (system.asking caller registers second)) at ends
    rw [run] at ends
    generalize KernelM.handleCall caller (system.asking caller registers second) = other
      at ends ⊢
    cases ends with
    | ok _ after _ secondAfter alike => exact ⟨secondAfter, rfl, alike⟩

/-- The first process reads from a pipe in the same way whatever the second slot's stack holds. -/
theorem confidential_small : ∃ traps system registers second hint left memory,
    Run Launch.small traps system ∧
    system.memory.AgreeOn second (system.processes[(0 : Fin 2)].May .read) ∧
    system.memory.get 0x147000 ≠ second.get 0x147000 ∧
    system.processes[(0 : Fin 2)].state ≠ .vacant ∧
    KernelM.handleCall 0 (system.asking 0 registers system.memory) = .ok hint left ∧
    KernelM.handleCall 0 (system.asking 0 registers second) = .ok hint { left with memory } ∧
    Memory.ChangeAlike system.memory left.memory second memory := by
  have evaluated : (Launch.small.play? Launch.writerScript).any (fun final =>
      let process := final.2.processes[(0 : Fin 2)]
      (process.regions.all fun region => decide (0x147000 < region.base) ||
          decide (region.extent.stop ≤ 0x147000)) &&
        decide (process.state ≠ .vacant) &&
        final.2.memory.get 0x147000 !=
          (final.2.memory.write 0x147000 [7]).get 0x147000) = true := by
    decide +kernel
  rw [Option.any_eq_true] at evaluated
  obtain ⟨final, played, holds⟩ := evaluated
  simp only [Bool.and_eq_true, List.all_eq_true, Bool.or_eq_true, decide_eq_true_eq,
    bne_iff_ne] at holds
  obtain ⟨⟨unseen, live⟩, differs⟩ := holds
  have agree : final.2.memory.AgreeOn (final.2.memory.write 0x147000 [7])
      (final.2.processes[(0 : Fin 2)].May .read) := by
    rintro address ⟨region, member, _, covered⟩
    refine Classical.byContradiction fun changed => ?_
    have written := Memory.changesOnly_write _ _ _ address (Ne.symm changed)
    have apart := unseen region member
    simp only [Extent.Covers, Extent.stop, Region.extent, List.length_singleton] at *
    omega
  have run := Run.play played
  obtain ⟨handled, same⟩ := (Reached.settled run).confidential 0
    (final.2.processes[(0 : Fin 2)].registers.load Launch.readMove.call.number.toUInt64
      Launch.readMove.arguments) agree
  obtain ⟨hint, left, ends⟩ := handled live
  obtain ⟨memory, ends_too, alike⟩ := same hint left ends
  exact ⟨_, _, _, _, hint, left, memory, run, agree, differs, live, ends, ends_too, alike⟩

end Microkernel
