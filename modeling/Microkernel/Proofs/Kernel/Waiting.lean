import Microkernel.Proofs.Kernel.Script

/-!
# No wake-up is lost

Whoever is blocked on a pipe holds it, and the pipe is there and cannot serve it.
-/

namespace Microkernel

variable {slots : Nat} {launch : Launch slots} {system : System slots}

/-- A process that waits to read holds a pipe that is open and empty, and one that waits to write
holds a pipe that is open and full. -/
theorem Reached.waits_with_reason (reached : Reached launch system) (slot : Fin slots)
    (id : PipeId) :
    (system.processes[slot].state = .live (.readingPipe id) →
      system.processes[slot].Holds id ∧ ∃ pipe, system.pipes.get? id = some pipe ∧
        pipe.hungUp = false ∧ pipe.ring.isEmpty = true) ∧
    (system.processes[slot].state = .live (.writingPipe id) →
      system.processes[slot].Holds id ∧ ∃ pipe, system.pipes.get? id = some pipe ∧
        pipe.hungUp = false ∧ pipe.ring.isFull = true) := by
  have waiting := reached.sound_and_waiting.2 slot id
  constructor
  · intro state
    have reading : system.processes[slot].state.isReading id = true :=
      (ProcessState.isReading_iff _ _).2 state
    obtain ⟨holds, pipe, found, stalls⟩ :=
      waiting (ProcessState.isBlockedOn_of_isReading reading)
    exact ⟨holds, pipe, found, stalls.open_eq, stalls.empty reading⟩
  · intro state
    have writing : system.processes[slot].state.isWriting id = true :=
      (ProcessState.isWriting_iff _ _).2 state
    obtain ⟨holds, pipe, found, stalls⟩ :=
      waiting (ProcessState.isBlockedOn_of_isWriting writing)
    exact ⟨holds, pipe, found, stalls.open_eq, stalls.full writing⟩

/-- A process that has opened a pipe and reads before anybody wrote waits for that pipe. -/
theorem waits_with_reason_small : ∃ system, Reached Launch.small system ∧
    system.processes[(0 : Fin 2)].state = .live (.readingPipe ⟨0⟩) ∧
      system.processes[(0 : Fin 2)].Holds ⟨0⟩ ∧ ∃ pipe, system.pipes.get? ⟨0⟩ = some pipe ∧
        pipe.hungUp = false ∧ pipe.ring.isEmpty = true := by
  have evaluated : (Launch.small.play? Launch.readerScript).any (fun final =>
      final.2.processes[(0 : Fin 2)].state == .live (.readingPipe ⟨0⟩)) = true := by
    decide +kernel
  rw [Option.any_eq_true] at evaluated
  obtain ⟨final, played, state⟩ := evaluated
  have reached := Reached.settled (Run.play played)
  have reading := beq_iff_eq.1 state
  exact ⟨_, reached, reading, (reached.waits_with_reason 0 ⟨0⟩).1 reading⟩

end Microkernel
