import Microkernel.Proofs.Tables.LettingGo

/-!
# What letting go does to others

Letting go of pipes hangs some of them up.  Whoever waits for one of these goes on, and nothing else
happens to a process that does not itself let go.
-/

namespace Microkernel

/-- Whether a process is left as it was, or waited for a pipe for which there is a reason to go on,
and goes on. -/
def Process.WokenFor (process : Process) (reason : PipeId → Prop) (left : Process) : Prop :=
  left = process ∨ ∃ id, process.state.isBlockedOn id = true ∧ reason id ∧
    left = { process with state := .live .runnable }

namespace Process

variable {process between left : Process} {reason later : PipeId → Prop} {id : PipeId}
  {blocked : ProcessState → Bool}

theorem WokenFor.refl (process : Process) (reason : PipeId → Prop) :
    process.WokenFor reason process :=
  .inl rfl

theorem WokenFor.mono (woken : process.WokenFor reason left)
    (implies : ∀ id, reason id → later id) : process.WokenFor later left :=
  woken.imp_right fun ⟨id, waits, because, left_eq⟩ => ⟨id, waits, implies id because, left_eq⟩

theorem WokenFor.trans (first : process.WokenFor reason between)
    (second : between.WokenFor reason left) : process.WokenFor reason left := by
  rcases first with rfl | ⟨id, waits, because, rfl⟩
  · exact second
  · rcases second with rfl | ⟨other, waits_on, _⟩
    · exact .inr ⟨id, waits, because, rfl⟩
    · cases waits_on

theorem wokenFor_wakeIf (process : Process)
    (only : ∀ state, blocked state = true → state.isBlockedOn id = true) (because : reason id) :
    process.WokenFor reason (process.wakeIf blocked) := by
  rw [wakeIf]
  split
  next asked => exact .inr ⟨id, only _ asked, because, rfl⟩
  next => exact .refl _ _

end Process

namespace PipeTable

variable {before between after : PipeTable} {id : PipeId}

/-- Whether a pipe is open at first, and afterwards is hung up or gone. -/
def HangsUp (before after : PipeTable) (id : PipeId) : Prop :=
  ∃ pipe, before.get? id = some pipe ∧ pipe.hungUp = false ∧
    ∀ kept, after.get? id = some kept → kept.hungUp = true

/-- Whether every pipe of a table was there before, and is hung up if it was. -/
def Dwindles (before after : PipeTable) : Prop :=
  ∀ id kept, after.get? id = some kept →
    ∃ pipe, before.get? id = some pipe ∧ (pipe.hungUp = true → kept.hungUp = true)

theorem Dwindles.refl (pipes : PipeTable) : pipes.Dwindles pipes :=
  fun _ pipe found => ⟨pipe, found, fun closed => closed⟩

theorem Dwindles.trans (first : before.Dwindles between) (second : between.Dwindles after) :
    before.Dwindles after := by
  intro id kept here
  obtain ⟨middle, found, closes⟩ := second id kept here
  obtain ⟨pipe, found_first, closes_first⟩ := first id middle found
  exact ⟨pipe, found_first, fun closed => closes (closes_first closed)⟩

theorem HangsUp.after_dwindles (hangsUp : between.HangsUp after id)
    (first : before.Dwindles between) : before.HangsUp after id := by
  obtain ⟨middle, found, still_open, closed⟩ := hangsUp
  obtain ⟨pipe, found_first, closes⟩ := first id middle found
  refine ⟨pipe, found_first, Bool.eq_false_iff.2 fun was_closed => ?_, closed⟩
  rw [closes was_closed] at still_open
  cases still_open

theorem HangsUp.before_dwindles (hangsUp : before.HangsUp between id)
    (second : between.Dwindles after) : before.HangsUp after id := by
  obtain ⟨pipe, found, was_open, closed⟩ := hangsUp
  refine ⟨pipe, found, was_open, fun kept here => ?_⟩
  obtain ⟨middle, found_middle, closes⟩ := second id kept here
  exact closes (closed middle found_middle)

theorem dwindles_put {pipe : Pipe} (found : before.get? id = some pipe) {left : Option Pipe}
    (closes : ∀ kept, left = some kept → pipe.hungUp = true → kept.hungUp = true) :
    before.Dwindles (before.put id left) := by
  intro other kept here
  rw [get?_put _ (index_lt_of_get?_eq_some found)] at here
  split at here
  next same => exact ⟨pipe, same ▸ found, closes kept here⟩
  next => exact ⟨kept, here, fun closed => closed⟩

end PipeTable

namespace Tables

variable {slots : Nat} {tables before between after reaped : Tables slots} {holder slot : Fin slots}
  {id : PipeId} {pipe : Pipe} {hint : Hint}

/-- What letting go of pipes leaves: less of the pipes, the others as they were but for those woken
because their pipe was hung up, and the process itself as runnable as before. -/
structure LetsGo (before after : Tables slots) (holder : Fin slots) : Prop where
  /-- No pipe is opened or new. -/
  pipes : before.pipes.Dwindles after.pipes
  /-- The others go on if their pipe was hung up. -/
  others : ∀ slot, slot ≠ holder → before.processes[slot].WokenFor
    (before.pipes.HangsUp after.pipes) after.processes[slot]
  /-- The process has the registers that it had. -/
  registers : after.processes[holder].registers = before.processes[holder].registers
  /-- The process can run if it could. -/
  runnable : before.processes[holder].state = .live .runnable →
    after.processes[holder].state = .live .runnable

theorem LetsGo.refl (tables : Tables slots) (holder : Fin slots) : LetsGo tables tables holder :=
  ⟨.refl _, fun _ _ => .refl _ _, rfl, fun runs => runs⟩

theorem LetsGo.trans (first : LetsGo before between holder) (second : LetsGo between after holder) :
    LetsGo before after holder where
  pipes := first.pipes.trans second.pipes
  others slot different :=
    ((first.others slot different).mono fun _ hangsUp =>
      hangsUp.before_dwindles second.pipes).trans
      ((second.others slot different).mono fun _ hangsUp => hangsUp.after_dwindles first.pipes)
  registers := second.registers.trans first.registers
  runnable runs := second.runnable (first.runnable runs)

theorem letsGo_dropHandle (tables : Tables slots) (holder : Fin slots)
    (position : Fin Config.maxHandles) :
    LetsGo tables (tables.dropHandle holder position) holder := by
  refine ⟨.refl _, fun slot different => ?_, ?_, fun runs => ?_⟩
  · rw [getElem_dropHandle, if_neg (Ne.symm different)]
    exact .refl _ _
  · rw [getElem_dropHandle, if_pos rfl]
    rfl
  · rw [getElem_dropHandle, if_pos rfl]
    exact runs

theorem Released.letsGo (leaves : Released tables holder id pipe after hint)
    (found : tables.pipes.get? id = some pipe) : LetsGo tables after holder := by
  have inside := PipeTable.index_lt_of_get?_eq_some found
  cases leaves with
  | hungUp was_open ends =>
      have closed {kept : Pipe} (left : pipe.letGo tables.processes[holder].pid = some kept) :
          kept.hungUp = true := by
        rw [Pipe.letGo_eq_some left, ends, Bool.or_true]
      have hangsUp : tables.pipes.HangsUp
          (tables.pipes.put id (pipe.letGo tables.processes[holder].pid)) id := by
        refine ⟨pipe, found, was_open, fun kept here => closed ?_⟩
        rwa [PipeTable.get?_put _ inside, if_pos rfl] at here
      have woken (slot : Fin slots) : (tables.processes.wake holder (·.isBlockedOn id)).1[slot] =
          tables.processes[slot].wakeIf (·.isBlockedOn id) := getElem_map _ _ _
      refine ⟨PipeTable.dwindles_put found fun kept here _ => closed here,
        fun slot _ => ?_, ?_, fun runs => ?_⟩
      · rw [woken]
        exact Process.wokenFor_wakeIf _ (fun _ asked => asked) hangsUp
      · rw [woken, Process.wakeIf]
        split <;> rfl
      · rw [woken, Process.wakeIf_state, runs]
        rfl
  | quiet same =>
      refine ⟨PipeTable.dwindles_put found fun kept here was_closed => ?_,
        fun _ _ => .refl _ _, rfl, fun runs => runs⟩
      rw [Pipe.letGo_eq_some here, was_closed, Bool.true_or]

/-- A process that ends hangs up pipes, wakes who waited for these, and leaves a vacant slot. -/
theorem letsGo_reap (run : tables.reap slot = .ok (reaped, hint)) :
    ∃ released, LetsGo tables released slot ∧ reaped = released.modifyProcess slot (·.depart) :=
  reap_ok (fun released _ => LetsGo tables released slot) run (.refl tables slot)
    fun before _ position _ _ _ _ letsGo _ found leaves =>
      letsGo.trans ((letsGo_dropHandle before slot position).trans (leaves.letsGo found))

end Tables
end Microkernel
