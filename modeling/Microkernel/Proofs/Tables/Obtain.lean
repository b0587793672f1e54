import Microkernel.Kernel.PipeCalls
import Microkernel.Proofs.Tables.Sound

/-!
# Obtaining a pipe keeps the tables sound

A process obtains a pipe by creating it or by looking it up.  Either way it takes a free position of
its handle table, and the pipe counts one reference more.
-/

namespace Microkernel
namespace Tables

variable {slots : Nat} {tables : Tables slots} {layout : Layout slots}
  {author : Fin slots → Prop} {caller : Fin slots} {position : Fin Config.maxHandles}
  {id : PipeId} {pipe : Pipe}

/-- The tables with one more handle of a process, on a pipe that is put in place. -/
def addHandle (tables : Tables slots) (caller : Fin slots) (position : Fin Config.maxHandles)
    (id : PipeId) (pipe : Pipe) : Tables slots where
  processes := tables.processes.set caller { tables.processes[caller] with
    handles := tables.processes[caller].handles.set position (some id) position.isLt } caller.isLt
  pipes := tables.pipes.put id (some pipe)

theorem Sound.addHandle (sound : tables.Sound layout author)
    (live : tables.processes[caller].state ≠ .vacant)
    (free : tables.processes[caller].handles[position] = none)
    (inside : id.index < Config.maxPipes)
    (counted : pipe.references = tables.pipes.references id + 1) (ring : pipe.ring.Sound) :
    (tables.addHandle caller position id pipe).Sound layout author := by
  refine ⟨fun slot => ?_, fun other => ?_, fun other held here => ?_, fun other held here => ?_⟩
  · rw [Tables.addHandle, getElem_set]
    split
    next same =>
        subst same
        exact { sound.slot caller with
          vacant := fun vacant => absurd vacant live
          timed := (sound.slot caller).timed.congr rfl rfl }
    next => exact sound.slot slot
  · have slot_count := Process.handlesOn_set_of_free free id other
    have table_count := ProcessTable.holders_set tables.processes caller
      { tables.processes[caller] with
        handles := tables.processes[caller].handles.set position (some id) position.isLt } other
    have before := sound.counted other
    simp only [Tables.addHandle, PipeTable.references, PipeTable.get?_put _ inside] at *
    by_cases same : other = id
    · subst same
      simp only [if_true, Option.map_some, Option.getD_some] at *
      omega
    · rw [if_neg (Ne.symm same)] at slot_count
      rw [if_neg same]
      omega
  · rw [Tables.addHandle, PipeTable.get?_put _ inside] at here
    split at here
    next =>
        cases here
        omega
    next => exact sound.held other held here
  · rw [Tables.addHandle, PipeTable.get?_put _ inside] at here
    split at here
    next =>
        cases here
        exact ring
    next => exact sound.ring other held here

theorem Waiting.addHandle (waiting : tables.Waiting)
    (clear : ∀ other, tables.processes[caller].state.isBlockedOn other = false)
    (inside : id.index < Config.maxPipes)
    (still : ∀ state held, tables.pipes.get? id = some held → held.Stalls state id →
      pipe.Stalls state id) :
    (tables.addHandle caller position id pipe).Waiting := by
  intro slot other waits
  rw [Tables.addHandle] at waits ⊢
  rw [getElem_set] at waits ⊢
  split at waits
  next =>
      rw [clear other] at waits
      cases waits
  next different =>
      obtain ⟨holds, held, here, stalls⟩ := waiting slot other waits
      rw [if_neg different]
      refine ⟨holds, ?_⟩
      rw [PipeTable.get?_put _ inside]
      split
      next same =>
          subst same
          exact ⟨pipe, rfl, still _ held here stalls⟩
      next => exact ⟨held, here, stalls⟩

/-- A pipe is opened at a free position, empty and with one reference, under a name that none of
the open pipes of its owner has. -/
theorem openPipe?_eq_some {name : List UInt8} {opened : Tables slots} {handle : PipeHandle}
    (found : CallM.openPipe? tables caller name = some (opened, handle)) :
    ∃ position id, tables.processes[caller].handles[position] = none ∧
      tables.pipes.get? id = none ∧ id.index < Config.maxPipes ∧
        tables.pipes.lookup? tables.processes[caller].pid name = none ∧
          opened = tables.addHandle caller position id
            (.create tables.processes[caller].pid name) := by
  simp only [CallM.openPipe?, Option.ite_none_left_eq_some, Option.bind_eq_bind,
    Option.bind_eq_some_iff, Option.pure_def, Option.some.injEq, Prod.mk.injEq, Prod.exists,
    Bool.or_eq_true, not_or, Bool.not_eq_true, Option.isSome_eq_false_iff,
    Option.isNone_iff_eq_none] at found
  obtain ⟨⟨unnamed, _⟩, pipes, id, created, process, _, added, rfl, _⟩ := found
  obtain ⟨absent, inside, rfl⟩ := PipeTable.create?_eq_some created
  obtain ⟨position, free, rfl⟩ := Process.addHandle?_eq_some added
  exact ⟨position, id, free, absent, inside, unnamed, rfl⟩

/-- A pipe that is shared is held already, or it is open and counts one reference more. -/
theorem sharePipe?_eq_some {owner : Pid} {name : List UInt8} {shared : Tables slots}
    {handle : PipeHandle}
    (found : CallM.sharePipe? tables caller owner name = some (shared, handle)) :
    shared = tables ∨ ∃ position id pipe, tables.processes[caller].handles[position] = none ∧
      ¬ tables.processes[caller].Holds id ∧ tables.pipes.get? id = some pipe ∧
        pipe.hungUp = false ∧ shared = tables.addHandle caller position id
          { pipe with references := pipe.references + 1 } := by
  simp only [CallM.sharePipe?, Option.bind_eq_bind, Option.bind_eq_some_iff] at found
  obtain ⟨id, named, found⟩ := found
  obtain ⟨pipe, here, open_eq, _⟩ := PipeTable.lookup?_eq_some named
  split at found
  next =>
      cases found
      exact .inl rfl
  next unheld =>
      simp only [here, Option.map_some, Option.bind_eq_some_iff, Option.pure_def,
        Option.some.injEq, Prod.mk.injEq, Prod.exists] at found
      obtain ⟨process, _, added, rfl, _⟩ := found
      obtain ⟨position, free, rfl⟩ := Process.addHandle?_eq_some added
      exact .inr ⟨position, id, pipe, free, Process.not_holds_of_handleOn?_eq_none unheld, here,
        open_eq, rfl⟩

/-- A pipe that is shared has the owner and the name that were asked for, and the handle leads to
it. -/
theorem names_of_sharePipe? {owner : Pid} {name : List UInt8} {shared : Tables slots}
    {handle : PipeHandle}
    (found : CallM.sharePipe? tables caller owner name = some (shared, handle)) :
    ∃ id, tables.pipes.Names id owner name ∧ shared.pipes.Names id owner name ∧
      shared.processes[caller].pipeOf? handle = some id ∧ handle.word ≤ Config.maxHandles := by
  simp only [CallM.sharePipe?, Option.bind_eq_bind, Option.bind_eq_some_iff] at found
  obtain ⟨id, named, found⟩ := found
  have names := PipeTable.lookup?_eq_some named
  refine ⟨id, names, ?_⟩
  split at found
  next held here =>
      cases found
      exact ⟨names, Process.pipeOf?_of_handleOn? here⟩
  next unheld =>
      obtain ⟨pipe, here, open_eq, owned, same⟩ := names
      simp only [here, Option.map_some, Option.bind_eq_some_iff, Option.pure_def,
        Option.some.injEq, Prod.mk.injEq, Prod.exists] at found
      obtain ⟨process, _, added, rfl, rfl⟩ := found
      refine ⟨⟨{ pipe with references := pipe.references + 1 }, ?_, open_eq, owned, same⟩, ?_⟩
      · exact (PipeTable.get?_put _ (PipeTable.index_lt_of_get?_eq_some here) id).trans (if_pos rfl)
      · rw [getElem_set_self]
        exact Process.pipeOf?_of_addHandle? added

/-- An open pipe is shared with whoever holds it or has room for a handle. -/
theorem sharePipe?_isSome {owner : Pid} {name : List UInt8}
    (named : tables.pipes.Names id owner name)
    (unique : ∀ other, tables.pipes.Names other owner name → other = id)
    (room : tables.processes[caller].Holds id ∨ ∃ position : Fin Config.maxHandles,
      tables.processes[caller].handles[position] = none) :
    (CallM.sharePipe? tables caller owner name).isSome := by
  cases looked : tables.pipes.lookup? owner name with
  | none => exact absurd named (PipeTable.not_names_of_lookup?_eq_none looked)
  | some other =>
      cases unique other (PipeTable.lookup?_eq_some looked)
      simp only [CallM.sharePipe?, looked, Option.bind_eq_bind, Option.bind_some]
      cases handle : tables.processes[caller].handleOn? id with
      | some handle => rfl
      | none =>
          have unheld := Process.not_holds_of_handleOn?_eq_none handle
          have added : (tables.processes[caller].addHandle? id).isSome :=
            Process.addHandle?_isSome (room.resolve_left unheld)
          obtain ⟨⟨process, handle⟩, added⟩ := Option.isSome_iff_exists.1 added
          simp only [added, Option.bind_some]
          rfl

end Tables
end Microkernel
