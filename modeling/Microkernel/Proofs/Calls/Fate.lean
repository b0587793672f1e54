import Microkernel.Proofs.Calls.Continuity
import Microkernel.Proofs.Tables.Parting

/-!
# What a call does to a pipe

A call leaves a pipe alone, or its caller lets go of the pipe, opens it, comes to hold it, reads it
or writes to it.  Nobody but the caller comes to hold a pipe in the call, or ceases to.
-/

namespace Microkernel

variable {slots : Nat}

namespace ProcessTable

variable {processes : ProcessTable slots} {caller : Fin slots}

theorem handles_set {process : Process} (same : process.handles = processes[caller].handles) :
    (processes.set caller process caller.isLt)[caller].handles = processes[caller].handles := by
  rw [getElem_set_self]
  exact same

theorem handles_answer (response : UInt64) :
    (processes.answer caller response)[caller].handles = processes[caller].handles :=
  handles_set rfl

theorem handles_wake_answer (response : UInt64) (blocked : ProcessState → Bool) :
    ((processes.answer caller response).wake caller blocked).1[caller].handles =
      processes[caller].handles := by
  rw [wake, getElem_map, Process.wakeIf_handles]
  exact handles_answer response

end ProcessTable

namespace System

/-- Whether a process asks to put bytes, at least one, into a pipe that is open, with everything in
order about the call. -/
structure Issues (system : System slots) (caller : Fin slots) (id : PipeId) : Prop where
  /-- The process asks to write. -/
  asked : system.processes[caller].call? = some .pipeWrite
  /-- The arguments are in order, lead to the pipe, and some byte is to be put into it. -/
  valid : ∃ transfer : CallM.Transfer, transfer.ValidFor system.processes[caller] .read ∧
    transfer.pipe = id ∧ transfer.size ≠ 0
  /-- The pipe is open. -/
  unclosed : ∃ pipe, system.pipes.get? id = some pipe ∧ pipe.hungUp = false

/-- What a call can do to a pipe, and to the hold that the caller has on it. -/
inductive Fate (before : System slots) (caller : Fin slots) (after : System slots) (id : PipeId) :
    Prop where
  /-- The pipe is left alone, or the caller lets go of it. -/
  | left (quiet : ¬ before.Issues caller id)
      (parts : Tables.PartsWith before.toTables after.toTables caller id)
  /-- The caller opens the pipe under a name that none of its open pipes has. -/
  | opened (asked : before.processes[caller].call? = some .pipeOpen) (name : List UInt8)
      (fits : Pipe.CanBeNamed name) (absent : before.pipes.get? id = none)
      (unnamed : before.pipes.lookup? before.processes[caller].pid name = none)
      (here : after.pipes.get? id = some (.create before.processes[caller].pid name))
      (others : ∀ other, other ≠ id → after.pipes.get? other = before.pipes.get? other)
      (holds : after.processes[caller].Holds id)
  /-- The caller comes to hold the pipe, which is open. -/
  | joined (asked : before.processes[caller].call? = some .pipeGet) (pipe : Pipe)
      (found : before.pipes.get? id = some pipe) (open_eq : pipe.hungUp = false)
      (unheld : ¬ before.processes[caller].Holds id)
      (here : after.pipes.get? id = some { pipe with references := pipe.references + 1 })
      (holds : after.processes[caller].Holds id)
  /-- The caller, who holds the pipe, takes bytes out of it. -/
  | read (asked : before.processes[caller].call? = some .pipeRead) (pipe : Pipe)
      (found : before.pipes.get? id = some pipe) (ring : Ring Config.pipeCapacity)
      (held : before.processes[caller].Holds id)
      (here : after.pipes.get? id = some { pipe with ring })
      (holds : after.processes[caller].Holds id)
  /-- The caller, who holds the pipe, is noted as a writer, and may put bytes into the pipe. -/
  | written (issued : before.Issues caller id) (pipe : Pipe)
      (found : before.pipes.get? id = some pipe) (open_eq : pipe.hungUp = false)
      (ring : Ring Config.pipeCapacity) (held : before.processes[caller].Holds id)
      (here : after.pipes.get? id =
        some { pipe.noteWriter before.processes[caller].pid with ring })
      (holds : after.processes[caller].Holds id)

variable {before after : System slots} {caller : Fin slots} {id : PipeId}

theorem not_issues_of_call? {number : Syscall}
    (asked : before.processes[caller].call? = some number) (different : number ≠ .pipeWrite) :
    ¬ before.Issues caller id :=
  fun issued => different (Option.some.inj (asked.symm.trans issued.asked))

theorem not_issues_of_requested {transfer : CallM.Transfer}
    (requested : transfer.RequestedBy before.processes[caller])
    (other : transfer.size = 0 ∨ id ≠ transfer.pipe) : ¬ before.Issues caller id := by
  rintro ⟨_, ⟨issued, valid, here, wanted⟩, _⟩
  cases requested.unique valid.toRequestedBy
  rcases other with nothing | different
  · exact wanted nothing
  · exact different here.symm

theorem not_issues_of_invalid
    (invalid : ∀ transfer : CallM.Transfer, ¬ transfer.ValidFor before.processes[caller] .read) :
    ¬ before.Issues caller id :=
  fun ⟨_, ⟨transfer, valid, _⟩, _⟩ => invalid transfer valid

theorem fate_of_same (quiet : ¬ before.Issues caller id) (pipes : after.pipes = before.pipes)
    (handles : after.processes[caller].handles = before.processes[caller].handles) :
    before.Fate caller after id :=
  .left quiet ((Tables.PartsWith.refl _ _ _).congr pipes handles)

theorem holds_addHandle_answer (tables : Tables slots) (caller : Fin slots)
    (position : Fin Config.maxHandles) (id : PipeId) (pipe : Pipe) (response : UInt64) :
    ((tables.addHandle caller position id pipe).processes.answer caller response)[caller].Holds
      id := by
  rw [ProcessTable.getElem_answer_self, Process.holds_iff]
  refine ⟨position, ?_⟩
  rw [Process.respond, Tables.addHandle, getElem_set_self]
  exact getElem_set_self _ _ _

theorem fate_of_addHandle (quiet : ¬ before.Issues caller id)
    {position : Fin Config.maxHandles} {other : PipeId} {pipe : Pipe}
    (free : before.processes[caller].handles[position] = none)
    (inside : other.index < Config.maxPipes) (different : id ≠ other) {response : UInt64}
    (pipes : after.pipes = (before.toTables.addHandle caller position other pipe).pipes)
    (answered : after.processes =
      (before.toTables.addHandle caller position other pipe).processes.answer caller response) :
    before.Fate caller after id := by
  refine .left quiet (.kept ?_ ?_)
  · rw [pipes, Tables.addHandle, PipeTable.get?_put _ inside, if_neg different]
  · rw [← Process.handlesOn_pos_iff, ← Process.handlesOn_pos_iff]
    have counted := Process.handlesOn_set_of_free free other id
    rw [if_neg (Ne.symm different), Nat.add_zero] at counted
    have same : after.processes[caller].handlesOn id = before.processes[caller].handlesOn id := by
      rw [answered, ProcessTable.getElem_answer_self, Tables.addHandle, getElem_set_self]
      exact counted
    rw [same]

end System

variable {before after : System slots} {caller : Fin slots} {hint : Hint} {layout : Layout slots}
  {author : Fin slots → Prop} {id : PipeId}

/-! ## Every outcome -/

theorem System.fate_of_reap (quiet : ¬ before.Issues caller id) (tidy : before.toTables.Tidy)
    {reaped : Tables slots}
    (run : before.toTables.reap caller = .ok (reaped, hint)) (pipes : after.pipes = reaped.pipes)
    (handles : after.processes[caller].handles = reaped.processes[caller].handles) :
    before.Fate caller after id :=
  .left quiet ((Tables.partsWith_reap tidy run id).congr pipes handles)

theorem Outcome.fate (outcome : Outcome before caller (.ok hint) after)
    (tidy : before.toTables.Tidy) (quiet : ¬ before.Issues caller id) :
    before.Fate caller after id := by
  cases outcome with
  | answered log memory response hint plain =>
      exact System.fate_of_same quiet rfl (ProcessTable.handles_answer _)
  | exited log reaped hint run => exact System.fate_of_reap quiet tidy run rfl rfl
  | slept deadline in_time asleep run =>
      obtain ⟨_, rfl⟩ := Process.sleepUntil_eq_ok_iff.1 run
      exact System.fate_of_same quiet rfl (ProcessTable.handles_set rfl)
  | prioritised slot priority valid =>
      refine System.fate_of_same quiet rfl ((ProcessTable.handles_answer _).trans ?_)
      rw [getElem_set]
      split
      next same => rw [same]
      next => rfl
  | moved brk admits process run =>
      obtain ⟨_, rfl⟩ := Process.setBreak_eq_ok_iff.1 run
      exact System.fate_of_same quiet rfl (ProcessTable.handles_set rfl)
  | opened asked name tables handle found fits =>
      obtain ⟨position, new, free, absent, inside, unnamed, rfl⟩ := Tables.openPipe?_eq_some found
      by_cases same : id = new
      · subst same
        refine .opened asked name fits absent unnamed ?_ (fun other different => ?_)
          (System.holds_addHandle_answer _ _ _ _ _ _)
        · exact (PipeTable.get?_put _ inside id).trans (if_pos rfl)
        · exact (PipeTable.get?_put _ inside other).trans (if_neg different)
      · exact System.fate_of_addHandle quiet free inside same rfl rfl
  | shared owner name tables handle found asked =>
      rcases Tables.sharePipe?_eq_some found with
        rfl | ⟨position, new, pipe, free, unheld, here, open_eq, rfl⟩
      · exact System.fate_of_same quiet rfl (ProcessTable.handles_answer _)
      · have inside := PipeTable.index_lt_of_get?_eq_some here
        by_cases same : id = new
        · subst same
          exact .joined asked pipe here open_eq unheld
            ((PipeTable.get?_put _ inside id).trans (if_pos rfl))
            (System.holds_addHandle_answer _ _ _ _ _ _)
        · exact System.fate_of_addHandle quiet free inside same rfl rfl
  | closed handle process dropped tables hint removed run =>
      obtain ⟨position, named, rfl⟩ := Process.removeHandle?_eq_some removed
      obtain ⟨pipe, found, leaves⟩ := Tables.released_of_release run
      exact .left quiet ((leaves.partsWith (tidy.single caller dropped) named found id).congr rfl
        (ProcessTable.handles_answer _))

namespace CallM

theorem ReadOutcome.fate (outcome : ReadOutcome before caller (.ok hint) after)
    (asked : before.processes[caller].call? = some .pipeRead) (id : PipeId) :
    before.Fate caller after id := by
  have quiet : ¬ before.Issues caller id := System.not_issues_of_call? asked (by simp)
  cases outcome with
  | idle transfer requested =>
      exact System.fate_of_same quiet rfl (ProcessTable.handles_answer _)
  | blocked transfer requested pipe found empty open_eq waiting run =>
      obtain ⟨_, rfl⟩ := Process.block_eq_ok_iff.1 run
      exact System.fate_of_same quiet rfl (ProcessTable.handles_set rfl)
  | took transfer requested pipe found some_byte ring bytes run =>
      have handles : _ = before.processes[caller].handles :=
        ProcessTable.handles_wake_answer Response.ok (·.isWriting transfer.pipe)
      have held := Process.pipeOf?_holds requested.pipe
      have looked (other : PipeId) : (before.pipes.put transfer.pipe (some { pipe with ring })).get?
          other = if other = transfer.pipe then some { pipe with ring }
            else before.pipes.get? other :=
        PipeTable.get?_put _ (PipeTable.index_lt_of_get?_eq_some found) other
      by_cases same : id = transfer.pipe
      · subst same
        exact .read asked pipe found ring held ((looked _).trans (if_pos rfl))
          ((Process.holds_congr handles).2 held)
      · exact .left quiet
          (.kept ((looked id).trans (if_neg same)) (Process.holds_congr handles))

theorem WriteOutcome.fate (outcome : WriteOutcome before caller (.ok hint) after)
    (asked : before.processes[caller].call? = some .pipeWrite) (id : PipeId) :
    before.Fate caller after id := by
  -- A transfer that is under way leaves its own pipe with the caller as a writer.
  have through {transfer : Transfer} {pipe : Pipe}
      (found : before.pipes.get? transfer.pipe = some pipe) (open_eq : pipe.hungUp = false)
      (wanted : transfer.size ≠ 0) (valid : transfer.ValidFor before.processes[caller] .read)
      (ring : Ring Config.pipeCapacity) {after : System slots}
      (pipes : after.pipes = before.pipes.put transfer.pipe
        (some { pipe.noteWriter before.processes[caller].pid with ring }))
      (handles : after.processes[caller].handles = before.processes[caller].handles) :
      before.Fate caller after id := by
    have held := Process.pipeOf?_holds valid.pipe
    have looked (other : PipeId) : after.pipes.get? other = if other = transfer.pipe then
        some { pipe.noteWriter before.processes[caller].pid with ring }
        else before.pipes.get? other := by
      rw [pipes]
      exact PipeTable.get?_put _ (PipeTable.index_lt_of_get?_eq_some found) other
    by_cases same : id = transfer.pipe
    · subst same
      exact .written ⟨asked, ⟨transfer, valid, rfl, wanted⟩, pipe, found, open_eq⟩ pipe found
        open_eq ring held ((looked _).trans (if_pos rfl)) ((Process.holds_congr handles).2 held)
    · exact .left (System.not_issues_of_requested valid.toRequestedBy (.inr same))
        (.kept ((looked id).trans (if_neg same)) (Process.holds_congr handles))
  cases outcome with
  | idle transfer requested nothing =>
      exact System.fate_of_same (System.not_issues_of_requested requested (.inl nothing)) rfl
        (ProcessTable.handles_answer _)
  | blocked transfer requested pipe found full open_eq waiting run wanted valid =>
      obtain ⟨_, rfl⟩ := Process.block_eq_ok_iff.1 run
      exact through found open_eq wanted valid (pipe.noteWriter before.processes[caller].pid).ring
        rfl (ProcessTable.handles_set rfl)
  | put transfer requested pipe found room open_eq ring count run wanted valid =>
      exact through found open_eq wanted valid ring rfl (ProcessTable.handles_wake_answer _ _)

end CallM

theorem SpawnOutcome.fate (outcome : SpawnOutcome before caller (.ok hint) after)
    (runnable : before.processes[caller].state = .live .runnable)
    (quiet : ¬ before.Issues caller id) : before.Fate caller after id := by
  cases outcome with
  | started slot free between log hint started =>
      have different : caller ≠ slot := by
        rintro rfl
        exact Process.live_of_runnable runnable (CallM.vacant_of_vacantSlot?_eq_some free)
      have pipes_eq : between.pipes = before.pipes := by
        obtain ⟨_, _, _, rfl⟩ := started.keeps
        rfl
      refine System.fate_of_same quiet pipes_eq ?_
      rw [ProcessTable.getElem_answer_self, started.getElem_of_ne different]
      rfl

theorem CallOutcome.not_issues {refusal : Refusal}
    (outcome : CallOutcome before caller (.error refusal) after) : ¬ before.Issues caller id := by
  intro issued
  rw [CallOutcome, issued.asked] at outcome
  cases outcome with
  | refused _ _ invalid => exact System.not_issues_of_invalid invalid issued
  | hungUp transfer requested pipe found closed =>
      obtain ⟨_, ⟨other, valid, rfl, _⟩, held, here, open_eq⟩ := issued
      cases requested.unique valid.toRequestedBy
      cases found.symm.trans here
      cases closed.symm.trans open_eq

/-- Every call that the kernel handles does one of these things to a pipe. -/
theorem Handled.fate (handled : Handled before caller hint after) (tidy : before.toTables.Tidy)
    (runnable : before.processes[caller].state = .live .runnable) (id : PipeId) :
    before.Fate caller after id := by
  cases handled with
  | done outcome =>
      rw [CallOutcome] at outcome
      split at outcome
      next asked => exact outcome.fate asked id
      next asked => exact outcome.fate asked id
      next asked => exact outcome.fate runnable (System.not_issues_of_call? asked (by simp))
      next writes _ => exact outcome.fate tidy fun issued => writes issued.asked
  | failed error memory outcome =>
      exact System.fate_of_same outcome.not_issues rfl (ProcessTable.handles_answer _)
  | ended fault memory outcome log reaped hint run =>
      exact System.fate_of_reap outcome.not_issues tidy run rfl (ProcessTable.handles_set rfl)

end Microkernel
