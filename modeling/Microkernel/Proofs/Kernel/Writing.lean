import Microkernel.Proofs.Kernel.Accounting
import Microkernel.Proofs.Kernel.Identity

/-!
# Who has written to a pipe

A pipe lists as its writers those who hold it and have put something into it, or tried to, since
they came to hold it.  Whoever lets go of the pipe is forgotten, and has to write again to be
listed.
-/

namespace Microkernel

variable {slots : Nat}

/-- Whether a process has written to a pipe that it holds: it has issued a write while the pipe was
open, and has held the pipe ever since. -/
def HasWritten (traps : List (Trap slots)) (id : PipeId) (slot : Fin slots) : Prop :=
  ∃ earlier writing later, traps = earlier ++ writing :: later ∧ writing.caller = slot ∧
    writing.entered.Issues slot id ∧
      ∀ trap ∈ writing :: later, trap.left.processes[slot].Holds id

/-- Whether a process holds a pipe that lists it as one of its writers. -/
def Tables.HasNoted (tables : Tables slots) (id : PipeId) (slot : Fin slots) : Prop :=
  tables.processes[slot].Holds id ∧ ∃ pipe, tables.pipes.get? id = some pipe ∧
    tables.processes[slot].pid ∈ pipe.writers

variable {before after : System slots} {caller slot : Fin slots} {hint : Hint}
  {layout : Layout slots} {author : Fin slots → Prop} {id : PipeId}

theorem hasWritten_append_iff {traps : List (Trap slots)} {trap : Trap slots} :
    HasWritten (traps ++ [trap]) id slot ↔ trap.left.processes[slot].Holds id ∧
      (HasWritten traps id slot ∨ (trap.caller = slot ∧ trap.entered.Issues slot id)) := by
  constructor
  · rintro ⟨earlier, writing, later, all, wrote, issued, held⟩
    rcases append_singleton_eq_split all with ⟨rfl, rfl, _⟩ | ⟨between, rfl, rfl⟩
    · exact ⟨held trap List.mem_cons_self, .inr ⟨wrote, issued⟩⟩
    · rw [← List.cons_append] at held
      refine ⟨held trap (List.mem_append_right _ (List.mem_singleton_self _)), .inl ?_⟩
      exact ⟨earlier, writing, between, rfl, wrote, issued,
        fun other member => held other (List.mem_append_left _ member)⟩
  · rintro ⟨holds, ⟨earlier, writing, later, rfl, wrote, issued, held⟩ | ⟨wrote, issued⟩⟩
    · refine ⟨earlier, writing, later ++ [trap], by simp, wrote, issued, fun other member => ?_⟩
      rcases List.mem_append.1 (List.cons_append ▸ member) with before | last
      · exact held other before
      · cases List.mem_singleton.1 last
        exact holds
    · refine ⟨traps, trap, [], rfl, wrote, issued, fun other member => ?_⟩
      cases List.mem_singleton.1 member
      exact holds

/-! ## In a call -/

theorem Tables.hasNoted_iff {tables : Tables slots} {pipe : Pipe}
    (found : tables.pipes.get? id = some pipe) (holds : tables.processes[slot].Holds id) :
    tables.HasNoted id slot ↔ tables.processes[slot].pid ∈ pipe.writers := by
  constructor
  · rintro ⟨_, other, here, listed⟩
    cases found.symm.trans here
    exact listed
  · exact fun listed => ⟨holds, pipe, found, listed⟩

theorem Tables.Tidy.holds_of_listed {tables : Tables slots} (tidy : tables.Tidy)
    (sound : tables.Sound layout author)
    (distinct : ∀ other : Fin slots, tables.processes[other].state ≠ .vacant →
      tables.processes[other].pid = tables.processes[slot].pid → other = slot)
    {pipe : Pipe} (found : tables.pipes.get? id = some pipe)
    (listed : tables.processes[slot].pid ∈ pipe.writers) : tables.processes[slot].Holds id := by
  obtain ⟨other, named, holds⟩ := (tidy.listed id pipe found).hold _ listed
  have live : tables.processes[other].state ≠ .vacant := fun vacant =>
    Process.not_holds_of_vacant (sound.slot other) vacant holds
  cases distinct other live named
  exact holds

theorem Tables.Tidy.mem_noteWriter_iff {tables : Tables slots} (tidy : tables.Tidy)
    (few : slots ≤ Config.maxProcesses) {pipe : Pipe} (found : tables.pipes.get? id = some pipe)
    (slot : Fin slots) (pid : Pid) :
    pid ∈ (pipe.noteWriter tables.processes[slot].pid).writers ↔
      pid ∈ pipe.writers ∨ pid = tables.processes[slot].pid :=
  Pipe.mem_noteWriter_iff
    (fun unlisted => Nat.lt_of_lt_of_le ((tidy.listed id pipe found).length_lt unlisted) few) pid

theorem System.Fate.mem_writers_iff_of_ne (fate : before.Fate caller after id)
    (tidy : before.toTables.Tidy) (few : slots ≤ Config.maxProcesses) {pipe kept : Pipe}
    (found : before.pipes.get? id = some pipe) (here : after.pipes.get? id = some kept) {pid : Pid}
    (different : pid ≠ before.processes[caller].pid) : pid ∈ kept.writers ↔ pid ∈ pipe.writers := by
  cases fate with
  | left quiet parts =>
      cases parts with
      | kept same holds =>
          cases (same.trans found).symm.trans here
          rfl
      | parted _ found_again held left gone =>
          cases found.symm.trans found_again
          rw [Pipe.letGo_eq_some (left.symm.trans here),
            Pipe.mem_dropWriter_iff (tidy.listed id pipe found).distinct, and_iff_left different]
  | opened asked name fits absent =>
      cases absent.symm.trans found
  | joined asked _ found_again open_eq unheld here_again =>
      cases found.symm.trans found_again
      cases here.symm.trans here_again
      rfl
  | read asked _ found_again ring held here_again =>
      cases found.symm.trans found_again
      cases here.symm.trans here_again
      rfl
  | written issued _ found_again open_eq ring held here_again =>
      cases found.symm.trans found_again
      cases here.symm.trans here_again
      exact (tidy.mem_noteWriter_iff few found caller pid).trans (or_iff_left different)

/-- A caller that keeps its hold on a pipe comes to be listed by issuing a write. -/
theorem System.Fate.mem_writers_iff_of_holds (fate : before.Fate caller after id)
    (tidy : before.toTables.Tidy) (few : slots ≤ Config.maxProcesses) {pipe kept : Pipe}
    (held : before.processes[caller].Holds id) (holds : after.processes[caller].Holds id)
    (found : before.pipes.get? id = some pipe) (here : after.pipes.get? id = some kept) :
    before.processes[caller].pid ∈ kept.writers ↔
      before.processes[caller].pid ∈ pipe.writers ∨ before.Issues caller id := by
  cases fate with
  | left quiet parts =>
      cases parts with
      | kept same _ =>
          cases (same.trans found).symm.trans here
          exact (or_iff_left quiet).symm
      | parted _ _ _ _ gone => exact absurd holds gone
  | opened asked name fits absent =>
      cases absent.symm.trans found
  | joined asked _ _ _ unheld => exact absurd held unheld
  | read asked _ found_again ring _ here_again =>
      cases found.symm.trans found_again
      cases here.symm.trans here_again
      exact (or_iff_left (System.not_issues_of_call? asked (by simp))).symm
  | written issued _ found_again open_eq ring _ here_again =>
      cases found.symm.trans found_again
      cases here.symm.trans here_again
      exact iff_of_true ((tidy.mem_noteWriter_iff few found caller _).2 (.inr rfl)) (.inr issued)

/-- A caller that comes to hold a pipe has not issued a write to it, and the pipe is new, or its
list stays as it is. -/
theorem System.Fate.of_unheld (fate : before.Fate caller after id)
    (unheld : ¬ before.processes[caller].Holds id) (holds : after.processes[caller].Holds id) :
    ¬ before.Issues caller id ∧ ∃ kept, after.pipes.get? id = some kept ∧
      (kept.writers = [] ∨
        ∃ pipe, before.pipes.get? id = some pipe ∧ kept.writers = pipe.writers) := by
  cases fate with
  | left quiet parts =>
      cases parts with
      | kept _ still => exact absurd (still.1 holds) unheld
      | parted _ _ held => exact absurd held unheld
  | opened asked name fits absent unnamed here =>
      exact ⟨System.not_issues_of_call? asked (by simp), _, here, .inl rfl⟩
  | joined asked pipe found open_eq _ here =>
      exact ⟨System.not_issues_of_call? asked (by simp), _, here, .inr ⟨pipe, found, rfl⟩⟩
  | read asked _ _ _ held => exact absurd held unheld
  | written issued _ _ _ _ held => exact absurd held unheld

section

variable (handled : Handled before caller hint after) (sound : before.toTables.Sound layout author)
  (after_sound : after.toTables.Sound layout author) (tidy : before.toTables.Tidy)
  (runnable : before.processes[caller].state = .live .runnable) (identified : before.Identified)
  (few : slots ≤ Config.maxProcesses)

include handled sound after_sound runnable

theorem Handled.hasNoted_iff_of_held {kept : Pipe} (held : before.processes[slot].Holds id)
    (holds : after.processes[slot].Holds id) (here : after.pipes.get? id = some kept) :
    after.toTables.HasNoted id slot ↔ before.processes[slot].pid ∈ kept.writers := by
  rw [Tables.hasNoted_iff here holds,
    (handled.holder_stays sound after_sound runnable held fun _ => holds).2.1]

include tidy identified

/-- A caller that comes to hold a pipe is not listed: no other process has its name. -/
theorem Handled.not_hasNoted_of_unheld (unheld : ¬ before.processes[caller].Holds id) :
    ¬ after.toTables.HasNoted id caller := by
  rintro ⟨holds, kept, here, listed⟩
  obtain ⟨_, _, here_again, none_listed | ⟨pipe, found, same⟩⟩ :=
    (handled.fate tidy runnable id).of_unheld unheld holds
  · cases here.symm.trans here_again
    rw [none_listed] at listed
    cases listed
  · cases here.symm.trans here_again
    rw [same] at listed
    have caller_live := Process.live_of_runnable runnable
    rcases handled.continues_or_starts caller_live caller with continues | starts
    · rw [continues.pid_eq fun vacant =>
        Process.not_holds_of_vacant (after_sound.slot caller) vacant holds] at listed
      exact unheld (tidy.holds_of_listed sound (fun other live same =>
        identified.distinct other caller live caller_live same) found listed)
    · exact Process.not_holds_of_noHandles starts.handles_eq holds

include few

theorem Handled.hasNoted_caller_iff (holds : after.processes[caller].Holds id) :
    after.toTables.HasNoted id caller ↔
      before.toTables.HasNoted id caller ∨ before.Issues caller id := by
  by_cases held : before.processes[caller].Holds id
  · obtain ⟨pipe, found⟩ := sound.pipe_of_holds held
    obtain ⟨kept, here⟩ := after_sound.pipe_of_holds holds
    rw [handled.hasNoted_iff_of_held sound after_sound runnable held holds here,
      Tables.hasNoted_iff found held]
    exact (handled.fate tidy runnable id).mem_writers_iff_of_holds tidy few held holds found here
  · have unissued := ((handled.fate tidy runnable id).of_unheld held holds).1
    refine iff_of_false (handled.not_hasNoted_of_unheld sound after_sound tidy runnable identified
      held) ?_
    rintro (noted | issued)
    · exact held noted.1
    · exact unissued issued

theorem Handled.hasNoted_other_iff (different : slot ≠ caller)
    (holds : after.processes[slot].Holds id) :
    after.toTables.HasNoted id slot ↔ before.toTables.HasNoted id slot := by
  have held : before.processes[slot].Holds id :=
    (handled.holds_iff sound after_sound runnable different).1 holds
  have live : before.processes[slot].state ≠ .vacant := fun vacant =>
    Process.not_holds_of_vacant (sound.slot slot) vacant held
  have other_pid : before.processes[slot].pid ≠ before.processes[caller].pid := fun same =>
    different (identified.distinct slot caller live (Process.live_of_runnable runnable) same)
  obtain ⟨pipe, found⟩ := sound.pipe_of_holds held
  obtain ⟨kept, here⟩ := after_sound.pipe_of_holds holds
  rw [handled.hasNoted_iff_of_held sound after_sound runnable held holds here,
    Tables.hasNoted_iff found held]
  exact (handled.fate tidy runnable id).mem_writers_iff_of_ne tidy few found here other_pid

/-- A call lists its caller as a writer if that issues a write, and leaves the lists alone
otherwise, but for those who do not hold the pipe any more. -/
theorem Handled.hasNoted_iff :
    after.toTables.HasNoted id slot ↔ after.processes[slot].Holds id ∧
      (before.toTables.HasNoted id slot ∨ (caller = slot ∧ before.Issues slot id)) := by
  by_cases holds : after.processes[slot].Holds id
  case neg => exact iff_of_false (fun noted => holds noted.1) fun held => holds held.1
  rw [and_iff_right holds]
  by_cases itself : slot = caller
  · subst itself
    rw [and_iff_right rfl]
    exact handled.hasNoted_caller_iff sound after_sound tidy runnable identified few holds
  · rw [or_iff_left fun issued => itself issued.1.symm]
    exact handled.hasNoted_other_iff sound after_sound tidy runnable identified few itself holds

end

/-! ## In a run -/

variable {launch : Launch slots} {traps : List (Trap slots)} {system entered : System slots}

theorem Tables.hasNoted_congr {tables others : Tables slots} (pipes : others.pipes = tables.pipes)
    (same : ∀ slot : Fin slots, others.processes[slot].pid = tables.processes[slot].pid ∧
      others.processes[slot].handles = tables.processes[slot].handles) :
    others.HasNoted id slot ↔ tables.HasNoted id slot := by
  rw [HasNoted, HasNoted, pipes, (same slot).1, Process.holds_congr (same slot).2]

theorem System.UserStep.hasNoted_iff (user : system.UserStep caller entered) :
    entered.toTables.HasNoted id slot ↔ system.toTables.HasNoted id slot := by
  refine Tables.hasNoted_congr user.pipes_eq fun slot => ?_
  obtain ⟨registers, same⟩ := user.getElem slot
  rw [same]
  exact ⟨rfl, rfl⟩

/-- In every run a pipe lists those among its holders who have written to it. -/
theorem Run.hasWritten_iff (run : Run launch traps system) (few : slots ≤ Config.maxProcesses)
    (id : PipeId) (slot : Fin slots) :
    HasWritten traps id slot ↔ system.toTables.HasNoted id slot := by
  induction run with
  | start started =>
      refine iff_of_false ?_ ?_
      · rintro ⟨earlier, writing, later, none_yet, _⟩
        exact absurd none_yet (by simp)
      · rintro ⟨_, pipe, found, _⟩
        cases ((launch.begins started).no_pipes id).symm.trans found
  | advance _ ticks passes induction =>
      cases passes
      exact induction
  | trap run trap current user call switch induction =>
      obtain ⟨runnable, handled, preserved⟩ := run.invariant.handled current user call
      obtain ⟨woken, clock, after_eq, roused, _⟩ := preserved.resumes trap.caller.isLt switch
      have left : trap.after.toTables.HasNoted id slot ↔ trap.left.toTables.HasNoted id slot := by
        rw [after_eq]
        refine Tables.hasNoted_congr rfl fun slot => ?_
        rcases roused slot with same | ⟨_, same⟩
        · exact ⟨by rw [same], by rw [same]⟩
        · exact ⟨by rw [same]; rfl, by rw [same]; rfl⟩
      rw [hasWritten_append_iff, left, handled.hasNoted_iff (user.sound run.invariant.sound)
        preserved.sound (user.tidy run.tidy) runnable (user.identified (run.identified few)) few,
        user.hasNoted_iff, induction]

end Microkernel
