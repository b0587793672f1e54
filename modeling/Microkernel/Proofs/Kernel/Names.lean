import Microkernel.Proofs.Kernel.Accounting
import Microkernel.Proofs.Kernel.Identity

/-!
# Names lead to the right pipes

No two open pipes of one owner have the same name, and whoever owns an open pipe lives and holds it:
a pipe is hung up when its owner lets go of it, however that comes about.  So a name never leads to
a pipe of somebody who has gone, even if another process has the slot by then.
-/

namespace Microkernel

open KernelM

variable {slots : Nat} {before after : System slots} {caller slot : Fin slots} {hint : Hint}
  {layout : Layout slots} {author : Fin slots → Prop} {id : PipeId} {owner : Pid}
  {name : List UInt8}

/-- Whether names lead to at most one open pipe each, which its owner holds. -/
structure Tables.Named (tables : Tables slots) : Prop where
  /-- No two open pipes of one owner have the same name. -/
  unique : ∀ one other owner name, tables.pipes.Names one owner name →
    tables.pipes.Names other owner name → one = other
  /-- The owner of an open pipe lives and holds it. -/
  owned : ∀ id owner name, tables.pipes.Names id owner name → ∃ slot : Fin slots,
    tables.processes[slot].state ≠ .vacant ∧ tables.processes[slot].pid = owner ∧
      tables.processes[slot].Holds id
  /-- The name of a pipe is one that a pipe can have. -/
  fits : ∀ id pipe, tables.pipes.get? id = some pipe → Pipe.CanBeNamed pipe.name

/-! ## In a call -/

/-- Where a pipe comes from that is there after a call. -/
inductive System.Origin (before : System slots) (caller : Fin slots) (after : System slots)
    (id : PipeId) (pipe : Pipe) : Prop where
  /-- It was there, and is still held by whoever owns it and held it, if it is open. -/
  | old (held : Pipe) (found : before.pipes.get? id = some held) (owner : pipe.owner = held.owner)
      (name : pipe.name = held.name)
      (still : pipe.hungUp = false → held.hungUp = false ∧
        (before.processes[caller].pid = pipe.owner → before.processes[caller].Holds id →
          after.processes[caller].Holds id))
  /-- The caller has opened it. -/
  | new (owner : pipe.owner = before.processes[caller].pid) (fits : Pipe.CanBeNamed pipe.name)
      (unnamed : before.pipes.lookup? pipe.owner pipe.name = none)
      (others : ∀ other, other ≠ id → after.pipes.get? other = before.pipes.get? other)
      (holds : after.processes[caller].Holds id)

/-- A pipe that is there after a call was there before, or has been opened. -/
theorem System.Fate.origin (fate : before.Fate caller after id) {pipe : Pipe}
    (found : after.pipes.get? id = some pipe) : before.Origin caller after id pipe := by
  cases fate with
  | left quiet parts =>
      cases parts with
      | kept same holds =>
          exact .old pipe (same.symm.trans found) rfl rfl fun open_eq =>
            ⟨open_eq, fun _ held => holds.2 held⟩
      | parted held here holds left gone =>
          have kept := Pipe.letGo_eq_some (left.symm.trans found)
          subst kept
          refine .old held here rfl rfl fun open_eq => ?_
          simp only [Bool.or_eq_false_iff, Pipe.endsWith, beq_eq_false_iff_ne] at open_eq
          obtain ⟨was_open, ⟨⟨foreign, _⟩, _⟩⟩ := open_eq
          exact ⟨was_open, fun own _ => absurd own.symm foreign⟩
  | opened asked name fits absent unnamed here others holds =>
      cases here.symm.trans found
      exact .new rfl fits unnamed others holds
  | joined asked held was_there open_eq unheld here holds =>
      cases here.symm.trans found
      exact .old held was_there rfl rfl fun _ => ⟨open_eq, fun _ _ => holds⟩
  | read asked held was_there ring holds here still_holds =>
      cases here.symm.trans found
      exact .old held was_there rfl rfl fun open_eq => ⟨open_eq, fun _ _ => still_holds⟩
  | written issued held was_there open_eq ring holds here still_holds =>
      cases here.symm.trans found
      obtain ⟨owner, name⟩ := held.noteWriter_named before.processes[caller].pid
      exact .old held was_there owner name fun _ => ⟨open_eq, fun _ _ => still_holds⟩

private theorem eq_of_unnamed {new old : PipeId} {pipe : Pipe}
    (unnamed : before.pipes.lookup? pipe.owner pipe.name = none)
    (others : ∀ other, other ≠ new → after.pipes.get? other = before.pipes.get? other)
    (names : after.pipes.Names old pipe.owner pipe.name) : old = new := by
  apply Classical.byContradiction
  intro different
  obtain ⟨held, found, rest⟩ := names
  exact PipeTable.not_names_of_lookup?_eq_none unnamed
    ⟨held, (others old different).symm.trans found, rest⟩

private theorem eq_of_names (named : before.toTables.Named)
    (origin : ∀ {id pipe}, after.pipes.get? id = some pipe → before.Origin caller after id pipe)
    {one other : PipeId} (one_names : after.pipes.Names one owner name)
    (other_names : after.pipes.Names other owner name) : one = other := by
  obtain ⟨first, first_found, first_open, rfl, rfl⟩ := one_names
  cases origin first_found with
  | new _ _ unnamed others _ => exact (eq_of_unnamed unnamed others other_names).symm
  | old held held_found held_owner held_name still =>
      obtain ⟨second, second_found, second_open, second_owner, second_name⟩ := other_names
      cases origin second_found with
      | new _ _ unnamed others _ =>
          exact eq_of_unnamed unnamed others
            ⟨first, first_found, first_open, second_owner.symm, second_name.symm⟩
      | old kept kept_found kept_owner kept_name kept_still =>
          refine named.unique one other held.owner held.name
            ⟨held, held_found, (still first_open).1, rfl, rfl⟩
            ⟨kept, kept_found, (kept_still second_open).1, ?_, ?_⟩
          · rw [← kept_owner, second_owner, held_owner]
          · rw [← kept_name, second_name, held_name]

/-- The owner of a pipe that is open after a call lives and holds it: it is the caller that has
opened the pipe, or the owner that it had before. -/
private theorem owner_holds (handled : Handled before caller hint after)
    (sound : before.toTables.Sound layout author) (after_sound : after.toTables.Sound layout author)
    (runnable : before.processes[caller].state = .live .runnable)
    (named : before.toTables.Named) {pipe : Pipe} (origin : before.Origin caller after id pipe)
    (open_eq : pipe.hungUp = false) : ∃ slot : Fin slots, after.processes[slot].state ≠ .vacant ∧
      after.processes[slot].pid = pipe.owner ∧ after.processes[slot].Holds id := by
  cases origin with
  | new owner fits unnamed others holds =>
      have caller_live : after.processes[caller].state ≠ .vacant := fun vacant =>
        Process.not_holds_of_vacant (after_sound.slot caller) vacant holds
      refine ⟨caller, caller_live, ?_, holds⟩
      rcases handled.continues_or_starts (Process.live_of_runnable runnable) caller with
        continues | starts
      · exact (continues.pid_eq caller_live).trans owner.symm
      · exact absurd holds (Process.not_holds_of_noHandles starts.handles_eq)
  | old held held_found owner name still =>
      obtain ⟨was_open, keeps⟩ := still open_eq
      obtain ⟨slot, _, own, holds⟩ :=
        named.owned id held.owner held.name ⟨held, held_found, was_open, rfl, rfl⟩
      have still_holds : slot = caller → after.processes[slot].Holds id := by
        rintro rfl
        exact keeps (own.trans owner.symm) holds
      obtain ⟨slot_live, same, held_still⟩ :=
        handled.holder_stays sound after_sound runnable holds still_holds
      exact ⟨slot, slot_live, same.trans (own.trans owner.symm), held_still⟩

/-- Names still lead to the right pipes after a call. -/
theorem Handled.named (handled : Handled before caller hint after)
    (sound : before.toTables.Sound layout author) (after_sound : after.toTables.Sound layout author)
    (tidy : before.toTables.Tidy) (runnable : before.processes[caller].state = .live .runnable)
    (named : before.toTables.Named) : after.toTables.Named := by
  have origin {id : PipeId} {pipe : Pipe} (found : after.pipes.get? id = some pipe) :=
    (handled.fate tidy runnable id).origin found
  constructor
  · intro one other owner name one_names other_names
    exact eq_of_names named origin one_names other_names
  · rintro id _ _ ⟨pipe, found, open_eq, rfl, rfl⟩
    exact owner_holds handled sound after_sound runnable named (origin found) open_eq
  · intro id pipe found
    cases origin found with
    | new _ fits _ _ _ => exact fits
    | old held held_found _ same _ => exact same ▸ named.fits id held held_found

/-! ## In a run -/

variable {launch : Launch slots} {traps : List (Trap slots)} {system entered : System slots}

theorem Tables.Named.congr {tables others : Tables slots} (named : tables.Named)
    (pipes : others.pipes = tables.pipes)
    (same : ∀ slot : Fin slots, tables.processes[slot].state ≠ .vacant →
      others.processes[slot].state ≠ .vacant ∧
        others.processes[slot].pid = tables.processes[slot].pid ∧
          others.processes[slot].handles = tables.processes[slot].handles) : others.Named where
  unique := pipes ▸ named.unique
  owned id owner name names := by
    obtain ⟨slot, live, own, holds⟩ := named.owned id owner name (pipes ▸ names)
    obtain ⟨still_live, pid, handles⟩ := same slot live
    exact ⟨slot, still_live, pid.trans own, (Process.holds_congr handles).2 holds⟩
  fits := pipes ▸ named.fits

theorem System.UserStep.named (user : system.UserStep caller entered)
    (named : system.toTables.Named) : entered.toTables.Named := by
  refine named.congr user.pipes_eq fun slot live => ?_
  obtain ⟨registers, same⟩ := user.getElem slot
  rw [same]
  exact ⟨live, rfl, rfl⟩

theorem Run.named (run : Run launch traps system) : system.toTables.Named := by
  induction run with
  | start started =>
      have no_pipes := (launch.begins started).no_pipes
      refine ⟨?_, ?_, ?_⟩
      · rintro one other owner name ⟨pipe, found, _⟩
        cases (no_pipes one).symm.trans found
      · rintro id owner name ⟨pipe, found, _⟩
        cases (no_pipes id).symm.trans found
      · intro id pipe found
        cases (no_pipes id).symm.trans found
  | advance _ ticks passes named =>
      cases passes
      exact named
  | trap run trap current user call switch named =>
      obtain ⟨runnable, handled, preserved⟩ := run.invariant.handled current user call
      have left := handled.named (user.sound run.invariant.sound) preserved.sound
        (user.tidy run.tidy) runnable (user.named named)
      obtain ⟨woken, clock, after_eq, roused, _⟩ := preserved.resumes trap.caller.isLt switch
      rw [after_eq]
      refine left.congr rfl fun slot live => ?_
      rcases roused slot with same | ⟨_, same⟩
      · rw [same]
        exact ⟨live, rfl, rfl⟩
      · rw [same]
        exact ⟨by simp [Process.roused], rfl, rfl⟩

theorem Reached.named (reached : Reached launch system) : system.toTables.Named := by
  cases reached with
  | settled run => exact run.named
  | entered run _ user => exact user.named run.named
  | handled run current user call =>
      obtain ⟨runnable, handled, preserved⟩ := run.invariant.handled current user call
      exact handled.named (user.sound run.invariant.sound) preserved.sound (user.tidy run.tidy)
        runnable (user.named run.named)

/-! ## Obtaining a pipe -/

/-- The process whose pipes a process asks for: the one that the lower half of the first argument
names, which is the process itself if that half is zero. -/
def Process.askedOwner (process : Process) : Pid :=
  if process.registers.argument 0 % Pid.limit = 0 then process.pid
  else ⟨process.registers.argument 0 % Pid.limit⟩

theorem Process.askedOwner_eq (process : Process) :
    (if (⟨process.registers.argument 0 % Pid.limit⟩ : Pid).isCaller then process.pid
      else ⟨process.registers.argument 0 % Pid.limit⟩) = process.askedOwner := by
  simp only [Pid.isCaller, Pid.caller, beq_iff_eq, Pid.mk.injEq]
  rfl

/-- What a call comes to that asks for a pipe by its owner and its name, if that can be a name. -/
structure System.Obtains (before : System slots) (caller : Fin slots) (name : Option (List UInt8))
    (after : System slots) : Prop where
  /-- If there is such a pipe, and the caller holds it or has room, it gets a handle on it. -/
  found : ∀ id text, name = some text →
    before.pipes.Names id before.processes[caller].askedOwner text →
    (before.processes[caller].Holds id ∨ ∃ position : Fin Config.maxHandles,
      before.processes[caller].handles[position] = none) →
    after.processes[caller].pipeOf? ⟨after.processes[caller].registers.response.toNat⟩ = some id ∧
      after.pipes.Names id before.processes[caller].askedOwner text
  /-- If there is none, the caller gets the null handle. -/
  absent : (∀ id text, name = some text →
      ¬ before.pipes.Names id before.processes[caller].askedOwner text) →
    after.processes[caller].registers.response = PipeHandle.null.word.toUInt64
  /-- Whatever pipe the handle leads to, if any, is such a pipe. -/
  leads : ∀ id,
    after.processes[caller].pipeOf? ⟨after.processes[caller].registers.response.toNat⟩ = some id →
      ∃ text, name = some text ∧ before.pipes.Names id before.processes[caller].askedOwner text

theorem Process.pipeOf?_null (process : Process) :
    process.pipeOf? ⟨PipeHandle.null.word.toUInt64.toNat⟩ = none :=
  rfl

/-- A call that ends with the null handle has obtained nothing, as it should if there is no such
pipe, or no room for a handle on it. -/
theorem System.obtains_of_null {name : Option (List UInt8)}
    (null : after.processes[caller].registers.response = PipeHandle.null.word.toUInt64)
    (none_due : ∀ id text, name = some text →
      before.pipes.Names id before.processes[caller].askedOwner text →
      ¬ (before.processes[caller].Holds id ∨ ∃ position : Fin Config.maxHandles,
        before.processes[caller].handles[position] = none)) :
    before.Obtains caller name after where
  found id text asked names room := absurd room (none_due id text asked names)
  absent _ := null
  leads id leads := by
    rw [null, Process.pipeOf?_null] at leads
    cases leads

/-- A call that ends with a handle has obtained the pipe that has the name. -/
theorem System.obtains_of_shared (named : before.toTables.Named) {text : List UInt8}
    {shared : Tables slots} {handle : PipeHandle}
    (found : CallM.sharePipe? before.toTables caller before.processes[caller].askedOwner text =
      some (shared, handle)) :
    before.Obtains caller (some text) { before with
      pipes := shared.pipes
      processes := shared.processes.answer caller handle.word.toUInt64 } := by
  obtain ⟨id, names, still_names, leads, small⟩ := Tables.names_of_sharePipe? found
  have response : (shared.processes.answer caller
      handle.word.toUInt64)[caller].registers.response.toNat = handle.word := by
    rw [ProcessTable.getElem_answer_self, Process.respond, Registers.response_respond]
    exact Nat.mod_eq_of_lt (Nat.lt_of_le_of_lt small (by decide))
  have answered : (shared.processes.answer caller handle.word.toUInt64)[caller].pipeOf? handle =
      some id := by
    rw [ProcessTable.getElem_answer_self]
    exact leads
  constructor
  · rintro other _ ⟨⟩ other_names _
    cases named.unique other id _ _ other_names names
    rw [response]
    exact ⟨answered, still_names⟩
  · exact fun nowhere => absurd names (nowhere id text rfl)
  · intro other other_leads
    rw [response] at other_leads
    cases answered.symm.trans other_leads
    exact ⟨text, rfl, names⟩

theorem CallM.readName_of_readString {process : Process} {address : Nat} {text : List UInt8}
    (somewhere : address ≠ 0) (nonempty : text ≠ [])
    (run : (process.readString before.memory address Config.pipeNameLimit).run =
      .ok (.ok (.complete text))) :
    (readName process address).run before = .ok (.ok (some text)) before := by
  rw [readName, if_neg somewhere]
  apply run_eq_ok_iff.2
  simp only [readString, ends_run_bind, ends_run_get, ends_guarded, run]
  refine ⟨_, rfl, ?_⟩
  simp only [ofFault_ok, ends_run_pure, and_self]

/-- A call that asks for a pipe obtains it, if there is such a pipe and room for a handle on it. -/
theorem KernelM.handleCall_pipeGet (calls : before.calls = .withBuiltins .builtin)
    (named : before.toTables.Named) (asked : before.processes[caller].call? = some .pipeGet)
    {name : Option (List UInt8)}
    (reads : (CallM.readName before.processes[caller]
      (before.processes[caller].registers.argument 1)).run before = .ok (.ok name) before) :
    (handleCall caller).Ends before fun _ after => before.Obtains caller name after := by
  have null_told : (before.processes.answer caller
      PipeHandle.null.word.toUInt64)[caller].registers.response =
        PipeHandle.null.word.toUInt64 := by
    rw [ProcessTable.getElem_answer_self, Process.respond, Registers.response_respond]
  rw [ends_handleCall calls asked]
  simp only [CallM.builtin, CallM.pipeGet, ends_run_bind, CallM.ends_callProcess,
    ends_of_run reads, Process.askedOwner_eq]
  cases name with
  | none =>
      simp only [CallM.respondHandle, ends_run_bind, CallM.ends_kernel, ends_respond, ends_run_pure,
        settle, ends_pure]
      exact System.obtains_of_null null_told (by rintro _ _ ⟨⟩)
  | some text =>
      simp only [ends_run_bind, ends_run_get, CallM.applyHandle]
      split
      next shared handle found =>
          simp only [CallM.respondHandle, ends_run_bind, ends_run_modify, CallM.ends_kernel,
            ends_respond, ends_run_pure, settle, ends_pure]
          exact System.obtains_of_shared named found
      next absent =>
          simp only [CallM.respondHandle, ends_run_bind, CallM.ends_kernel, ends_respond,
            ends_run_pure, settle, ends_pure]
          refine System.obtains_of_null null_told ?_
          rintro id _ ⟨⟩ names room
          have shared := Tables.sharePipe?_isSome names
            (fun other other_names => named.unique other id _ _ other_names names) room
          rw [absent] at shared
          cases shared

/-- At all times, no two open pipes of one owner have the same name, the owner of an open pipe lives
and holds it, and every pipe has a name of one to thirty-one bytes, none of them zero.  Whoever asks
for a pipe by its owner and its name gets a handle on the one open pipe that has this name, unless
it has no room for a handle, and on no other; if there is no such pipe, it gets the null handle. -/
theorem Reached.names_lead (reached : Reached launch system) :
    system.toTables.Named ∧
    ∀ caller : Fin slots, system.processes[caller].call? = some .pipeGet → ∀ name,
      (CallM.readName system.processes[caller]
        (system.processes[caller].registers.argument 1)).run system = .ok (.ok name) system →
      ∃ hint left, KernelM.handleCall caller system = .ok hint left ∧
        system.Obtains caller name left := by
  refine ⟨reached.named, fun caller asked name reads => ?_⟩
  exact KernelM.handleCall_pipeGet reached.calls_eq reached.named asked reads

/-- The second process finds the name of a pipe in its program, and obtains the pipe. -/
theorem names_lead_small : ∃ system hint left, Reached Launch.small system ∧
    system.processes[(1 : Fin 2)].call? = some .pipeGet ∧
    KernelM.handleCall 1 system = .ok hint left ∧ system.Obtains 1 (some [112]) left := by
  have evaluated : (Launch.small.play? (Launch.familyScript 1 ++
      [Launch.calling 0x80010 .setPriority 2 20 0])).any (fun final =>
        (final.2.perform? (Launch.calling 0x147000 .pipeGet 1 0x80010 0)).any fun trap =>
          decide (trap.caller = 1 ∧
            trap.entered.processes[(1 : Fin 2)].call? = some .pipeGet ∧
            trap.entered.processes[(1 : Fin 2)].registers.argument 1 = 0x80010 ∧
            (trap.entered.processes[(1 : Fin 2)].readString trap.entered.memory 0x80010
              Config.pipeNameLimit).run = .ok (.ok (.complete [112])))) = true := by
    decide +kernel
  simp only [Option.any_eq_true, decide_eq_true_eq] at evaluated
  obtain ⟨final, played, trap, performed, second, asked, place, read⟩ := evaluated
  obtain ⟨current, user, _⟩ := System.of_perform?_eq_some performed
  have reached := Reached.entered (Run.play played) current user
  have reads := CallM.readName_of_readString (by decide) (by simp) read
  rw [← place] at reads
  obtain ⟨hint, left, call, obtains⟩ := reached.names_lead.2 1 asked _ reads
  exact ⟨_, hint, left, reached, asked, call, obtains⟩

end Microkernel
