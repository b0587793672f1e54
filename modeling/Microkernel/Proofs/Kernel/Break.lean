import Microkernel.Proofs.Kernel.Failure
import Microkernel.Proofs.Kernel.Isolation
import Microkernel.Proofs.Kernel.Survival
import Microkernel.Proofs.Process.Break

/-!
# Moving the break

A process that asks for its break to be moved gets exactly the sum that it asks for, if this lies in
its heap, and otherwise a refusal.  Nothing else moves a break, so a process can use as much of its
heap as its requests that were not refused add up to.
-/

namespace Microkernel

variable {slots : Nat}

/-! ## One request -/

namespace KernelM

variable {system : System slots} {caller : Fin slots}

theorem handleCall_moveBreak (calls : system.calls = .withBuiltins .builtin)
    (asked : system.processes[caller].call? = some .moveBreak) {brk : Nat} {moved : Process}
    (shifted : system.processes[caller].heap.shifted?
      (Word.signed (system.processes[caller].registers.argument 0)) = some brk)
    (run : system.processes[caller].setBreak brk = .ok moved) :
    handleCall caller system = .ok .same { system with
      processes := system.processes.set caller
        (moved.respond system.processes[caller].heap.brk.toUInt64) caller.isLt } := by
  rw [run_eq_ok_iff, ends_handleCall calls asked]
  simp only [CallM.builtin, CallM.moveBreak, ends_run_bind, CallM.ends_callProcess,
    CallM.ends_argument, shifted, CallM.ends_kernel, ends_updateProcess, ends_respond,
    ends_run_pure, settle, ends_pure, true_and]
  refine ⟨moved, run, ?_⟩
  rw [Vector.set_set, getElem_set_self]

theorem handleCall_moveBreak_refused (calls : system.calls = .withBuiltins .builtin)
    (asked : system.processes[caller].call? = some .moveBreak)
    (stays : system.processes[caller].heap.shifted?
      (Word.signed (system.processes[caller].registers.argument 0)) = none) :
    handleCall caller system = .ok .same { system with
      processes := system.processes.answer caller Response.breakRefused } := by
  rw [run_eq_ok_iff, ends_handleCall calls asked]
  simp only [CallM.builtin, CallM.moveBreak, ends_run_bind, CallM.ends_callProcess,
    CallM.ends_argument, stays, CallM.ends_kernel, ends_respond, ends_run_pure, settle,
    ends_pure, true_and]
  rfl

end KernelM

/-- What comes of the request of a process to move its break by a signed number of bytes: its break
is moved if it has room, and otherwise the request is refused. -/
structure System.Moves (system : System slots) (caller : Fin slots) (increment : Int)
    (left : System slots) : Prop where
  /-- If the break has room, it is moved, and nothing else changes. -/
  moved : system.processes[caller].heap.HasRoom increment →
    system.processes[caller].BreakMoved increment left.processes[caller] ∧
      left = { system with
        processes := system.processes.set caller left.processes[caller] caller.isLt }
  /-- If the break has no room, nothing changes but the response. -/
  refused : ¬ system.processes[caller].heap.HasRoom increment →
    left = { system with processes := system.processes.answer caller Response.breakRefused }

theorem Tables.Sound.moves {system : System slots} {layout : Layout slots}
    {author : Fin slots → Prop} (sound : system.toTables.Sound layout author)
    (calls : system.calls = .withBuiltins .builtin) {caller : Fin slots}
    (live : system.processes[caller].state ≠ .vacant)
    (asked : system.processes[caller].call? = some .moveBreak) :
    ∃ left, KernelM.handleCall caller system = .ok .same left ∧ system.Moves caller
      (Word.signed (system.processes[caller].registers.argument 0)) left := by
  have process := sound.slot caller
  have houses := layout.houses caller
  by_cases room : system.processes[caller].heap.HasRoom
      (Word.signed (system.processes[caller].registers.argument 0))
  · obtain ⟨brk, shifted, admits, sum⟩ :=
      Heap.shifted?_of_hasRoom (process.heap_bounded houses) room
    obtain ⟨moved, run, breakMoved⟩ := process.breakMoved houses live admits sum
    refine ⟨_, KernelM.handleCall_moveBreak calls asked shifted run,
      ⟨fun _ => ?_, fun no_room => absurd room no_room⟩⟩
    simp only [getElem_set_self]
    exact ⟨breakMoved, trivial⟩
  · exact ⟨_, KernelM.handleCall_moveBreak_refused calls asked (Heap.shifted?_of_not_hasRoom room),
      ⟨fun has_room => absurd has_room room, fun _ => rfl⟩⟩

/-! ## All requests -/

/-- By how many bytes a call moves the break of the process in a slot: as many as the process asks
for in the call, unless it does not ask or is refused. -/
def Call.growth (call : Call slots) (slot : Fin slots) : Int :=
  if call.entered.MovesBreak call.caller slot ∧
      call.left.processes[slot].registers.response ≠ Response.breakRefused then
    Word.signed (call.entered.processes[slot].registers.argument 0)
  else 0

/-- By how many bytes traps have moved the break of the process in a slot, since it was started: the
sum begins again when the slot is found vacant. -/
def Trap.heapGrowth (slot : Fin slots) (traps : List (Trap slots)) : Int :=
  traps.foldl (fun total trap =>
    if trap.left.processes[slot].state = .vacant then 0 else total + trap.growth slot) 0

theorem Trap.heapGrowth_append (slot : Fin slots) (traps : List (Trap slots)) (trap : Trap slots) :
    heapGrowth slot (traps ++ [trap]) =
      if trap.left.processes[slot].state = .vacant then 0
      else heapGrowth slot traps + trap.growth slot := by
  rw [heapGrowth, List.foldl_append]
  rfl

theorem System.Starts.brk_eq {before after : System slots} {caller slot : Fin slots}
    (starts : before.Starts caller slot after) :
    after.processes[slot].heap.brk = after.processes[slot].heap.base := by
  obtain ⟨between, ⟨⟨pid, _, taken, _, rootTable, registers, run, _, rfl⟩, _⟩, same, _⟩ :=
    starts.started
  simp only [same, getElem_set_self, Process.heap_of_occupy run]
  rfl

theorem Call.growth_of_not_moves {call : Call slots} {slot : Fin slots}
    (unmoved : ¬ call.entered.MovesBreak call.caller slot) : call.growth slot = 0 :=
  if_neg fun moves => unmoved moves.1

/-- A request that has room moves the break by what it asks for, and one that is refused by
nothing. -/
theorem System.Moves.brk_eq {call : Call slots} {layout : Layout slots}
    {author : Fin slots → Prop} (sound : call.entered.toTables.Sound layout author)
    (asked : call.entered.processes[call.caller].call? = some .moveBreak)
    (moves : call.entered.Moves call.caller
      (Word.signed (call.entered.processes[call.caller].registers.argument 0)) call.left) :
    call.left.processes[call.caller].heap.base = call.entered.processes[call.caller].heap.base ∧
    (call.left.processes[call.caller].heap.brk : Int) =
      call.entered.processes[call.caller].heap.brk + call.growth call.caller := by
  by_cases room : call.entered.processes[call.caller].heap.HasRoom
      (Word.signed (call.entered.processes[call.caller].registers.argument 0))
  · obtain ⟨moved, _⟩ := moves.moved room
    have response :
        call.left.processes[call.caller].registers.response ≠ Response.breakRefused := by
      intro refused
      have told := moved.told
      rw [refused] at told
      refine (sound.slot call.caller).brk_ne_breakRefused (layout.houses call.caller) ?_
      rw [← told]
      rfl
    refine ⟨by rw [moved.rest], ?_⟩
    rw [moved.brk, Call.growth, if_pos ⟨⟨rfl, asked⟩, response⟩]
  · have answered : call.left.processes[call.caller] =
        call.entered.processes[call.caller].respond Response.breakRefused := by
      rw [moves.refused room]
      exact ProcessTable.getElem_answer_self _
    have refused : call.left.processes[call.caller].registers.response = Response.breakRefused := by
      rw [answered, Process.respond, Registers.response_respond]
    have nothing : call.growth call.caller = 0 := if_neg fun moves => moves.2 refused
    rw [nothing, answered]
    exact ⟨rfl, (Int.add_zero _).symm⟩

/-- Whether the break of a process lies a number of bytes behind the base of its heap.  A slot where
nobody lives counts from zero. -/
structure Process.HasGrown (process : Process) (total : Int) : Prop where
  live : process.state ≠ .vacant → (process.heap.brk : Int) = process.heap.base + total
  vacant : process.state = .vacant → total = 0

theorem Process.HasGrown.retain {process changed : Process} {total : Int}
    (grown : process.HasGrown total) (state : changed.state = .vacant ↔ process.state = .vacant)
    (heap : changed.heap = process.heap) : changed.HasGrown total where
  live is_live := heap ▸ grown.live fun vacant => is_live (state.2 vacant)
  vacant is_vacant := grown.vacant (state.1 is_vacant)

namespace Run

variable {launch : Launch slots} {traps : List (Trap slots)} {system : System slots}
  {trap : Trap slots} {slot : Fin slots}

theorem hasGrown_entered {caller : Fin slots} {entered : System slots} {total : Int}
    (user : system.UserStep caller entered) (grown : system.processes[slot].HasGrown total) :
    entered.processes[slot].HasGrown total :=
  grown.retain (by rw [user.state_eq slot]) (user.remains slot).heap

/-- A call adds to the break of each process what it moves it by. -/
theorem hasGrown_left (run : Run launch traps system) (follows : trap.Follows system)
    (grown : system.processes[slot].HasGrown (Trap.heapGrowth slot traps)) :
    trap.left.processes[slot].HasGrown (Trap.heapGrowth slot (traps ++ [trap])) := by
  obtain ⟨runnable, handled, _⟩ := run.invariant.handled follows.current follows.user follows.call
  have caller_live := Process.live_of_runnable runnable
  have sound := follows.user.sound run.invariant.sound
  have entered := hasGrown_entered follows.user grown
  rw [Trap.heapGrowth_append]
  refine ⟨fun live => ?_, fun vacant => if_pos vacant⟩
  rw [if_neg live]
  by_cases moves : trap.entered.MovesBreak trap.caller slot
  · obtain ⟨rfl, asked⟩ := moves
    obtain ⟨left, call, moves⟩ :=
      sound.moves (follows.user.calls_eq.trans run.invariant.calls) caller_live asked
    rw [follows.call, EStateM.Result.ok.injEq] at call
    obtain ⟨_, rfl⟩ := call
    obtain ⟨base_eq, brk_eq⟩ := moves.brk_eq sound asked
    rw [brk_eq, base_eq, entered.live caller_live, Int.add_assoc]
  · rw [Call.growth_of_not_moves moves, Int.add_zero]
    by_cases vacant : trap.entered.processes[slot].state = .vacant
    · rcases handled.continues_or_starts caller_live slot with continues | starts
      · exact absurd vacant (continues.live live)
      · rw [starts.brk_eq, entered.vacant vacant, Int.add_zero]
    · rw [(handled.remains caller_live moves vacant live).heap]
      exact entered.live vacant

/-- At all times each break lies as far behind the base of the heap as traps have moved it. -/
theorem hasGrown (run : Run launch traps system) (slot : Fin slots) :
    system.processes[slot].HasGrown (Trap.heapGrowth slot traps) := by
  induction run with
  | start started =>
      have begins := launch.begins started
      refine ⟨fun live => ?_, fun _ => rfl⟩
      cases begins.alone slot live
      rw [begins.unused]
      exact (Int.add_zero _).symm
  | advance _ ticks passes induction =>
      cases passes
      exact induction
  | trap run trap current user call switch induction =>
      obtain ⟨_, _, preserved⟩ := run.invariant.handled current user call
      obtain ⟨woken, clock, after_eq, roused, _⟩ := preserved.resumes trap.caller.isLt switch
      have left := run.hasGrown_left ⟨current, user, call, switch⟩ induction
      rw [after_eq]
      exact left.retain (roused slot).vacant_iff (roused slot).remains.heap

end Run

/-- A request to move the break is handled at all times.  If the sum over the integers lies in the
heap, the process is told where its break was, and the end of its heap's region moves to the sum;
every other region is what and where it was, the regions stay in order and apart, and nothing else
changes.  Otherwise the process is told so, and nothing changes at all.  In every run, what the
kernel accepts of the pages of a process's heap are the bytes up to the base and the sum of all that
the process has asked for and not been refused. -/
theorem Launch.break_moves_as_asked (launch : Launch slots) :
    (∀ system, Reached launch system → ∀ caller : Fin slots,
      system.processes[caller].state ≠ .vacant →
      system.processes[caller].call? = some .moveBreak →
      ∃ left, KernelM.handleCall caller system = .ok .same left ∧ system.Moves caller
        (Word.signed (system.processes[caller].registers.argument 0)) left) ∧
    ∀ traps system, Run launch traps system → ∀ caller entered, system.UserStep caller entered →
      ∀ slot : Fin slots, entered.processes[slot].state ≠ .vacant →
        let process := entered.processes[slot]
        (process.heap.brk : Int) = process.heap.base + Trap.heapGrowth slot traps ∧
        ∀ needed, Rights.readWrite.includes needed = true →
          ∀ {layout : ElementLayout}, layout.size ≠ 0 → ∀ slice : UserSlice layout,
            slice.isEmpty = false → process.heap.base ≤ slice.base →
            slice.stop ≤ process.heap.base + process.heap.limit →
              (process.canAccess slice needed = .ok true ↔
                (slice.stop : Int) ≤ process.heap.base + Trap.heapGrowth slot traps) := by
  constructor
  · intro system reached caller live asked
    obtain ⟨⟨author, sound⟩, _⟩ := reached.sound_and_waiting
    exact sound.moves reached.calls_eq live asked
  · intro traps system run caller entered user slot live
    have brk_eq := (Run.hasGrown_entered user (run.hasGrown slot)).live live
    refine ⟨brk_eq, fun needed granted layout sized slice nonempty behind before => ?_⟩
    rw [← brk_eq, Int.ofNat_le]
    exact ((user.sound run.invariant.sound).slot slot).canAccess_heap_iff
      (launch.layout.houses slot) live granted sized nonempty behind before

/-- The first process asks for a page of its heap, gives sixteen bytes back, asks for more than
there is, and may then use all of the page but the sixteen bytes.  It can give back the rest, too.
-/
theorem break_moves_as_asked_small : ∃ traps, ∃ system entered left : System 2,
    Run Launch.small traps system ∧ Trap.heapGrowth (0 : Fin 2) traps = 0xFF0 ∧
    system.processes[(0 : Fin 2)].canAccess
      (⟨0x103000, 0xFF0, by decide, by decide⟩ : UserSlice .byte) .write = .ok true ∧
    system.processes[(0 : Fin 2)].canAccess
      (⟨0x103000, 0xFF1, by decide, by decide⟩ : UserSlice .byte) .write ≠ .ok true ∧
    Reached Launch.small entered ∧
    entered.processes[(0 : Fin 2)].call? = some .moveBreak ∧
    KernelM.handleCall 0 entered = .ok .same left ∧
    left.processes[(0 : Fin 2)].heap.brk = 0x103000 := by
  have evaluated : (Launch.small.play? [Launch.calling 0x80010 .moveBreak 0x1000 0 0,
      Launch.calling 0x80010 .moveBreak 0xFFFFFFFFFFFFFFF0 0 0,
      Launch.calling 0x80010 .moveBreak 0x7FFFFFFFFFFFFFFF 0 0]).any (fun final =>
        decide (Trap.heapGrowth (0 : Fin 2) final.1 = 0xFF0 ∧
          final.2.processes[(0 : Fin 2)].state ≠ .vacant ∧
          final.2.processes[(0 : Fin 2)].heap = ⟨0x103000, 0x103FF0, 0x40000⟩) &&
        (final.2.perform? (Launch.calling 0x80010 .moveBreak 0xFFFFFFFFFFFFF010 0 0)).any
          fun trap => decide (trap.caller = 0 ∧
            trap.entered.processes[(0 : Fin 2)].state ≠ .vacant ∧
            trap.entered.processes[(0 : Fin 2)].call? = some .moveBreak ∧
            Word.signed (trap.entered.processes[(0 : Fin 2)].registers.argument 0) = -0xFF0 ∧
            trap.entered.processes[(0 : Fin 2)].heap = ⟨0x103000, 0x103FF0, 0x40000⟩)) = true := by
    decide +kernel
  simp only [Option.any_eq_true, Bool.and_eq_true, decide_eq_true_eq] at evaluated
  obtain ⟨⟨traps, system⟩, played, ⟨growth, live, heap⟩, trap, performed, first, caller_live,
    asked, increment, before⟩ := evaluated
  have run := Run.play played
  obtain ⟨current, user, _⟩ := System.of_perform?_eq_some performed
  have reached := Reached.entered run current user
  obtain ⟨left, call, moves⟩ :=
    Launch.small.break_moves_as_asked.1 trap.entered reached 0 caller_live asked
  obtain ⟨moved, _⟩ := moves.moved (by
    rw [increment, before]
    exact ⟨by decide, by decide⟩)
  obtain ⟨_, accepts⟩ := Launch.small.break_moves_as_asked.2 traps system run 0 system
    (.refl system 0) 0 live
  rw [growth, heap] at accepts
  refine ⟨traps, system, trap.entered, left, run, growth, ?_, ?_, reached, asked, call, ?_⟩
  · exact (accepts .write (by decide) (by decide) _ rfl (by decide) (by decide)).2 (by decide)
  · intro accepted
    exact absurd ((accepts .write (by decide) (by decide) _ rfl (by decide) (by decide)).1 accepted)
      (by decide)
  · refine Int.ofNat_inj.1 (moved.brk.trans ?_)
    rw [increment, before]
    decide

end Microkernel
