import Microkernel.Proofs.Kernel.Run

/-!
# Scripted runs

A script tells what the process on the processor does each time: which bytes it stores before it
enters the kernel, and which call it makes.  Playing a script gives a run.
-/

namespace Microkernel

/-- What a program does before it enters the kernel, and the call that it makes. -/
structure Move where
  /-- The address at which the program stores bytes. -/
  place : Nat
  /-- The bytes that it stores. -/
  bytes : List UInt8
  /-- The call. -/
  call : Syscall
  /-- The arguments of the call. -/
  arguments : Vector UInt64 5

/-- Whether a single region lets a process write the bytes of an extent. -/
def Process.writes (process : Process) (extent : Extent) : Bool :=
  process.regions.any fun region =>
    region.rights.includes .write && decide (region.base ≤ extent.start) &&
      decide (extent.stop ≤ region.extent.stop)

theorem Process.may_of_writes {process : Process} {extent : Extent}
    (writes : process.writes extent = true) {address : Nat} (covered : extent.Covers address) :
    process.May .write address := by
  simp only [Process.writes, List.any_eq_true, Bool.and_eq_true, decide_eq_true_eq] at writes
  obtain ⟨region, member, ⟨writable, start_le⟩, stop_le⟩ := writes
  exact ⟨region, member, writable, Nat.le_trans start_le covered.1,
    Nat.lt_of_lt_of_le covered.2 stop_le⟩

variable {slots : Nat}

namespace System

/-- The system when a process enters the kernel after a move. -/
def entering (system : System slots) (caller : Fin slots) (move : Move) : System slots :=
  { system with
    memory := system.memory.write move.place move.bytes
    processes := system.processes.set caller { system.processes[caller] with
      registers := system.processes[caller].registers.load
        move.call.number.toUInt64 move.arguments } caller.isLt }

/-- The trap of the current process after a move, if the process may store the bytes and the kernel
goes on. -/
def perform? (system : System slots) (move : Move) : Option (Trap slots) :=
  if inRange : system.current < slots then
    let caller : Fin slots := ⟨system.current, inRange⟩
    let entered := system.entering caller move
    if system.processes[caller].writes ⟨move.place, move.bytes.length⟩ then
      match KernelM.handleCall caller entered with
      | .error _ _ => none
      | .ok hint left =>
          match KernelM.switchAfter caller hint left with
          | .error _ _ => none
          | .ok next after => some { caller, entered, hint, left, next, after }
    else none
  else none

theorem userStep_entering {system : System slots} {caller : Fin slots} {move : Move}
    (writes : system.processes[caller].writes ⟨move.place, move.bytes.length⟩ = true) :
    system.UserStep caller (system.entering caller move) where
  ran := ⟨_, _, rfl⟩
  changes := (Memory.changesOnly_write _ _ _).mono fun _ covered =>
    .inl (Process.may_of_writes writes covered)

/-- A move that the kernel survives is a step of the current process, a call, and a switch. -/
theorem of_perform?_eq_some {system : System slots} {move : Move} {trap : Trap slots}
    (performed : system.perform? move = some trap) :
    trap.caller.val = system.current ∧ system.UserStep trap.caller trap.entered ∧
      KernelM.handleCall trap.caller trap.entered = .ok trap.hint trap.left ∧
      KernelM.switchAfter trap.caller trap.hint trap.left = .ok trap.next trap.after := by
  simp only [perform?] at performed
  split at performed
  next inRange =>
    split at performed
    next writes =>
      split at performed
      next => cases performed
      next hint left call =>
        split at performed
        next => cases performed
        next next after switch =>
          cases performed
          exact ⟨rfl, userStep_entering writes, call, switch⟩
    next => cases performed
  next => cases performed

end System

namespace Launch

/-- The traps that a script leads to from a system, and the system after them. -/
def playFrom? (traps : List (Trap slots)) (system : System slots) :
    List Move → Option (List (Trap slots) × System slots)
  | [] => some (traps, system)
  | move :: rest => do
      let trap ← system.perform? move
      playFrom? (traps ++ [trap]) trap.after rest

/-- The traps that a script leads to after a launch, and the system after them. -/
def play? (launch : Launch slots) (script : List Move) :
    Option (List (Trap slots) × System slots) :=
  match (StartM.startFirst launch.entry launch.imageStart launch.imageStop).run launch.system with
  | .ok (.ok _) system => playFrom? [] system script
  | _ => none

end Launch

namespace Run

variable {launch : Launch slots} {traps : List (Trap slots)} {system : System slots}

theorem perform (run : Run launch traps system) {move : Move} {trap : Trap slots}
    (performed : system.perform? move = some trap) :
    Run launch (traps ++ [trap]) trap.after := by
  obtain ⟨current, user, call, switch⟩ := System.of_perform?_eq_some performed
  exact run.trap trap current user call switch

theorem playFrom (run : Run launch traps system) {script : List Move}
    {final : List (Trap slots) × System slots}
    (played : Launch.playFrom? traps system script = some final) :
    Run launch final.1 final.2 := by
  induction script generalizing traps system with
  | nil =>
      cases played
      exact run
  | cons move rest induction =>
      simp only [Launch.playFrom?, Option.bind_eq_bind, Option.bind_eq_some_iff] at played
      obtain ⟨trap, performed, played⟩ := played
      exact induction (run.perform performed) played

theorem play {script : List Move} {final : List (Trap slots) × System slots}
    (played : launch.play? script = some final) : Run launch final.1 final.2 := by
  rw [Launch.play?] at played
  split at played
  next started => exact (Run.start started).playFrom played
  next => cases played

end Run

namespace Launch

theorem carveAll_of_evaluated {arena rest : Arena .virtual} {pages : Vector SlotMemory slots}
    (evaluated : (match Slots.carveAll slots arena with
      | .ok found left => decide (found = pages ∧ left = rest)
      | .error _ _ => false) = true) :
    Slots.carveAll slots arena = .ok pages rest := by
  split at evaluated
  next found left run =>
    obtain ⟨rfl, rfl⟩ := of_decide_eq_true evaluated
    exact run
  next => cases evaluated

/-! ## A launch with two slots -/

/-- An arena with room for the pages of two slots. -/
def smallArena : Arena .virtual :=
  .fresh ⟨0x100000⟩ ⟨0x200000⟩

/-- The pages that two slots get out of the small arena. -/
def smallPages : Vector SlotMemory 2 :=
  #v[{ stack := 0x100000, arguments := 0x102000, heap := 0x103000, tables := 0x143000 },
    { stack := 0x147000, arguments := 0x149000, heap := 0x14A000, tables := 0x18A000 }]

theorem carveAll_smallArena :
    Slots.carveAll 2 smallArena = .ok smallPages { smallArena with allocated := 142 } :=
  carveAll_of_evaluated (by decide +kernel)

/-- A kernel with two slots and a program of one page in front of them. -/
def small : Launch 2 where
  arena := smallArena
  rest := { smallArena with allocated := 142 }
  pages := smallPages
  memory := .zero
  clock := 0
  log := []
  entry := 0x80000
  imageStart := 0x80000
  imageStop := 0x81000
  some_slot := by decide
  aligned := by decide
  bounded := by decide
  carved := carveAll_smallArena
  nonempty := by decide
  inside := by decide
  apart := by decide
  unseen := by decide

def openMove : Move where
  place := 0x100000
  bytes := [112, 0]
  call := .pipeOpen
  arguments := #v[0x100000, 0, 0, 0, 0]

/-- The first process reads at most two bytes. -/
def readMove : Move where
  place := 0x100010
  bytes := []
  call := .pipeRead
  arguments := #v[1, 0x100020, 2, 0, 0]

/-- The first process opens a pipe and puts three bytes into it. -/
def writerScript : List Move :=
  [openMove, { place := 0x100010, bytes := [1, 2, 3], call := .pipeWrite
               arguments := #v[1, 0x100010, 3, 0, 0] }]

/-- The first process opens a pipe, starts a second process, and waits for bytes. -/
def readerScript : List Move :=
  [openMove, { place := 0x100010, bytes := [], call := .spawn
               arguments := #v[0x80000, 0, 0, 0, 0] }, readMove]

/-- The first process stores two pointers and the texts to which they lead, and passes these to a
child. -/
def spawnMove : Move where
  place := 0x100010
  bytes := [0x20, 0, 0x10, 0, 0, 0, 0, 0, 0x23, 0, 0x10, 0, 0, 0, 0, 0, 104, 105, 0, 97, 0]
  call := .spawn
  arguments := #v[0x80000, 2, 0x100010, 0, 0]

/-- A process makes a call without storing anything; `place` is an address where it could. -/
def calling (place : Nat) (call : Syscall) (first second third : UInt64) : Move where
  place := place
  bytes := []
  call := call
  arguments := #v[first, second, third, 0, 0]

/-- The first process names a pipe in its program, where its children can read the name, opens it,
and starts a number of children. -/
def familyScript (children : Nat) : List Move :=
  { place := 0x80010, bytes := [112, 0], call := .pipeOpen
    arguments := #v[0x80010, 0, 0, 0, 0] } ::
    List.replicate children (calling 0x80010 .spawn 0x80000 0 0)

/-- The second process gets a priority of 20 and waits for bytes. -/
def readerWaits : List Move :=
  [calling 0x80010 .setPriority 2 20 0, calling 0x147000 .pipeGet 1 0x80010 0,
    calling 0x147000 .pipeRead 1 0x147000 4]

/-- The second process gets a priority of 20 and sleeps. -/
def sleeperSleeps : List Move :=
  [calling 0x80010 .setPriority 2 20 0, calling 0x147000 .sleep 5000 0 0]

/-- The first process puts two bytes into the pipe. -/
def writeMove : Move :=
  calling 0x80010 .pipeWrite 1 0x80010 2

/-- The first process puts two bytes into the pipe from where it may not read. -/
def wildMove : Move :=
  calling 0x80010 .pipeWrite 1 0x500000 2

/-! ## A launch with four slots -/

/-- An arena with room for the pages of four slots. -/
def wideArena : Arena .virtual :=
  .fresh ⟨0x100000⟩ ⟨0x300000⟩

/-- The pages that four slots get out of the wide arena. -/
def widePages : Vector SlotMemory 4 :=
  #v[{ stack := 0x100000, arguments := 0x102000, heap := 0x103000, tables := 0x143000 },
    { stack := 0x147000, arguments := 0x149000, heap := 0x14A000, tables := 0x18A000 },
    { stack := 0x18E000, arguments := 0x190000, heap := 0x191000, tables := 0x1D1000 },
    { stack := 0x1D5000, arguments := 0x1D7000, heap := 0x1D8000, tables := 0x218000 }]

theorem carveAll_wideArena :
    Slots.carveAll 4 wideArena = .ok widePages { wideArena with allocated := 284 } :=
  carveAll_of_evaluated (by decide +kernel)

/-- A kernel with four slots and a program of one page in front of them. -/
def wide : Launch 4 where
  arena := wideArena
  rest := { wideArena with allocated := 284 }
  pages := widePages
  memory := .zero
  clock := 0
  log := []
  entry := 0x80000
  imageStart := 0x80000
  imageStop := 0x81000
  some_slot := by decide
  aligned := by decide
  bounded := by decide
  carved := carveAll_wideArena
  nonempty := by decide
  inside := by decide
  apart := by decide
  unseen := by decide

/-- The third and the fourth process take a priority of 15 and of 12 and wait for bytes too. -/
def othersWait : List Move :=
  [calling 0x18E000 .setPriority 0 15 0, calling 0x18E000 .pipeGet 1 0x80010 0,
    calling 0x18E000 .pipeRead 1 0x18E000 4, calling 0x1D5000 .setPriority 0 12 0,
    calling 0x1D5000 .pipeGet 1 0x80010 0, calling 0x1D5000 .pipeRead 1 0x1D5000 4]

/-- The third process gets a priority of 25 and sleeps. -/
def thirdSleeps : List Move :=
  [calling 0x18E000 .setPriority 0 25 0, calling 0x18E000 .sleep 5000 0 0]

/-- The second and the third process put two bytes into the pipe each.  The third closes the pipe
and comes back, and leaves the processor to the second. -/
def writersScript : List Move :=
  familyScript 3 ++ [calling 0x80010 .setPriority 2 20 0, calling 0x147000 .pipeGet 1 0x80010 0,
    calling 0x147000 .pipeWrite 1 0x147000 2, calling 0x147000 .setPriority 3 25 0,
    calling 0x18E000 .pipeGet 1 0x80010 0, calling 0x18E000 .pipeWrite 1 0x18E000 2,
    calling 0x18E000 .pipeClose 1 0 0, calling 0x18E000 .pipeGet 1 0x80010 0,
    calling 0x18E000 .setPriority 0 5 0]

end Launch
end Microkernel
