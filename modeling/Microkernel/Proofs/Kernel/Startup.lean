import Microkernel.Proofs.Calls.Preservation
import Microkernel.Proofs.Calls.Start
import Microkernel.Proofs.Kernel.Placement
import Microkernel.Proofs.Process.Naming
import Microkernel.Proofs.Process.Program

/-!
# The kernel starts

A kernel whose slots got their pages out of an arena starts a first process, if that has a program
whose image meets no page of a slot.  Then the tables are sound, and the first process can run.
-/

namespace Microkernel

/-- What a kernel is started with. -/
structure Launch (slots : Nat) where
  /-- The arena out of which the slots get their pages. -/
  arena : Arena .virtual
  /-- The arena once the slots have their pages. -/
  rest : Arena .virtual
  /-- The pages of the slots. -/
  pages : Vector SlotMemory slots
  /-- The contents of memory. -/
  memory : Memory
  /-- The time. -/
  clock : Nat
  /-- What has been logged before. -/
  log : List String
  /-- The address at which the first process begins. -/
  entry : Nat
  /-- The first address of the program. -/
  imageStart : Nat
  /-- The first address behind the program. -/
  imageStop : Nat
  /-- There is a slot. -/
  some_slot : 0 < slots
  /-- The arena begins at a page boundary. -/
  aligned : arena.base.value % Config.pageSize = 0
  /-- The arena ends inside the address space. -/
  bounded : arena.bound.value ≤ Word.limit
  /-- The slots get their pages. -/
  carved : Slots.carveAll slots arena = .ok pages rest
  /-- The program is not empty. -/
  nonempty : imageStart < imageStop
  /-- The program ends inside the address space. -/
  inside : imageStop < Word.limit
  /-- The program does not meet the pages of the slots. -/
  apart : ∀ slot : Fin slots, ∀ part ∈ pages[slot].parts,
    Extent.Apart ⟨imageStart, imageStop - imageStart⟩ part
  /-- The program does not meet the page at which processes see their arguments. -/
  unseen : Extent.Apart ⟨imageStart, imageStop - imageStart⟩
    ⟨Config.argumentAddress, Config.pageSize⟩

namespace Launch

open KernelM

variable {slots : Nat} (launch : Launch slots)

def image : Extent :=
  ⟨launch.imageStart, launch.imageStop - launch.imageStart⟩

def first : Fin slots :=
  ⟨0, launch.some_slot⟩

/-- The system before the first process is started. -/
def system : System slots :=
  .start launch.memory launch.clock launch.log launch.pages Config.heapLimit

theorem pages_apart (one other : Fin slots) (different : one ≠ other) :
    launch.pages[one].Apart launch.pages[other] :=
  (Slots.carveAll_ok launch.aligned launch.bounded launch.carved).2.2 one other different

theorem pages_house (slot : Fin slots) : launch.pages[slot].Houses launch.image := by
  have nonempty := launch.nonempty
  have inside := launch.inside
  refine ⟨?_, Nat.sub_pos_of_lt nonempty, ?_, launch.apart slot, launch.unseen⟩
  · exact ((Slots.carveAll_ok launch.aligned launch.bounded launch.carved).2.1 slot).1
  · simp only [image, Extent.stop]
    omega

/-- Where the pages of the slots and the image of the program lie. -/
def layout : Layout slots where
  pages := launch.pages
  image := launch.image
  apart := launch.pages_apart
  houses := launch.pages_house

theorem getElem_system (slot : Fin slots) :
    launch.system.processes[slot] = .vacant launch.pages[slot] Config.heapLimit := by
  simp [system, System.start]

theorem vacant_system (slot : Fin slots) :
    launch.system.processes[slot].state = .vacant := by
  rw [getElem_system]
  rfl

theorem get?_system (id : PipeId) : launch.system.pipes.get? id = none := by
  simp only [system, System.start, PipeTable.get?, PipeTable.empty, Vector.getElem?_replicate]
  split <;> rfl

/-- A system without processes and pipes is sound, whoever may write the program. -/
theorem sound_system (author : Fin slots → Prop) :
    launch.system.toTables.Sound launch.layout author where
  slot slot := by
    have vacant := launch.getElem_system slot
    rw [vacant]
    exact Process.sound_vacant _ _ _
  counted id := by
    have none_held (slot : Fin slots) : launch.system.processes[slot].handlesOn id = 0 := by
      rw [getElem_system]
      exact Process.handlesOn_noHandles rfl id
    rw [PipeTable.references, get?_system]
    exact (ProcessTable.holders_eq_zero none_held).symm
  held id pipe found := by
    rw [get?_system] at found
    cases found
  ring id pipe found := by
    rw [get?_system] at found
    cases found

theorem waiting_system : launch.system.toTables.Waiting := by
  intro slot id blocked
  have vacant := launch.getElem_system slot
  rw [vacant] at blocked
  cases blocked

theorem vacantSlot?_system : launch.system.processes.vacantSlot? = some launch.first := by
  refine findFinIdx?_eq_some_iff.2 ⟨(Process.isVacant_iff _).2 (launch.vacant_system _),
    fun earlier less => ?_⟩
  exact absurd less (Nat.not_lt_zero _)

/-- Who may write the program as long as the first process lives. -/
def IsFirst (slot : Fin slots) : Prop :=
  slot = launch.first

theorem first_isFirst : launch.IsFirst launch.first := rfl

/-- What holds once the first process is started. -/
structure Begins (after : System slots) : Prop where
  /-- The tables are sound. -/
  sound : after.toTables.Sound launch.layout launch.IsFirst
  /-- Nobody waits. -/
  waiting : after.toTables.Waiting
  /-- The first process can run. -/
  runnable : after.processes[launch.first].state = .live .runnable
  /-- The first process is the one that runs. -/
  current : after.current = launch.first.val
  /-- The kernel provides its own calls. -/
  calls : after.calls = .withBuiltins .builtin
  /-- There are no pipes. -/
  no_pipes : ∀ id, after.pipes.get? id = none
  /-- The first process may do anything with the program. -/
  grants : ∀ rights : Fin slots → Rights, rights launch.first = .program →
    after.processes.Grants rights
  /-- The tables of the first process hold its map. -/
  mapped : after.Mapped
  /-- There is no other process. -/
  alone : ∀ slot : Fin slots, after.processes[slot].state ≠ .vacant → slot = launch.first
  /-- The first process has the first name, and the next name is the second. -/
  named : after.processes[launch.first].pid = ⟨1⟩ ∧ after.nextPid = ⟨2⟩
  /-- The first process has nothing of its heap in use. -/
  unused : after.processes[launch.first].heap.brk = after.processes[launch.first].heap.base

/-- The first process has the whole program, and may do anything with it. -/
def program : List Region :=
  [{ base := launch.imageStart, size := launch.imageStop - launch.imageStart, rights := .program }]

theorem sound_system_with (memory : Memory) :
    ({ launch.system with memory } : System slots).toTables.Sound launch.layout launch.IsFirst :=
  launch.sound_system _

theorem freshPid_system : launch.system.processes.freshPid slots ⟨1⟩ = ⟨1⟩ :=
  ProcessTable.freshPid_of_unnamed fun slot live => absurd (launch.vacant_system slot) live

/-- The kernel goes on with its first process as soon as that is started in its slot. -/
theorem begins_of_started {memory : Memory} {after : System slots} {log : List String}
    (started : Started { launch.system with memory } launch.first launch.entry launch.program
      after) : launch.Begins { after with log } := by
  have sound := launch.sound_system_with memory
  have marked : Rights.program.includes .image = true := by decide
  have granted : after.processes[launch.first].Grants .program := started.grants sound
  have new := started.new sound (List.Sublist.refl launch.program)
  obtain ⟨after_sound, waiting⟩ := started.preserves marked (fun _ => launch.first_isFirst) sound
    launch.waiting_system (launch.vacant_system _)
  have elsewhere {slot : Fin slots} (different : slot ≠ launch.first) :
      after.processes[slot] = launch.system.processes[slot] := started.getElem_of_ne different
  have alone (slot : Fin slots) (live : after.processes[slot].state ≠ .vacant) :
      slot = launch.first := by
    apply Classical.byContradiction
    intro different
    rw [elsewhere different] at live
    exact live (launch.vacant_system slot)
  obtain ⟨first_name, next_name⟩ := started.named
  obtain ⟨_, _, _, rfl⟩ := started.keeps
  exact {
    sound := after_sound
    waiting
    runnable := new.runnable
    current := rfl
    calls := rfl
    no_pipes := launch.get?_system
    grants rights due slot live := by
      cases alone slot live
      exact due ▸ granted live
    mapped slot live := by
      cases alone slot live
      exact started.mapped
    alone
    named := ⟨first_name.trans launch.freshPid_system,
      next_name.trans (congrArg Pid.next launch.freshPid_system)⟩
    unused := by
      simp only [new.heap] }

/-- The first process can be started. -/
theorem startFirst_run :
    (StartM.startFirst launch.entry launch.imageStart launch.imageStop).run.Ends launch.system
      fun result after => result = .ok launch.first ∧ launch.Begins after := by
  have page := (launch.sound_system launch.IsFirst).argumentPage_le launch.first
  obtain ⟨writer, offset, memory, written, finished, _⟩ :=
    ArgumentWriter.finish_empty (by decide) (by decide : Config.argumentAddress + _ < _) page
      (launch.system.memory.fill launch.system.processes[launch.first].memory.arguments
        Config.pageSize 0)
  have size : Word.difference launch.imageStop launch.imageStart =
      .ok (launch.imageStop - launch.imageStart) :=
    (Word.difference_eq_ok_iff _ _ _).2 ⟨Nat.le_of_lt launch.nonempty, rfl⟩
  rw [StartM.startFirst, ends_run_bind, ends_run_get]
  simp only [vacantSlot?_system, ends_run_bind, StartM.ends_startKernel, ends_process,
    ends_modifyMemory, written, ends_onMemory]
  refine ⟨offset, memory, finished, ?_⟩
  simp only [StartM.ends_startChecked, size]
  refine ⟨_, rfl, (StartM.startProcess_run (launch.sound_system_with memory)
    (launch.vacant_system _) launch.entry (List.Sublist.refl launch.program)).mono ?_⟩
  rintro result after ⟨pid, rfl, started, _⟩
  simp only [ends_logLine, ends_run_pure]
  exact ⟨trivial, launch.begins_of_started started⟩

theorem begins {slot : Fin slots} {system : System slots}
    (started : (StartM.startFirst launch.entry launch.imageStart launch.imageStop).run
      launch.system = .ok (.ok slot) system) : launch.Begins system := by
  obtain ⟨_, _, run, _, begins⟩ := launch.startFirst_run
  rw [started] at run
  cases run
  exact begins

end Launch

end Microkernel
