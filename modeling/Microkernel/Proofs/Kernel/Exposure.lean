import Microkernel.Proofs.Calls.Start
import Microkernel.Proofs.Kernel.Script
import Microkernel.Proofs.Paging.ProcessMap
import Microkernel.Proofs.Process.Blocks

/-!
# What the map of a process exposes

The map that a process is started with opens whole blocks to its program.  The slots get their pages
one behind the other, whatever block they fall into, so the program can reach the pages of other
slots, and the tables of its own map, wherever they share a block with its memory.
-/

namespace Microkernel

namespace StartM

variable {slots : Nat} {system after : System slots} {slot : Fin slots} {entry : Nat}
  {program : List Region} {pid : Pid}

/-- If the slots get their pages below the devices, then in the map that a process is started with
the pages of all slots are mapped onto themselves, and the program can reach such a page if memory
of the process lies in the same block, and only then. -/
theorem startProcess_exposes_iff {arena rest : Arena .virtual} {pages : Vector SlotMemory slots}
    (aligned : arena.base.value % Config.pageSize = 0)
    (bounded : arena.bound.value ≤ Config.deviceBase)
    (carved : Slots.carveAll slots arena = .ok pages rest)
    (home : system.processes[slot].memory = pages[slot])
    (started : (startProcess slot entry program).run system = .ok (.ok pid) after)
    {other : Fin slots} {address : Nat} (owned : pages[other].Owns address) :
    ∃ leaf size,
      Paging.lookup after.memory after.processes[slot].rootTable address = some (leaf, size) ∧
        leaf.address = address / size * size ∧
          (leaf.includes .user = true ↔ after.processes[slot].Opens address) := by
  have device_small : Config.deviceBase ≤ Paging.largeBlock := by decide
  have word : arena.bound.value ≤ Word.limit := Nat.le_trans bounded (by decide)
  obtain ⟨_, sound, _⟩ := Slots.carveAll_ok aligned word carved
  obtain ⟨_, _, _, ⟨failed, _⟩ |
    ⟨_, taken, _, cleared, accesses, registers, taken_eq, opened, rfl⟩⟩ :=
      startProcess_cases started
  · cases failed
  have taken_home : taken.memory = pages[slot] := by
    rw [taken_eq]
    exact home
  have tables_aligned := (sound slot).1.aligned _ (SlotMemory.tables_mem_parts _)
  have tables_below := ((sound slot).2 _ (SlotMemory.tables_mem_parts _)).stop_lt
  have tables_small : (Paging.mapExtent pages[slot].tables).stop ≤ 2 ^ 48 :=
    Nat.le_of_lt (Nat.lt_of_lt_of_le tables_below (Nat.le_trans bounded (by decide)))
  have inside : Paging.page pages[slot].tables Paging.processPages ≤ Word.limit :=
    Nat.le_trans (Nat.le_of_lt tables_below) word
  obtain ⟨part, member, covered⟩ := owned
  have below : address < Config.deviceBase :=
    Nat.lt_of_lt_of_le (Nat.lt_trans covered.2 ((sound other).2 part member).stop_lt) bounded
  have unseen := ((sound other).1.unseen part member).not_covers covered
  have maps := Paging.mapsProcess_writeProcessMap cleared Config.deviceBase pages[slot].arguments
    (fun base => accesses.toArray.getD (base / Paging.block) .none) inside
  obtain ⟨leaf, size, found, identity, gives⟩ := maps.lookup_below
    (fun _ => Paging.fits_page tables_aligned tables_small) device_small below unseen
  have user := gives.user
  rw [Process.blockAccess_opens opened (Nat.lt_of_lt_of_le below device_small) below] at user
  refine ⟨leaf, size, ?_, identity, ?_⟩
  · rw [getElem_set_self, taken_home]
    -- Unfolding more than the fields of records would write the map out.
    with_reducible exact found
  · rw [getElem_set_self]
    exact user

/-- A program of one page. -/
def onePage : Region where
  base := 0x80000
  size := 0x1000
  rights := .readWrite

/-- The first of four processes cannot reach the tables of the last, which lie in another block. -/
theorem tables_hidden_wide : ∃ pid after leaf size,
    (startProcess 0 0x80000 [onePage]).run Launch.wide.system = .ok (.ok pid) after ∧
      Paging.lookup after.memory after.processes[(0 : Fin 4)].rootTable
        Launch.widePages[(3 : Fin 4)].tables = some (leaf, size) ∧
          leaf.includes .user = false := by
  have evaluated : (match (startProcess 0 0x80000 [onePage]).run Launch.wide.system with
      | .ok (.ok _) after =>
          decide ¬ after.processes[(0 : Fin 4)].Opens Launch.widePages[(3 : Fin 4)].tables
      | .ok (.error _) _ => false
      | .error _ _ => false) = true := by
    decide +kernel
  split at evaluated
  next pid after started =>
    have owned : Launch.widePages[(3 : Fin 4)].Owns Launch.widePages[(3 : Fin 4)].tables :=
      ⟨_, SlotMemory.tables_mem_parts _, by decide⟩
    have home := congrArg Process.memory (Launch.wide.getElem_system 0)
    obtain ⟨leaf, size, found, _, user⟩ := startProcess_exposes_iff (by decide) (by decide)
      Launch.carveAll_wideArena home started owned
    refine ⟨pid, after, leaf, size, started, found, ?_⟩
    rw [← Bool.not_eq_true, user]
    exact of_decide_eq_true evaluated
  next => cases evaluated
  next => cases evaluated

/-- The first of two processes can reach the tables of its own map and the stack of the second
process. -/
theorem tables_exposed_small : ∃ pid after,
    (startProcess 0 0x80000 [onePage]).run Launch.small.system = .ok (.ok pid) after ∧
      ∀ address ∈ [Launch.smallPages[(0 : Fin 2)].tables, Launch.smallPages[(1 : Fin 2)].stack],
        ∃ leaf size, Paging.lookup after.memory after.processes[(0 : Fin 2)].rootTable address =
          some (leaf, size) ∧ leaf.includes .user = true := by
  have evaluated : (match (startProcess 0 0x80000 [onePage]).run Launch.small.system with
      | .ok (.ok _) after =>
          [Launch.smallPages[(0 : Fin 2)].tables, Launch.smallPages[(1 : Fin 2)].stack].all
            fun address => (Paging.lookup after.memory after.processes[(0 : Fin 2)].rootTable
              address).any (·.1.includes .user)
      | .ok (.error _) _ => false
      | .error _ _ => false) = true := by
    decide +kernel
  split at evaluated
  next pid after started =>
    refine ⟨pid, after, started, fun address member => ?_⟩
    obtain ⟨⟨leaf, size⟩, found, user⟩ :=
      (Option.any_eq_true _ _).1 (List.all_eq_true.1 evaluated address member)
    exact ⟨leaf, size, found, user⟩
  next => cases evaluated
  next => cases evaluated

end StartM
end Microkernel
