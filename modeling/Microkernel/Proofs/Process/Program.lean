import Microkernel.Proofs.Process.Sound

/-!
# What a process may do with the program

The region of the program is marked as such in the table of each live process.  What the process may
do there is settled when it is started, and nothing that the kernel does later changes it.
-/

namespace Microkernel

namespace Rights

/-- What the first process may do with the program. -/
def program : Rights := .union .readWrite (.union .execute .image)

end Rights

theorem Region.mem_of_mem_resize {base size : Nat} {table : List Region} {region : Region}
    (member : region ∈ resize base size table) : ∃ old ∈ table, old.rights = region.rights := by
  induction table with
  | nil => cases member
  | cons first rest induction =>
      rw [resize] at member
      split at member
      · rcases List.mem_cons.1 member with rfl | later
        · exact ⟨first, List.mem_cons_self, rfl⟩
        · exact ⟨region, List.mem_cons_of_mem _ later, rfl⟩
      · rcases List.mem_cons.1 member with rfl | later
        · exact ⟨region, List.mem_cons_self, rfl⟩
        · obtain ⟨old, old_member, same⟩ := induction later
          exact ⟨old, List.mem_cons_of_mem _ old_member, same⟩

/-- Whether a process has certain rights, and no others, wherever it has a part of the program. -/
def Process.Grants (process : Process) (rights : Rights) : Prop :=
  process.state ≠ .vacant → ∀ region ∈ process.regions,
    region.rights.includes .image = true → region.rights = rights

namespace Process

variable {process changed : Process} {rights : Rights}

theorem Grants.retain (grants : process.Grants rights)
    (live : changed.state ≠ .vacant → process.state ≠ .vacant)
    (regions : changed.regions = process.regions) : changed.Grants rights := by
  intro is_live region member
  rw [regions] at member
  exact grants (live is_live) region member

theorem Grants.setBreak (grants : process.Grants rights) {brk : Nat}
    (run : process.setBreak brk = .ok changed) : changed.Grants rights := by
  obtain ⟨_, rfl⟩ := setBreak_eq_ok_iff.1 run
  intro live region member marked
  obtain ⟨old, old_member, same⟩ := Region.mem_of_mem_resize member
  rw [← same] at marked ⊢
  exact grants live old old_member marked

theorem Grants.inherited (grants : process.Grants rights) (live : process.state ≠ .vacant) :
    ∀ region ∈ CallM.inherited process.regions, region.rights = rights.without .write := by
  intro region member
  obtain ⟨old, old_member, rfl⟩ := List.mem_map.1 member
  obtain ⟨present, marked⟩ := List.mem_filter.1 old_member
  rw [grants live old present marked]

/-- A process that is started has the rights that it is started with. -/
theorem Sound.grants {memory : SlotMemory} {image : Extent} {author : Prop}
    (sound : process.Sound memory image author) (houses : memory.Houses image) {pid : Pid}
    {priority : Priority} {taken : Process}
    (run : process.occupy pid priority
      [{ base := image.start, size := image.length, rights }] = .ok (taken, true)) :
    taken.Grants rights := by
  obtain ⟨found, found_run, _, perm, _⟩ :=
    sound.occupy_run houses pid priority (List.Sublist.refl _)
  rw [found_run] at run
  cases run
  intro _ region member marked
  have among := perm.mem_iff.1 member
  have unmarked : Rights.readWrite.includes .image = false := by decide
  have window_unmarked : Rights.read.includes .image = false := by decide
  simp only [fixedRegions, List.cons_append, List.nil_append, List.mem_cons, List.not_mem_nil,
    or_false] at among
  rcases among with rfl | rfl | rfl | rfl
  · rw [unmarked] at marked
    cases marked
  · rfl
  · rw [unmarked] at marked
    cases marked
  · rw [window_unmarked] at marked
    cases marked

end Process

/-- Whether each process has the rights to the program that go with its slot. -/
def ProcessTable.Grants {slots : Nat} (processes : ProcessTable slots)
    (rights : Fin slots → Rights) : Prop :=
  ∀ slot : Fin slots, processes[slot].Grants (rights slot)

end Microkernel
