import Microkernel.Proofs.Process.Checks

/-!
# What a program owns it may pass in

A slice can be made of every aligned base and number of elements that end inside the address space,
and of no others.  The kernel touches it on behalf of a program exactly if the program has the
rights at each of its addresses, byte by byte, whatever the regions are that it runs across.
-/

namespace Microkernel

namespace UserSlice

variable {layout : ElementLayout}

theorem ofRaw_run_eq (sized : layout.size ≠ 0) (base length : Nat) :
    (ofRaw layout base length).run =
      if sensible : base % layout.alignment = 0 ∧
          base + length * layout.size ≤ Word.largest then
        .ok (.ok ⟨base, length, sensible.1, sensible.2⟩)
      else .ok (.error (.usage .invalidSlice)) := by
  split
  next sensible => exact ofRaw_eq layout sized sensible.1 sensible.2
  next senseless => exact ofRaw_eq_invalid layout sized senseless

theorem stop_truncate (slice : UserSlice layout) (most : Nat) :
    (slice.truncate most).stop = slice.base + min slice.length most * layout.size :=
  stop_eq _

theorem base_lt_stop (slice : UserSlice layout) (sized : layout.size ≠ 0)
    (nonempty : slice.isEmpty = false) : slice.base < slice.stop := by
  rw [stop_eq]
  refine Nat.lt_add_of_pos_right (Nat.mul_pos ?_ (Nat.pos_of_ne_zero sized))
  exact Nat.pos_of_ne_zero (beq_eq_false_iff_ne.1 nonempty)

end UserSlice

/-- Whether a check grants something in a certain case, and finds a given fault in every other. -/
structure Guarded.Grants (check : Guarded Unit) (entitled : Prop) (fault : Fault) : Prop where
  granted_iff : check.run = .ok (.ok ()) ↔ entitled
  refused_iff : check.run = .ok (.error fault) ↔ ¬ entitled

namespace Process

variable {process : Process} {layout : ElementLayout} {needed : Rights}

/-- Whether a slice has no element, or the process has rights at each of its addresses. -/
def MayTouch (process : Process) (slice : UserSlice layout) (needed : Rights) : Prop :=
  slice.isEmpty = true ∨ ∀ address, slice.extent.Covers address → process.May needed address

theorem canAccess_eq_true_iff (spaced : Region.Spaced process.regions) (sized : layout.size ≠ 0)
    (slice : UserSlice layout) :
    process.canAccess slice needed = .ok true ↔ process.MayTouch slice needed := by
  rw [canAccess, Region.canAccess_iff spaced.bounded spaced.ordered (slice.base_lt_stop sized),
    slice.span_stop]
  exact or_congr_right ⟨fun may address covered => may address covered.1 covered.2,
    fun may address behind before => may address ⟨behind, before⟩⟩

theorem canAccess_eq_false_iff (spaced : Region.Spaced process.regions) (sized : layout.size ≠ 0)
    (slice : UserSlice layout) :
    process.canAccess slice needed = .ok false ↔ ¬ process.MayTouch slice needed := by
  rw [← canAccess_eq_true_iff spaced sized]
  obtain ⟨answer, run⟩ := Region.canAccess_total spaced.bounded slice.span needed
  rw [canAccess, run]
  cases answer <;> simp

theorem checkAccess_run_eq {slice : UserSlice layout} {answer : Bool}
    (looked : process.canAccess slice needed = .ok answer) :
    (process.checkAccess slice needed).run =
      .ok (if answer = true then .ok () else .error (.memoryAccess slice.base .kernel)) := by
  rw [checkAccess, Guarded.run_bind_ok (Guarded.run_lift looked)]
  cases answer <;> rfl

theorem checkAccess_grants (spaced : Region.Spaced process.regions) (sized : layout.size ≠ 0)
    (slice : UserSlice layout) (needed : Rights) :
    (process.checkAccess slice needed).Grants (process.MayTouch slice needed)
      (.memoryAccess slice.base .kernel) := by
  obtain ⟨answer, looked⟩ := Region.canAccess_total spaced.bounded slice.span needed
  have owned_iff : process.canAccess slice needed = .ok true ↔ process.MayTouch slice needed :=
    canAccess_eq_true_iff spaced sized slice
  rw [canAccess, looked] at owned_iff
  constructor
  · rw [checkAccess_run_eq looked, ← owned_iff]
    cases answer <;> simp
  · rw [checkAccess_run_eq looked, ← owned_iff]
    cases answer <;> simp

/-- Checking a range that a program has named comes to looking at each of its bytes. -/
theorem grants_what_is_owned (spaced : Region.Spaced process.regions) (sized : layout.size ≠ 0)
    (base length : Nat) :
    (UserSlice.ofRaw layout base length).run =
        (if sensible : base % layout.alignment = 0 ∧
            base + length * layout.size ≤ Word.largest then
          .ok (.ok ⟨base, length, sensible.1, sensible.2⟩)
        else .ok (.error (.usage .invalidSlice))) ∧
      ∀ slice : UserSlice layout,
        slice.stop = slice.base + slice.length * layout.size ∧
        (∀ most, (slice.truncate most).stop =
          slice.base + min slice.length most * layout.size) ∧
        (∀ needed, (process.canAccess slice needed = .ok true ↔ process.MayTouch slice needed) ∧
          (process.canAccess slice needed = .ok false ↔ ¬ process.MayTouch slice needed)) ∧
        (process.checkReadable slice).Grants (process.MayTouch slice .read)
          (.memoryAccess slice.base .kernel) ∧
        (process.checkWritable slice).Grants (process.MayTouch slice .write)
          (.memoryAccess slice.base .kernel) := by
  refine ⟨UserSlice.ofRaw_run_eq sized base length, fun slice => ⟨slice.stop_eq,
    slice.stop_truncate, fun needed => ⟨?_, ?_⟩, ?_, ?_⟩⟩
  · exact canAccess_eq_true_iff spaced sized slice
  · exact canAccess_eq_false_iff spaced sized slice
  · exact checkAccess_grants spaced sized slice .read
  · exact checkAccess_grants spaced sized slice .write

/-- A process with two regions that abut, a third behind them that it may only read, an empty one
and, behind a gap, a last one. -/
def patchwork : Process :=
  { Process.vacant ⟨0, 0, 0x4000, 0⟩ 0x1000 with
    regions := [⟨0x1000, 0x1000, .readWrite⟩, ⟨0x2000, 0x1000, .readWrite⟩,
      ⟨0x3000, 0x1000, .read⟩, ⟨0x4000, 0, .readWrite⟩, ⟨0x8000, 0x2000, .readWrite⟩] }

theorem spaced_patchwork : Region.Spaced patchwork.regions where
  sorted := by decide
  apart := by decide
  alone := by decide
  bounded := by
    simp only [Region.Bounded]
    decide

/-- Elements that lie across two regions that abut can be written, and those that lie across the
next two, of which the second can only be read, can be read but not written. -/
theorem patchwork_grants : Region.Spaced patchwork.regions ∧ ElementLayout.word64.size ≠ 0 ∧
    (∃ slice, (UserSlice.ofRaw .word64 0x1800 0x200).run = .ok (.ok slice) ∧
      slice.stop = 0x2800 ∧ (patchwork.checkWritable slice).run = .ok (.ok ())) ∧
    ∃ slice, (UserSlice.ofRaw .word64 0x2800 0x200).run = .ok (.ok slice) ∧
      slice.stop = 0x3800 ∧ (patchwork.checkReadable slice).run = .ok (.ok ()) ∧
      (patchwork.checkWritable slice).run = .ok (.error (.memoryAccess (some 0x2800) .kernel)) := by
  have sized : ElementLayout.word64.size ≠ 0 := by decide
  obtain ⟨near, near_exact⟩ := grants_what_is_owned spaced_patchwork sized 0x1800 0x200
  obtain ⟨far, far_exact⟩ := grants_what_is_owned spaced_patchwork sized 0x2800 0x200
  obtain ⟨near_stop, _, _, _, near_writes⟩ := near_exact ⟨0x1800, 0x200, by decide, by decide⟩
  obtain ⟨far_stop, _, _, far_reads, far_writes⟩ :=
    far_exact ⟨0x2800, 0x200, by decide, by decide⟩
  refine ⟨spaced_patchwork, sized, ⟨_, near, near_stop, near_writes.granted_iff.2 (.inr ?_)⟩,
    _, far, far_stop, far_reads.granted_iff.2 (.inr ?_), far_writes.refused_iff.2 ?_⟩
  · rintro address ⟨behind, before⟩
    by_cases first : address < 0x2000
    · exact ⟨⟨0x1000, 0x1000, .readWrite⟩, by decide, by decide,
        Nat.le_trans (by decide) behind, first⟩
    · exact ⟨⟨0x2000, 0x1000, .readWrite⟩, by decide, by decide, Nat.le_of_not_lt first,
        Nat.lt_of_lt_of_le before (by decide)⟩
  · rintro address ⟨behind, before⟩
    by_cases first : address < 0x3000
    · exact ⟨⟨0x2000, 0x1000, .readWrite⟩, by decide, by decide,
        Nat.le_trans (by decide) behind, first⟩
    · exact ⟨⟨0x3000, 0x1000, .read⟩, by decide, by decide, Nat.le_of_not_lt first,
        Nat.lt_of_lt_of_le before (by decide)⟩
  · rintro (empty | may)
    · cases empty
    · exact absurd (may 0x3000 (by decide)) (by decide)

end Process
end Microkernel
