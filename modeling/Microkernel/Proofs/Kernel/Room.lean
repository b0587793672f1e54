import Microkernel.Proofs.Kernel.Placement

/-!
# How much room the slots need

The runs of pages for the slots are taken one behind the other.  A run that would cover the address
at which processes see their arguments is passed over, after which the next run is behind that
address: so this happens once at most, and looking for a run never takes more than two rounds.  What
the slots need is known in advance, and they get it exactly if the arena has it.
-/

namespace Microkernel
namespace Slots

variable {α β : Type} {pages slots : Nat} {before : Arena .virtual} {runs later : List Nat}

/-! ## Looking for a run -/

/-- What looking for a run comes to that does not cover the argument address, and in how many
rounds: each round takes a run, and another one follows if that run covers the address. -/
inductive Rounds (pages : Nat) :
    Nat → Arena .virtual → EStateM.Result BootError (Arena .virtual) Nat → Prop where
  /-- There are not enough pages. -/
  | short {before left : Arena .virtual} {error : BootError}
      (run : takeRun pages before = .error error left) :
      Rounds pages 1 before (.error error left)
  /-- The run does not cover the address. -/
  | found {before after : Arena .virtual} {first : Nat}
      (run : takeRun pages before = .ok first after)
      (clear : coversArguments first pages = false) :
      Rounds pages 1 before (.ok first after)
  /-- The run covers the address and is passed over. -/
  | passed {before between : Arena .virtual} {first count : Nat}
      {result : EStateM.Result BootError (Arena .virtual) Nat}
      (run : takeRun pages before = .ok first between)
      (covers : coversArguments first pages = true) (rest : Rounds pages count between result) :
      Rounds pages (count + 1) before result

theorem coversArguments_behind {first next : Nat} (covers : coversArguments first pages = true)
    (behind : first + pages * Config.pageSize ≤ next) (others : Nat) :
    coversArguments next others = false := by
  rw [coversArguments, Bool.and_eq_true, decide_eq_true_eq, decide_eq_true_eq] at covers
  rw [coversArguments, Bool.and_eq_false_iff, decide_eq_false_iff_not]
  exact .inl (by omega)

/-- Looking for a run is over after two rounds, with what carving gives. -/
theorem rounds_carve (pages : Nat) (before : Arena .virtual) :
    ∃ count ≤ 2, Rounds pages count before (carve pages before) := by
  cases taken : takeRun pages before with
  | error error left =>
      refine ⟨1, by decide, ?_⟩
      rw [carve, bind_of_error taken]
      exact .short taken
  | ok first between =>
      rw [carve, bind_of_ok taken]
      by_cases covers : coversArguments first pages = true
      · refine ⟨2, Nat.le_refl 2, .passed taken covers ?_⟩
        rw [if_pos covers]
        cases again : takeRun pages between with
        | error error left => exact .short again
        | ok next after =>
            obtain ⟨_, rfl, first_taken⟩ := takeRun_ok taken
            obtain ⟨_, rfl, _⟩ := takeRun_ok again
            exact .found again (coversArguments_behind covers first_taken.le_stop pages)
      · refine ⟨1, by decide, ?_⟩
        rw [if_neg covers]
        exact .found taken (Bool.eq_false_iff.2 covers)

/-! ## What is needed -/

/-- The number of pages that are passed over when runs of some lengths are taken from an address on:
the pages of the run that would cover the argument address, if there is one. -/
def passedOver (cursor : Nat) : List Nat → Nat
  | [] => 0
  | pages :: rest =>
      if coversArguments cursor pages then pages
      else passedOver (cursor + pages * Config.pageSize) rest

/-- The number of pages in runs of some lengths. -/
def total (runs : List Nat) : Nat :=
  runs.foldr (· + ·) 0

/-- The address behind runs of some lengths that are taken from an address on. -/
def stopAfter (cursor : Nat) (runs : List Nat) : Nat :=
  cursor + (total runs + passedOver cursor runs) * Config.pageSize

theorem passedOver_eq_zero {cursor : Nat} (behind : Config.argumentAddress < cursor)
    (runs : List Nat) : passedOver cursor runs = 0 := by
  induction runs generalizing cursor with
  | nil => rfl
  | cons pages rest induction =>
      have clear : ¬ coversArguments cursor pages = true := by
        rw [coversArguments, Bool.and_eq_true, decide_eq_true_eq, decide_eq_true_eq]
        omega
      rw [passedOver, if_neg clear]
      exact induction (Nat.lt_of_lt_of_le behind (Nat.le_add_right _ _))

theorem stopAfter_nil (cursor : Nat) : stopAfter cursor [] = cursor := by
  rw [stopAfter, total, List.foldr_nil, passedOver, Nat.add_zero, Nat.zero_mul, Nat.add_zero]

theorem stopAfter_cons (cursor pages : Nat) (rest : List Nat) :
    stopAfter cursor (pages :: rest) = stopAfter (stopAfter cursor [pages]) rest := by
  by_cases covers : coversArguments cursor pages = true
  · have behind : Config.argumentAddress < cursor + (pages + pages) * Config.pageSize := by
      rw [coversArguments, Bool.and_eq_true, decide_eq_true_eq, decide_eq_true_eq] at covers
      rw [Nat.add_mul]
      omega
    simp only [stopAfter, total, passedOver, if_pos covers, List.foldr_cons, List.foldr_nil,
      Nat.add_zero, passedOver_eq_zero behind]
    simp only [Config.pageSize]
    omega
  · simp only [stopAfter, total, passedOver, if_neg covers, List.foldr_cons, List.foldr_nil,
      Nat.add_zero, Config.pageSize]
    omega

theorem stopAfter_append (cursor : Nat) (runs later : List Nat) :
    stopAfter cursor (runs ++ later) = stopAfter (stopAfter cursor runs) later := by
  induction runs generalizing cursor with
  | nil => rw [List.nil_append, stopAfter_nil]
  | cons pages rest induction =>
      rw [List.cons_append, stopAfter_cons, induction, ← stopAfter_cons]

theorem stopAfter_le_append (cursor : Nat) (runs later : List Nat) :
    stopAfter cursor runs ≤ stopAfter cursor (runs ++ later) := by
  rw [stopAfter_append]
  exact Nat.le_add_right _ _

/-! ## What is taken -/

/-- Whether a result is that of taking runs of some lengths out of an arena, or of failing because
the arena has not got that many pages left. -/
inductive Took (before : Arena .virtual) (runs : List Nat) :
    EStateM.Result BootError (Arena .virtual) α → Prop where
  /-- The runs were taken. -/
  | took (value : α) {after : Arena .virtual} (extends_before : before.Extends after)
      (cursor_eq : after.cursor = stopAfter before.cursor runs)
      (room : after.cursor < before.bound.value) :
      Took before runs (.ok value after)
  /-- The arena has not got enough pages. -/
  | short (left : Arena .virtual) (full : before.bound.value ≤ stopAfter before.cursor runs) :
      Took before runs (.error .outOfPages left)

/-- Whether a computation takes runs of some lengths out of every arena that has got them. -/
def Takes (action : CarveM α) (runs : List Nat) : Prop :=
  ∀ before : Arena .virtual, before.bound.value ≤ Word.limit →
    before.cursor < before.bound.value → Took before runs (action before)

theorem Took.after {between : Arena .virtual}
    {result : EStateM.Result BootError (Arena .virtual) α} (took : Took between later result)
    (steps : before.Extends between) (cursor_eq : between.cursor = stopAfter before.cursor runs) :
    Took before (runs ++ later) result := by
  cases took with
  | took value more stop_eq room =>
      refine .took value (steps.trans more) ?_ (steps.bound_eq ▸ room)
      rw [stopAfter_append, ← cursor_eq, stop_eq]
  | short left full =>
      refine .short left ?_
      rwa [stopAfter_append, ← cursor_eq, ← steps.bound_eq]

theorem takes_pure (value : α) : Takes (pure value : CarveM α) [] := fun before _ room =>
  .took value (.refl before) (stopAfter_nil _).symm room

theorem Takes.bind {action : CarveM α} {next : α → CarveM β} (first : Takes action runs)
    (second : ∀ value, Takes (next value) later) : Takes (action >>= next) (runs ++ later) := by
  intro before word room
  have ended := first before word room
  cases run : action before with
  | error error left =>
      rw [bind_of_error run]
      rw [run] at ended
      cases ended with
      | short left full => exact .short left (Nat.le_trans full (stopAfter_le_append _ _ _))
  | ok value between =>
      rw [bind_of_ok run]
      rw [run] at ended
      cases ended with
      | took value steps cursor_eq inside =>
          exact (second value between (steps.bound_eq ▸ word) (steps.bound_eq ▸ inside)).after
            steps cursor_eq

/-- The arena with some more pages handed out. -/
def grown (arena : Arena .virtual) (pages : Nat) : Arena .virtual :=
  { arena with allocated := arena.allocated + pages }

theorem cursor_grown (arena : Arena .virtual) (pages : Nat) :
    (grown arena pages).cursor = arena.cursor + pages * Config.pageSize := by
  rw [Arena.cursor, grown, Arena.cursor, Nat.add_mul, Nat.add_assoc]

theorem extends_grown (fits : before.cursor + pages * Config.pageSize < before.bound.value) :
    before.Extends (grown before pages) where
  base_eq := rfl
  bound_eq := rfl
  cursor_le := by
    rw [cursor_grown]
    exact Nat.le_add_right _ _
  settled := .inr (by rwa [cursor_grown])

theorem takeRun_eq (word : before.bound.value ≤ Word.limit) (pages : Nat) :
    takeRun pages before =
      if before.cursor + pages * Config.pageSize < before.bound.value then
        .ok before.cursor (grown before pages)
      else .error .outOfPages before := by
  rw [takeRun, bind_of_ok (run_get before), before.allocate?_eq pages word, Arena.cursor]
  split
  next => rfl
  next => rfl

/-- Carving takes one run, and passes one over if it must. -/
theorem takes_carve (pages : Nat) : Takes (carve pages) [pages] := by
  intro before word _
  have once := takeRun_eq word pages
  have needs : stopAfter before.cursor [pages] =
      before.cursor + (pages + if coversArguments before.cursor pages then pages else 0) *
        Config.pageSize := by
    rw [stopAfter, total, List.foldr_cons, List.foldr_nil, Nat.add_zero, passedOver, passedOver]
  have first_cursor := cursor_grown before pages
  split at once
  next fits =>
    rw [carve, bind_of_ok once]
    split
    next covers =>
      -- The run is passed over, and the next one is taken if it ends before the bound.
      rw [if_pos covers, Nat.add_mul, ← Nat.add_assoc, ← first_cursor] at needs
      have word_still : (grown before pages).bound.value ≤ Word.limit := by
        rwa [(extends_grown fits).bound_eq]
      rw [takeRun_eq word_still pages]
      split
      next fits_too =>
        refine .took _ ((extends_grown fits).trans (extends_grown fits_too)) ?_ ?_
        · rw [cursor_grown, needs]
        · rw [cursor_grown]
          exact fits_too
      next full =>
        refine .short _ ?_
        rw [needs]
        exact Nat.not_lt.1 full
    next clear =>
      rw [if_neg clear, Nat.add_zero, ← first_cursor] at needs
      exact .took _ (extends_grown fits) needs.symm (by rwa [first_cursor])
  next full =>
    rw [carve, bind_of_error once]
    refine .short before ?_
    rw [needs, Nat.add_mul]
    omega

/-- The numbers of pages in the runs of a slot. -/
def runsOfSlot : List Nat :=
  [Config.stackPages, 1, Config.heapPages, Paging.processPages]

/-- The numbers of pages in the runs of some slots. -/
def runsOf (slots : Nat) : List Nat :=
  (List.replicate slots runsOfSlot).flatten

theorem takes_carveSlot : Takes carveSlot runsOfSlot :=
  (takes_carve _).bind fun _ => (takes_carve _).bind fun _ => (takes_carve _).bind fun _ =>
    (takes_carve _).bind fun _ => takes_pure _

private theorem takes_carveList (elements : List α) :
    Takes (elements.mapM fun _ => carveSlot) (runsOf elements.length) := by
  induction elements with
  | nil => exact takes_pure _
  | cons element rest induction =>
      rw [List.mapM_cons, List.length_cons, runsOf, List.replicate_succ, List.flatten_cons,
        ← List.append_nil (List.flatten _)]
      exact takes_carveSlot.bind fun _ => induction.bind fun _ => takes_pure _

theorem Takes.of_map {action : CarveM α} {change : α → β} (takes : Takes (change <$> action) runs) :
    Takes action runs := by
  intro before word room
  have took := takes before word room
  simp only [Functor.map, EStateM.map] at took
  split at took
  next run =>
    rw [run]
    cases took with
    | took _ steps cursor_eq inside => exact .took _ steps cursor_eq inside
  next run =>
    rw [run]
    cases took with
    | short _ full => exact .short _ full

theorem takes_carveAll (slots : Nat) : Takes (carveAll slots) (runsOf slots) := by
  have listed := takes_carveList (Vector.range slots).toArray.toList
  rw [← toList_carveAll, Array.length_toList, Vector.size_toArray] at listed
  exact listed.of_map.of_map

variable {action : CarveM α}

theorem Takes.ok_of_fits (takes : Takes action runs) (word : before.bound.value ≤ Word.limit)
    (room : before.cursor < before.bound.value)
    (fits : stopAfter before.cursor runs < before.bound.value) :
    ∃ value after, action before = .ok value after := by
  have took := takes before word room
  cases run : action before with
  | ok value after => exact ⟨value, after, rfl⟩
  | error error left =>
      rw [run] at took
      cases took with
      | short _ full => exact absurd fits (Nat.not_lt.2 full)

theorem Takes.error_of_full (takes : Takes action runs) (word : before.bound.value ≤ Word.limit)
    (room : before.cursor < before.bound.value)
    (full : before.bound.value ≤ stopAfter before.cursor runs) :
    ∃ left, action before = .error .outOfPages left := by
  have took := takes before word room
  cases run : action before with
  | ok value after =>
      rw [run] at took
      cases took with
      | took _ _ cursor_eq inside => exact absurd (cursor_eq ▸ inside) (Nat.not_lt.2 full)
  | error error left =>
      rw [run] at took
      cases took with
      | short left _ => exact ⟨left, rfl⟩

end Slots
end Microkernel
