import Mathlib.Algebra.Ring.Parity
import Mathlib.Data.List.Duplicate
import Mathlib.Data.List.Perm.Basic
import Microkernel.Schedule

/-!
# Gathering hints

Hints are merged two at a time.  Which of two comes first never matters, but a disagreement is
forgotten as soon as a third slot is named, so the outcome can depend on the order and on the groups
in which hints are gathered.  It does not exactly if all hints that name a slot name the same one,
or if they name different slots and their number is even.
-/

namespace Microkernel

namespace Hint

/-- Whether the hint names a slot. -/
def namesSlot : Hint → Bool
  | specific _ => true
  | _ => false

/-- Those of some hints that name a slot. -/
def naming (hints : List Hint) : List Hint :=
  hints.filter (·.namesSlot)

/-- Whether no order and no grouping of some hints can be told from another: all that name a slot
name the same one, or they all name different slots and their number is even. -/
def Orderless (hints : List Hint) : Prop :=
  (∀ hint ∈ naming hints, ∀ later ∈ naming hints, hint = later) ∨
    (naming hints).Nodup ∧ Even (naming hints).length

instance (hints : List Hint) : Decidable (Orderless hints) :=
  inferInstanceAs (Decidable (_ ∨ _))

variable {hint first second third outcome : Hint} {hints later order : List Hint}

theorem namesSlot_iff : hint.namesSlot = true ↔ ∃ slot, hint = specific slot := by
  cases hint <;> simp [namesSlot]

theorem naming_append (hints later : List Hint) :
    naming (hints ++ later) = naming hints ++ naming later :=
  List.filter_append ..

theorem naming_cons_of_free (free : hint.namesSlot = false) :
    naming (hint :: later) = naming later :=
  List.filter_cons_of_neg (by simp [free])

theorem naming_perm (reorder : later.Perm hints) : (naming later).Perm (naming hints) :=
  reorder.filter _

theorem mem_naming : hint ∈ naming hints ↔ hint ∈ hints ∧ hint.namesSlot = true :=
  List.mem_filter

/-! ## Merging two hints -/

theorem combine_eq_same_iff : first.combine second = same ↔ first = same ∧ second = same := by
  cases first <;> cases second <;> simp only [combine]
  case specific.specific => split <;> simp
  all_goals simp

theorem combine_eq_left (names : first.namesSlot = true)
    (agree : second.namesSlot = true → second = first) : first.combine second = first := by
  obtain ⟨slot, rfl⟩ := namesSlot_iff.1 names
  cases second with
  | same => rfl
  | other => rfl
  | specific => rw [agree rfl, combine_self]

theorem combine_eq_other (first_names : first.namesSlot = true)
    (second_names : second.namesSlot = true) (differ : first ≠ second) :
    first.combine second = other := by
  obtain ⟨slot, rfl⟩ := namesSlot_iff.1 first_names
  obtain ⟨later_slot, rfl⟩ := namesSlot_iff.1 second_names
  exact if_neg fun agree => differ (congrArg specific agree)

theorem namesSlot_combine_eq_false (first_free : first.namesSlot = false)
    (second_free : second.namesSlot = false) : (first.combine second).namesSlot = false := by
  cases first <;> cases second <;> simp_all [namesSlot, combine]

theorem combine_eq_right (names : second.namesSlot = true)
    (merged : (first.combine second).namesSlot = true) : first.combine second = second := by
  rw [combine_comm]
  refine combine_eq_left names fun first_names => ?_
  by_contra differ
  rw [combine_eq_other first_names names differ] at merged
  cases merged

theorem combine_eq_or (names : (first.combine second).namesSlot = true) :
    first.combine second = first ∨ first.combine second = second := by
  cases second_names : second.namesSlot with
  | true => exact .inr (combine_eq_right second_names names)
  | false =>
      cases first_names : first.namesSlot with
      | true => exact .inl (combine_eq_left first_names (by simp [second_names]))
      | false =>
          rw [namesSlot_combine_eq_false first_names second_names] at names
          cases names

theorem combine_combine_self (names : second.namesSlot = true) :
    (first.combine second).combine second = second := by
  rw [combine_comm]
  exact combine_eq_left names (combine_eq_right names)

/-- If two hints do not name the same slot, the merged one names none exactly if both or neither of
them name one. -/
theorem combine_free_iff
    (differ : first.namesSlot = true → second.namesSlot = true → first ≠ second) :
    (first.combine second).namesSlot = false ↔
      (first.namesSlot = false ↔ second.namesSlot = false) := by
  cases first_names : first.namesSlot <;> cases second_names : second.namesSlot
  case true.true =>
    rw [combine_eq_other first_names second_names (differ first_names second_names)]
    simp [namesSlot]
  case true.false =>
    rw [combine_eq_left first_names (by simp [second_names]), first_names]
    simp
  case false.true =>
    rw [combine_comm, combine_eq_left second_names (by simp [first_names]), second_names]
    simp
  case false.false =>
    rw [namesSlot_combine_eq_false first_names second_names]
    simp

/-- Three hints can be merged from the left or from the right, unless each of them names a slot and
the first and the last one disagree. -/
theorem combine_assoc_iff :
    (first.combine second).combine third = first.combine (second.combine third) ↔
      (first.namesSlot = true → second.namesSlot = true → third.namesSlot = true →
        first = third) := by
  cases first <;> cases second <;> cases third <;> grind [combine, namesSlot]

/-! ## Merging in groups -/

/-- A way of gathering hints: a single one, or two groups that are merged. -/
inductive Gathering where
  /-- One hint. -/
  | single (hint : Hint)
  /-- What one group comes to, merged with what a later one comes to. -/
  | join (former latter : Gathering)

namespace Gathering

/-- The hints that are gathered, from the first to the last. -/
def gathered : Gathering → List Hint
  | single hint => [hint]
  | join former latter => former.gathered ++ latter.gathered

/-- What the hints come to. -/
def merged : Gathering → Hint
  | single hint => hint
  | join former latter => former.merged.combine latter.merged

/-- Hints that are merged one by one with those that have been gathered so far. -/
def inTurn (start : Gathering) (later : List Hint) : Gathering :=
  later.foldl (fun gathering hint => gathering.join (.single hint)) start

theorem gathered_inTurn (start : Gathering) (later : List Hint) :
    (start.inTurn later).gathered = start.gathered ++ later := by
  induction later generalizing start with
  | nil => rw [inTurn, List.foldl_nil, List.append_nil]
  | cons hint rest induction =>
      change ((start.join (.single hint)).inTurn rest).gathered = _
      rw [induction, gathered, gathered, List.append_assoc, List.singleton_append]

theorem merged_inTurn (start : Gathering) (later : List Hint) :
    (start.inTurn later).merged = start.merged.combineAll later := by
  induction later generalizing start with
  | nil => rfl
  | cons hint rest induction => exact induction (start.join (.single hint))

theorem merged_eq_same_iff (gathering : Gathering) :
    gathering.merged = same ↔ ∀ hint ∈ gathering.gathered, hint = same := by
  induction gathering with
  | single hint => simp [merged, gathered]
  | join former latter former_iff latter_iff =>
      rw [merged, combine_eq_same_iff, former_iff, latter_iff, gathered, List.forall_mem_append]

theorem merged_mem {gathering : Gathering} (names : gathering.merged.namesSlot = true) :
    gathering.merged ∈ naming gathering.gathered := by
  induction gathering with
  | single hint => exact mem_naming.2 ⟨List.mem_singleton_self hint, names⟩
  | join former latter former_mem latter_mem =>
      rw [gathered, naming_append]
      rw [merged] at names ⊢
      rcases combine_eq_or names with kept | kept <;> rw [kept] at names ⊢
      · exact List.mem_append_left _ (former_mem names)
      · exact List.mem_append_right _ (latter_mem names)

theorem merged_eq_of_agree {gathering : Gathering} (member : hint ∈ naming gathering.gathered)
    (agree : ∀ named ∈ naming gathering.gathered, named = hint) : gathering.merged = hint := by
  have names := (mem_naming.1 member).2
  induction gathering with
  | single only => exact (List.mem_singleton.1 (mem_naming.1 member).1).symm
  | join former latter former_eq latter_eq =>
      rw [gathered, naming_append] at member agree
      obtain ⟨former_agree, latter_agree⟩ := List.forall_mem_append.1 agree
      rw [merged]
      rcases List.mem_append.1 member with member | member
      · rw [former_eq member former_agree]
        exact combine_eq_left names fun latter_names => latter_agree _ (merged_mem latter_names)
      · rw [latter_eq member latter_agree, combine_comm]
        exact combine_eq_left names fun former_names => former_agree _ (merged_mem former_names)

/-- If the hints that name a slot name different ones, no slot is named in the end exactly if their
number is even. -/
theorem merged_free_iff {gathering : Gathering}
    (distinct : (naming gathering.gathered).Nodup) :
    gathering.merged.namesSlot = false ↔ Even (naming gathering.gathered).length := by
  induction gathering with
  | single hint => cases hint <;> simp [merged, gathered, naming, namesSlot]
  | join former latter former_iff latter_iff =>
      rw [gathered, naming_append] at distinct ⊢
      obtain ⟨former_distinct, latter_distinct, apart⟩ := List.nodup_append.1 distinct
      -- No slot is named in both groups, so two names can only cancel each other.
      have differ (former_names : former.merged.namesSlot = true)
          (latter_names : latter.merged.namesSlot = true) : former.merged ≠ latter.merged :=
        apart _ (merged_mem former_names) _ (merged_mem latter_names)
      rw [merged, combine_free_iff differ, former_iff former_distinct,
        latter_iff latter_distinct, List.length_append, Nat.even_add]

theorem merged_eq_of_free {gathering regrouped : Gathering}
    (reorder : regrouped.gathered.Perm gathering.gathered)
    (free : gathering.merged.namesSlot = false)
    (regrouped_free : regrouped.merged.namesSlot = false) :
    regrouped.merged = gathering.merged := by
  have alike : regrouped.merged = same ↔ gathering.merged = same := by
    simp only [merged_eq_same_iff, reorder.mem_iff]
  cases outcome : gathering.merged <;> cases regrouped_outcome : regrouped.merged <;>
    simp_all [namesSlot]

end Gathering

/-! ## Any order and any groups -/

/-- Whether hints come to an outcome when they are merged one by one, in whatever order. -/
def InAnyOrder (hints : List Hint) (outcome : Hint) : Prop :=
  ∀ (first : Hint) (later : List Hint), (first :: later).Perm hints →
    first.combineAll later = outcome

/-- Whether hints come to an outcome in whatever order and in whatever groups they are merged. -/
def InAnyGroups (hints : List Hint) (outcome : Hint) : Prop :=
  ∀ gathering : Gathering, gathering.gathered.Perm hints → gathering.merged = outcome

theorem InAnyGroups.inAnyOrder (alike : InAnyGroups hints outcome) : InAnyOrder hints outcome := by
  intro first later reorder
  rw [← alike (Gathering.inTurn (.single first) later) (by rwa [Gathering.gathered_inTurn]),
    Gathering.merged_inTurn]
  rfl

theorem Orderless.agree_or_even (orderless : Orderless hints) :
    (∃ hint ∈ naming hints, ∀ named ∈ naming hints, named = hint) ∨
      (naming hints).Nodup ∧ Even (naming hints).length := by
  refine orderless.elim (fun agree => ?_) .inr
  by_cases nobody : naming hints = []
  · simp [nobody]
  · obtain ⟨hint, member⟩ := List.exists_mem_of_ne_nil _ nobody
    exact .inl ⟨hint, member, fun named among => agree named among hint member⟩

theorem Orderless.merged_eq {gathering regrouped : Gathering}
    (orderless : Orderless gathering.gathered)
    (reorder : regrouped.gathered.Perm gathering.gathered) :
    regrouped.merged = gathering.merged := by
  have same_names := naming_perm reorder
  rcases orderless.agree_or_even with ⟨hint, member, agree⟩ | ⟨distinct, even⟩
  · rw [Gathering.merged_eq_of_agree member agree]
    exact Gathering.merged_eq_of_agree (same_names.mem_iff.2 member)
      fun named among => agree named (same_names.mem_iff.1 among)
  · refine Gathering.merged_eq_of_free reorder ((Gathering.merged_free_iff distinct).2 even)
      ((Gathering.merged_free_iff (same_names.nodup_iff.2 distinct)).2 ?_)
    rw [same_names.length_eq]
    exact even

theorem combineAll_concat (first : Hint) (later : List Hint) (last : Hint) :
    first.combineAll (later ++ [last]) = (first.combineAll later).combine last :=
  List.foldl_concat ..

theorem combineAll_free_iff (free : first.namesSlot = false) (distinct : (naming later).Nodup) :
    (first.combineAll later).namesSlot = false ↔ Even (naming later).length := by
  have gathered : naming ((Gathering.single first).inTurn later).gathered = naming later := by
    rw [Gathering.gathered_inTurn]
    exact naming_cons_of_free free
  rw [← gathered] at distinct ⊢
  rw [← Gathering.merged_free_iff distinct, Gathering.merged_inTurn, Gathering.merged]

/-- If no order leads to a named slot, the named slots are different and even in number: a slot that
is named twice can be named twice at the end. -/
theorem distinct_and_even_of_free (first : Hint) (free : first.namesSlot = false)
    (never : ∀ order : List Hint, order.Perm later → (first.combineAll order).namesSlot = false) :
    (naming later).Nodup ∧ Even (naming later).length := by
  have distinct : (naming later).Nodup := by
    by_contra repeated
    obtain ⟨hint, twice⟩ := List.exists_duplicate_iff_not_nodup.2 repeated
    have names := (mem_naming.1 twice.mem).2
    obtain ⟨rest, reorder⟩ :=
      ((List.duplicate_iff_sublist.1 twice).trans List.filter_sublist).exists_perm_append
    have ends := never (rest ++ [hint] ++ [hint]) (by
      rw [List.append_assoc]
      exact List.perm_append_comm.trans reorder.symm)
    rw [combineAll_concat, combineAll_concat, combine_combine_self names, names] at ends
    cases ends
  exact ⟨distinct, (combineAll_free_iff free distinct).1 (never later (.refl _))⟩

theorem InAnyOrder.combineAll_same (alike : InAnyOrder hints outcome) (nonempty : hints ≠ [])
    (reorder : order.Perm hints) : same.combineAll order = outcome := by
  cases order with
  | nil => exact absurd reorder.nil_eq.symm nonempty
  | cons head tail =>
      rw [combineAll, List.foldl_cons, same_combine]
      exact alike head tail reorder

theorem InAnyOrder.eq_of_names (alike : InAnyOrder hints outcome)
    (names : outcome.namesSlot = true) (member : hint ∈ naming hints) : outcome = hint := by
  obtain ⟨gathered, hint_names⟩ := mem_naming.1 member
  have last := alike.combineAll_same (List.ne_nil_of_mem gathered)
    ((List.perm_append_singleton hint (hints.erase hint)).trans
      (List.perm_cons_erase gathered).symm)
  rw [combineAll_concat] at last
  rw [← last] at names ⊢
  exact combine_eq_right hint_names names

theorem InAnyOrder.orderless (alike : InAnyOrder hints outcome) : Orderless hints := by
  refine or_iff_not_imp_left.2 fun disagree => ?_
  push Not at disagree
  obtain ⟨first, first_member, second, second_member, differ⟩ := disagree
  -- Either of two that disagree could come last, so a slot that is named would be both of theirs.
  have free : outcome.namesSlot = false := by
    rw [← Bool.not_eq_true]
    intro names
    exact differ ((alike.eq_of_names names first_member).symm.trans
      (alike.eq_of_names names second_member))
  have nonempty : hints ≠ [] := List.ne_nil_of_mem (mem_naming.1 first_member).1
  refine distinct_and_even_of_free same rfl fun order reorder => ?_
  rw [alike.combineAll_same nonempty reorder]
  exact free

theorem Orderless.inAnyGroups (orderless : Orderless (first :: later)) :
    InAnyGroups (first :: later) (first.combineAll later) := by
  have in_turn : ((Gathering.single first).inTurn later).gathered = first :: later :=
    Gathering.gathered_inTurn ..
  intro gathering reorder
  rw [← in_turn] at orderless reorder
  rw [orderless.merged_eq reorder, Gathering.merged_inTurn, Gathering.merged]

example : Orderless [specific 1, specific 2, specific 3, specific 4] ∧
    ¬ Orderless [specific 1, specific 2, specific 1] := by
  decide

/-- Two slots that disagree leave the choice to the scheduler whatever the order of later hints
exactly if these name different slots, and an even number of them. -/
theorem disagreement_stays_iff (first_names : first.namesSlot = true)
    (second_names : second.namesSlot = true) (differ : first ≠ second) :
    (∀ order : List Hint, order.Perm later →
      (first.combine second).combineAll order = other) ↔
      (naming later).Nodup ∧ Even (naming later).length := by
  rw [combine_eq_other first_names second_names differ]
  constructor
  · intro stays
    refine distinct_and_even_of_free other rfl fun order reorder => ?_
    rw [stays order reorder]
    rfl
  · rintro ⟨distinct, even⟩ order reorder
    have same_names := naming_perm reorder
    have free : (other.combineAll order).namesSlot = false := by
      rw [combineAll_free_iff rfl (same_names.nodup_iff.2 distinct), same_names.length_eq]
      exact even
    have switches : other.combineAll order ≠ same := by
      have in_turn := ((Gathering.single other).inTurn order).merged_eq_same_iff
      rw [Gathering.merged_inTurn, Gathering.merged, Gathering.gathered_inTurn] at in_turn
      intro unasked
      cases in_turn.1 unasked other List.mem_cons_self
    cases outcome : other.combineAll order with
    | same => exact absurd outcome switches
    | other => rfl
    | specific slot =>
        rw [outcome] at free
        cases free

/-- Merging two hints is idempotent and commutative, and no switch is its identity.  It is
associative but for three named slots of which the outer two differ, so the outcome of a nonempty
list of hints is that of all its orders, and that of all groupings of all its orders, exactly if the
list is orderless.  Two slots that disagree leave the choice to the scheduler however the later
hints are ordered exactly if these name different slots, and an even number of them. -/
theorem gathers_alike_iff (first second third : Hint) (later : List Hint) :
    first.combine first = first ∧
    same.combine first = first ∧ first.combine same = first ∧
    first.combine second = second.combine first ∧
    ((first.combine second).combine third = first.combine (second.combine third) ↔
      (first.namesSlot = true → second.namesSlot = true → third.namesSlot = true →
        first = third)) ∧
    (InAnyOrder (first :: later) (first.combineAll later) ↔ Orderless (first :: later)) ∧
    (InAnyGroups (first :: later) (first.combineAll later) ↔ Orderless (first :: later)) ∧
    (first.namesSlot = true → second.namesSlot = true → first ≠ second →
      ((∀ order : List Hint, order.Perm later →
        (first.combine second).combineAll order = other) ↔
        (naming later).Nodup ∧ Even (naming later).length)) := by
  refine ⟨combine_self first, same_combine first, combine_same first, combine_comm first second,
    combine_assoc_iff, ⟨InAnyOrder.orderless, fun orderless => ?_⟩,
    ⟨fun alike => ?_, Orderless.inAnyGroups⟩, disagreement_stays_iff⟩
  · exact orderless.inAnyGroups.inAnyOrder
  · exact alike.inAnyOrder.orderless

/-- The third of three different slots wins over the two that disagree before it, so that reversing
the hints names another slot, and so does merging the last two first. -/
theorem third_name_wins :
    (specific 1).combine (specific 2) = other ∧
      (specific 1).combineAll [specific 2, specific 3] = specific 3 ∧
      [specific 3, specific 2, specific 1].Perm [specific 1, specific 2, specific 3] ∧
      (specific 3).combineAll [specific 2, specific 1] = specific 1 ∧
      (specific 1).combine ((specific 2).combine (specific 3)) = specific 1 := by
  decide

end Hint

namespace ProcessTable

variable {slots : Nat} {candidates : List (Fin slots)}

/-- The hint of one process that asks to run. -/
private def hintOf (slot : Fin slots) : Hint :=
  .specific slot.val

theorem hintFor_eq (candidates : List (Fin slots)) :
    hintFor candidates = Hint.same.combineAll (candidates.map hintOf) :=
  (List.foldl_map ..).symm

private theorem orderless_iff (distinct : candidates.Nodup) :
    Hint.Orderless (candidates.map hintOf) ↔ candidates.length ≤ 1 ∨ Even candidates.length := by
  have everyone : Hint.naming (candidates.map hintOf) = candidates.map hintOf := by
    simp [Hint.naming, hintOf, Hint.namesSlot]
  have injective : Function.Injective (hintOf : Fin slots → Hint) := fun _ _ same =>
    Fin.ext (Hint.specific.inj same)
  have agree_iff : (∀ hint ∈ candidates.map hintOf, ∀ named ∈ candidates.map hintOf,
      hint = named) ↔ candidates.length ≤ 1 := by
    simp only [List.forall_mem_map, injective.eq_iff]
    rcases candidates with _ | ⟨one, _ | ⟨two, rest⟩⟩
    · simp
    · simp
    · have differ : one ≠ two := by
        rintro rfl
        exact (List.nodup_cons.1 distinct).1 List.mem_cons_self
      simp [differ]
  rw [Hint.Orderless, everyone, agree_iff, List.nodup_map_iff injective, List.length_map,
    and_iff_right distinct]

/-- The hint for processes that ask to run depends on the order in which they are found exactly if
their number is odd and at least three. -/
theorem hintFor_perm_iff (distinct : candidates.Nodup) :
    (∀ order : List (Fin slots), order.Perm candidates → hintFor order = hintFor candidates) ↔
      candidates.length ≤ 1 ∨ Even candidates.length := by
  rw [← orderless_iff distinct]
  constructor
  · intro alike
    have in_any_order : Hint.InAnyOrder (candidates.map hintOf) (hintFor candidates) := by
      intro first later reorder
      obtain ⟨order, hints_eq, order_perm⟩ : ∃ order : List (Fin slots),
          first :: later = order.map hintOf ∧ order.Perm candidates :=
        cast (congrFun₂ (List.eq_map_comp_perm hintOf) _ _).symm reorder
      rw [← alike order order_perm, hintFor_eq, ← hints_eq, Hint.combineAll, Hint.combineAll,
        List.foldl_cons, Hint.same_combine]
    exact in_any_order.orderless
  · intro orderless order reorder
    cases candidates with
    | nil => rw [reorder.eq_nil]
    | cons slot rest =>
        have alike := orderless.inAnyGroups.inAnyOrder
        have nonempty : (slot :: rest).map hintOf ≠ [] := List.cons_ne_nil _ _
        rw [hintFor_eq, hintFor_eq, alike.combineAll_same nonempty (reorder.map hintOf)]
        exact (alike.combineAll_same nonempty (.refl _)).symm

end ProcessTable
end Microkernel
