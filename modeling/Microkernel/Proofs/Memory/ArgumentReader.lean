import Microkernel.Proofs.Memory.ArgumentList

/-!
# Reading any block at all

Whatever a block holds, looking for arguments in it never leads outside of it: the pointer table is
known to be inside before anything is read from it, and a pointer is followed only if it leads to a
terminated text inside the block.  The first one that does not ends the reading for good.
-/

namespace Microkernel

namespace Arguments

variable {arguments : Arguments} {block : List UInt8} {base place index times : Nat}
  {text : List UInt8}

/-- Whether the pointer at a place leads to a text inside the block. -/
def Finds (block : List UInt8) (base place : Nat) (text : List UInt8) : Prop :=
  ∃ offset, wordAt block (pointerSize + place * pointerSize) = base + offset ∧
    0 ∉ text ∧ text ++ [0] <+: block.drop offset

/-- Whether a block has room for a number of arguments and for the pointers to them. -/
structure Fits (arguments : Arguments) : Prop where
  inside : pointerSize + (arguments.count + 1) * pointerSize ≤ arguments.block.length
  word : pointerSize + (arguments.count + 1) * pointerSize < Word.limit

/-! ## The start of the reading -/

/-- Arguments are found in a block exactly if it has room for as many as it announces. -/
theorem parse?_eq_some_iff : parse? block base = some arguments ↔
    arguments = { block, base, count := wordAt block 0, position := 0 } ∧ arguments.Fits := by
  rw [parse?]
  by_cases short : block.length < pointerSize
  · rw [if_pos short]
    refine iff_of_false (by simp) ?_
    rintro ⟨rfl, fits⟩
    have inside := fits.inside
    dsimp only at inside
    omega
  · simp only [if_neg short, Option.bind_eq_bind, Option.bind_eq_some_iff,
      ArgumentWriter.textOffset?_eq_some_iff, Option.ite_none_left_eq_some, Option.pure_def,
      Option.some.injEq]
    constructor
    · rintro ⟨_, ⟨word, rfl⟩, room, rfl⟩
      exact ⟨rfl, Nat.not_lt.1 room, word⟩
    · rintro ⟨rfl, fits⟩
      exact ⟨_, ⟨fits.word, rfl⟩, Nat.not_lt.2 fits.inside, rfl⟩

theorem parse?_eq_none_iff (small : block.length < Word.limit) : parse? block base = none ↔
    block.length < pointerSize ∨
      block.length < pointerSize + (wordAt block 0 + 1) * pointerSize := by
  rw [Option.eq_none_iff_forall_ne_some]
  constructor
  · intro absent
    apply Classical.byContradiction
    intro room
    exact absent _ (parse?_eq_some_iff.2 ⟨rfl, by dsimp only; omega, by dsimp only; omega⟩)
  · intro full arguments parsed
    obtain ⟨rfl, fits⟩ := parse?_eq_some_iff.1 parsed
    have inside := fits.inside
    dsimp only at inside
    omega

/-! ## One question -/

theorem follow?_eq_some_iff {pointer : Nat} : arguments.follow? pointer = some text ↔
    ∃ offset, pointer = arguments.base + offset ∧ 0 ∉ text ∧
      text ++ [0] <+: arguments.block.drop offset := by
  simp only [follow?, suffix?, Word.difference?, Option.bind_eq_bind, Option.bind_eq_some_iff,
    Option.ite_none_left_eq_some, Option.ite_none_right_eq_some, Option.some.injEq,
    terminated?_eq_some_iff]
  constructor
  · rintro ⟨_, ⟨above, rfl⟩, _, ⟨_, rfl⟩, nonzero, begins⟩
    exact ⟨_, (Nat.add_sub_cancel' above).symm, nonzero, begins⟩
  · rintro ⟨offset, rfl, nonzero, begins⟩
    have length := begins.length_le
    rw [List.length_append, List.length_singleton, List.length_drop] at length
    exact ⟨offset, ⟨Nat.le_add_right _ _, Nat.add_sub_cancel_left _ _⟩, _, ⟨by omega, rfl⟩,
      nonzero, begins⟩

theorem text?_eq (arguments : Arguments) : arguments.text? =
    if arguments.count ≤ arguments.position then none
    else arguments.follow?
      (wordAt arguments.block (pointerSize + arguments.position * pointerSize)) := by
  rw [text?]
  split
  next => rfl
  next =>
      simp only [follow?, suffix?, Option.bind_eq_bind]
      congr 1
      funext offset
      split <;> rfl

theorem text?_eq_some_iff : arguments.text? = some text ↔
    arguments.position < arguments.count ∧
      Finds arguments.block arguments.base arguments.position text := by
  rw [text?_eq, Option.ite_none_left_eq_some, Nat.not_le, follow?_eq_some_iff]
  rfl

/-- The pointer of an argument is inside the block. -/
theorem Fits.pointer_eq (fits : arguments.Fits) (announced : place < arguments.count) :
    arguments.pointer place =
      .ok (wordAt arguments.block (pointerSize + place * pointerSize)) := by
  have inside := fits.inside
  have word := fits.word
  have near : pointerSize + place * pointerSize + pointerSize ≤
      pointerSize + (arguments.count + 1) * pointerSize := by
    simp only [pointerSize]
    omega
  have product : Word.product place pointerSize = .ok (place * pointerSize) := by
    rw [Word.product_eq_ok_iff]
    exact ⟨by omega, rfl⟩
  have start : Word.sum pointerSize (place * pointerSize) =
      .ok (pointerSize + place * pointerSize) := by
    rw [Word.sum_eq_ok_iff]
    exact ⟨by omega, rfl⟩
  have stop : Word.sum (pointerSize + place * pointerSize) pointerSize =
      .ok (pointerSize + place * pointerSize + pointerSize) := by
    rw [Word.sum_eq_ok_iff]
    exact ⟨by omega, rfl⟩
  simp only [pointer, loadWord, product, start, stop, bind, Except.bind]
  rw [if_pos (near.trans inside)]
  rfl

/-- Asking once never crashes, and leads on exactly if there is a next argument. -/
theorem Fits.step_eq (fits : arguments.Fits) : arguments.step = .ok
    (match arguments.next? with
      | some (text, rest) => (some text, rest)
      | none => (none, arguments)) := by
  rw [step, next?, text?_eq]
  split
  next => rfl
  next left =>
      have announced := Nat.not_le.1 left
      have further : Word.sum arguments.position 1 = .ok (arguments.position + 1) := by
        have word := fits.word
        rw [Word.sum_eq_ok_iff]
        exact ⟨by simp only [pointerSize] at word; omega, rfl⟩
      simp only [fits.pointer_eq announced, further, bind, Except.bind]
      cases arguments.follow? _ <;> rfl

/-! ## Any number of questions -/

/-- Asking never crashes, no matter how often. -/
theorem Fits.steps_eq (fits : arguments.Fits) (times : Nat) :
    arguments.steps times = .ok (arguments.ask times) := by
  induction times generalizing arguments with
  | zero => rfl
  | succ times induction =>
      rw [steps, fits.step_eq, ask]
      cases asked : arguments.next? with
      | none =>
          simp only [bind, Except.bind, induction fits]
          rfl
      | some found =>
          obtain ⟨text, rest⟩ := found
          simp only [next?, Option.bind_eq_bind, Option.bind_eq_some_iff, Option.pure_def,
            Option.some.injEq, Prod.mk.injEq] at asked
          obtain ⟨_, _, _, rfl⟩ := asked
          have rest_fits : Fits { arguments with position := arguments.position + 1 } :=
            ⟨fits.inside, fits.word⟩
          simp only [bind, Except.bind, induction rest_fits]
          rfl

theorem length_ask (arguments : Arguments) (times : Nat) :
    (arguments.ask times).length = times := by
  induction times generalizing arguments with
  | zero => rfl
  | succ times induction =>
      rw [ask]
      split <;> rw [List.length_cons, induction]

/-- A question is answered with a text exactly if all those before it were, and there is one. -/
theorem getElem?_ask_eq_some_iff : (arguments.ask times)[index]? = some (some text) ↔
    index < times ∧
      (∀ earlier < index,
        (text? { arguments with position := arguments.position + earlier }).isSome) ∧
      text? { arguments with position := arguments.position + index } = some text := by
  induction times generalizing arguments index with
  | zero => simp [ask]
  | succ times induction =>
      rw [ask, next?]
      cases first : arguments.text? with
      | none =>
          have nowhere : (none :: arguments.ask times)[index]? ≠ some (some text) := by
            rw [ask_of_ended first, ← List.replicate_succ, List.getElem?_replicate]
            split <;> simp
          refine iff_of_false nowhere ?_
          rintro ⟨_, before, here⟩
          -- The question that was not answered comes before this one, or it is this one.
          rcases Nat.eq_zero_or_pos index with rfl | later
          · cases first.symm.trans here
          · have answered := before 0 later
            rw [Nat.add_zero, first] at answered
            cases answered
      | some found =>
          simp only [Option.bind_eq_bind, Option.bind_some, Option.pure_def]
          cases index with
          | zero => simp [first]
          | succ index =>
              simp only [List.getElem?_cons_succ, induction, Nat.add_lt_add_iff_right]
              refine and_congr_right fun _ => and_congr ?_ ?_
              · rw [Nat.forall_lt_succ_left]
                simp only [Nat.add_zero, first, Option.isSome_some, true_and, Nat.add_assoc,
                  Nat.add_comm 1]
              · rw [Nat.add_assoc, Nat.add_comm 1]

theorem getElem?_ask_of_ended {later : Nat} (ended : (arguments.ask times)[index]? = some none)
    (after : index ≤ later) (asked : later < times) :
    (arguments.ask times)[later]? = some none := by
  have inside : later < (arguments.ask times).length := (length_ask arguments times).symm ▸ asked
  cases found : (arguments.ask times)[later] with
  | none => rw [List.getElem?_eq_getElem inside, found]
  | some text =>
      have here : (arguments.ask times)[later]? = some (some text) := by
        rw [List.getElem?_eq_getElem inside, found]
      obtain ⟨_, before, last⟩ := getElem?_ask_eq_some_iff.1 here
      have answered : ∃ other, text? { arguments with position := arguments.position + index } =
          some other := by
        rcases Nat.eq_or_lt_of_le after with rfl | earlier
        · exact ⟨text, last⟩
        · exact Option.isSome_iff_exists.1 (before index earlier)
      obtain ⟨other, found⟩ := answered
      have contrary : (arguments.ask times)[index]? = some (some other) :=
        getElem?_ask_eq_some_iff.2 ⟨by omega, fun earlier less => before earlier (by omega), found⟩
      cases ended.symm.trans contrary

/-- From the start, the questions that are answered are those up to the first pointer that leads to
no text. -/
theorem getElem?_ask_start {count : Nat} :
    (ask { block, base, count, position := 0 } times)[index]? = some (some text) ↔
      index < times ∧ index < count ∧
        (∀ earlier < index, ∃ other, Finds block base earlier other) ∧
        Finds block base index text := by
  simp only [getElem?_ask_eq_some_iff, Option.isSome_iff_exists, text?_eq_some_iff, Nat.zero_add,
    exists_and_left]
  constructor
  · rintro ⟨asked, before, announced, here⟩
    exact ⟨asked, announced, fun earlier less => (before earlier less).2, here⟩
  · rintro ⟨asked, announced, before, here⟩
    exact ⟨asked, fun earlier less => ⟨less.trans announced, before earlier less⟩, announced, here⟩

/-- No block makes its reader crash or look outside of it.  Arguments are found unless the block is
too short for their number or for the pointers to them.  However often one then asks, each question
is answered, and with a text exactly if there are more arguments than questions before and each
pointer so far leads to a text inside the block.  After the first question that is not answered with
a text, none is. -/
theorem steps_safe (block : List UInt8) (base : Nat) (small : block.length < Word.limit) :
    (parse? block base = none ↔ block.length < pointerSize ∨
      block.length < pointerSize + (wordAt block 0 + 1) * pointerSize) ∧
    ∀ arguments, parse? block base = some arguments → ∀ times, ∃ results,
      arguments.steps times = .ok results ∧ results.length = times ∧
      (∀ index text, results[index]? = some (some text) ↔
        index < times ∧ index < wordAt block 0 ∧
          (∀ earlier < index, ∃ other, Finds block base earlier other) ∧
          Finds block base index text) ∧
      ∀ index later, results[index]? = some none → index ≤ later → later < times →
        results[later]? = some none := by
  refine ⟨parse?_eq_none_iff small, fun arguments parsed times => ?_⟩
  obtain ⟨rfl, fits⟩ := parse?_eq_some_iff.1 parsed
  exact ⟨_, fits.steps_eq times, length_ask _ times, fun _ _ => getElem?_ask_start,
    fun _ _ => getElem?_ask_of_ended⟩

/-- The bytes of two arguments, where the pointer to the second one leads nowhere. -/
def strayBlock : List UInt8 :=
  [2, 0, 0, 0, 0, 0, 0, 0,  32, 0, 0, 1, 0, 0, 0, 0,  16, 0, 0, 0, 0, 0, 0, 0,
    0, 0, 0, 0, 0, 0, 0, 0,  111, 107, 0]

/-- The first of two arguments is found, and the second one, whose pointer leads nowhere, is not. -/
theorem steps_safe_stray : strayBlock.length < Word.limit ∧
    ∃ arguments, parse? strayBlock 0x1000000 = some arguments ∧
      arguments.steps 3 = .ok [some [111, 107], none, none] ∧
      Finds strayBlock 0x1000000 0 [111, 107] ∧
      ¬ ∃ text, Finds strayBlock 0x1000000 1 text := by
  have small : strayBlock.length < Word.limit := by decide
  have evaluated : (parse? strayBlock 0x1000000).any (fun arguments =>
      decide (arguments.steps 3 = .ok [some [111, 107], none, none])) = true := by
    decide +kernel
  simp only [Option.any_eq_true, decide_eq_true_eq] at evaluated
  obtain ⟨arguments, parsed, asked⟩ := evaluated
  obtain ⟨results, run, _, answered, _⟩ :=
    (steps_safe strayBlock 0x1000000 small).2 arguments parsed 3
  cases asked.symm.trans run
  obtain ⟨_, _, _, first⟩ := (answered 0 [111, 107]).1 rfl
  refine ⟨small, arguments, parsed, asked, first, ?_⟩
  rintro ⟨text, second⟩
  have more : 1 < wordAt strayBlock 0 := by decide +kernel
  have before : ∀ earlier < 1, ∃ other, Finds strayBlock 0x1000000 earlier other := by
    intro earlier less
    cases Nat.lt_one_iff.1 less
    exact ⟨_, first⟩
  cases (answered 1 text).2 ⟨by decide, more, before, second⟩

end Arguments

end Microkernel
