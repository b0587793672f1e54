import Mathlib.Data.List.Forall2
import Mathlib.Data.List.TakeWhile
import Mathlib.Data.Nat.Digits.Defs
import Mathlib.Tactic.Ring
import Microkernel.Text.Numeral

/-!
# Which texts are numerals

A text is read as a number exactly if it follows the grammar given here once the white space around
it and the underscores are gone, and if the number that the grammar gives it is a word.  Every other
text is refused.  In particular each word is read back, in base ten and in base sixteen, whatever
white space and underscores have been added.
-/

namespace Microkernel
namespace Numeral

variable {base value number : Nat} {digit mark : Char} {digits text core : List Char}

/-! ## The grammar -/

/-- Whether a character is the digit for a value in a base, in either case. -/
def IsDigit (base : Nat) (digit : Char) (value : Nat) : Prop :=
  value < base ∧ (digit = Nat.digitChar value ∨ digit = (Nat.digitChar value).toUpper)

/-- Whether digits, at least one and the highest first, denote a number in a base. -/
def Denotes (base : Nat) (digits : List Char) (number : Nat) : Prop :=
  digits ≠ [] ∧ ∃ values, List.Forall₂ (IsDigit base) digits values ∧
    Nat.ofDigits base values.reverse = number

/-- Whether digits with an optional plus sign in front denote a number in a base. -/
inductive DenotesSigned (base : Nat) : (text : List Char) → (number : Nat) → Prop where
  | bare {digits : List Char} {number : Nat} (denotes : Denotes base digits number) :
      DenotesSigned base digits number
  | plus {digits : List Char} {number : Nat} (denotes : Denotes base digits number) :
      DenotesSigned base ('+' :: digits) number

/-- Whether a text denotes a number, in base ten or, behind a mark, in base sixteen. -/
inductive Writes : (text : List Char) → (number : Nat) → Prop where
  | decimal {text : List Char} {number : Nat} (signed : DenotesSigned 10 text number) :
      Writes text number
  | hexadecimal {mark : Char} {text : List Char} {number : Nat}
      (is_mark : mark = 'x' ∨ mark = 'X') (signed : DenotesSigned 16 text number) :
      Writes ('0' :: mark :: text) number

/-- Whether a text is a core with white space around it, and none at the ends of the core. -/
structure TrimsTo (text core : List Char) : Prop where
  around : ∃ before behind, text = before ++ core ++ behind ∧
    ∀ character ∈ before ++ behind, Unicode.isBlank character = true
  first : ∀ character ∈ core.head?, Unicode.isBlank character = false
  last : ∀ character ∈ core.getLast?, Unicode.isBlank character = false

/-- Whether a text denotes a word once the white space around it and then the underscores are
gone. -/
def Accepts (text : List Char) (number : Nat) : Prop :=
  ∃ core, TrimsTo text core ∧ Writes (core.filter (· != '_')) number ∧ number < Word.limit

/-! ## Digits -/

theorem digitValue?_eq_some_iff : digitValue? digit = some value ↔ IsDigit 16 digit value := by
  constructor
  · intro found
    have numbers : ∀ value < 10, (Nat.digitChar value).toNat = value + 48 := by decide
    have letters : ∀ value < 6, (Nat.digitChar (value + 10)).toNat = value + 97 ∧
        (Nat.digitChar (value + 10)).toUpper.toNat = value + 65 := by decide
    simp only [digitValue?, Char.le_def, UInt32.le_iff_toNat_le, Char.toNat_val,
      Char.reduceToNat] at found
    split at found
    next range =>
        cases found
        have place := numbers (digit.toNat - 48) (by omega)
        exact ⟨by omega, .inl (Char.toNat_inj.1 (by omega))⟩
    next =>
        split at found
        next range =>
            cases found
            have place := (letters (digit.toNat - 97) (by omega)).1
            exact ⟨by omega, .inl (Char.toNat_inj.1 (by omega))⟩
        next =>
            rw [Option.ite_none_right_eq_some] at found
            obtain ⟨range, found⟩ := found
            cases found
            have place := (letters (digit.toNat - 65) (by omega)).2
            exact ⟨by omega, .inr (Char.toNat_inj.1 (by omega))⟩
  · have values : ∀ value < 16, digitValue? (Nat.digitChar value) = some value ∧
        digitValue? (Nat.digitChar value).toUpper = some value := by decide
    rintro ⟨small, rfl | rfl⟩
    · exact (values value small).1
    · exact (values value small).2

/-- In a base of at most sixteen the digits are those of base sixteen with a smaller value. -/
theorem digitIn?_eq_some_iff (small : base ≤ 16) :
    digitIn? base digit = some value ↔ IsDigit base digit value := by
  rw [digitIn?, Option.filter_eq_some_iff, digitValue?_eq_some_iff, decide_eq_true_eq]
  constructor
  · rintro ⟨⟨_, shape⟩, below⟩
    exact ⟨below, shape⟩
  · rintro ⟨below, shape⟩
    exact ⟨⟨Nat.lt_of_lt_of_le below small, shape⟩, below⟩

theorem IsDigit.unique {other : Nat} (small : base ≤ 16) (is_digit : IsDigit base digit value)
    (is_other : IsDigit base digit other) : value = other := by
  rw [← digitIn?_eq_some_iff small] at is_digit is_other
  exact Option.some.inj (is_digit.symm.trans is_other)

/-- Reading on from a number is reading the digits that follow, and stops where what has been read
is no word any more. -/
theorem continueWith_eq_ok_iff (positive : 0 < base) (small : base ≤ 16) {start : Nat}
    (word : start < Word.limit) :
    continueWith base start digits = .ok number ↔
      ∃ values, List.Forall₂ (IsDigit base) digits values ∧
        start * base ^ values.length + Nat.ofDigits base values.reverse = number ∧
          number < Word.limit := by
  induction digits generalizing start with
  | nil =>
      rw [continueWith, Except.ok.injEq]
      constructor
      · rintro rfl
        exact ⟨[], .nil, by simp, word⟩
      · rintro ⟨_, ⟨⟩, same, _⟩
        simpa using same
  | cons digit rest induction =>
      -- One more digit takes the place of the last factor of the power.
      have moved (value : Nat) (values : List Nat) :
          start * base ^ (value :: values).length +
              Nat.ofDigits base (value :: values).reverse =
            (start * base + value) * base ^ values.length +
              Nat.ofDigits base values.reverse := by
        rw [Nat.ofDigits_reverse_cons, List.length_cons, pow_succ]
        ring
      rw [continueWith]
      cases found : digitIn? base digit with
      | none =>
          refine iff_of_false nofun ?_
          rintro ⟨_, read, _⟩
          cases read with
          | cons is_digit _ =>
              rw [← digitIn?_eq_some_iff small, found] at is_digit
              cases is_digit
      | some value =>
          have is_digit := (digitIn?_eq_some_iff small).1 found
          dsimp only
          split
          next fits =>
              rw [induction fits]
              constructor
              · rintro ⟨values, read, sum, below⟩
                exact ⟨value :: values, .cons is_digit read, (moved value values).trans sum, below⟩
              · rintro ⟨_, read, sum, below⟩
                cases read with
                | cons is_other read =>
                    rw [← is_digit.unique small is_other, moved] at sum
                    exact ⟨_, read, sum, below⟩
          next wide =>
              refine iff_of_false nofun ?_
              rintro ⟨_, read, sum, below⟩
              cases read with
              | @cons _ other _ values is_other read =>
                  rw [← is_digit.unique small is_other, moved] at sum
                  have grown := Nat.le_mul_of_pos_right (start * base + value)
                    (Nat.pow_pos (n := values.length) positive)
                  omega

/-! ## Signs and marks -/

theorem not_isDigit_plus (small : base ≤ 16) : ¬ IsDigit base '+' value := by
  rw [← digitIn?_eq_some_iff small]
  exact nofun

theorem continueWith_zero_eq_ok_iff (positive : 0 < base) (small : base ≤ 16)
    (some_digit : digits ≠ []) :
    continueWith base 0 digits = .ok number ↔ Denotes base digits number ∧ number < Word.limit := by
  rw [continueWith_eq_ok_iff positive small (by decide)]
  constructor
  · rintro ⟨values, read, sum, below⟩
    rw [Nat.zero_mul, Nat.zero_add] at sum
    exact ⟨⟨some_digit, values, read, sum⟩, below⟩
  · rintro ⟨⟨_, values, read, sum⟩, below⟩
    refine ⟨values, read, ?_, below⟩
    rw [Nat.zero_mul, Nat.zero_add, sum]

theorem Denotes.not_plus (small : base ≤ 16) : ¬ Denotes base ('+' :: digits) number := by
  rintro ⟨_, values, read, _⟩
  cases read with
  | cons is_digit _ => exact not_isDigit_plus small is_digit

/-- One plus sign in front of digits does not count. -/
theorem ofDigits_eq_ok_iff (positive : 0 < base) (small : base ≤ 16) :
    ofDigits base text = .ok number ↔ DenotesSigned base text number ∧ number < Word.limit := by
  fun_cases ofDigits base text with
  | case1 =>
      refine iff_of_false nofun ?_
      rintro ⟨⟨some_digit, _⟩, _⟩
      exact some_digit rfl
  | case2 =>
      refine iff_of_false nofun ?_
      rintro ⟨signed, _⟩
      cases signed with
      | bare denotes => exact denotes.not_plus small
      | plus denotes => exact denotes.1 rfl
  | case3 digits several =>
      rw [continueWith_zero_eq_ok_iff positive small fun none => several (by rw [none])]
      refine and_congr_left fun _ => ⟨.plus, fun signed => ?_⟩
      cases signed with
      | bare denotes => exact (denotes.not_plus small).elim
      | plus denotes => exact denotes
  | case4 _ some_digit _ unsigned =>
      rw [continueWith_zero_eq_ok_iff positive small some_digit]
      refine and_congr_left fun _ => ⟨.bare, fun signed => ?_⟩
      cases signed with
      | bare denotes => exact denotes
      | plus denotes => exact (unsigned _ rfl).elim

/-- The mark of base sixteen is no digit of base ten. -/
theorem DenotesSigned.not_marked (is_mark : mark = 'x' ∨ mark = 'X') :
    ¬ DenotesSigned 10 ('0' :: mark :: text) number := by
  rintro ⟨_, values, read, _⟩
  cases read with
  | cons _ read =>
      cases read with
      | cons is_digit _ =>
          rw [← digitIn?_eq_some_iff (by decide)] at is_digit
          rcases is_mark with rfl | rfl
          · exact absurd is_digit nofun
          · exact absurd is_digit nofun

/-- A text is read if what is left of it follows the grammar. -/
theorem parse_eq_ok_iff_writes (text : String) :
    parse text = .ok number ↔ Writes (essence text.toList) number ∧ number < Word.limit := by
  have marked {mark : Char} {digits : List Char} (is_mark : mark = 'x' ∨ mark = 'X') :
      ofDigits 16 digits = .ok number ↔
        Writes ('0' :: mark :: digits) number ∧ number < Word.limit := by
    rw [ofDigits_eq_ok_iff (by decide) (by decide)]
    refine and_congr_left fun _ => ⟨.hexadecimal is_mark, fun writes => ?_⟩
    cases writes with
    | decimal signed => exact (DenotesSigned.not_marked is_mark signed).elim
    | hexadecimal _ signed => exact signed
  rw [parse]
  split
  next digits shape =>
      rw [shape, marked (.inl rfl)]
  next digits shape =>
      rw [shape, marked (.inr rfl)]
  next unmarked_lower unmarked_upper =>
      rw [ofDigits_eq_ok_iff (by decide) (by decide)]
      refine and_congr_left fun _ => ⟨.decimal, fun writes => ?_⟩
      generalize essence text.toList = left at writes unmarked_lower unmarked_upper
      cases writes with
      | decimal signed => exact signed
      | hexadecimal is_mark signed =>
          rcases is_mark with rfl | rfl
          · exact (unmarked_lower _ rfl).elim
          · exact (unmarked_upper _ rfl).elim

/-! ## White space -/

theorem dropWhile_blank {before rest : List Char}
    (blank : ∀ character ∈ before, Unicode.isBlank character = true)
    (first : ∀ character ∈ rest.head?, Unicode.isBlank character = false) :
    (before ++ rest).dropWhile Unicode.isBlank = rest := by
  rw [List.dropWhile_append_of_pos blank]
  cases rest with
  | nil => rfl
  | cons character others => rw [List.dropWhile_cons_of_neg (by simpa using first)]

theorem TrimsTo.eq_trim (trims : TrimsTo text core) : trim text = core := by
  obtain ⟨before, behind, rfl, blank⟩ := trims.around
  obtain ⟨blank_before, blank_behind⟩ := List.forall_mem_append.1 blank
  have forth : (before ++ core ++ behind).dropWhile Unicode.isBlank =
      if core = [] then [] else core ++ behind := by
    split
    next empty =>
        have all_blank : (before ++ behind ++ []).dropWhile Unicode.isBlank = [] :=
          dropWhile_blank blank nofun
        simpa [empty] using all_blank
    next nonempty =>
        rw [List.append_assoc]
        refine dropWhile_blank blank_before ?_
        rw [List.head?_append_of_ne_nil _ nonempty]
        exact trims.first
  rw [trim, forth]
  split
  next empty =>
      rw [empty]
      rfl
  next =>
      rw [List.reverse_append, dropWhile_blank (by simpa using blank_behind), List.reverse_reverse]
      rw [List.head?_reverse]
      exact trims.last

private theorem not_blank_of_head? {character : Char}
    (here : character ∈ (text.dropWhile Unicode.isBlank).head?) :
    Unicode.isBlank character = false := by
  have not_blank := List.head?_dropWhile_not Unicode.isBlank text
  rw [Option.mem_def] at here
  rwa [here] at not_blank

private theorem exists_trim_append (text : List Char) :
    ∃ blanks, trim text ++ blanks = text.dropWhile Unicode.isBlank ∧
      ∀ character ∈ blanks, Unicode.isBlank character = true := by
  refine ⟨((text.dropWhile Unicode.isBlank).reverse.takeWhile Unicode.isBlank).reverse, ?_,
    fun character member => List.mem_takeWhile_imp (List.mem_reverse.1 member)⟩
  rw [trim, ← List.reverse_append, List.takeWhile_append_dropWhile, List.reverse_reverse]

theorem trimsTo_trim (text : List Char) : TrimsTo text (trim text) := by
  obtain ⟨blanks, behind, blank⟩ := exists_trim_append text
  refine ⟨⟨text.takeWhile Unicode.isBlank, blanks, ?_, ?_⟩, ?_, ?_⟩
  · rw [List.append_assoc, behind, List.takeWhile_append_dropWhile]
  · rw [List.forall_mem_append]
    exact ⟨fun character member => List.mem_takeWhile_imp member, blank⟩
  · intro character here
    have stands : character ∈ (text.dropWhile Unicode.isBlank).head? := by
      rw [← behind, List.head?_append, here]
      rfl
    exact not_blank_of_head? stands
  · intro character here
    rw [trim, List.getLast?_reverse] at here
    exact not_blank_of_head? here

/-- A text is read as the number that its core denotes. -/
theorem parse_eq_ok_iff_accepts (text : String) :
    parse text = .ok number ↔ Accepts text.toList number := by
  rw [parse_eq_ok_iff_writes, essence]
  constructor
  · rintro ⟨writes, word⟩
    exact ⟨_, trimsTo_trim _, writes, word⟩
  · rintro ⟨core, trims, writes, word⟩
    rw [trims.eq_trim]
    exact ⟨writes, word⟩

/-! ## Words that are written out -/

theorem Denotes.append_digit (denotes : Denotes base digits number)
    (is_digit : IsDigit base digit value) :
    Denotes base (digits ++ [digit]) (base * number + value) := by
  obtain ⟨_, values, read, rfl⟩ := denotes
  refine ⟨by simp, values ++ [value], List.rel_append read (.cons is_digit .nil), ?_⟩
  rw [List.reverse_append, List.reverse_singleton, List.singleton_append, Nat.ofDigits_cons,
    Nat.add_comm]

theorem isDigit_digitChar (small : value < base) : IsDigit base (Nat.digitChar value) value :=
  ⟨small, .inl rfl⟩

theorem denotes_toDigits (several : 1 < base) (number : Nat) :
    Denotes base (Nat.toDigits base number) number := by
  induction number using Nat.strongRecOn with
  | _ number induction =>
      by_cases single : number < base
      · rw [Nat.toDigits_of_lt_base single]
        refine ⟨by simp, [number], .cons (isDigit_digitChar single) .nil, ?_⟩
        rw [List.reverse_singleton, Nat.ofDigits_singleton]
      · have large := Nat.le_of_not_lt single
        rw [Nat.toDigits_of_base_le several large]
        have denotes := (induction _ (Nat.div_lt_self (by omega) several)).append_digit
          (isDigit_digitChar (Nat.mod_lt number (by omega)))
        rwa [Nat.div_add_mod] at denotes

/-! ## White space and underscores that are added -/

theorem IsDigit.not_blank (small : base ≤ 16) (is_digit : IsDigit base digit value) :
    Unicode.isBlank digit = false := by
  have values : ∀ value < 16, Unicode.isBlank (Nat.digitChar value) = false ∧
      Unicode.isBlank (Nat.digitChar value).toUpper = false := by decide
  obtain ⟨below, rfl | rfl⟩ := is_digit
  · exact (values value (by omega)).1
  · exact (values value (by omega)).2

theorem Denotes.not_blank (small : base ≤ 16) (denotes : Denotes base digits number) :
    ∀ character ∈ digits, Unicode.isBlank character = false := by
  obtain ⟨-, values, read, -⟩ := denotes
  induction read with
  | nil => exact nofun
  | cons is_digit _ induction => exact List.forall_mem_cons.2 ⟨is_digit.not_blank small, induction⟩

theorem DenotesSigned.not_blank (small : base ≤ 16) (signed : DenotesSigned base text number) :
    ∀ character ∈ text, Unicode.isBlank character = false := by
  cases signed with
  | bare denotes => exact denotes.not_blank small
  | plus denotes => exact List.forall_mem_cons.2 ⟨by decide, denotes.not_blank small⟩

theorem Writes.not_blank (writes : Writes text number) :
    ∀ character ∈ text, Unicode.isBlank character = false := by
  cases writes with
  | decimal signed => exact signed.not_blank (by decide)
  | hexadecimal is_mark signed =>
      refine List.forall_mem_cons.2 ⟨by decide, List.forall_mem_cons.2 ⟨?_, ?_⟩⟩
      · rcases is_mark with rfl | rfl <;> decide
      · exact signed.not_blank (by decide)

/-- What follows the grammar is read, whatever underscores are put into it and whatever white space
around it. -/
theorem Writes.accepts {before spaced behind : List Char} (writes : Writes text number)
    (word : number < Word.limit) (spaced_eq : spaced.filter (· != '_') = text)
    (blank : ∀ character ∈ before ++ behind, Unicode.isBlank character = true) :
    Accepts (before ++ spaced ++ behind) number := by
  have not_blank : ∀ character ∈ spaced, Unicode.isBlank character = false := by
    intro character member
    by_cases underscore : character = '_'
    · rw [underscore]
      decide
    · refine writes.not_blank character ?_
      rw [← spaced_eq, List.mem_filter]
      exact ⟨member, by simpa using underscore⟩
  have trims : TrimsTo (before ++ spaced ++ behind) spaced := by
    refine ⟨⟨before, behind, rfl, blank⟩, ?_, ?_⟩
    · exact fun character here => not_blank character (List.mem_of_mem_head? here)
    · exact fun character here => not_blank character (List.mem_of_mem_getLast? here)
  exact ⟨spaced, trims, spaced_eq ▸ writes, word⟩

/-- A text is read as a number exactly if it denotes that number and the number is a word.  All
other texts are refused.  Each word is read back from its digits in base ten and from those in base
sixteen behind their mark, whatever underscores are put between them and whatever white space around
them. -/
theorem parse_reads :
    (∀ text number, parse text = .ok number ↔ Accepts text.toList number) ∧
    (∀ text, (∀ number, ¬ Accepts text.toList number) → ∃ error, parse text = .error error) ∧
    ∀ number < Word.limit, ∀ before spaced behind : List Char,
      (∀ character ∈ before ++ behind, Unicode.isBlank character = true) →
      (spaced.filter (· != '_') = (toString number).toList ∨
        spaced.filter (· != '_') = (Word.hexText number).toList) →
      parse (String.ofList (before ++ spaced ++ behind)) = .ok number := by
  refine ⟨fun text number => parse_eq_ok_iff_accepts text, fun text refused => ?_, ?_⟩
  · cases run : parse text with
    | ok number => exact absurd ((parse_eq_ok_iff_accepts text).1 run) (refused number)
    | error error => exact ⟨error, rfl⟩
  · intro number word before spaced behind blank rendered
    rw [parse_eq_ok_iff_accepts, String.toList_ofList]
    rcases rendered with decimal | hexadecimal
    · refine Writes.accepts (.decimal (.bare (denotes_toDigits (by decide) number))) word ?_ blank
      rw [decimal, Nat.toString_eq_ofList_toDigits, String.toList_ofList]
    · refine Writes.accepts (.hexadecimal (.inl rfl)
        (.bare (denotes_toDigits (by decide) number))) word ?_ blank
      rw [hexadecimal, Word.hexText, Word.hexDigits, String.toList_append, String.toList_ofList,
        String.toList_ofList]
      rfl

/-- Underscores stand at either end of this numeral and behind its mark. -/
theorem parse_reads_spaced :
    31 < Word.limit ∧ (∀ character ∈ ['\t'] ++ [' ', '\n'], Unicode.isBlank character = true) ∧
      "_0x_1__f_".toList.filter (· != '_') = (Word.hexText 31).toList ∧
        parse (String.ofList (['\t'] ++ "_0x_1__f_".toList ++ [' ', '\n'])) = .ok 31 := by
  have word : 31 < Word.limit := by decide
  have blank : ∀ character ∈ ['\t'] ++ [' ', '\n'], Unicode.isBlank character = true :=
    List.all_eq_true.1 (by decide)
  have spaced_eq : "_0x_1__f_".toList.filter (· != '_') = (Word.hexText 31).toList := by decide
  exact ⟨word, blank, spaced_eq, parse_reads.2.2 31 word _ _ _ blank (.inr spaced_eq)⟩

end Numeral
end Microkernel
