import Mathlib.Data.String.Basic
import Microkernel.Program.LogLine

/-!
# What a log line shows

A log line begins with as much of its text as fits into it.  It does not end there: later characters
that are not as wide as the first one that did not fit may follow, since each character is measured
on its own.  How the text is split into pieces makes no difference.
-/

namespace Microkernel

namespace LogLine

variable {used : Nat} {character : Char} {text start rest : List Char}

/-! ## Bytes -/

private theorem foldl_utf8Size (used : Nat) (characters : List Char) :
    characters.foldl (fun used character => used + character.utf8Size) used =
      used + byteLength characters := by
  induction characters generalizing used with
  | nil => rfl
  | cons character rest induction =>
      rw [byteLength, List.foldl_cons, List.foldl_cons, induction, induction]
      omega

@[simp] theorem byteLength_nil : byteLength [] = 0 :=
  rfl

@[simp] theorem byteLength_cons (character : Char) (rest : List Char) :
    byteLength (character :: rest) = character.utf8Size + byteLength rest := by
  rw [byteLength, List.foldl_cons, foldl_utf8Size, Nat.zero_add]

@[simp] theorem byteLength_append (first second : List Char) :
    byteLength (first ++ second) = byteLength first + byteLength second := by
  rw [byteLength, List.foldl_append, foldl_utf8Size]
  rfl

/-- The bytes that are counted are those of the string. -/
theorem utf8ByteSize_ofList (characters : List Char) :
    (String.ofList characters).utf8ByteSize = byteLength characters := by
  induction characters with
  | nil => rfl
  | cons character rest induction =>
      rw [String.utf8ByteSize_ofList] at induction ⊢
      rw [String.utf8Len_cons, induction, byteLength_cons, Nat.add_comm]

/-! ## The characters that are kept -/

theorem keep_cons_of_fits (proper : character ≠ '\x00')
    (fits : used + character.utf8Size ≤ logLineLimit) (rest : List Char) :
    keep used (character :: rest) = character :: keep (used + character.utf8Size) rest := by
  rw [keep, if_neg (not_or.2 ⟨proper, Nat.not_lt.2 fits⟩)]

theorem keep_cons_of_wide (wide : logLineLimit < used + character.utf8Size) (rest : List Char) :
    keep used (character :: rest) = keep used rest := by
  rw [keep, if_pos (.inr wide)]

/-- What is kept of a text is kept of its first half and then, behind that, of its second. -/
theorem keep_append (used : Nat) (first second : List Char) :
    keep used (first ++ second) =
      keep used first ++ keep (used + byteLength (keep used first)) second := by
  induction first generalizing used with
  | nil => rfl
  | cons character rest induction =>
      rw [List.cons_append, keep, keep]
      split
      next => exact induction used
      next =>
          rw [induction, List.cons_append, byteLength_cons, Nat.add_assoc]

theorem keep_filter (used : Nat) (text : List Char) :
    keep used (text.filter (· ≠ '\x00')) = keep used text := by
  induction text generalizing used with
  | nil => rfl
  | cons character rest induction =>
      by_cases null : character = '\x00'
      · rw [List.filter_cons_of_neg (by simpa using null), induction, keep, if_pos (.inl null)]
      · rw [List.filter_cons_of_pos (by simpa using null), keep, keep, induction, induction]

theorem keep_sublist (used : Nat) (text : List Char) : (keep used text).Sublist text := by
  induction text generalizing used with
  | nil => exact .slnil
  | cons character rest induction =>
      rw [keep]
      split
      next => exact (induction used).cons character
      next => exact (induction _).cons_cons character

/-- Whether some characters are those of a text that fit into a line, of which a number of bytes is
in use, where each one is measured behind those picked before. -/
inductive Picks : (used : Nat) → (text picked : List Char) → Prop where
  | done {used : Nat} : Picks used [] []
  | fits {used : Nat} {character : Char} {rest picked : List Char}
      (narrow : used + character.utf8Size ≤ logLineLimit)
      (others : Picks (used + character.utf8Size) rest picked) :
      Picks used (character :: rest) (character :: picked)
  | leaves {used : Nat} {character : Char} {rest picked : List Char}
      (wide : logLineLimit < used + character.utf8Size) (others : Picks used rest picked) :
      Picks used (character :: rest) picked

theorem picks_keep (proper : '\x00' ∉ text) (used : Nat) : Picks used text (keep used text) := by
  induction text generalizing used with
  | nil => exact .done
  | cons character rest induction =>
      rw [List.mem_cons, not_or] at proper
      by_cases narrow : used + character.utf8Size ≤ logLineLimit
      · rw [keep_cons_of_fits (Ne.symm proper.1) narrow]
        exact .fits narrow (induction proper.2 _)
      · rw [keep_cons_of_wide (Nat.not_le.1 narrow)]
        exact .leaves (Nat.not_le.1 narrow) (induction proper.2 _)

theorem byteLength_keep_le (small : used ≤ logLineLimit) (text : List Char) :
    used + byteLength (keep used text) ≤ logLineLimit := by
  induction text generalizing used with
  | nil => exact small
  | cons character rest induction =>
      rw [keep]
      split
      next => exact induction small
      next kept =>
          rw [byteLength_cons, ← Nat.add_assoc]
          exact induction (Nat.not_lt.1 (not_or.1 kept).2)

theorem keep_eq_self (proper : '\x00' ∉ text)
    (fits : used + byteLength text ≤ logLineLimit) : keep used text = text := by
  induction text generalizing used with
  | nil => rfl
  | cons character rest induction =>
      rw [List.mem_cons, not_or] at proper
      rw [byteLength_cons, ← Nat.add_assoc] at fits
      rw [keep_cons_of_fits (Ne.symm proper.1) (by omega), induction proper.2 fits]

theorem keep_eq_nil_iff (proper : '\x00' ∉ text) :
    keep used text = [] ↔ ∀ character ∈ text, logLineLimit < used + character.utf8Size := by
  induction text with
  | nil => simp [keep]
  | cons character rest induction =>
      rw [List.mem_cons, not_or] at proper
      rw [List.forall_mem_cons]
      by_cases fits : used + character.utf8Size ≤ logLineLimit
      · rw [keep_cons_of_fits (Ne.symm proper.1) fits]
        simp only [reduceCtorEq, false_iff, not_and]
        exact fun wide => absurd fits (Nat.not_le.2 wide)
      · rw [keep_cons_of_wide (Nat.not_le.1 fits), induction proper.2]
        simp only [Nat.not_le.1 fits, true_and]

/-! ## Where a text is cut -/

/-- Whether a text is cut behind the longest of its beginnings that fits into a line. -/
structure CutAt (text start rest : List Char) : Prop where
  split : text = start ++ rest
  fits : byteLength start ≤ logLineLimit
  longest : ∀ other, other <+: text → byteLength other ≤ logLineLimit → other <+: start

theorem CutAt.wide {tail : List Char} (cut : CutAt text start (character :: tail)) :
    logLineLimit < byteLength start + character.utf8Size := by
  apply Nat.not_le.1
  intro fits
  have longer : start ++ [character] <+: start := by
    refine cut.longest _ ⟨tail, ?_⟩ ?_
    · rw [cut.split, List.append_assoc, List.singleton_append]
    · simpa using fits
  simpa using longer.length_le

/-- A text is cut where the first character does not fit. -/
theorem CutAt.of_wide (fits : byteLength start ≤ logLineLimit)
    (wide : ∀ character tail, rest = character :: tail →
      logLineLimit < byteLength start + character.utf8Size) :
    CutAt (start ++ rest) start rest := by
  refine ⟨rfl, fits, fun other begins small => ?_⟩
  rcases List.prefix_or_prefix_of_prefix begins (List.prefix_append start rest) with
    shorter | ⟨more, rfl⟩
  · exact shorter
  · rw [List.prefix_append_right_inj] at begins
    cases more with
    | nil => simp
    | cons character more =>
        -- A beginning that goes on has the character that does not fit.
        obtain ⟨tail, rfl⟩ := begins
        have exceeded := wide character (more ++ tail) rfl
        rw [byteLength_append, byteLength_cons] at small
        omega

theorem exists_wide (small : used ≤ logLineLimit) (text : List Char) :
    ∃ start rest, text = start ++ rest ∧ used + byteLength start ≤ logLineLimit ∧
      ∀ character tail, rest = character :: tail →
        logLineLimit < used + byteLength start + character.utf8Size := by
  induction text generalizing used with
  | nil => exact ⟨[], [], rfl, small, by simp⟩
  | cons character rest induction =>
      by_cases fits : used + character.utf8Size ≤ logLineLimit
      · obtain ⟨start, behind, rfl, bytes, wide⟩ := induction fits
        refine ⟨character :: start, behind, rfl, ?_, ?_⟩
        · rw [byteLength_cons, ← Nat.add_assoc]
          exact bytes
        · rw [byteLength_cons, ← Nat.add_assoc]
          exact wide
      · refine ⟨[], character :: rest, rfl, small, ?_⟩
        rintro _ _ ⟨⟩
        exact Nat.not_le.1 fits

theorem exists_cutAt (text : List Char) : ∃ start rest, CutAt text start rest := by
  obtain ⟨start, rest, rfl, fits, wide⟩ := exists_wide (Nat.zero_le _) text
  rw [Nat.zero_add] at fits wide
  exact ⟨start, rest, .of_wide fits wide⟩

/-- A line keeps everything in front of the cut, and then whatever fits behind it. -/
theorem CutAt.keep_eq (cut : CutAt text start rest) (proper : '\x00' ∉ text) :
    keep 0 text = start ++ keep (byteLength start) rest := by
  have start_proper : '\x00' ∉ start :=
    fun null => proper (cut.split ▸ List.mem_append_left _ null)
  have kept : keep 0 start = start :=
    keep_eq_self start_proper ((Nat.zero_add _).trans_le cut.fits)
  rw [cut.split, keep_append, kept, Nat.zero_add]

/-- There are at most three bytes left behind the cut. -/
theorem CutAt.byteLength_keep (cut : CutAt text start rest) :
    byteLength (keep (byteLength start) rest) ≤ 3 := by
  cases rest with
  | nil => exact Nat.zero_le _
  | cons character tail =>
      have wide := cut.wide
      have width := character.utf8Size_le_four
      have bytes := byteLength_keep_le cut.fits (character :: tail)
      omega

/-! ## Lines -/

/-- The text that pieces make up, without null characters. -/
def textOf (pieces : List String) : List Char :=
  (pieces.flatMap String.toList).filter (· ≠ '\x00')

theorem not_mem_textOf (pieces : List String) : '\x00' ∉ textOf pieces := by
  simp [textOf]

theorem characters_foldl_write (line : LogLine) (pieces : List String) :
    (pieces.foldl write line).characters =
      line.characters ++ keep (byteLength line.characters) (pieces.flatMap String.toList) := by
  induction pieces generalizing line with
  | nil => simp [keep]
  | cons piece rest induction =>
      rw [List.foldl_cons, induction, List.flatMap_cons, keep_append, write, byteLength_append,
        List.append_assoc]

theorem format_eq (pieces : List String) :
    format pieces = String.ofList (keep 0 (textOf pieces) ++ ['\x00']) := by
  rw [format, characters_foldl_write, textOf, keep_filter]
  rfl

/-- A line shows the longest beginning of its text that fits into it, where null characters do not
count, then what fits of the characters behind that, picked one by one, and a null character.  What
is picked has at most three bytes, and is nothing if and only if no character behind the beginning
would fit.  The line has at most 256 bytes, no other null character, and depends only on the text
and not on how it is split. -/
theorem format_shows (pieces : List String) : ∃ start rest late,
    CutAt (textOf pieces) start rest ∧
    format pieces = String.ofList (start ++ late ++ ['\x00']) ∧
    Picks (byteLength start) rest late ∧ byteLength late ≤ 3 ∧
    (late = [] ↔ ∀ character ∈ rest, logLineLimit < byteLength start + character.utf8Size) ∧
    (format pieces).utf8ByteSize ≤ logLineLimit + 1 ∧ '\x00' ∉ start ++ late ∧
    ∀ others, textOf others = textOf pieces → format others = format pieces := by
  have proper := not_mem_textOf pieces
  obtain ⟨start, rest, cut⟩ := exists_cutAt (textOf pieces)
  have kept := cut.keep_eq proper
  have rest_proper : '\x00' ∉ rest :=
    fun null => proper (cut.split ▸ List.mem_append_right _ null)
  refine ⟨start, rest, keep (byteLength start) rest, cut, ?_, picks_keep rest_proper _,
    cut.byteLength_keep, keep_eq_nil_iff rest_proper, ?_, ?_, ?_⟩
  · rw [format_eq, kept]
  · have bytes := byteLength_keep_le (Nat.zero_le _) (textOf pieces)
    rw [format_eq, utf8ByteSize_ofList, byteLength_append]
    exact Nat.add_le_add (by omega) (by decide)
  · rw [← kept]
    exact fun null => proper ((keep_sublist _ _).subset null)
  · intro others same
    rw [format_eq, format_eq, same]

/-- A narrow character follows one that does not fit, so that the line is not just a beginning of
its text. -/
theorem format_not_cut : ¬ ∃ start rest,
    CutAt (textOf [String.ofList (List.replicate 127 'é'), "é", "a"]) start rest ∧
    format [String.ofList (List.replicate 127 'é'), "é", "a"] =
      String.ofList (start ++ ['\x00']) := by
  rintro ⟨start, rest, cut, shown⟩
  have text : textOf [String.ofList (List.replicate 127 'é'), "é", "a"] =
      List.replicate 128 'é' ++ ['a'] := by
    rw [textOf, List.flatMap_cons, String.toList_ofList]
    decide
  rw [format_eq, text, String.ofList_inj, List.append_left_inj] at shown
  have begins : start <+: List.replicate 128 'é' ++ ['a'] := ⟨rest, (text ▸ cut.split).symm⟩
  rw [← shown, ← List.isPrefixOf_iff_prefix] at begins
  revert begins
  decide

end LogLine

end Microkernel
