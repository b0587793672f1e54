import Microkernel.Arguments.Reader
import Microkernel.Proofs.Memory.ArgumentBlock
import Mathlib.Algebra.Group.Nat.Defs
import Mathlib.Data.List.TakeWhile

/-!
# Reading an argument block

Whoever reads a block that has texts as its arguments gets these texts, in order, and no others.
-/

namespace Microkernel

theorem Memory.drop_read (memory : Memory) (address length number : Nat) :
    (memory.read address length).drop number =
      memory.read (address + number) (length - number) := by
  apply List.ext_getElem
  · rw [List.length_drop, length_read, length_read]
  · intro offset _ _
    simp only [read_eq_map_get, List.getElem_drop, List.getElem_map, List.getElem_range,
      Nat.add_assoc]

theorem Word.ofBytes_lt (bytes : List UInt8) : ofBytes bytes < 256 ^ bytes.length := by
  induction bytes with
  | nil => exact Nat.one_pos
  | cons byte rest induction =>
      have small := byte.toNat_lt
      rw [ofBytes, List.length_cons, Nat.pow_succ]
      omega

namespace Arguments

variable {memory : Memory} {block : Extent} {base : Nat} {texts : List (List UInt8)}
  {text : List UInt8} {offset index : Nat}

theorem wordAt_read (memory : Memory) (inside : offset + 8 ≤ block.length) :
    wordAt (memory.read block.start block.length) offset =
      (memory.readWord (block.start + offset)).toNat := by
  have small := Word.ofBytes_lt (memory.read (block.start + offset) 8)
  rw [Memory.length_read] at small
  have fits : min pointerSize (block.length - offset) = 8 := by
    simp only [pointerSize]
    omega
  rw [wordAt, Memory.drop_read, Memory.take_read, fits, Memory.readWord]
  exact (Nat.mod_eq_of_lt small).symm

/-- What is found at the start of some bytes is what stands in front of the first terminator. -/
theorem terminated?_eq_some_iff {bytes : List UInt8} :
    terminated? bytes = some text ↔ 0 ∉ text ∧ text ++ [0] <+: bytes := by
  rw [terminated?]
  constructor
  · simp only [Option.ite_none_right_eq_some, Option.some.injEq, and_imp]
    rintro shorter rfl
    refine ⟨fun null => by simpa using List.mem_takeWhile_imp null, ?_⟩
    have split := List.takeWhile_append_dropWhile (p := (· != 0)) (l := bytes)
    cases behind : bytes.dropWhile (· != 0) with
    | nil =>
        rw [behind, List.append_nil] at split
        exact absurd shorter (by rw [split]; exact Nat.lt_irrefl _)
    | cons byte rest =>
        have first := List.head_dropWhile_not (l := bytes) (· != 0) (by simp [behind])
        simp only [behind, List.head_cons, bne_eq_false_iff_eq] at first
        rw [behind, first] at split
        exact ⟨rest, (List.append_assoc _ _ _).trans split⟩
  · rintro ⟨nonzero, rest, rfl⟩
    have passed : ∀ byte ∈ text, (byte != 0) = true := by
      intro byte member
      rw [bne_iff_ne]
      rintro rfl
      exact nonzero member
    rw [List.append_assoc, List.takeWhile_append_of_pos passed]
    simp

theorem terminated?_read (there : memory.TextAt (block.start + offset) text)
    (inside : offset + text.length < block.length) :
    terminated? ((memory.read block.start block.length).drop offset) = some text := by
  have split : (memory.read block.start block.length).drop offset =
      text ++ 0 :: memory.read (block.start + offset + (text.length + 1))
        (block.length - offset - (text.length + 1)) := by
    have near : min (text.length + 1) (block.length - offset) = text.length + 1 := by omega
    rw [Memory.drop_read, ← List.take_append_drop (text.length + 1) (memory.read _ _),
      Memory.take_read, Memory.drop_read, near, there.read_eq, List.append_assoc]
    rfl
  exact terminated?_eq_some_iff.2 ⟨there.nonzero, _, by rw [split, List.append_assoc]; rfl⟩

theorem text?_of_leadsTo {place : Nat}
    (leads : memory.LeadsTo block.start base place 0 block.length text)
    (visible : base + block.length < Word.limit) {count : Nat} (some_left : place < count)
    (room : pointerSize + (count + 1) * pointerSize ≤ block.length) :
    text? { block := memory.read block.start block.length, base, count, position := place } =
      some text := by
  obtain ⟨offset, _, inside, points, there⟩ := leads
  have pointer : wordAt (memory.read block.start block.length)
      (pointerSize + place * pointerSize) = base + offset := by
    rw [wordAt_read memory (by simp only [pointerSize] at *; omega), ← Nat.add_assoc, points]
    exact Nat.mod_eq_of_lt (by simp only [Word.limit] at visible; omega)
  have back : Word.difference? (base + offset) base = some offset := by
    rw [Word.difference?, if_pos (Nat.le_add_right _ _), Nat.add_sub_cancel_left]
  simp only [text?, if_neg (Nat.not_le.2 some_left), pointer, back, Memory.length_read]
  rw [Option.bind_eq_bind, Option.bind_some, if_neg (by omega)]
  exact terminated?_read there inside

theorem next?_of_reads {arguments : Arguments}
    (reads : ∀ index text, texts[index]? = some text →
      text? { arguments with position := index } = some text)
    (small : arguments.position < texts.length) :
    arguments.next? = some (texts[arguments.position],
      { arguments with position := arguments.position + 1 }) := by
  rw [next?, reads _ _ (List.getElem?_eq_getElem small)]
  rfl

theorem upToEnd_eq {arguments : Arguments} (left : Nat)
    (reads : ∀ index text, texts[index]? = some text →
      text? { arguments with position := index } = some text)
    (total : arguments.position + left = texts.length) :
    arguments.upToEnd left = texts.drop arguments.position := by
  induction left generalizing arguments with
  | zero =>
      exact (List.drop_eq_nil_of_le (Nat.le_of_eq total.symm)).symm
  | succ left induction =>
      have small : arguments.position < texts.length := by omega
      have rest : upToEnd { arguments with position := arguments.position + 1 } left =
          texts.drop (arguments.position + 1) :=
        induction reads ((Nat.succ_add_eq_add_succ _ _).trans total)
      rw [upToEnd, next?_of_reads reads small, List.drop_eq_getElem_cons small]
      exact congrArg _ rest

theorem ask_of_ended {arguments : Arguments} (ended : arguments.text? = none) (times : Nat) :
    arguments.ask times = List.replicate times none := by
  have last : arguments.next? = none := by
    rw [next?, ended]
    rfl
  induction times with
  | zero => rfl
  | succ times induction => rw [ask, last, induction, List.replicate_succ]

/-- Whoever can read each of some texts, and nothing behind them, gets those that are left and then
nothing, for ever. -/
theorem ask_eq {arguments : Arguments} (left more : Nat)
    (reads : ∀ index text, texts[index]? = some text →
      text? { arguments with position := index } = some text)
    (ended : text? { arguments with position := texts.length } = none)
    (total : arguments.position + left = texts.length) :
    arguments.ask (left + more) =
      (texts.drop arguments.position).map some ++ List.replicate more none := by
  induction left generalizing arguments with
  | zero =>
      rw [Nat.add_zero] at total
      rw [← total] at ended
      rw [Nat.zero_add, ask_of_ended ended, List.drop_eq_nil_of_le (Nat.le_of_eq total.symm)]
      rfl
  | succ left induction =>
      have small : arguments.position < texts.length := by omega
      have rest : ask { arguments with position := arguments.position + 1 } (left + more) =
          (texts.drop (arguments.position + 1)).map some ++ List.replicate more none :=
        induction reads ended ((Nat.succ_add_eq_add_succ _ _).trans total)
      rw [Nat.add_right_comm, ask, next?_of_reads reads small, List.drop_eq_getElem_cons small]
      exact congrArg _ rest

theorem parse?_eq (has : memory.HasArguments block base texts)
    (visible : base + block.length < Word.limit) :
    parse? (memory.read block.start block.length) base =
      some { block := memory.read block.start block.length, base
             count := texts.length, position := 0 } := by
  have room := has.room
  have count : wordAt (memory.read block.start block.length) 0 = texts.length := by
    rw [wordAt_read memory (by simp only [pointerSize] at room; omega), Nat.add_zero, has.count]
    exact Nat.mod_eq_of_lt (by simp only [pointerSize, Word.limit] at *; omega)
  have pointersEnd : ArgumentWriter.textOffset? texts.length =
      some (pointerSize + (texts.length + 1) * pointerSize) :=
    ArgumentWriter.textOffset?_eq_some_iff.2 ⟨Nat.lt_of_le_of_lt room (by omega), rfl⟩
  rw [parse?, if_neg (by rw [Memory.length_read]; omega)]
  simp only [count, pointersEnd, Memory.length_read, Option.bind_eq_bind, Option.bind_some]
  rw [if_neg (by omega)]
  rfl

theorem parse?_of_hasArguments (has : memory.HasArguments block base texts)
    (visible : base + block.length < Word.limit) :
    ∃ arguments, parse? (memory.read block.start block.length) base = some arguments ∧
      arguments.count = texts.length ∧ arguments.toList = texts := by
  refine ⟨_, parse?_eq has visible, rfl, ?_⟩
  refine upToEnd_eq texts.length (fun index text found => ?_) (Nat.zero_add _)
  exact text?_of_leadsTo (has.leads index text found) visible
    (List.getElem?_eq_some_iff.1 found).1 has.room

/-- Whoever asks for the arguments of a block that has texts as its arguments gets them all, in
order, and then nothing, for ever. -/
theorem ask_of_hasArguments (has : memory.HasArguments block base texts)
    (visible : base + block.length < Word.limit) :
    ∃ arguments, parse? (memory.read block.start block.length) base = some arguments ∧
      arguments.count = texts.length ∧
      ∀ more, arguments.ask (texts.length + more) =
        texts.map some ++ List.replicate more none := by
  refine ⟨_, parse?_eq has visible, rfl, fun more => ?_⟩
  refine ask_eq texts.length more (fun index text found => ?_) ?_ (Nat.zero_add _)
  · exact text?_of_leadsTo (has.leads index text found) visible
      (List.getElem?_eq_some_iff.1 found).1 has.room
  · rw [text?, if_pos (Nat.le_refl _)]

end Arguments
end Microkernel
