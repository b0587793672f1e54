import Microkernel.Proofs.Execution
import Microkernel.Proofs.Memory.ArgumentList

/-!
# From texts to an argument block and back

Texts fit into a block exactly if their number, the pointers, and the texts with their terminators
do.  If they fit, the block is written with nothing changed behind the part in use, and whoever
reads it gets the texts back.
-/

namespace Microkernel
namespace ArgumentWriter

variable {writer : ArgumentWriter} {memory : Memory} {arguments texts : List (List UInt8)}
  {block : Extent} {base : Nat}

/-- Write some texts, one after the other, unless one of them is too many or does not fit. -/
def pushAll? (writer : ArgumentWriter) : List (List UInt8) → MemoryM (Option ArgumentWriter)
  | [] => return some writer
  | text :: rest => do
      match ← writer.push? text with
      | some next => next.pushAll? rest
      | none => return none

/-- Write a block that has some texts as its arguments, and tell how much of it is in use, unless
they do not fit. -/
def writeBlock? (block : Extent) (base : Nat) (texts : List (List UInt8)) :
    MemoryM (Option Nat) := do
  match start? block.start block.length base texts.length with
  | some writer =>
      match ← writer.pushAll? texts with
      | some full => return some (← full.finish)
      | none => return none
  | none => return none

/-- The length of some texts with their terminators. -/
def textsLength : List (List UInt8) → Nat
  | [] => 0
  | text :: rest => text.length + 1 + textsLength rest

/-- The length of a block that has some texts as its arguments: their number, the pointers to them
and the null pointer, and the texts. -/
def blockLength (texts : List (List UInt8)) : Nat :=
  pointerSize + (texts.length + 1) * pointerSize + textsLength texts

/-- The writer once some more texts are written. -/
def advanced (writer : ArgumentWriter) (texts : List (List UInt8)) : ArgumentWriter :=
  { writer with
    written := writer.written + texts.length
    nextText := writer.nextText + textsLength texts }

theorem advanced_cons (writer : ArgumentWriter) (text : List UInt8) (rest : List (List UInt8)) :
    writer.advanced (text :: rest) = (writer.grown text).advanced rest := by
  simp only [advanced, grown, textsLength, List.length_cons, mk.injEq, true_and]
  omega

/-- Texts that fit behind the last one are written, and nothing changes behind them. -/
theorem pushAll?_of_room (holds : writer.Holds memory arguments)
    (nonzero : ∀ text ∈ texts, 0 ∉ text)
    (left : writer.written + texts.length ≤ writer.announced)
    (room : writer.nextText + textsLength texts ≤ writer.size) :
    ∃ after, writer.pushAll? texts memory = .ok (some (writer.advanced texts)) after ∧
      (writer.advanced texts).Holds after (arguments ++ texts) ∧
      memory.ChangesOnly after
        (Extent.Covers ⟨writer.block, (writer.advanced texts).nextText⟩) := by
  induction texts generalizing writer memory arguments with
  | nil => exact ⟨memory, rfl, by rwa [List.append_nil], .refl _ _⟩
  | cons text rest induction =>
      obtain ⟨text_nonzero, rest_nonzero⟩ := List.forall_mem_cons.1 nonzero
      rw [List.length_cons] at left
      rw [textsLength] at room
      have more : writer.written < writer.announced := by omega
      have fits : writer.nextText + text.length < writer.size := by omega
      have grows := holds.pushed text_nonzero more fits
      obtain ⟨after, run, final, changes⟩ := induction grows rest_nonzero
        (by simp only [grown]; omega) (by simp only [grown]; omega)
      rw [advanced_cons, List.append_cons]
      refine ⟨after, ?_, final, .trans ?_ changes⟩
      · rw [pushAll?, bind_of_ok (push?_of_room holds.toFits more fits memory)]
        exact run
      · refine (changesOnly_pushed holds.toFits text memory).mono fun address covered => ?_
        simp only [Extent.Covers, Extent.stop, advanced, grown] at *
        omega

theorem pushAll?_of_full (fits : writer.Fits)
    (full : writer.size < writer.nextText + textsLength texts) (memory : Memory) :
    ∃ after, writer.pushAll? texts memory = .ok none after := by
  induction texts generalizing writer memory with
  | nil => exact absurd fits.texts (Nat.not_le.2 full)
  | cons text rest induction =>
      by_cases refused : writer.written = writer.announced ∨
          writer.size ≤ writer.nextText + text.length
      · refine ⟨memory, ?_⟩
        rw [pushAll?, bind_of_ok (push?_of_full refused memory)]
        rfl
      · have few := fits.few
        have more : writer.written < writer.announced := by omega
        have room : writer.nextText + text.length < writer.size := by omega
        rw [textsLength] at full
        obtain ⟨after, run⟩ := induction (fits.grown more room)
          (by simp only [grown]; omega) (writer.pushed text memory)
        refine ⟨after, ?_⟩
        rw [pushAll?, bind_of_ok (push?_of_room fits more room memory)]
        exact run

/-- A writer starts exactly if the block has room for the number of the arguments and for the
pointers. -/
theorem start?_eq (base count : Nat) (inside : block.length < Word.limit) :
    start? block.start block.length base count =
      if pointerSize + (count + 1) * pointerSize ≤ block.length then some
        { block := block.start, size := block.length, base, announced := count, written := 0
          nextText := pointerSize + (count + 1) * pointerSize } else none := by
  split
  next room =>
    have named : textOffset? count = some (pointerSize + (count + 1) * pointerSize) :=
      textOffset?_eq_some_iff.2 ⟨room.trans_lt inside, rfl⟩
    rw [start?, named, Option.bind_eq_bind, Option.bind_some, if_pos room]
    rfl
  next full =>
    rw [Option.eq_none_iff_forall_ne_some]
    intro writer started
    simp only [start?, Option.bind_eq_bind, Option.bind_eq_some_iff, textOffset?_eq_some_iff,
      Option.ite_none_right_eq_some] at started
    obtain ⟨_, ⟨_, rfl⟩, room, _⟩ := started
    exact full room

/-- Writing texts into a block succeeds exactly if the block has room for their number, the pointers
and the texts, and then that much of the block is in use.  Nothing changes behind that part, and
whoever reads the block gets the texts, in order, and then nothing, for ever. -/
theorem writeBlock?_round_trip (block : Extent) (memory : Memory) (bounded : block.stop ≤ Word.limit)
    (visible : base + block.length < Word.limit) (nonzero : ∀ text ∈ texts, 0 ∉ text) :
    ∃ after, writeBlock? block base texts memory =
        .ok (if blockLength texts ≤ block.length then some (blockLength texts) else none) after ∧
      (blockLength texts ≤ block.length →
        memory.ChangesOnly after (Extent.Covers ⟨block.start, blockLength texts⟩) ∧
        ∃ arguments, Arguments.parse? (after.read block.start block.length) base =
            some arguments ∧
          arguments.count = texts.length ∧
          ∀ more, arguments.ask (texts.length + more) =
            texts.map some ++ List.replicate more none) := by
  have inside : block.length < Word.limit := by omega
  have started := start?_eq base texts.length inside
  split at started
  next table =>
    obtain ⟨empty, _⟩ := holds_of_start? started visible bounded memory
    by_cases room : blockLength texts ≤ block.length
    · obtain ⟨between, pushed, holds, changes⟩ :=
        pushAll?_of_room empty nonzero (Nat.le_of_eq (Nat.zero_add _)) room
      obtain ⟨after, finished, final, has⟩ := finish_run holds (Nat.zero_add _)
      refine ⟨after, ?_, fun _ => ⟨changes.trans final, Arguments.ask_of_hasArguments has visible⟩⟩
      rw [if_pos room, writeBlock?, started]
      exact (bind_of_ok pushed).trans (bind_of_ok finished)
    · obtain ⟨after, pushed⟩ := pushAll?_of_full empty.toFits (Nat.not_le.1 room) memory
      refine ⟨after, ?_, fun fits => absurd fits room⟩
      rw [if_neg room, writeBlock?, started]
      exact bind_of_ok pushed
  next full =>
    have room : ¬ blockLength texts ≤ block.length := by
      simp only [blockLength]
      omega
    refine ⟨memory, ?_, fun fits => absurd fits room⟩
    rw [if_neg room, writeBlock?, started]
    rfl

/-- Two texts fit into a block of just the right length. -/
theorem writeBlock?_exact_fit : ∃ after, writeBlock? ⟨0x2000, 37⟩ Config.argumentAddress
      [[104, 105], [97]] .zero = .ok (some 37) after ∧
    ∃ arguments, Arguments.parse? (after.read 0x2000 37) Config.argumentAddress =
        some arguments ∧
      ∀ more, arguments.ask (2 + more) =
        [some [104, 105], some [97]] ++ List.replicate more none := by
  have fits : blockLength [[104, 105], [97]] ≤ 37 := by decide
  obtain ⟨after, written, reads⟩ := writeBlock?_round_trip ⟨0x2000, 37⟩ .zero
    (by decide) (by decide : Config.argumentAddress + 37 < Word.limit)
    (by decide : ∀ text ∈ [[104, 105], [97]], (0 : UInt8) ∉ text)
  obtain ⟨_, arguments, parsed, _, all⟩ := reads fits
  exact ⟨after, written, arguments, parsed, all⟩

end ArgumentWriter
end Microkernel
