import Microkernel.Proofs.Memory.Texts

/-!
# Writing an argument block

A writer keeps the pointer table in front of the texts and the texts inside the block.  As long as
it does, no step of the writer crashes, and what it stores changes bytes of the block alone.  Once
it is finished, the block holds the number of its texts and a pointer to each of them.
-/

namespace Microkernel

namespace Memory

/-- Whether the pointer at a place of the table of a block leads to a text that lies between two
offsets into the block.  The process sees the block at the base. -/
def LeadsTo (memory : Memory) (block base place first last : Nat) (text : List UInt8) : Prop :=
  ∃ offset, first ≤ offset ∧ offset + text.length < last ∧
    memory.readWord (block + pointerSize + place * pointerSize) = (base + offset).toUInt64 ∧
      memory.TextAt (block + offset) text

/-- Whether a block has texts as its arguments, for a process that sees the block at the base. -/
structure HasArguments (memory : Memory) (block : Extent) (base : Nat)
    (texts : List (List UInt8)) : Prop where
  /-- The block begins with the number of the texts. -/
  count : memory.readWord block.start = texts.length.toUInt64
  /-- The block has room for that and for the pointers. -/
  room : pointerSize + (texts.length + 1) * pointerSize ≤ block.length
  /-- Each pointer leads to its text. -/
  leads : ∀ index text, texts[index]? = some text →
    memory.LeadsTo block.start base index 0 block.length text

variable {before after : Memory} {block base place first last : Nat} {text : List UInt8}
  {places : Nat → Prop}

theorem LeadsTo.mono (leads : before.LeadsTo block base place first last text) {least most : Nat}
    (earlier : least ≤ first) (later : last ≤ most) :
    before.LeadsTo block base place least most text := by
  obtain ⟨offset, behind, inside, rest⟩ := leads
  exact ⟨offset, Nat.le_trans earlier behind, Nat.lt_of_lt_of_le inside later, rest⟩

theorem LeadsTo.of_changesOnly (leads : before.LeadsTo block base place first last text)
    (changes : before.ChangesOnly after places)
    (pointer : ∀ offset < 8, ¬ places (block + pointerSize + place * pointerSize + offset))
    (texts : ∀ offset, first ≤ offset → offset < last → ¬ places (block + offset)) :
    after.LeadsTo block base place first last text := by
  obtain ⟨offset, behind, inside, points, there⟩ := leads
  refine ⟨offset, behind, inside, (readWord_of_changesOnly changes pointer).trans points,
    there.of_changesOnly changes fun further small => ?_⟩
  rw [Nat.add_assoc]
  exact texts _ (by omega) (by omega)

theorem HasArguments.of_agreeOn {extent : Extent} {arguments : List (List UInt8)}
    (has : before.HasArguments extent base arguments)
    (agree : before.AgreeOn after extent.Covers) : after.HasArguments extent base arguments where
  count := by
    rw [← has.count]
    refine (agree.readWord_eq fun offset small => ?_).symm
    have room := has.room
    simp only [Extent.Covers, Extent.stop, pointerSize] at *
    omega
  room := has.room
  leads index text found := by
    obtain ⟨offset, behind, inside, points, there⟩ := has.leads index text found
    have room := has.room
    have small := (List.getElem?_eq_some_iff.1 found).1
    refine ⟨offset, behind, inside, Eq.trans (agree.readWord_eq fun further less => ?_).symm points,
      there.of_agreeOn agree fun further less => ?_⟩
    all_goals
      simp only [Extent.Covers, Extent.stop, pointerSize] at *
      omega

end Memory

namespace ArgumentWriter

/-- The addresses of the block. -/
def extent (writer : ArgumentWriter) : Extent :=
  ⟨writer.block, writer.size⟩

/-- The offset behind the pointer table. -/
def tableEnd (writer : ArgumentWriter) : Nat :=
  pointerSize + (writer.announced + 1) * pointerSize

/-- The pointers end before the next text, which begins inside the block, and the process can name
every byte of the block. -/
structure Fits (writer : ArgumentWriter) : Prop where
  /-- The pointer table ends before the texts. -/
  pointers : writer.tableEnd ≤ writer.nextText
  /-- The texts end inside the block. -/
  texts : writer.nextText ≤ writer.size
  /-- No more arguments were written than announced. -/
  few : writer.written ≤ writer.announced
  /-- The process sees the block inside its address space. -/
  visible : writer.base + writer.size < Word.limit
  /-- The block itself lies inside the address space. -/
  bounded : writer.block + writer.size ≤ Word.limit

/-- Whether a writer has put some arguments into its block so far. -/
structure Holds (writer : ArgumentWriter) (memory : Memory) (arguments : List (List UInt8)) : Prop
    extends writer.Fits where
  /-- As many arguments were written. -/
  number : arguments.length = writer.written
  /-- Each pointer leads to its text, which lies before the next one. -/
  leads : ∀ index text, arguments[index]? = some text →
    memory.LeadsTo writer.block writer.base index writer.tableEnd writer.nextText text

theorem holds_of_start? {block size base count : Nat} {writer : ArgumentWriter}
    (started : start? block size base count = some writer)
    (visible : base + size < Word.limit) (bounded : block + size ≤ Word.limit) (memory : Memory) :
    writer.Holds memory [] ∧ writer.extent = ⟨block, size⟩ ∧ writer.base = base ∧
      writer.announced = count := by
  simp only [start?, Option.bind_eq_bind, Option.bind_eq_some_iff, textOffset?_eq_some_iff,
    Option.ite_none_right_eq_some, Option.some.injEq, Option.pure_def] at started
  obtain ⟨nextText, ⟨_, rfl⟩, room, rfl⟩ := started
  exact ⟨⟨⟨Nat.le_refl _, room, Nat.zero_le _, visible, bounded⟩, rfl, by simp⟩, rfl, rfl, rfl⟩

theorem changesOnly_storePointer {writer : ArgumentWriter} (fits : writer.Fits)
    (place pointer : Nat) (inside : place ≤ writer.announced) (memory : Memory) :
    memory.ChangesOnly
      (memory.writeWord (writer.block + pointerSize + place * pointerSize) pointer.toUInt64)
      (Extent.Covers ⟨writer.block, writer.nextText⟩) := by
  have pointers := fits.pointers
  apply Memory.changesOnly_write_within
  · simp only [pointerSize]
    omega
  · simp only [Word.length_bytes, Extent.stop, tableEnd, pointerSize] at *
    omega

/-- The writer once the next argument is written. -/
def grown (writer : ArgumentWriter) (text : List UInt8) : ArgumentWriter :=
  { writer with
    written := writer.written + 1
    nextText := writer.nextText + text.length + 1 }

/-- Memory once the next argument is written: the text, and then the pointer to it. -/
def pushed (writer : ArgumentWriter) (text : List UInt8) (memory : Memory) : Memory :=
  (memory.write (writer.block + writer.nextText) (text ++ [0])).writeWord
    (writer.block + pointerSize + writer.written * pointerSize)
    (writer.base + writer.nextText).toUInt64

variable {writer : ArgumentWriter} {memory : Memory} {arguments : List (List UInt8)}
  {text : List UInt8}

theorem leadsTo_pushed (fits : writer.Fits) (nonzero : 0 ∉ text)
    (more : writer.written < writer.announced)
    (room : writer.nextText + text.length < writer.size) :
    (writer.pushed text memory).LeadsTo writer.block writer.base writer.written writer.tableEnd
      (writer.nextText + text.length + 1) text := by
  have pointers := fits.pointers
  have bounded := fits.bounded
  have written := memory.textAt_write nonzero
    (by omega : writer.block + writer.nextText + text.length < Word.limit)
  refine ⟨writer.nextText, pointers, Nat.lt_succ_self _,
    Memory.readWord_writeWord _ _ _ ?_, written.of_changesOnly (Memory.changesOnly_write _ _ _) ?_⟩
  · simp only [tableEnd, pointerSize] at *
    omega
  · simp only [Extent.Covers, Extent.stop, Word.length_bytes, tableEnd, pointerSize] at *
    omega

theorem Holds.leadsTo_pushed (holds : writer.Holds memory arguments)
    (more : writer.written < writer.announced) {index : Nat} {other : List UInt8}
    (found : arguments[index]? = some other) :
    (writer.pushed text memory).LeadsTo writer.block writer.base index writer.tableEnd
      writer.nextText other := by
  have pointers := holds.pointers
  have number := holds.number
  have earlier := (List.getElem?_eq_some_iff.1 found).1
  refine ((holds.leads index other found).of_changesOnly (Memory.changesOnly_write _ _ _) ?_
    ?_).of_changesOnly (Memory.changesOnly_write _ _ _) ?_ ?_
  all_goals
    simp only [Extent.Covers, Extent.stop, Word.length_bytes, tableEnd, pointerSize] at *
    omega

theorem push?_of_full (full : writer.written = writer.announced ∨
      writer.size ≤ writer.nextText + text.length) (memory : Memory) :
    writer.push? text memory = .ok none memory := by
  simp only [push?, if_pos full]
  rfl

theorem push?_of_room (fits : writer.Fits) (more : writer.written < writer.announced)
    (room : writer.nextText + text.length < writer.size) (memory : Memory) :
    writer.push? text memory = .ok (some (writer.grown text)) (writer.pushed text memory) := by
  have visible := fits.visible
  have sum : Word.sum? writer.base writer.nextText = some (writer.base + writer.nextText) := by
    rw [Word.sum?_eq_some_iff]
    exact ⟨by omega, rfl⟩
  have open_still : ¬ (writer.written = writer.announced ∨
      writer.size ≤ writer.nextText + text.length) := by omega
  simp only [push?, if_neg open_still, sum]
  rfl

theorem changesOnly_pushed (fits : writer.Fits) (text : List UInt8) (memory : Memory) :
    memory.ChangesOnly (writer.pushed text memory)
      (Extent.Covers ⟨writer.block, (writer.grown text).nextText⟩) := by
  refine .trans ?_ ((changesOnly_storePointer fits _ _ fits.few _).mono fun address covered => ?_)
  · apply Memory.changesOnly_write_within
    · exact Nat.le_add_right _ _
    · simp only [List.length_append, List.length_singleton, Extent.stop, grown]
      omega
  · simp only [Extent.Covers, Extent.stop, grown] at *
    omega

theorem Fits.grown (fits : writer.Fits) (more : writer.written < writer.announced)
    (room : writer.nextText + text.length < writer.size) : (writer.grown text).Fits where
  pointers := Nat.le_trans fits.pointers
    (Nat.le_trans (Nat.le_add_right _ _) (Nat.le_add_right _ _))
  texts := room
  few := more
  visible := fits.visible
  bounded := fits.bounded

/-- Once the next argument is written, the writer goes on behind it. -/
theorem Holds.pushed (holds : writer.Holds memory arguments) (nonzero : 0 ∉ text)
    (more : writer.written < writer.announced)
    (room : writer.nextText + text.length < writer.size) :
    (writer.grown text).Holds (writer.pushed text memory) (arguments ++ [text]) := by
  refine ⟨holds.toFits.grown more room, ?_, fun index other found => ?_⟩
  · rw [List.length_append, List.length_singleton, holds.number]
    rfl
  · rw [List.getElem?_append] at found
    split at found
    next earlier =>
        exact (holds.leadsTo_pushed more found).mono (Nat.le_refl _)
          (Nat.le_trans (Nat.le_add_right _ _) (Nat.le_add_right _ _))
    next behind =>
        obtain ⟨last, rfl⟩ := List.getElem?_eq_some_iff.1 found
        have here : index = writer.written := by
          rw [← holds.number]
          rw [List.length_singleton] at last
          omega
        simp only [here, List.getElem_singleton]
        exact ArgumentWriter.leadsTo_pushed holds.toFits nonzero more room

theorem Fits.inside (fits : writer.Fits) {address : Nat}
    (covered : Extent.Covers ⟨writer.block, writer.nextText⟩ address) :
    writer.extent.Covers address := by
  have texts := fits.texts
  simp only [Extent.Covers, Extent.stop, extent] at *
  omega

/-- Writing an argument does not crash and stays inside the block; if the argument fits, the writer
goes on behind it. -/
theorem push_run (holds : writer.Holds memory arguments) (nonzero : 0 ∉ text) :
    ∃ next after, writer.push? text memory = .ok next after ∧
      memory.ChangesOnly after writer.extent.Covers ∧
      ∀ grown, next = some grown → grown.Holds after (arguments ++ [text]) ∧
        grown.extent = writer.extent ∧ grown.base = writer.base ∧
          grown.announced = writer.announced := by
  have few := holds.few
  by_cases refused : writer.written = writer.announced ∨
      writer.size ≤ writer.nextText + text.length
  · exact ⟨none, memory, push?_of_full refused memory, .refl _ _, by simp⟩
  · have more : writer.written < writer.announced := by omega
    have room : writer.nextText + text.length < writer.size := by omega
    have grows := holds.pushed nonzero more room
    refine ⟨some (writer.grown text), writer.pushed text memory,
      push?_of_room holds.toFits more room memory,
      (changesOnly_pushed holds.toFits text memory).mono fun _ => grows.toFits.inside, ?_⟩
    rintro _ ⟨⟩
    exact ⟨grows, rfl, rfl, rfl⟩

/-- Memory once the block is finished: the number of the arguments, and then the null pointer. -/
def finished (writer : ArgumentWriter) (memory : Memory) : Memory :=
  (memory.writeWord writer.block writer.announced.toUInt64).writeWord
    (writer.block + pointerSize + writer.announced * pointerSize) (0 : Nat).toUInt64

theorem changesOnly_finished (fits : writer.Fits) (memory : Memory) :
    memory.ChangesOnly (writer.finished memory)
      (Extent.Covers ⟨writer.block, writer.nextText⟩) := by
  have pointers := fits.pointers
  refine .trans ?_ (changesOnly_storePointer fits _ 0 (Nat.le_refl _) _)
  apply Memory.changesOnly_write_within
  · exact Nat.le_refl _
  · simp only [Word.length_bytes, Extent.stop, tableEnd, pointerSize] at *
    omega

/-- A block that is finished has the arguments that were written into it. -/
theorem Holds.hasArguments_finished (holds : writer.Holds memory arguments)
    (all : writer.written = writer.announced) :
    (writer.finished memory).HasArguments writer.extent writer.base arguments := by
  have pointers := holds.pointers
  have texts := holds.texts
  have bounded := holds.bounded
  have number := holds.number
  have ended := Memory.changesOnly_write (memory.writeWord writer.block writer.announced.toUInt64)
    (writer.block + pointerSize + writer.announced * pointerSize) (Word.bytes (0 : Nat).toUInt64)
  refine ⟨(Memory.readWord_of_changesOnly ended ?_).trans ?_, ?_, fun index text found => ?_⟩
  · simp only [Extent.Covers, Extent.stop, extent, pointerSize]
    omega
  · rw [number, all]
    refine Memory.readWord_writeWord _ _ _ ?_
    simp only [tableEnd, pointerSize] at *
    omega
  · simp only [number, all, extent]
    exact Nat.le_trans pointers texts
  · have earlier := (List.getElem?_eq_some_iff.1 found).1
    refine Memory.LeadsTo.mono ?_ (Nat.zero_le writer.tableEnd) texts
    refine ((holds.leads index text found).of_changesOnly (Memory.changesOnly_write _ _ _) ?_
      ?_).of_changesOnly ended ?_ ?_
    all_goals
      simp only [Extent.Covers, Extent.stop, Word.length_bytes, tableEnd, pointerSize] at *
      omega

/-- Once every announced argument was written, the block can be finished, and has them as its
arguments.  What is told is how much of it is in use: nothing changes behind. -/
theorem finish_run (holds : writer.Holds memory arguments)
    (all : writer.written = writer.announced) :
    ∃ after, writer.finish memory = .ok writer.nextText after ∧
      memory.ChangesOnly after (Extent.Covers ⟨writer.block, writer.nextText⟩) ∧
        after.HasArguments writer.extent writer.base arguments := by
  refine ⟨writer.finished memory, ?_, changesOnly_finished holds.toFits memory,
    holds.hasArguments_finished all⟩
  simp only [finish, if_pos all]
  rfl

/-- A block that has room for its number and the null pointer can be finished without arguments. -/
theorem finish_empty {block size base : Nat} (room : 2 * pointerSize ≤ size)
    (visible : base + size < Word.limit) (bounded : block + size ≤ Word.limit) (memory : Memory) :
    ∃ writer offset after, start? block size base 0 = some writer ∧
      writer.finish memory = .ok offset after ∧ after.HasArguments ⟨block, size⟩ base [] := by
  have offset : textOffset? 0 = some (2 * pointerSize) := by decide
  have started : start? block size base 0 = some
      { block, size, base, announced := 0, written := 0, nextText := 2 * pointerSize } := by
    rw [start?, offset, Option.bind_eq_bind, Option.bind_some, if_pos room]
    rfl
  obtain ⟨holds, _⟩ := holds_of_start? started visible bounded memory
  obtain ⟨after, finished, _, has⟩ := finish_run holds rfl
  exact ⟨_, _, after, started, finished, has⟩

end ArgumentWriter
end Microkernel
