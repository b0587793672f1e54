import Microkernel.Proofs.Process.Ownership

/-!
# Texts are read as far as the program may read

Looking for a text at an address has four ends: the text is found, it is longer than was allowed
for, its first byte cannot be read, or the readable bytes end before it does.  Which one it is
depends on the bytes that the program may read, and on no others.
-/

namespace Microkernel
namespace Process

variable {process : Process} {memory : Memory} {address : Nat}

/-- Whether a text of a given length lies at an address and the process may read it, together with
the zero byte at its end. -/
structure HasText (process : Process) (memory : Memory) (address length : Nat) : Prop where
  readable : ∀ offset ≤ length, process.May .read (address + offset)
  nonzero : ∀ offset < length, memory.get (address + offset) ≠ 0
  zero : memory.get (address + length) = 0

/-- Whether a given number of bytes at an address can be read by the process and none of them is
zero. -/
structure HasBytes (process : Process) (memory : Memory) (address number : Nat) : Prop where
  readable : ∀ offset < number, process.May .read (address + offset)
  nonzero : ∀ offset < number, memory.get (address + offset) ≠ 0

/-- How far the readable bytes at an address go, out of a number of them. -/
def Reaches (process : Process) (address most extent : Nat) : Prop :=
  ∀ number ≤ most, number ≤ extent ↔ ∀ offset < number, process.May .read (address + offset)

variable {most extent : Nat}

theorem Reaches.eq_zero_iff (reaches : process.Reaches address most extent)
    (some_byte : 1 ≤ most) : extent = 0 ↔ ¬ process.May .read address := by
  have first := reaches 1 some_byte
  simp only [Nat.lt_one_iff, forall_eq, Nat.add_zero] at first
  rw [← first]
  omega

theorem Reaches.complete_iff (reaches : process.Reaches address most extent) (text : List UInt8) :
    UserString.ofMemory memory address extent most = .ok (.complete text) ↔
      ∃ length < most, process.HasText memory address length ∧
        text = memory.read address length := by
  rw [UserString.ofMemory_eq_complete_iff, Memory.textAt_iff]
  constructor
  · rintro ⟨⟨same, zero, nonzero⟩, inside, short⟩
    have readable := (reaches (text.length + 1) short).1 inside
    exact ⟨text.length, short,
      ⟨fun offset small => readable offset (Nat.lt_succ_of_le small), nonzero, zero⟩, same⟩
  · rintro ⟨length, short, found, rfl⟩
    rw [Memory.length_read]
    refine ⟨⟨rfl, found.zero, found.nonzero⟩, (reaches (length + 1) short).2 ?_, short⟩
    exact fun offset small => found.readable offset (Nat.le_of_lt_succ small)

theorem Reaches.truncated_iff (reaches : process.Reaches address most extent)
    (bytes : List UInt8) :
    UserString.ofMemory memory address extent most = .ok (.truncated bytes) ↔
      process.HasBytes memory address most ∧ bytes = memory.read address most := by
  rw [UserString.ofMemory_eq_truncated_iff, reaches most (Nat.le_refl _)]
  constructor
  · rintro ⟨readable, rfl, nonzero⟩
    exact ⟨⟨readable, (Memory.zero_notMem_read_iff ..).1 nonzero⟩, rfl⟩
  · rintro ⟨found, rfl⟩
    exact ⟨found.readable, rfl, (Memory.zero_notMem_read_iff ..).2 found.nonzero⟩

theorem HasText.may {length : Nat} (found : process.HasText memory address length) :
    process.May .read address :=
  found.readable 0 (Nat.zero_le _)

theorem HasBytes.may {number : Nat} (found : process.HasBytes memory address number)
    (some_byte : 1 ≤ number) : process.May .read address :=
  found.readable 0 some_byte

section MapError

variable {ε ε' α : Type} {result : Except ε α} {change : ε → ε'}

theorem mapError_eq_ok_iff {value : α} :
    result.mapError change = .ok value ↔ result = .ok value := by
  cases result with
  | ok found =>
      constructor
      · rintro ⟨⟩
        rfl
      · rintro ⟨⟩
        rfl
  | error error => exact iff_of_false (by rintro ⟨⟩) (by rintro ⟨⟩)

theorem mapError_eq_error_iff {changed : ε'} :
    result.mapError change = .error changed ↔
      ∃ error, result = .error error ∧ change error = changed := by
  cases result with
  | ok found => exact iff_of_false (by rintro ⟨⟩) (by rintro ⟨_, ⟨⟩, _⟩)
  | error error =>
      constructor
      · rintro ⟨⟩
        exact ⟨error, rfl, rfl⟩
      · rintro ⟨_, ⟨⟩, rfl⟩
        rfl

end MapError

/-- Out of the readable bytes, a text that has no end there is told from the rest. -/
theorem Reaches.unterminated_iff (reaches : process.Reaches address most extent) :
    UserString.ofMemory memory address extent most = .error .unterminatedString ↔
      (¬ ∃ length < most, process.HasText memory address length) ∧
        ¬ process.HasBytes memory address most := by
  constructor
  · intro failed
    refine ⟨fun ⟨length, short, found⟩ => ?_, fun found => ?_⟩
    · have complete := (reaches.complete_iff _).2 ⟨length, short, found, rfl⟩
      rw [failed] at complete
      cases complete
    · have truncated := (reaches.truncated_iff _).2 ⟨found, rfl⟩
      rw [failed] at truncated
      cases truncated
  · rintro ⟨no_text, no_bytes⟩
    rcases UserString.ofMemory_cases memory address extent most with ⟨string, read⟩ | failed
    · cases string with
      | complete text =>
          obtain ⟨length, short, found, _⟩ := (reaches.complete_iff _).1 read
          exact absurd ⟨length, short, found⟩ no_text
      | truncated bytes => exact absurd ((reaches.truncated_iff _).1 read).1 no_bytes
    · exact failed

/-- A text is read exactly as far as the process may read, and whatever else lies in memory makes no
difference. -/
theorem reads_texts (spaced : Region.Spaced process.regions) (memory : Memory)
    (word : address < Word.limit) (some_byte : 1 ≤ most) :
    (∀ text, (process.readString memory address most).run = .ok (.ok (.complete text)) ↔
        ∃ length < most, process.HasText memory address length ∧
          text = memory.read address length) ∧
      (∀ bytes, (process.readString memory address most).run = .ok (.ok (.truncated bytes)) ↔
        process.HasBytes memory address most ∧ bytes = memory.read address most) ∧
      ((process.readString memory address most).run =
          .ok (.error (.memoryAccess address .kernel)) ↔ ¬ process.May .read address) ∧
      ((process.readString memory address most).run =
          .ok (.error (.usage .unterminatedString)) ↔
        process.May .read address ∧ (¬ ∃ length < most, process.HasText memory address length) ∧
          ¬ process.HasBytes memory address most) ∧
      (∃ ending, (process.readString memory address most).run = .ok ending) ∧
      ∀ other, memory.AgreeOn other (process.May .read) →
        process.readString other address most = process.readString memory address most := by
  obtain ⟨extent, counted, reaches⟩ :=
    Region.readableExtent_exact spaced.bounded spaced.ordered most word
  replace reaches : process.Reaches address most extent := reaches
  have unreadable_iff := reaches.eq_zero_iff some_byte
  have run := readString_run_eq memory counted
  refine ⟨?_, ?_, ?_, ?_, ⟨_, run⟩, fun other agree =>
    (readString_eq spaced.bounded agree address most).symm⟩
  all_goals rw [run]
  · intro text
    split
    next empty =>
        refine iff_of_false (by simp) ?_
        rintro ⟨_, _, found, _⟩
        exact unreadable_iff.1 empty found.may
    next => rw [Except.ok.injEq, mapError_eq_ok_iff, reaches.complete_iff]
  · intro bytes
    split
    next empty =>
        refine iff_of_false (by simp) ?_
        rintro ⟨found, _⟩
        exact unreadable_iff.1 empty (found.may some_byte)
    next => rw [Except.ok.injEq, mapError_eq_ok_iff, reaches.truncated_iff]
  · rw [← unreadable_iff]
    split
    next empty => exact iff_of_true rfl empty
    next some_readable =>
        rw [Except.ok.injEq, mapError_eq_error_iff]
        exact iff_of_false (by simp) some_readable
  · split
    next empty => exact iff_of_false (by simp) fun ends => unreadable_iff.1 empty ends.1
    next some_readable =>
        have may := Classical.not_not.1 (mt unreadable_iff.2 some_readable)
        rw [Except.ok.injEq, mapError_eq_error_iff, and_iff_right may, ← reaches.unterminated_iff]
        simp

/-- A text across two regions that abut is found, or cut off behind its last byte if no more are
allowed.  Nothing can be read in an empty region, and a text that runs out of the last region has no
end. -/
theorem patchwork_reads : Region.Spaced patchwork.regions ∧
    let memory := (Memory.zero.write 0x1FFE [104, 105, 106]).write 0x9FFE [104, 105]
    (patchwork.readString memory 0x1FFE 64).run = .ok (.ok (.complete [104, 105, 106])) ∧
      (patchwork.readString memory 0x1FFE 3).run = .ok (.ok (.truncated [104, 105, 106])) ∧
      (patchwork.readString memory 0x4000 64).run =
        .ok (.error (.memoryAccess (some 0x4000) .kernel)) ∧
      (patchwork.readString memory 0x9FFE 64).run =
        .ok (.error (.usage .unterminatedString)) := by
  refine ⟨spaced_patchwork, ?_⟩
  intro memory
  obtain ⟨across, _⟩ := reads_texts spaced_patchwork memory
    (by decide : 0x1FFE < Word.limit) (by decide : 1 ≤ 64)
  obtain ⟨_, cut, _⟩ := reads_texts spaced_patchwork memory
    (by decide : 0x1FFE < Word.limit) (by decide : 1 ≤ 3)
  obtain ⟨_, _, nothing, _⟩ := reads_texts spaced_patchwork memory
    (by decide : 0x4000 < Word.limit) (by decide : 1 ≤ 64)
  obtain ⟨_, _, _, endless, _⟩ := reads_texts spaced_patchwork memory
    (by decide : 0x9FFE < Word.limit) (by decide : 1 ≤ 64)
  refine ⟨(across _).2 ⟨3, by decide, ⟨by decide, by decide +kernel, by decide +kernel⟩,
    by decide +kernel⟩, (cut _).2 ⟨⟨by decide, by decide +kernel⟩, by decide +kernel⟩,
    nothing.2 (by decide), endless.2 ⟨by decide, ?_, fun bytes => ?_⟩⟩
  · rintro ⟨length, _, text⟩
    -- the text would have to go on behind the region
    have beyond : ¬ patchwork.May .read 0xA000 := by decide
    rcases Nat.lt_or_ge length 2 with short | long
    · have nonzero : ∀ offset < 2, memory.get (0x9FFE + offset) ≠ 0 := by decide +kernel
      exact nonzero length short text.zero
    · exact beyond (text.readable 2 long)
  · exact absurd (bytes.readable 2 (by decide)) (by decide)

end Process
end Microkernel
