import Microkernel.Proofs.Memory.Agreement
import Microkernel.Proofs.Memory.Words

/-!
# Texts in memory

A text is a run of bytes with a zero byte behind it, and none inside.  It stays where it is as long
as nothing is stored over it.
-/

namespace Microkernel

namespace Memory

theorem ChangesOnly.agreeOn {before after : Memory} {places others : Nat → Prop}
    (changes : before.ChangesOnly after places) (apart : ∀ address, others address →
      ¬ places address) : after.AgreeOn before others := fun address other =>
  Classical.byContradiction fun changed => apart address other (changes address changed)

/-- Whether a text lies at an address: its bytes, none of which is zero, and then a zero byte. -/
structure TextAt (memory : Memory) (address : Nat) (text : List UInt8) : Prop where
  /-- The bytes are there. -/
  read_eq : memory.read address (text.length + 1) = text ++ [0]
  /-- The text ends at the first zero byte. -/
  nonzero : 0 ∉ text

variable {before after : Memory} {address : Nat} {text : List UInt8} {places : Nat → Prop}

theorem zero_notMem_read_iff (memory : Memory) (address length : Nat) :
    0 ∉ memory.read address length ↔ ∀ offset < length, memory.get (address + offset) ≠ 0 := by
  simp [read_eq_map_get]

/-- Byte by byte, a text is what lies before the first zero byte. -/
theorem textAt_iff {memory : Memory} : memory.TextAt address text ↔
    text = memory.read address text.length ∧ memory.get (address + text.length) = 0 ∧
      ∀ offset < text.length, memory.get (address + offset) ≠ 0 := by
  have read_succ : memory.read address (text.length + 1) =
      memory.read address text.length ++ [memory.get (address + text.length)] := by
    simp [read_eq_map_get, List.range_succ]
  constructor
  · rintro ⟨read_eq, nonzero⟩
    rw [read_succ] at read_eq
    obtain ⟨same, ends⟩ := List.append_inj read_eq (length_read ..)
    rw [← same, zero_notMem_read_iff] at nonzero
    exact ⟨same.symm, List.singleton_inj.1 ends, by simpa using nonzero⟩
  · rintro ⟨same, zero, nonzero⟩
    refine ⟨?_, ?_⟩
    · rw [read_succ, zero, ← same]
    · rw [same]
      exact (zero_notMem_read_iff memory address text.length).2 nonzero

theorem zeroWithin?_eq_some_iff {memory : Memory} {length number : Nat} :
    memory.zeroWithin? address length = some number ↔ number < length ∧
      memory.get (address + number) = 0 ∧
        ∀ offset < number, memory.get (address + offset) ≠ 0 := by
  rw [zeroWithin?_eq, List.findIdx?_eq_some_iff_getElem]
  simp [read_eq_map_get, and_left_comm]

theorem zeroWithin?_eq_none_iff {memory : Memory} {length : Nat} :
    memory.zeroWithin? address length = none ↔
      ∀ offset < length, memory.get (address + offset) ≠ 0 := by
  rw [zeroWithin?_eq, List.findIdx?_eq_none_iff]
  simp [read_eq_map_get]

theorem TextAt.of_changesOnly (there : before.TextAt address text)
    (changes : before.ChangesOnly after places)
    (free : ∀ offset ≤ text.length, ¬ places (address + offset)) : after.TextAt address text where
  read_eq := (read_of_changesOnly changes fun offset small =>
    free offset (Nat.le_of_lt_succ small)).trans there.read_eq
  nonzero := there.nonzero

theorem TextAt.of_agreeOn (there : before.TextAt address text)
    (agree : before.AgreeOn after places)
    (inside : ∀ offset ≤ text.length, places (address + offset)) : after.TextAt address text where
  read_eq := (agree.read_eq fun offset small =>
    inside offset (Nat.le_of_lt_succ small)).symm.trans there.read_eq
  nonzero := there.nonzero

theorem textAt_write (memory : Memory) (nonzero : 0 ∉ text)
    (inside : address + text.length < Word.limit) :
    (memory.write address (text ++ [0])).TextAt address text where
  read_eq := by
    have stored := memory.read_write address (text ++ [0]) (by
      rw [List.length_append, List.length_singleton]
      exact inside)
    rwa [List.length_append] at stored
  nonzero := nonzero

end Memory
end Microkernel
