import Microkernel.Proofs.Memory.Extent

/-!
# Words in memory

A word that has been stored is read back as long as nothing is stored over it.  Words that follow
each other are stored at once and read one by one.
-/

namespace Microkernel

namespace Word

theorem ofBytes_bytes (word : UInt64) : ofBytes (bytes word) = word.toNat := by
  have small := word.toNat_lt
  simp only [bytes, List.range, List.range.loop, List.map_cons, List.map_nil, ofBytes,
    UInt64.toNat_toUInt8, UInt64.toNat_shiftRight, Nat.shiftRight_eq_div_pow]
  simp only [Nat.toUInt64_eq, UInt64.toNat_ofNat', Nat.reduceMul, Nat.reduceMod, Nat.reducePow]
    at *
  omega

/-- A byte of one of several words that follow each other. -/
theorem getElem?_flatMap_bytes {words : List UInt64} {index : Nat} {word : UInt64}
    (found : words[index]? = some word) {place : Nat} (small : place < 8) :
    (words.flatMap bytes)[index * 8 + place]? = (bytes word)[place]? := by
  induction words generalizing index with
  | nil => cases found
  | cons first rest induction =>
      rw [List.flatMap_cons]
      cases index with
      | zero =>
          cases found
          rw [Nat.zero_mul, Nat.zero_add, List.getElem?_append_left (by simpa using small)]
      | succ index =>
          have behind : (bytes first).length ≤ (index + 1) * 8 + place := by
            rw [length_bytes]
            omega
          rw [List.getElem?_append_right behind, length_bytes, ← induction found]
          congr 1
          omega

end Word

namespace Memory

theorem read_of_changesOnly {before after : Memory} {address length : Nat} {places : Nat → Prop}
    (changes : before.ChangesOnly after places)
    (free : ∀ offset < length, ¬ places (address + offset)) :
    after.read address length = before.read address length := by
  rw [read_eq_map_get, read_eq_map_get]
  apply List.map_congr_left
  intro offset member
  apply Decidable.byContradiction
  intro changed
  exact free offset (List.mem_range.1 member) (changes _ changed)

theorem readWord_of_changesOnly {before after : Memory} {address : Nat} {places : Nat → Prop}
    (changes : before.ChangesOnly after places) (free : ∀ place < 8, ¬ places (address + place)) :
    after.readWord address = before.readWord address := by
  rw [readWord, readWord, read_of_changesOnly changes free]

theorem read_write (memory : Memory) (address : Nat) (bytes : List UInt8)
    (inside : address + bytes.length ≤ Word.limit) :
    (memory.write address bytes).read address bytes.length = bytes := by
  rw [read_eq_map_get]
  apply List.ext_getElem
  · rw [List.length_map, List.length_range]
  · intro offset _ small
    rw [List.getElem_map, List.getElem_range, get_write _ _ _ _ (by omega),
      if_pos (Nat.le_add_right _ _), Nat.add_sub_cancel_left, List.getElem?_eq_getElem small]
    rfl

theorem readWord_writeWord (memory : Memory) (address : Nat) (word : UInt64)
    (inside : address + 8 ≤ Word.limit) :
    (memory.writeWord address word).readWord address = word := by
  have stored := memory.read_write address (Word.bytes word) (by rwa [Word.length_bytes])
  rw [Word.length_bytes] at stored
  rw [readWord, writeWord, stored, Word.ofBytes_bytes]
  exact UInt64.ofNat_toNat

/-- Each of several words that were stored is read back. -/
theorem readWord_writeWords (memory : Memory) (address : Nat) {words : List UInt64} {index : Nat}
    {word : UInt64} (found : words[index]? = some word)
    (inside : address + index * 8 + 8 ≤ Word.limit) :
    (memory.writeWords address words).readWord (address + index * 8) = word := by
  have stored : (memory.writeWords address words).read (address + index * 8) 8 =
      Word.bytes word := by
    apply List.ext_getElem?
    intro place
    rw [read_eq_map_get, List.getElem?_map]
    by_cases small : place < 8
    · have byte : (Word.bytes word)[place]? = some (Word.bytes word)[place] :=
        List.getElem?_eq_getElem (by simpa using small)
      rw [List.getElem?_range small, Option.map_some, writeWords, get_write _ _ _ _ (by omega),
        if_pos (by omega)]
      have place_eq : address + index * 8 + place - address = index * 8 + place := by omega
      rw [place_eq, Word.getElem?_flatMap_bytes found small, byte]
      rfl
    · rw [List.getElem?_eq_none (by simpa using small), Option.map_none,
        List.getElem?_eq_none (by simpa using small)]
  rw [readWord, stored, Word.ofBytes_bytes]
  exact UInt64.ofNat_toNat

end Memory
end Microkernel
