import Microkernel.Memory.Lemmas

/-!
# Memories that agree

Two contents of memory agree on some places if they hold the same bytes there.  Whoever reads only
such places reads the same from both, and whoever then stores the same into both leaves them in
agreement.
-/

namespace Microkernel
namespace Memory

/-- Whether two contents of memory hold the same bytes at the given places. -/
def AgreeOn (first second : Memory) (places : Nat → Prop) : Prop :=
  ∀ address, places address → first.get address = second.get address

/-- Whether two contents of memory have changed alike: at each address they hold the same byte
afterwards, or neither has changed. -/
def ChangeAlike (first firstAfter second secondAfter : Memory) : Prop :=
  ∀ address, firstAfter.get address = secondAfter.get address ∨
    (firstAfter.get address = first.get address ∧ secondAfter.get address = second.get address)

section

variable {first firstBetween firstAfter second secondBetween secondAfter : Memory}
  {places : Nat → Prop}

theorem ChangeAlike.refl (first second : Memory) : ChangeAlike first first second second :=
  fun _ => .inr ⟨rfl, rfl⟩

theorem ChangeAlike.trans (before : ChangeAlike first firstBetween second secondBetween)
    (after : ChangeAlike firstBetween firstAfter secondBetween secondAfter) :
    ChangeAlike first firstAfter second secondAfter := by
  intro address
  rcases after address with same | ⟨first_kept, second_kept⟩
  · exact .inl same
  · rw [first_kept, second_kept]
    exact before address

theorem ChangeAlike.agreeOn (alike : ChangeAlike first firstAfter second secondAfter)
    (agree : first.AgreeOn second places) : firstAfter.AgreeOn secondAfter places := by
  intro address place
  rcases alike address with same | ⟨first_kept, second_kept⟩
  · exact same
  · rw [first_kept, second_kept]
    exact agree address place

theorem AgreeOn.read_eq (agree : first.AgreeOn second places) {address length : Nat}
    (inside : ∀ offset < length, places (address + offset)) :
    first.read address length = second.read address length := by
  rw [read_eq_map_get, read_eq_map_get]
  apply List.map_congr_left
  intro offset member
  exact agree _ (inside offset (List.mem_range.1 member))

theorem AgreeOn.readWord_eq (agree : first.AgreeOn second places) {address : Nat}
    (inside : ∀ offset < 8, places (address + offset)) :
    first.readWord address = second.readWord address := by
  rw [readWord, readWord, agree.read_eq inside]

end

variable (first second : Memory)

theorem changeAlike_write (start : Nat) (bytes : List UInt8) :
    ChangeAlike first (first.write start bytes) second (second.write start bytes) := by
  intro address
  by_cases inside : address < Word.limit
  · rw [get_write _ _ _ _ inside, get_write _ _ _ _ inside]
    split
    · cases bytes[address - start]? with
      | none => exact .inr ⟨rfl, rfl⟩
      | some byte => exact .inl rfl
    · exact .inr ⟨rfl, rfl⟩
  · left
    rw [get_eq_zero_of_limit_le _ _ (by omega), get_eq_zero_of_limit_le _ _ (by omega)]

theorem changeAlike_fill (start length : Nat) (byte : UInt8) :
    ChangeAlike first (first.fill start length byte) second (second.fill start length byte) := by
  intro address
  by_cases inside : address < Word.limit
  · rw [get_fill _ _ _ _ _ inside, get_fill _ _ _ _ _ inside]
    split
    · exact .inl rfl
    · exact .inr ⟨rfl, rfl⟩
  · left
    rw [get_eq_zero_of_limit_le _ _ (by omega), get_eq_zero_of_limit_le _ _ (by omega)]

end Memory
end Microkernel
