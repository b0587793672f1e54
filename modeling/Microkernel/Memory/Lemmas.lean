import Microkernel.Memory

/-!
# Memory through its bytes

Every operation on memory, stated through `Memory.get`.  The main statements are `get_fill` and
`get_write`, by which a store changes the bytes it covers and no others, `read_eq_map_get`, by
which reading gives the bytes one after the other, and `zeroWithin?_eq`, by which a search finds
the first zero among them.
-/

namespace Microkernel

namespace ByteTree

@[simp] theorem span_zero : span 0 = 1 := rfl

theorem span_succ (width : Nat) : span (width + 1) = span width + span width := by
  simp only [span, Nat.shiftLeft_eq]
  omega

@[simp] theorem inLower_iff (width offset : Nat) :
    inLower width offset = true ↔ offset < span width := by
  simp [inLower, span, Nat.shiftRight_eq_div_pow, Nat.shiftLeft_eq]

@[simp] theorem get_uniform (width : Nat) (byte : UInt8) (offset : Nat) :
    get width (uniform byte) offset = byte := by
  cases width <;> rfl

theorem get_halves (width : Nat) (lower upper : ByteTree) (offset : Nat) :
    get (width + 1) (halves lower upper) offset =
      if offset < span width then get width lower offset
      else get width upper (offset - span width) := by
  simp only [get, inLower_iff]

/-- The lower half comes first, whether or not it is stored apart. -/
theorem get_succ (width : Nat) (tree : ByteTree) (offset : Nat) :
    get (width + 1) tree offset =
      if offset < span width then get width tree.split.1 offset
      else get width tree.split.2 (offset - span width) := by
  cases tree <;> simp [get_halves, split]

theorem get_fill (width : Nat) (tree : ByteTree) (start stop : Nat) (byte : UInt8)
    (offset : Nat) (inside : offset < span width) :
    get width (fill width tree start stop byte) offset =
      if start ≤ offset ∧ offset < stop then byte else get width tree offset := by
  induction width generalizing tree start stop offset with
  | zero =>
      have : offset = 0 := by simpa using inside
      subst this
      unfold fill
      split <;> split <;> simp_all
  | succ width induction =>
      unfold fill
      have power := span_succ width
      split
      · split
        · omega
        · rfl
      split
      · rw [get_uniform, if_pos (by omega)]
      rw [get_succ width tree offset]
      simp only [get_halves]
      split
      · split
        · rw [induction _ _ _ _ (by omega)]
          grind
        · rw [if_neg (by omega)]
      · split
        · rw [induction _ _ _ _ (by omega)]
          grind
        · rw [if_neg (by omega)]

theorem get_write (width : Nat) (tree : ByteTree) (start : Nat) (bytes : List UInt8)
    (offset : Nat) (inside : offset < span width) :
    get width (write width tree start bytes) offset =
      if start ≤ offset then bytes[offset - start]?.getD (get width tree offset)
      else get width tree offset := by
  induction width generalizing tree start bytes offset with
  | zero =>
      have : offset = 0 := by simpa using inside
      subst this
      cases bytes with
      | nil => simp [write]
      | cons byte rest =>
          simp only [write]
          split
          · simp_all
          · rw [if_neg (by omega)]
  | succ width induction =>
      cases bytes with
      | nil => simp [write]
      | cons byte rest =>
          have power := span_succ width
          simp only [write, inLower_iff]
          rw [get_succ width tree offset]
          split
          · rw [get_halves]
            split
            · rw [induction _ _ _ _ (by omega)]
            · split
              · rw [List.getElem?_eq_none (by simp; omega), Option.getD_none]
              · rfl
          split
          · simp only [get_halves, List.splitAt_eq]
            split
            · rw [induction _ _ _ _ (by omega)]
              split
              · rw [List.getElem?_take_of_lt (by omega)]
              · rfl
            · rw [induction _ _ _ _ (by omega), if_pos (by omega), if_pos (by omega),
                List.getElem?_drop]
              congr 2
              omega
          · simp only [get_halves]
            split
            · rw [if_neg (by omega)]
            · rw [induction _ _ _ _ (by omega)]
              split
              · rw [if_pos (by omega)]
                congr 2
                omega
              · rw [if_neg (by omega)]

@[simp] theorem readOnto_zero (width : Nat) (tree : ByteTree) (start : Nat)
    (rest : List UInt8) : readOnto width tree start 0 rest = rest := by
  induction width generalizing tree start with
  | zero => cases tree <;> simp [readOnto]
  | succ width induction =>
      cases tree with
      | uniform byte => simp [readOnto]
      | halves lower upper =>
          simp only [readOnto, inLower_iff, induction]
          split
          · rfl
          split
          · omega
          · rfl

theorem readOnto_eq (width : Nat) (tree : ByteTree) (start length : Nat) (rest : List UInt8)
    (inside : start + length ≤ span width) :
    readOnto width tree start length rest =
      (List.range length).map (fun index => get width tree (start + index)) ++ rest := by
  induction width generalizing tree start length rest with
  | zero =>
      cases tree <;> simp [readOnto, get, List.map_const']
  | succ width induction =>
      have power := span_succ width
      cases tree with
      | uniform byte => simp [readOnto, List.map_const']
      | halves lower upper =>
          simp only [readOnto, inLower_iff]
          split
          · rw [induction _ _ _ _ (by omega)]
            congr 1
            apply List.map_congr_left
            intro index member
            rw [List.mem_range] at member
            rw [get_halves, if_pos (by omega)]
          split
          · rw [induction _ _ _ _ (by omega), induction _ _ _ _ (by omega)]
            rw [← List.append_assoc]
            congr 1
            obtain ⟨far, total⟩ : ∃ far, length = (span width - start) + far :=
              ⟨start + length - span width, by omega⟩
            have behind : start + length - span width = far := by omega
            rw [behind, total, List.range_add, List.map_append, List.map_map]
            congr 1
            · apply List.map_congr_left
              intro index member
              rw [List.mem_range] at member
              rw [get_halves, if_pos (by omega)]
            · apply List.map_congr_left
              intro index member
              simp only [get_halves, Function.comp]
              rw [if_neg (by omega)]
              congr 1
              omega
          · rw [induction _ _ _ _ (by omega)]
            congr 1
            apply List.map_congr_left
            intro index member
            rw [List.mem_range] at member
            rw [get_halves, if_neg (by omega)]
            congr 1
            omega

theorem get_ne_zero_of_findZero?_eq_none (width : Nat) (tree : ByteTree) (start stop : Nat)
    (inside : stop ≤ span width) (absent : findZero? width tree start stop = none)
    (offset : Nat) (behind : start ≤ offset) (before : offset < stop) :
    get width tree offset ≠ 0 := by
  have some_offset : start < stop := by omega
  induction width generalizing tree start stop offset with
  | zero => cases tree <;> simp_all [findZero?, get]
  | succ width induction =>
      cases tree with
      | uniform byte => simp_all [findZero?]
      | halves lower upper =>
          have power := span_succ width
          simp only [findZero?, Option.orElse_eq_orElse, Option.orElse_eq_or,
            Option.or_eq_none_iff] at absent
          obtain ⟨near, far⟩ := absent
          rw [get_halves]
          split
          · rw [if_pos (by omega)] at near
            exact induction _ _ _ (by omega) near _ behind (by omega) (by omega)
          · rw [if_pos (by omega), Option.map_eq_none_iff] at far
            exact induction _ _ _ (by omega) far _ (by omega) (by omega) (by omega)

theorem first_of_findZero?_eq_some (width : Nat) (tree : ByteTree) (start stop place : Nat)
    (inside : stop ≤ span width) (found : findZero? width tree start stop = some place) :
    start ≤ place ∧ place < stop ∧ get width tree place = 0 ∧
      ∀ earlier, start ≤ earlier → earlier < place → get width tree earlier ≠ 0 := by
  induction width generalizing tree start stop place with
  | zero =>
      cases tree <;>
        · simp only [findZero?, Option.ite_none_right_eq_some, Option.some.injEq] at found
          obtain ⟨⟨below, zero⟩, rfl⟩ := found
          exact ⟨by omega, below, by simpa [get] using zero, by omega⟩
  | succ width induction =>
      cases tree with
      | uniform byte =>
          simp only [findZero?, Option.ite_none_right_eq_some, Option.some.injEq] at found
          obtain ⟨⟨below, zero⟩, rfl⟩ := found
          exact ⟨by omega, below, by simpa using zero, by omega⟩
      | halves lower upper =>
          have power := span_succ width
          simp only [findZero?, Option.orElse_eq_orElse, Option.orElse_eq_or,
            Option.or_eq_some_iff, Option.ite_none_right_eq_some, Option.map_eq_some_iff] at found
          rcases found with ⟨low, near⟩ | ⟨near, high, place, far, rfl⟩
          · obtain ⟨first, below, zero, none_earlier⟩ := induction _ _ _ _ (by omega) near
            refine ⟨first, by omega, ?_, fun earlier behind before => ?_⟩
            · rwa [get_halves, if_pos (by omega)]
            · rw [get_halves, if_pos (by omega)]
              exact none_earlier _ behind before
          · obtain ⟨first, below, zero, none_earlier⟩ := induction _ _ _ _ (by omega) far
            refine ⟨by omega, by omega, ?_, fun earlier behind before => ?_⟩
            · rwa [get_halves, if_neg (by omega), Nat.add_sub_cancel_left]
            · rw [get_halves]
              split
              · rw [if_pos (by omega)] at near
                exact get_ne_zero_of_findZero?_eq_none _ _ _ _ (by omega) near _ behind (by omega)
              · exact none_earlier _ (by omega) (by omega)

end ByteTree

namespace Memory

@[simp] theorem get_zero (address : Nat) : zero.get address = 0 := by
  simp [get, zero]

/-- There is nothing but zero beyond the address space. -/
theorem get_eq_zero_of_limit_le (memory : Memory) (address : Nat) (beyond : Word.limit ≤ address) :
    memory.get address = 0 := by
  rw [get, if_neg (by omega)]

theorem get_fill (memory : Memory) (start length : Nat) (byte : UInt8) (address : Nat)
    (inside : address < Word.limit) :
    (memory.fill start length byte).get address =
      if start ≤ address ∧ address < start + length then byte else memory.get address := by
  simp only [get, fill, if_pos inside]
  rw [ByteTree.get_fill _ _ _ _ _ _ inside]
  grind

theorem get_write (memory : Memory) (start : Nat) (bytes : List UInt8) (address : Nat)
    (inside : address < Word.limit) :
    (memory.write start bytes).get address =
      if start ≤ address then bytes[address - start]?.getD (memory.get address)
      else memory.get address := by
  simp only [write]
  split
  · simp only [get, if_pos inside]
    exact ByteTree.get_write _ _ _ _ _ inside
  · rw [if_neg (by omega)]

theorem read_eq_map_get (memory : Memory) (address length : Nat) :
    memory.read address length =
      (List.range length).map fun index => memory.get (address + index) := by
  have within : min length (Word.limit - address) = 0 ∨
      address + min length (Word.limit - address) ≤ Word.limit := by omega
  obtain ⟨outside, total⟩ : ∃ outside, length = min length (Word.limit - address) + outside :=
    ⟨length - min length (Word.limit - address), by omega⟩
  have beyond : outside = 0 ∨ Word.limit ≤ address + min length (Word.limit - address) := by omega
  simp only [read]
  generalize min length (Word.limit - address) = inside at *
  subst total
  rw [Nat.add_sub_cancel_left, List.range_add, List.map_append, List.map_map]
  have near : memory.tree.readOnto 64 address inside (List.replicate outside 0) =
      (List.range inside).map (fun index => memory.get (address + index)) ++
        List.replicate outside 0 := by
    rcases within with rfl | within
    · simp
    · rw [ByteTree.readOnto_eq _ _ _ _ _ within]
      congr 1
      apply List.map_congr_left
      intro index member
      rw [List.mem_range] at member
      rw [get, if_pos (by omega)]
  rw [near]
  congr 1
  symm
  rw [List.eq_replicate_iff]
  refine ⟨by simp, fun byte member => ?_⟩
  obtain ⟨index, small, rfl⟩ := List.mem_map.1 member
  rw [List.mem_range] at small
  apply get_eq_zero_of_limit_le
  change Word.limit ≤ address + (inside + index)
  omega

@[simp] theorem length_read (memory : Memory) (address length : Nat) :
    (memory.read address length).length = length := by
  simp [read_eq_map_get]

theorem take_read (memory : Memory) (address length number : Nat) :
    (memory.read address length).take number = memory.read address (min number length) := by
  simp only [read_eq_map_get, ← List.map_take, List.take_range]

/-- Searching a range of addresses gives the place of the first zero among its bytes. -/
theorem zeroWithin?_eq (memory : Memory) (address length : Nat) :
    memory.zeroWithin? address length = (memory.read address length).findIdx? (· == 0) := by
  have limit : min (address + length) Word.limit ≤ ByteTree.span 64 := Nat.min_le_right _ _
  symm
  rw [read_eq_map_get]
  simp only [zeroWithin?]
  split
  next place found =>
      obtain ⟨first, below, zero, none_earlier⟩ :=
        ByteTree.first_of_findZero?_eq_some _ _ _ _ _ limit found
      rw [List.findIdx?_eq_some_iff_getElem]
      refine ⟨by simp; omega, ?_, fun earlier before => ?_⟩
      · have back : address + (place - address) = place := by omega
        simp [get, back, show place < Word.limit by omega, zero]
      · have nonzero := none_earlier (address + earlier) (by omega) (by omega)
        simp [get, show address + earlier < Word.limit by omega, nonzero]
  next absent =>
      have nonzero (index : Nat) (small : index < length) (near : address + index < Word.limit) :
          memory.get (address + index) ≠ 0 := by
        rw [get, if_pos near]
        exact ByteTree.get_ne_zero_of_findZero?_eq_none _ _ _ _ limit absent _ (by omega) (by omega)
      split
      next reaches =>
          rw [List.findIdx?_eq_some_iff_getElem]
          refine ⟨by simpa using reaches, ?_, fun earlier before => ?_⟩
          · simp [get_eq_zero_of_limit_le memory (address + (Word.limit - address)) (by omega)]
          · simpa using nonzero earlier (by omega) (by omega)
      next short =>
          rw [List.findIdx?_eq_none_iff]
          intro byte member
          obtain ⟨index, small, rfl⟩ := List.mem_map.1 member
          rw [List.mem_range] at small
          simpa using nonzero index small (by omega)

end Memory

end Microkernel
