import Microkernel.Ring

/-!
# Rings as queues

A ring holds the bytes between its cursors, the next one to be read first.  Writing puts bytes
behind them as long as there is room, reading takes bytes from their front, and neither crashes on
a ring whose cursors fit the number of its bytes.
-/

namespace Microkernel
namespace Ring

variable {capacity : Nat}

/-- The cursors lie in the buffer, as far apart as there are bytes. -/
structure Sound (ring : Ring capacity) : Prop where
  /-- No buffer takes up half of the address space, so that positions can be added. -/
  capacity_lt : capacity < Word.limit / 2
  /-- The next byte to be read lies in the buffer. -/
  readIndex_lt : ring.readIndex < max capacity 1
  /-- There are no more bytes than the buffer holds. -/
  length_le : ring.length ≤ capacity
  /-- The next byte to be written belongs behind the last one. -/
  writeIndex_eq : ring.writeIndex = (ring.readIndex + ring.length) % capacity

/-- The byte at a distance from the next one to be read. -/
def byteAt (ring : Ring capacity) (offset : Nat) : UInt8 :=
  ring.buffer[(ring.readIndex + offset) % capacity]?.getD 0

/-- The bytes in a ring, the next one to be read first. -/
def contents (ring : Ring capacity) : List UInt8 :=
  (List.range ring.length).map ring.byteAt

@[simp] theorem length_contents (ring : Ring capacity) :
    ring.contents.length = ring.length := by
  simp [contents]

theorem sound_empty (small : capacity < Word.limit / 2) : (empty capacity).Sound where
  capacity_lt := small
  readIndex_lt := by simp only [empty]; omega
  length_le := Nat.zero_le _
  writeIndex_eq := by simp [empty]

@[simp] theorem contents_empty : (empty capacity).contents = [] := rfl

theorem isEmpty_iff (ring : Ring capacity) : ring.isEmpty = true ↔ ring.contents = [] := by
  rw [isEmpty, beq_iff_eq, ← ring.length_contents, List.length_eq_zero_iff]

theorem isEmpty_eq_false_iff (ring : Ring capacity) :
    ring.isEmpty = false ↔ ring.contents ≠ [] := by
  rw [Bool.eq_false_iff, ne_eq, isEmpty_iff]

theorem isFull_iff (ring : Ring capacity) :
    ring.isFull = true ↔ ring.contents.length = capacity := by
  rw [isFull, beq_iff_eq, ring.length_contents]

theorem Sound.isFull_eq_false_iff {ring : Ring capacity} (sound : ring.Sound) :
    ring.isFull = false ↔ ring.contents.length < capacity := by
  have few := sound.length_le
  rw [Bool.eq_false_iff, ne_eq, isFull_iff]
  rw [← ring.length_contents] at few
  omega

/-! ## Placing and fetching runs of bytes -/

theorem getElem?_place (buffer : Vector UInt8 capacity) (start : Nat) (bytes : List UInt8)
    (index : Nat) (inside : index < capacity) :
    (place buffer start bytes)[index]? =
      if start ≤ index ∧ index < start + bytes.length then bytes[index - start]?
      else buffer[index]? := by
  induction bytes generalizing buffer start with
  | nil => rw [place, if_neg (by simp only [List.length_nil]; omega)]
  | cons byte rest induction =>
      rw [place, induction]
      simp only [List.length_cons]
      by_cases first : index = start
      · subst first
        rw [if_neg (by omega), if_pos (by omega), Nat.sub_self]
        simp [inside]
      · have unchanged : (buffer.setIfInBounds start byte)[index]? = buffer[index]? := by
          rw [Vector.getElem?_setIfInBounds, if_neg (by omega)]
        by_cases behind : start ≤ index ∧ index < start + (rest.length + 1)
        · rw [if_pos (by omega), if_pos behind]
          obtain ⟨offset, rfl⟩ : ∃ offset, index = start + 1 + offset :=
            ⟨index - (start + 1), by omega⟩
          rw [Nat.add_sub_cancel_left, show start + 1 + offset - start = offset + 1 by omega,
            List.getElem?_cons_succ]
        · rw [if_neg (by omega), if_neg behind, unchanged]

theorem overwrite_eq (buffer : Vector UInt8 capacity) (start : Nat) (bytes : List UInt8)
    (fits : start + bytes.length ≤ capacity) :
    overwrite buffer start bytes = .ok (place buffer start bytes) :=
  if_pos fits

theorem segment_eq (buffer : Vector UInt8 capacity) (start length : Nat)
    (fits : start + length ≤ capacity) :
    segment buffer start length =
      .ok ((List.range length).map fun offset => buffer[start + offset]?.getD 0) := by
  rw [segment, if_pos fits]
  congr 1
  apply List.ext_getElem
  · simp
    omega
  · intro index small large
    simp only [List.length_map, List.length_range] at large
    simp only [List.getElem_take, List.getElem_drop, Vector.getElem_toList, List.getElem_map,
      List.getElem_range]
    rw [Vector.getElem?_eq_getElem (by omega), Option.getD_some]

theorem slice_eq (bytes : List UInt8) {start stop : Nat} (ahead : start ≤ stop)
    (inside : stop ≤ bytes.length) : slice bytes start stop = .ok ((bytes.take stop).drop start) :=
  if_pos ⟨ahead, inside⟩

theorem splice_eq (destination : List UInt8) (start : Nat) (bytes : List UInt8)
    (fits : start + bytes.length ≤ destination.length) :
    splice destination start bytes =
      .ok (destination.take start ++ bytes ++ destination.drop (start + bytes.length)) :=
  if_pos fits

private theorem wrapped {position : Nat} (once : position < 2 * capacity) :
    position % capacity = if position < capacity then position else position - capacity := by
  split
  next inside => exact Nat.mod_eq_of_lt inside
  next beyond => rw [Nat.mod_eq_sub_mod (by omega), Nat.mod_eq_of_lt (by omega)]

theorem advance_eq {cursor count : Nat} (small : capacity < Word.limit / 2)
    (cursor_le : cursor ≤ capacity) (count_le : count ≤ capacity) :
    advance capacity cursor count = .ok ((cursor + count) % capacity) := by
  rw [advance]
  split
  next no_room =>
      rw [no_room, Nat.mod_zero]
      congr 1
      omega
  next =>
      have sum : Word.sum cursor count = .ok (cursor + count) :=
        (Word.sum_eq_ok_iff _ _ _).2 ⟨by omega, rfl⟩
      rw [sum]
      rfl

/-! ## Writing and reading -/

theorem Sound.writeIndex_le {ring : Ring capacity} (sound : ring.Sound) :
    ring.writeIndex ≤ capacity := by
  rw [sound.writeIndex_eq]
  rcases Nat.eq_zero_or_pos capacity with rfl | positive
  · have readIndex_lt := sound.readIndex_lt
    have length_le := sound.length_le
    rw [Nat.mod_zero]
    omega
  · exact Nat.le_of_lt (Nat.mod_lt _ positive)

theorem Sound.readIndex_le {ring : Ring capacity} (sound : ring.Sound) :
    ring.readIndex ≤ capacity := by
  have readIndex_lt := sound.readIndex_lt
  omega

/-- The ring with bytes behind those in it, in two runs: up to the end of the buffer, and on from
its start. -/
def joined (ring : Ring capacity) (bytes : List UInt8) : Ring capacity :=
  let first := min bytes.length (capacity - ring.writeIndex)
  { ring with
    buffer := place (place ring.buffer ring.writeIndex (bytes.take first)) 0 (bytes.drop first)
    writeIndex := (ring.writeIndex + bytes.length) % capacity
    length := ring.length + bytes.length }

/-- The ring without a number of bytes at its front. -/
def dropped (ring : Ring capacity) (count : Nat) : Ring capacity :=
  { ring with
    readIndex := (ring.readIndex + count) % capacity
    length := ring.length - count }

variable {ring : Ring capacity} {bytes : List UInt8}

private theorem byteAt_joined (sound : ring.Sound) (fits : ring.length + bytes.length ≤ capacity)
    {offset : Nat} (inside : offset < ring.length + bytes.length) :
    (ring.joined bytes).byteAt offset =
      if offset < ring.length then ring.byteAt offset
      else bytes[offset - ring.length]?.getD 0 := by
  have readIndex_lt := sound.readIndex_lt
  have writeIndex_eq := sound.writeIndex_eq
  rw [wrapped (by omega)] at writeIndex_eq
  simp only [byteAt, joined]
  generalize first_eq : min bytes.length (capacity - ring.writeIndex) = first
  rw [wrapped (by omega)]
  generalize here : (if ring.readIndex + offset < capacity then ring.readIndex + offset
    else ring.readIndex + offset - capacity) = position
  have within : position < capacity := by
    split at here <;> omega
  rw [getElem?_place _ _ _ _ within, getElem?_place _ _ _ _ within, List.length_take,
    List.length_drop]
  by_cases old : offset < ring.length
  · rw [if_pos old, if_neg, if_neg]
    · split at here <;> split at writeIndex_eq <;> omega
    · split at here <;> split at writeIndex_eq <;> omega
  · rw [if_neg old]
    by_cases far : position < bytes.length - first
    · rw [if_pos (by omega), List.getElem?_drop]
      congr 2
      split at here <;> split at writeIndex_eq <;> omega
    · rw [if_neg (by omega), if_pos, List.getElem?_take_of_lt]
      · congr 2
        split at here <;> split at writeIndex_eq <;> omega
      · split at here <;> split at writeIndex_eq <;> omega
      · split at here <;> split at writeIndex_eq <;> omega

theorem Sound.joined (sound : ring.Sound) (fits : ring.length + bytes.length ≤ capacity) :
    (ring.joined bytes).Sound where
  capacity_lt := sound.capacity_lt
  readIndex_lt := sound.readIndex_lt
  length_le := fits
  writeIndex_eq := by
    simp only [Ring.joined, sound.writeIndex_eq, Nat.mod_add_mod, Nat.add_assoc]

theorem contents_joined (sound : ring.Sound) (fits : ring.length + bytes.length ≤ capacity) :
    (ring.joined bytes).contents = ring.contents ++ bytes := by
  apply List.ext_getElem
  · simp only [length_contents, List.length_append, joined]
  · intro offset small large
    rw [List.length_append, length_contents] at large
    rw [List.getElem_append]
    simp only [contents, List.getElem_map, List.getElem_range, List.length_map, List.length_range]
    rw [byteAt_joined sound fits large]
    by_cases old : offset < ring.length
    · rw [if_pos old, dif_pos old]
    · rw [if_neg old, dif_neg old, List.getElem?_eq_getElem (by omega), Option.getD_some]

private theorem write_eq (sound : ring.Sound) (bytes : List UInt8) {count : Nat}
    (count_eq : min bytes.length (capacity - ring.length) = count) :
    ring.write bytes = .ok (ring.joined (bytes.take count), count) := by
  have capacity_lt := sound.capacity_lt
  have readIndex_lt := sound.readIndex_lt
  have length_le := sound.length_le
  have writeIndex_le := sound.writeIndex_le
  have room : ring.free = .ok (capacity - ring.length) :=
    (Word.difference_eq_ok_iff _ _ _).2 ⟨length_le, rfl⟩
  have behind : Word.difference capacity ring.writeIndex = .ok (capacity - ring.writeIndex) :=
    (Word.difference_eq_ok_iff _ _ _).2 ⟨writeIndex_le, rfl⟩
  have taken : (bytes.take count).length = count := by
    rw [List.length_take]
    omega
  generalize first_eq : min count (capacity - ring.writeIndex) = first
  have near := slice_eq bytes (Nat.zero_le first) (show first ≤ bytes.length by omega)
  have far := slice_eq bytes (show first ≤ count by omega) (show count ≤ bytes.length by omega)
  have put_near := overwrite_eq ring.buffer ring.writeIndex (bytes.take first)
    (by rw [List.length_take]; omega)
  have put_far := overwrite_eq (place ring.buffer ring.writeIndex (bytes.take first)) 0
    ((bytes.take count).drop first) (by rw [List.length_drop]; omega)
  have advanced := advance_eq capacity_lt writeIndex_le (show count ≤ capacity by omega)
  have sum : Word.sum ring.length count = .ok (ring.length + count) :=
    (Word.sum_eq_ok_iff _ _ _).2 ⟨by omega, rfl⟩
  have run_near : (bytes.take count).take first = bytes.take first := by
    rw [List.take_take, Nat.min_eq_left (by omega)]
  simp only [Ring.write, room, behind, count_eq, first_eq, near, far, List.drop_zero, put_near,
    put_far, advanced, sum, bind, Except.bind, pure, Except.pure, joined, taken, run_near]

/-- Writing puts as many bytes as fit behind those in the ring. -/
theorem Sound.write (sound : ring.Sound) (bytes : List UInt8) :
    ∃ larger, ring.write bytes = .ok (larger, min bytes.length (capacity - ring.length)) ∧
      larger.Sound ∧
        larger.contents =
          ring.contents ++ bytes.take (min bytes.length (capacity - ring.length)) := by
  have length_le := sound.length_le
  have fits : ring.length +
      (bytes.take (min bytes.length (capacity - ring.length))).length ≤ capacity := by
    rw [List.length_take]
    omega
  exact ⟨_, write_eq sound bytes rfl, sound.joined fits, contents_joined sound fits⟩

theorem Sound.dropped (sound : ring.Sound) {count : Nat} (few : count ≤ ring.length) :
    (ring.dropped count).Sound where
  capacity_lt := sound.capacity_lt
  readIndex_lt := by
    have readIndex_lt := sound.readIndex_lt
    have length_le := sound.length_le
    simp only [Ring.dropped]
    rcases Nat.eq_zero_or_pos capacity with rfl | positive
    · rw [Nat.mod_zero]
      omega
    · have inside := Nat.mod_lt (ring.readIndex + count) positive
      omega
  length_le := Nat.le_trans (Nat.sub_le _ _) sound.length_le
  writeIndex_eq := by
    simp only [Ring.dropped, sound.writeIndex_eq, Nat.mod_add_mod]
    congr 1
    omega

theorem contents_dropped (ring : Ring capacity) (count : Nat) :
    (ring.dropped count).contents = ring.contents.drop count := by
  apply List.ext_getElem
  · simp only [length_contents, List.length_drop, dropped]
  · intro offset small _
    simp only [contents, List.getElem_drop, List.getElem_map, List.getElem_range, byteAt, dropped,
      Nat.mod_add_mod]
    congr 3
    omega

/-- Two runs of the buffer, up to its end and from its start, are the bytes at the front. -/
private theorem take_contents (sound : ring.Sound) {count first : Nat} (few : count ≤ ring.length)
    (first_eq : min count (capacity - ring.readIndex) = first) :
    (List.range first).map (fun offset => ring.buffer[ring.readIndex + offset]?.getD 0) ++
      (List.range (count - first)).map (fun offset => ring.buffer[0 + offset]?.getD 0) =
        ring.contents.take count := by
  have readIndex_lt := sound.readIndex_lt
  have length_le := sound.length_le
  apply List.ext_getElem
  · simp only [List.length_append, List.length_map, List.length_range, List.length_take,
      length_contents]
    omega
  · intro offset small _
    simp only [List.length_append, List.length_map, List.length_range] at small
    rw [List.getElem_append]
    simp only [contents, List.getElem_take, List.getElem_map, List.getElem_range,
      List.length_map, List.length_range, byteAt]
    rw [wrapped (by omega)]
    by_cases unwrapped : offset < first
    · rw [dif_pos unwrapped, if_pos (by omega)]
    · rw [dif_neg unwrapped, if_neg (by omega)]
      congr 2
      omega

/-- The two runs in which bytes are taken out come from the front of the ring. -/
theorem Sound.takeOut (sound : ring.Sound) (most : Nat) :
    ∃ smaller near far, ring.takeOut most = .ok (smaller, near, far) ∧
      near ++ far = ring.contents.take most ∧ smaller.Sound ∧
        smaller.contents = ring.contents.drop most := by
  have readIndex_le := sound.readIndex_le
  have length_le := sound.length_le
  have behind : Word.difference capacity ring.readIndex = .ok (capacity - ring.readIndex) :=
    (Word.difference_eq_ok_iff _ _ _).2 ⟨readIndex_le, rfl⟩
  have all : ring.contents.take (min most ring.length) = ring.contents.take most ∧
      ring.contents.drop (min most ring.length) = ring.contents.drop most := by
    rw [← ring.length_contents]
    exact ⟨List.take_eq_take_min.symm, List.drop_eq_drop_min.symm⟩
  generalize count_eq : min most ring.length = count at all
  generalize first_eq : min count (capacity - ring.readIndex) = first
  have few : count ≤ ring.length := by omega
  have near := segment_eq ring.buffer ring.readIndex first (by omega)
  have far := segment_eq ring.buffer 0 (count - first) (by omega)
  have advanced := advance_eq sound.capacity_lt readIndex_le (show count ≤ capacity by omega)
  refine ⟨ring.dropped count, _, _, ?_, (take_contents sound few first_eq).trans all.1,
    sound.dropped few, (ring.contents_dropped count).trans all.2⟩
  simp only [Ring.takeOut, behind, count_eq, first_eq, near, far, advanced, bind, Except.bind,
    pure, Except.pure, Ring.dropped]

theorem Sound.read (sound : ring.Sound) (most : Nat) :
    ∃ smaller, ring.read most = .ok (smaller, ring.contents.take most) ∧ smaller.Sound ∧
      smaller.contents = ring.contents.drop most := by
  obtain ⟨smaller, near, far, run, taken, smaller_sound, rest⟩ := sound.takeOut most
  refine ⟨smaller, ?_, smaller_sound, rest⟩
  rw [Ring.read, run, ← taken]
  rfl

end Ring
end Microkernel
