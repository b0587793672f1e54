import Mathlib.Data.Nat.ModEq
import Microkernel.Proofs.Pipe.Queue

/-!
# Rings are bounded queues

Whatever is asked of a ring, and in whatever order, it answers as a queue with room for as many
bytes as its buffer has, and no request makes it crash.  Where its cursors stand follows from the
queue up to a turn around the buffer.
-/

namespace Microkernel

namespace Ring

/-- What can be asked of a ring. -/
inductive Request where
  | write (bytes : List UInt8)
  | read (destination : List UInt8)
  | clear
  deriving DecidableEq, Repr

/-- What is answered to a request. -/
inductive Reply where
  /-- So many bytes were put in. -/
  | wrote (count : Nat)
  /-- So many bytes were taken out, and the destination is now this. -/
  | read (destination : List UInt8) (count : Nat)
  | cleared
  deriving DecidableEq, Repr

end Ring

/-- A row of bytes that is no longer than its capacity. -/
structure BoundedQueue (capacity : Nat) where
  bytes : List UInt8
  length_le : bytes.length ≤ capacity

namespace BoundedQueue

variable {capacity : Nat}

def empty (capacity : Nat) : BoundedQueue capacity where
  bytes := []
  length_le := Nat.zero_le capacity

/-- The queue with the first of some bytes behind its own, and the answer to this. -/
def write (queue : BoundedQueue capacity) (bytes : List UInt8) :
    BoundedQueue capacity × Ring.Reply :=
  let count := min bytes.length (capacity - queue.bytes.length)
  ({ bytes := queue.bytes ++ bytes.take count
     length_le := by
      have length_le := queue.length_le
      rw [List.length_append, List.length_take]
      omega },
    .wrote count)

/-- The queue without its first bytes, and the answer to this, in which they stand at the start of
the destination and the rest of it is as it was. -/
def read (queue : BoundedQueue capacity) (destination : List UInt8) :
    BoundedQueue capacity × Ring.Reply :=
  let count := min destination.length queue.bytes.length
  ({ bytes := queue.bytes.drop count
     length_le := by
      have length_le := queue.length_le
      rw [List.length_drop]
      omega },
    .read (queue.bytes.take count ++ destination.drop count) count)

def serve (queue : BoundedQueue capacity) : Ring.Request → BoundedQueue capacity × Ring.Reply
  | .write bytes => queue.write bytes
  | .read destination => queue.read destination
  | .clear => (empty capacity, .cleared)

/-- The queue after requests, and the answers to them. -/
def serveAll (queue : BoundedQueue capacity) :
    List Ring.Request → BoundedQueue capacity × List Ring.Reply
  | [] => (queue, [])
  | request :: rest =>
      let (queue, reply) := queue.serve request
      let (queue, replies) := queue.serveAll rest
      (queue, reply :: replies)

end BoundedQueue

namespace Ring

variable {capacity : Nat} {ring : Ring capacity} {queue : BoundedQueue capacity}

def serve (ring : Ring capacity) : Request → Checked (Ring capacity × Reply)
  | .write bytes => do
      let (ring, count) ← ring.write bytes
      return (ring, .wrote count)
  | .read destination => do
      let (ring, destination, count) ← ring.readInto destination
      return (ring, .read destination count)
  | .clear => return (ring.clear, .cleared)

/-- The ring after requests, and the answers to them. -/
def serveAll (ring : Ring capacity) : List Request → Checked (Ring capacity × List Reply)
  | [] => return (ring, [])
  | request :: rest => do
      let (ring, reply) ← ring.serve request
      let (ring, replies) ← ring.serveAll rest
      return (ring, reply :: replies)

/-- Whether a cursor lies in a buffer, at its start if the buffer has no room at all. -/
def CursorIn (capacity cursor : Nat) : Prop :=
  cursor < capacity ∨ capacity = 0 ∧ cursor = 0

/-- Whether a ring shows a queue to whoever looks at it. -/
structure Shows (ring : Ring capacity) (queue : BoundedQueue capacity) : Prop where
  /-- The bytes from the one cursor on. -/
  contents : ring.contents = queue.bytes
  length : ring.length = queue.bytes.length
  free : ring.free = .ok (capacity - queue.bytes.length)
  isEmpty : ring.isEmpty = true ↔ queue.bytes.length = 0
  isFull : ring.isFull = true ↔ queue.bytes.length = capacity
  readIndex : CursorIn capacity ring.readIndex
  writeIndex : CursorIn capacity ring.writeIndex
  apart : ring.writeIndex ≡ ring.readIndex + ring.length [MOD capacity]

theorem Sound.cursorIn_readIndex (sound : ring.Sound) : CursorIn capacity ring.readIndex := by
  have readIndex_lt := sound.readIndex_lt
  rw [CursorIn]
  omega

theorem Sound.cursorIn_writeIndex (sound : ring.Sound) : CursorIn capacity ring.writeIndex := by
  rcases Nat.eq_zero_or_pos capacity with none | positive
  · exact .inr ⟨none, Nat.eq_zero_of_le_zero (none ▸ sound.writeIndex_le)⟩
  · rw [sound.writeIndex_eq]
    exact .inl (Nat.mod_lt _ positive)

theorem Sound.shows (sound : ring.Sound) (same : ring.contents = queue.bytes) :
    ring.Shows queue where
  contents := same
  length := by rw [← same, length_contents]
  free := by
    rw [← same, length_contents]
    exact (Word.difference_eq_ok_iff _ _ _).2 ⟨sound.length_le, rfl⟩
  isEmpty := by rw [isEmpty_iff, same, List.length_eq_zero_iff]
  isFull := by rw [isFull_iff, same]
  readIndex := sound.cursorIn_readIndex
  writeIndex := sound.cursorIn_writeIndex
  apart := by
    rw [sound.writeIndex_eq]
    exact Nat.mod_modEq _ _

/-! ## One request -/

/-- Reading into a destination leaves the rest of it as it was. -/
theorem Sound.readInto (sound : ring.Sound) (destination : List UInt8) {count : Nat}
    (count_eq : count = min destination.length ring.length) :
    ∃ smaller, ring.readInto destination =
        .ok (smaller, ring.contents.take count ++ destination.drop count, count) ∧
      smaller.Sound ∧ smaller.contents = ring.contents.drop count := by
  obtain ⟨smaller, near, far, run, taken, smaller_sound, rest⟩ :=
    sound.takeOut destination.length
  have taken_count : ring.contents.take destination.length = ring.contents.take count := by
    rw [List.take_eq_take_iff, length_contents]
    omega
  have length_eq : near.length + far.length = count := by
    rw [← List.length_append, taken, List.length_take, length_contents, count_eq]
  have put_near : splice destination 0 near = .ok (near ++ destination.drop near.length) := by
    rw [splice_eq destination 0 near (by omega), List.take_zero, List.nil_append, Nat.zero_add]
  have put_far : splice (near ++ destination.drop near.length) near.length far =
      .ok (ring.contents.take count ++ destination.drop count) := by
    rw [splice_eq _ _ _ (by rw [List.length_append, List.length_drop]; omega), List.take_left,
      List.drop_length_add_append, List.drop_drop, taken, taken_count, length_eq]
  refine ⟨smaller, ?_, smaller_sound, ?_⟩
  · simp only [Ring.readInto, run, put_near, put_far, length_eq, bind, Except.bind, pure,
      Except.pure]
  · rw [rest, List.drop_eq_drop_iff, length_contents]
    omega

theorem sound_clear (sound : ring.Sound) : ring.clear.Sound where
  capacity_lt := sound.capacity_lt
  readIndex_lt := by simp only [clear]; omega
  length_le := Nat.zero_le _
  writeIndex_eq := by simp [clear]

theorem contents_clear (ring : Ring capacity) : ring.clear.contents = [] := rfl

/-- A request is answered as the queue answers it, and leaves the ring with the bytes of the
queue. -/
theorem Sound.serve (sound : ring.Sound) (same : ring.contents = queue.bytes)
    (request : Request) :
    ∃ after, ring.serve request = .ok (after, (queue.serve request).2) ∧ after.Sound ∧
      after.contents = (queue.serve request).1.bytes := by
  have length_eq : ring.length = queue.bytes.length := by rw [← same, length_contents]
  cases request with
  | write bytes =>
      obtain ⟨larger, run, larger_sound, grown⟩ := sound.write bytes
      refine ⟨larger, ?_, larger_sound, ?_⟩
      · rw [Ring.serve, run, length_eq]
        rfl
      · rw [grown, same, length_eq]
        rfl
  | read destination =>
      obtain ⟨smaller, run, smaller_sound, rest⟩ := sound.readInto destination rfl
      refine ⟨smaller, ?_, smaller_sound, ?_⟩
      · rw [Ring.serve, run, same, length_eq]
        rfl
      · rw [rest, same, length_eq]
        rfl
  | clear => exact ⟨ring.clear, rfl, sound_clear sound, contents_clear ring⟩

/-! ## All requests -/

theorem Sound.serveAll (sound : ring.Sound) (same : ring.contents = queue.bytes)
    (requests : List Request) :
    ∃ after, ring.serveAll requests = .ok (after, (queue.serveAll requests).2) ∧ after.Sound ∧
      after.contents = (queue.serveAll requests).1.bytes := by
  induction requests generalizing ring queue with
  | nil => exact ⟨ring, rfl, sound, same⟩
  | cons request rest induction =>
      obtain ⟨between, served, between_sound, between_same⟩ := sound.serve same request
      obtain ⟨after, run, after_sound, after_same⟩ := induction between_sound between_same
      refine ⟨after, ?_, after_sound, after_same⟩
      simp only [Ring.serveAll, served, run, bind, Except.bind]
      rfl

/-- Whatever is asked of an empty ring, it answers as an empty queue of its capacity and shows what
is then in the queue.  No request makes it crash.  The capacity is that of a buffer, and no buffer
takes up half of the address space. -/
theorem serves_as_queue (small : capacity < Word.limit / 2) (requests : List Request) :
    ∃ ring, (empty capacity).serveAll requests =
        .ok (ring, ((BoundedQueue.empty capacity).serveAll requests).2) ∧
      ring.Shows ((BoundedQueue.empty capacity).serveAll requests).1 := by
  have nothing : (empty capacity).contents = (BoundedQueue.empty capacity).bytes := rfl
  obtain ⟨ring, run, sound, same⟩ := (sound_empty small).serveAll nothing requests
  exact ⟨ring, run, sound.shows same⟩

/-- Four bytes go around the end of a buffer of three, and come out in the order in which they went
in. -/
theorem serves_as_queue_around :
    3 < Word.limit / 2 ∧ ∃ ring, (empty 3).serveAll
        [.write [1, 2], .read [9], .write [3, 4, 5], .read [9, 9, 9, 9], .clear] =
        .ok (ring, [.wrote 2, .read [1] 1, .wrote 2, .read [2, 3, 4, 9] 3, .cleared]) ∧
      ring.Shows (.empty 3) := by
  have small : 3 < Word.limit / 2 := by decide
  exact ⟨small, serves_as_queue small _⟩

end Ring
end Microkernel
