import Microkernel.Proofs.Memory.Texts
import Microkernel.Proofs.Region.Exact

/-!
# Checks on behalf of a program

A check of what a program has passed in ends in one of two ways: it lets the program pass, which
then has the rights that were asked for at every address in question, or it finds a fault.  It
does not crash, provided that the process's regions end inside the address space.  A program that
has the rights passes, provided that the regions are in order.
-/

namespace Microkernel

namespace Guarded

variable {α β : Type}

theorem run_bind_ok {first : Guarded α} {next : α → Guarded β} {value : α}
    (run : first.run = .ok (.ok value)) : (first >>= next).run = (next value).run := by
  rw [ExceptT.run_bind, run]
  rfl

/-- A check of the kernel's own that does not crash finds no fault. -/
theorem run_lift {checked : Checked α} {value : α} (run : checked = .ok value) :
    (ExceptT.lift checked : Guarded α).run = .ok (.ok value) := by
  rw [ExceptT.run_lift, run]
  rfl

theorem run_bind_error {first : Guarded α} {next : α → Guarded β} {fault : Fault}
    (run : first.run = .ok (.error fault)) : (first >>= next).run = .ok (.error fault) := by
  rw [ExceptT.run_bind, run]
  rfl

end Guarded

namespace UserString

variable {memory : Memory} {address extent most : Nat}

/-- The text is found exactly if it ends inside the window and inside the limit. -/
theorem ofMemory_eq_complete_iff {text : List UInt8} :
    ofMemory memory address extent most = .ok (complete text) ↔
      memory.TextAt address text ∧ text.length < extent ∧ text.length < most := by
  rw [Memory.textAt_iff, ofMemory]
  constructor
  · intro found
    split at found
    next length ends =>
        cases found
        obtain ⟨inside, zero, nonzero⟩ := Memory.zeroWithin?_eq_some_iff.1 ends
        rw [Memory.length_read]
        exact ⟨⟨rfl, zero, nonzero⟩, by omega, by omega⟩
    next =>
        split at found
        · cases found
        · cases found
  · rintro ⟨⟨same, zero, nonzero⟩, inside, short⟩
    rw [Memory.zeroWithin?_eq_some_iff.2 ⟨Nat.lt_min.2 ⟨inside, short⟩, zero, nonzero⟩]
    simp only
    rw [← same]

/-- The text is cut off exactly if as many bytes as the limit allows can be read and none of them
is zero. -/
theorem ofMemory_eq_truncated_iff {bytes : List UInt8} :
    ofMemory memory address extent most = .ok (truncated bytes) ↔
      most ≤ extent ∧ bytes = memory.read address most ∧ 0 ∉ bytes := by
  rw [ofMemory]
  constructor
  · intro found
    split at found
    next => cases found
    next absent =>
        split at found
        next reached =>
            cases found
            refine ⟨reached, rfl, ?_⟩
            rw [Nat.min_eq_right reached, Memory.zeroWithin?_eq_none_iff] at absent
            exact (Memory.zero_notMem_read_iff ..).2 absent
        next => cases found
  · rintro ⟨reached, rfl, nonzero⟩
    rw [Nat.min_eq_right reached, Memory.zeroWithin?_eq_none_iff.2
      ((Memory.zero_notMem_read_iff ..).1 nonzero)]
    exact if_pos reached

theorem ofMemory_cases (memory : Memory) (address extent most : Nat) :
    (∃ string, ofMemory memory address extent most = .ok string) ∨
      ofMemory memory address extent most = .error .unterminatedString := by
  rw [ofMemory]
  split
  · exact .inl ⟨_, rfl⟩
  · split
    · exact .inl ⟨_, rfl⟩
    · exact .inr rfl

end UserString

namespace UserSlice

def extent {layout : ElementLayout} (slice : UserSlice layout) : Extent :=
  ⟨slice.base, slice.length * layout.size⟩

theorem span_stop {layout : ElementLayout} (slice : UserSlice layout) :
    slice.span.stop = slice.extent.stop :=
  slice.stop_eq

theorem require_sized {layout : ElementLayout} (sized : layout.size ≠ 0) :
    (ExceptT.lift (require (layout.size ≠ 0)) : Guarded Unit).run = .ok (.ok ()) :=
  Guarded.run_lift (if_pos sized)

theorem ofRaw_eq (layout : ElementLayout) {base length : Nat} (sized : layout.size ≠ 0)
    (aligned : base % layout.alignment = 0)
    (fits : base + length * layout.size ≤ Word.largest) :
    (ofRaw layout base length).run = .ok (.ok ⟨base, length, aligned, fits⟩) := by
  rw [ofRaw, Guarded.run_bind_ok (require_sized sized), dif_pos aligned]
  have small : length * layout.size < Word.limit :=
    Nat.lt_of_le_of_lt (Nat.le_trans (Nat.le_add_left _ base) fits) (by decide)
  split
  next overflows =>
      rw [(Word.product?_eq_some_iff _ _ _).2 ⟨small, rfl⟩] at overflows
      cases overflows
  next bytes counted =>
      obtain ⟨_, rfl⟩ := (Word.product?_eq_some_iff _ _ _).1 counted
      rw [dif_pos (Nat.le_sub_of_add_le fits)]
      rfl

theorem ofRaw_eq_invalid (layout : ElementLayout) {base length : Nat} (sized : layout.size ≠ 0)
    (senseless : ¬ (base % layout.alignment = 0 ∧
      base + length * layout.size ≤ Word.largest)) :
    (ofRaw layout base length).run = .ok (.error (.usage .invalidSlice)) := by
  rw [ofRaw, Guarded.run_bind_ok (require_sized sized)]
  split
  next aligned =>
      split
      next => rfl
      next bytes counted =>
          rw [dif_neg fun low => senseless ⟨aligned, fits_of_low counted low⟩]
          rfl
  next => rfl

theorem ofRaw_run (layout : ElementLayout) (base length : Nat) (sized : layout.size ≠ 0) :
    (∃ slice : UserSlice layout, (ofRaw layout base length).run = .ok (.ok slice) ∧
        slice.extent = ⟨base, length * layout.size⟩ ∧ slice.length = length) ∨
      ∃ fault, (ofRaw layout base length).run = .ok (.error fault) := by
  by_cases sensible : base % layout.alignment = 0 ∧ base + length * layout.size ≤ Word.largest
  · exact .inl ⟨_, ofRaw_eq layout sized sensible.1 sensible.2, rfl, rfl⟩
  · exact .inr ⟨_, ofRaw_eq_invalid layout sized sensible⟩

end UserSlice

namespace Process

/-- Whether the process has rights at an address. -/
def May (process : Process) (needed : Rights) (address : Nat) : Prop :=
  Region.Allows process.regions needed address

instance (process : Process) (needed : Rights) (address : Nat) :
    Decidable (process.May needed address) :=
  inferInstanceAs (Decidable (Region.Allows process.regions needed address))

/-- Whether every region of the process ends inside the address space. -/
def Bounded (process : Process) : Prop :=
  ∀ region ∈ process.regions, region.Bounded

variable {process : Process} {layout : ElementLayout}

/-- A slice that passes the check may be touched at each of its addresses. -/
theorem checkAccess_run (bounded : process.Bounded) (slice : UserSlice layout)
    (needed : Rights) :
    ((process.checkAccess slice needed).run = .ok (.ok ()) ∧
        ∀ address, slice.extent.Covers address → process.May needed address) ∨
      ∃ fault, (process.checkAccess slice needed).run = .ok (.error fault) := by
  obtain ⟨answer, run⟩ := Region.canAccess_total bounded slice.span needed
  rw [checkAccess, canAccess, Guarded.run_bind_ok (Guarded.run_lift run)]
  cases answer with
  | true =>
      refine .inl ⟨rfl, fun address covered => ?_⟩
      have nonempty : slice.span.isEmpty = false := by
        simp only [UserSlice.span, UserSlice.isEmpty, beq_eq_false_iff_ne]
        intro empty
        simp only [Extent.Covers, Extent.stop, UserSlice.extent, empty] at covered
        omega
      refine Region.canAccess_sound bounded run nonempty covered.1 ?_
      rw [slice.span_stop]
      exact covered.2
  | false => exact .inr ⟨_, rfl⟩

theorem checkAccess_of_may (bounded : process.Bounded) (ordered : Region.Ordered process.regions)
    {needed : Rights} (slice : UserSlice layout) (some_address : 0 < slice.extent.length)
    (may : ∀ address, slice.extent.Covers address → process.May needed address) :
    (process.checkAccess slice needed).run = .ok (.ok ()) := by
  have passes : process.canAccess slice needed = .ok true := by
    refine Region.canAccess_complete bounded ordered (fun _ => ?_) fun address behind before => ?_
    · rw [slice.span_stop]
      exact Nat.lt_add_of_pos_right some_address
    · rw [slice.span_stop] at before
      exact may address ⟨behind, before⟩
  rw [checkAccess, Guarded.run_bind_ok (Guarded.run_lift passes)]
  rfl

/-- Go on only if a number of elements at an address are a slice that the process may touch. -/
def checkSlice (process : Process) (layout : ElementLayout) (base length : Nat)
    (needed : Rights) : Guarded Unit := do
  process.checkAccess (← UserSlice.ofRaw layout base length) needed

/-- Aligned elements are a slice that passes, if there is one and the process may touch them at each
of their addresses. -/
theorem checkSlice_of_may (bounded : process.Bounded) (ordered : Region.Ordered process.regions)
    {needed : Rights} {base length : Nat} (sized : layout.size ≠ 0) (some_element : length ≠ 0)
    (aligned : base % layout.alignment = 0)
    (may : ∀ address, Extent.Covers ⟨base, length * layout.size⟩ address →
      process.May needed address) :
    (process.checkSlice layout base length needed).run = .ok (.ok ()) := by
  have some_address : 0 < length * layout.size :=
    Nat.mul_pos (Nat.pos_of_ne_zero some_element) (Nat.pos_of_ne_zero sized)
  -- the last address lies in a region, which ends inside the address space
  have fits : base + length * layout.size ≤ Word.largest := by
    obtain ⟨region, member, _, covers⟩ := may (base + length * layout.size - 1)
      ⟨show base ≤ _ by omega, show _ < base + length * layout.size by omega⟩
    have ends := bounded region member
    have last := covers.2
    simp only [Region.Bounded, Word.largest] at *
    omega
  rw [checkSlice, Guarded.run_bind_ok (UserSlice.ofRaw_eq layout sized aligned fits)]
  exact checkAccess_of_may bounded ordered _ some_address may

theorem checkPlace_run (bounded : process.Bounded) (sized : layout.size ≠ 0) (address : Nat) :
    ((process.checkPlace layout address).run = .ok (.ok ()) ∧
        ∀ place, Extent.Covers ⟨address, layout.size⟩ place → process.May .write place) ∨
      ∃ fault, (process.checkPlace layout address).run = .ok (.error fault) := by
  rw [checkPlace, UserSlice.single]
  rcases UserSlice.ofRaw_run layout address 1 sized with ⟨slice, run, extent, _⟩ | ⟨fault, run⟩
  · rw [Guarded.run_bind_ok run]
    rcases checkAccess_run bounded slice .write with ⟨passed, allowed⟩ | refused
    · refine .inl ⟨passed, fun place covered => allowed place ?_⟩
      rwa [extent, Nat.one_mul]
    · exact .inr refused
  · exact .inr ⟨fault, Guarded.run_bind_error run⟩

theorem checkPlace_of_may (bounded : process.Bounded) (ordered : Region.Ordered process.regions)
    {base : Nat} (sized : layout.size ≠ 0) (aligned : base % layout.alignment = 0)
    (may : ∀ address, Extent.Covers ⟨base, layout.size⟩ address →
      process.May .write address) :
    (process.checkPlace layout base).run = .ok (.ok ()) := by
  refine checkSlice_of_may bounded ordered sized Nat.one_ne_zero aligned ?_
  rwa [Nat.one_mul]

/-- The low bytes of a number, as they are stored in one element. -/
def elementBytes (layout : ElementLayout) (number : Nat) : List UInt8 :=
  (Word.bytes number.toUInt64).take layout.size

theorem writeElement_run (bounded : process.Bounded) (memory : Memory) (sized : layout.size ≠ 0)
    (address number : Nat) :
    ((process.writeElement memory layout address number).run =
          .ok (.ok (memory.write address (elementBytes layout number))) ∧
        ∀ place, Extent.Covers ⟨address, layout.size⟩ place → process.May .write place) ∨
      ∃ fault, (process.writeElement memory layout address number).run =
        .ok (.error fault) := by
  rw [writeElement]
  rcases checkPlace_run bounded sized address with ⟨passed, allowed⟩ | ⟨fault, refused⟩
  · rw [Guarded.run_bind_ok passed]
    exact .inl ⟨rfl, allowed⟩
  · rw [Guarded.run_bind_error refused]
    exact .inr ⟨fault, rfl⟩

theorem writeElement_of_checkPlace {memory : Memory} {address number : Nat}
    (passed : (process.checkPlace layout address).run = .ok (.ok ())) :
    (process.writeElement memory layout address number).run =
      .ok (.ok (memory.write address (elementBytes layout number))) := by
  rw [writeElement, Guarded.run_bind_ok passed]
  rfl

/-- What looking for a text comes to, once the readable bytes have been counted. -/
theorem readString_run_eq {address most extent : Nat} (memory : Memory)
    (counted : Region.readableExtent process.regions address most = .ok extent) :
    (process.readString memory address most).run = .ok
      (if extent = 0 then .error (.memoryAccess address .kernel)
      else (UserString.ofMemory memory address extent most).mapError .usage) := by
  rw [readString, Guarded.run_bind_ok (Guarded.run_lift counted)]
  split
  next => rfl
  next =>
      cases UserString.ofMemory memory address extent most with
      | ok string => rfl
      | error error => rfl

theorem readString_run (bounded : process.Bounded) (memory : Memory) (address most : Nat)
    (word : address < Word.limit) :
    ∃ found, (process.readString memory address most).run = .ok found := by
  obtain ⟨stop, counted, _⟩ := Region.readableExtent_total bounded address most word
  exact ⟨_, readString_run_eq memory counted⟩

/-- A text that is found lies in memory that the process may read. -/
theorem textAt_of_readString (bounded : process.Bounded) {memory : Memory} {address most : Nat}
    {text : List UInt8}
    (run : (process.readString memory address most).run = .ok (.ok (.complete text))) :
    memory.TextAt address text ∧ text.length < most ∧
      ∀ offset ≤ text.length, process.May .read (address + offset) := by
  cases counted : Region.readableExtent process.regions address most with
  | error crash =>
      simp only [readString, counted] at run
      cases run
  | ok extent =>
      rw [readString_run_eq memory counted, Except.ok.injEq] at run
      split at run
      · cases run
      · cases scanned : UserString.ofMemory memory address extent most with
        | error error =>
            rw [scanned] at run
            cases run
        | ok string =>
            rw [scanned] at run
            cases run
            obtain ⟨there, inside, short⟩ := UserString.ofMemory_eq_complete_iff.1 scanned
            exact ⟨there, short, fun offset small =>
              Region.readableExtent_sound bounded counted (Nat.lt_of_le_of_lt small inside)⟩

theorem readString_eq (bounded : process.Bounded) {first second : Memory}
    (agree : first.AgreeOn second (process.May .read)) (address most : Nat) :
    process.readString first address most = process.readString second address most := by
  cases counted : Region.readableExtent process.regions address most with
  | error crash =>
      simp only [readString, counted]
      rfl
  | ok extent =>
      have same : UserString.ofMemory first address extent most =
          UserString.ofMemory second address extent most := by
        rw [UserString.ofMemory_eq_scan_read, UserString.ofMemory_eq_scan_read,
          agree.read_eq fun offset inside => Region.readableExtent_sound bounded counted inside]
      apply ExceptT.ext
      rw [readString_run_eq _ counted, readString_run_eq _ counted, same]

end Process
end Microkernel
