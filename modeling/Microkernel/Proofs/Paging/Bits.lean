import Microkernel.Paging.Map
import Mathlib.Algebra.Group.Nat.Defs

/-!
# Bits of a descriptor

A descriptor is put together from the address of a page and from single bits that no such address
has.  So each of these bits is one of the descriptor of the first page in memory, and the address is
found again.
-/

namespace Microkernel
namespace Descriptor

/-! ## Single bits -/

theorem includes_bit (descriptor : Descriptor) {place : UInt64} (small : place < 64) :
    descriptor.includes (bit place) = descriptor.bits.toBitVec.getLsbD place.toNat := by
  have below : place.toNat < 64 := small
  have single : ((1 : UInt64) <<< place).toBitVec = BitVec.twoPow 64 place.toNat := by
    rw [UInt64.toBitVec_shiftLeft, BitVec.twoPow_eq, BitVec.shiftLeft_eq', BitVec.toNat_umod,
      UInt64.toNat_toBitVec]
    change 1#64 <<< (place.toNat % 64) = _
    rw [Nat.mod_eq_of_lt below]
  have positive : 0 < (BitVec.twoPow 64 place.toNat).toNat := by
    rw [BitVec.toNat_twoPow, Nat.mod_eq_of_lt (Nat.pow_lt_pow_right (by decide) below)]
    exact Nat.two_pow_pos _
  rw [includes, bit, Bool.eq_iff_iff, beq_iff_eq, ← UInt64.toBitVec_inj, UInt64.toBitVec_and,
    single, BitVec.and_twoPow]
  cases descriptor.bits.toBitVec.getLsbD place.toNat with
  | true => simp
  | false =>
      refine iff_of_false (fun same => ?_) (by decide)
      rw [if_neg (by decide)] at same
      rw [← same] at positive
      exact Nat.lt_irrefl 0 positive

/-- Whether no address has the bit at a place. -/
def Outside (place : UInt64) : Prop :=
  place < 64 ∧ addressMask.toBitVec.getLsbD place.toNat = false

instance (place : UInt64) : Decidable (Outside place) :=
  inferInstanceAs (Decidable (_ ∧ _))

theorem ofAddress_union_includes (address : Nat) (flags : Descriptor) {place : UInt64}
    (outside : Outside place) :
    (ofAddress address ||| flags).includes (bit place) = flags.includes (bit place) := by
  obtain ⟨small, unmasked⟩ := outside
  rw [includes_bit _ small, includes_bit _ small]
  change ((address.toUInt64 &&& addressMask) ||| flags.bits).toBitVec.getLsbD place.toNat = _
  rw [UInt64.toBitVec_or, BitVec.getLsbD_or, UInt64.toBitVec_and, BitVec.getLsbD_and, unmasked,
    Bool.and_false, Bool.false_or]

/-! ## The address -/

/-- Whether a number is the address of a page that a descriptor can hold. -/
structure Fits (address : Nat) : Prop where
  /-- The page begins at a page boundary. -/
  aligned : address % Config.pageSize = 0
  /-- The page lies in the address space of the tables. -/
  small : address < 2 ^ 48

theorem ofAddress_address {address : Nat} (fits : Fits address) :
    (ofAddress address).address = address := by
  obtain ⟨page, rfl⟩ : ∃ page, address = page * 2 ^ 12 :=
    ⟨address / 2 ^ 12, by have := fits.aligned; simp only [Config.pageSize] at this; omega⟩
  have small := fits.small
  have word : (page * 2 ^ 12).toUInt64.toNat = page * 2 ^ 12 :=
    UInt64.toNat_ofNat_of_lt' (Nat.lt_trans small (by decide))
  have mask : addressMask.toNat = (2 ^ 36 - 1) * 2 ^ 12 := by decide
  have masked : page * 2 ^ 12 &&& (2 ^ 36 - 1) * 2 ^ 12 = page * 2 ^ 12 := by
    rw [← Nat.shiftLeft_eq, ← Nat.shiftLeft_eq, ← Nat.shiftLeft_and_distrib,
      Nat.and_two_pow_sub_one_eq_mod, Nat.mod_eq_of_lt (by omega)]
  rw [address, ofAddress, UInt64.and_assoc, UInt64.and_self, UInt64.toNat_and, word, mask, masked]

theorem ofAddress_union_address {address : Nat} (fits : Fits address) {flags : Descriptor}
    (outside : flags.bits &&& addressMask = 0) :
    (ofAddress address ||| flags).address = address := by
  have parts : ((ofAddress address).bits ||| flags.bits) &&& addressMask =
      ((ofAddress address).bits &&& addressMask) ||| (flags.bits &&& addressMask) := by
    apply UInt64.toNat_inj.1
    simp only [UInt64.toNat_or, UInt64.toNat_and, Nat.and_or_distrib_right]
  change (((ofAddress address).bits ||| flags.bits) &&& addressMask).toNat = address
  rw [parts, outside, UInt64.or_zero]
  exact ofAddress_address fits

/-! ## Descriptors of the first page

Each kind of descriptor is an address put into the descriptor of the page at address zero. -/

theorem union_assoc (first second third : Descriptor) :
    (first ||| second) ||| third = first ||| (second ||| third) :=
  congrArg mk (UInt64.or_assoc ..)

theorem zero_union (descriptor : Descriptor) : ofAddress 0 ||| descriptor = descriptor :=
  congrArg mk (UInt64.zero_or)

theorem nextTable_eq (address : Nat) : nextTable address = ofAddress address ||| nextTable 0 := by
  simp only [nextTable, union_assoc, zero_union]

theorem normalBlock_eq (address : Nat) (access : UserAccess) :
    normalBlock address access = ofAddress address ||| normalBlock 0 access := by
  cases access <;> simp only [normalBlock, union_assoc, zero_union]

theorem deviceBlock_eq (address : Nat) :
    deviceBlock address = ofAddress address ||| deviceBlock 0 := by
  simp only [deviceBlock, union_assoc, zero_union]

theorem asPage_normalBlock_eq (address : Nat) (access : UserAccess) :
    (normalBlock address access).asPage = ofAddress address ||| (normalBlock 0 access).asPage := by
  rw [asPage, normalBlock_eq, union_assoc, asPage]

theorem nextTable_includes_valid (address : Nat) :
    (nextTable address).includes valid = true := by
  rw [nextTable_eq]
  exact ofAddress_union_includes address _ (by decide)

theorem nextTable_includes_table (address : Nat) :
    (nextTable address).includes table = true := by
  rw [nextTable_eq]
  exact ofAddress_union_includes address _ (by decide)

theorem nextTable_address {address : Nat} (fits : Fits address) :
    (nextTable address).address = address := by
  rw [nextTable_eq]
  exact ofAddress_union_address fits (by decide)

theorem normalBlock_includes {place : UInt64} (outside : Outside place) (address : Nat)
    (access : UserAccess) :
    (normalBlock address access).includes (bit place) =
      (normalBlock 0 access).includes (bit place) := by
  rw [normalBlock_eq]
  exact ofAddress_union_includes address _ outside

theorem normalBlock_address {address : Nat} (fits : Fits address) (access : UserAccess) :
    (normalBlock address access).address = address := by
  rw [normalBlock_eq]
  exact ofAddress_union_address fits (by cases access <;> decide)

theorem deviceBlock_includes {place : UInt64} (outside : Outside place) (address : Nat) :
    (deviceBlock address).includes (bit place) = (deviceBlock 0).includes (bit place) := by
  rw [deviceBlock_eq]
  exact ofAddress_union_includes address _ outside

theorem asPage_normalBlock_includes {place : UInt64} (outside : Outside place) (address : Nat)
    (access : UserAccess) :
    (normalBlock address access).asPage.includes (bit place) =
      (normalBlock 0 access).asPage.includes (bit place) := by
  rw [asPage_normalBlock_eq]
  exact ofAddress_union_includes address _ outside

theorem asPage_normalBlock_address {address : Nat} (fits : Fits address) (access : UserAccess) :
    (normalBlock address access).asPage.address = address := by
  rw [asPage_normalBlock_eq]
  exact ofAddress_union_address fits (by cases access <;> decide)

/-! ## Access -/

/-- Whether a descriptor maps normal memory, and what it lets programs do there. -/
structure Gives (descriptor : Descriptor) (access : UserAccess) : Prop where
  /-- Programs can reach it if they have any access to it. -/
  user : descriptor.includes .user = true ↔ access ≠ .none
  /-- They can write if they have all access to it. -/
  writable : descriptor.includes .user = true →
    (descriptor.includes .readOnly = false ↔ access = .readWrite)
  /-- They can execute what they can reach. -/
  executable : descriptor.includes .user = true → descriptor.includes .userExecuteNever = false
  /-- It is no device. -/
  normal : descriptor.includes .device = false

private theorem Gives.of_same {descriptor other : Descriptor} {access : UserAccess}
    (same : ∀ place, Outside place →
      descriptor.includes (bit place) = other.includes (bit place))
    (gives : other.Gives access) : descriptor.Gives access := by
  have user : descriptor.includes .user = other.includes .user := same 6 (by decide)
  have readOnly : descriptor.includes .readOnly = other.includes .readOnly := same 7 (by decide)
  have never : descriptor.includes .userExecuteNever = other.includes .userExecuteNever :=
    same 54 (by decide)
  have device : descriptor.includes .device = other.includes .device := same 2 (by decide)
  constructor
  · rw [user]
    exact gives.user
  · rw [user, readOnly]
    exact gives.writable
  · rw [user, never]
    exact gives.executable
  · rw [device]
    exact gives.normal

theorem normalBlock_gives (address : Nat) (access : UserAccess) :
    (normalBlock address access).Gives access := by
  refine .of_same (fun place outside => normalBlock_includes outside address access) ?_
  cases access <;> exact ⟨by decide, by decide, by decide, by decide⟩

theorem asPage_normalBlock_gives (address : Nat) (access : UserAccess) :
    (normalBlock address access).asPage.Gives access := by
  refine .of_same (fun place outside => asPage_normalBlock_includes outside address access) ?_
  cases access <;> exact ⟨by decide, by decide, by decide, by decide⟩

theorem deviceBlock_includes_user (address : Nat) :
    (deviceBlock address).includes user = false :=
  (deviceBlock_includes (by decide) address).trans (by decide)

end Descriptor
end Microkernel
