import Microkernel.Proofs.Memory.Extent
import Microkernel.Proofs.Paging.Bits

/-!
# What the leaves of a map say

A walk through a map ends at a leaf, a descriptor that maps memory.  `Leaf` says what such a
descriptor means: where the memory lies, of which kind it is, and who may do what there.  The maps
that are meant are functions from addresses to leaves.
-/

namespace Microkernel

/-- What a descriptor lets programs read and write. -/
def Descriptor.access (descriptor : Descriptor) : UserAccess :=
  if descriptor.includes .user then
    if descriptor.includes .readOnly then .readOnly else .readWrite
  else .none

namespace Paging

/-- What the descriptor at which a walk ends says about the memory that it maps. -/
structure Leaf where
  /-- The first address of the memory. -/
  target : Nat
  size : Nat
  /-- Whether it is device memory. -/
  device : Bool
  /-- What programs may read and write. -/
  access : UserAccess
  /-- Whether programs may execute it. -/
  programExecutes : Bool
  /-- Whether the kernel may execute it. -/
  kernelExecutes : Bool
  deriving DecidableEq, Repr

namespace Leaf

/-- What a descriptor says that maps a given size. -/
def of (found : Descriptor × Nat) : Leaf where
  target := found.1.address
  size := found.2
  device := found.1.includes .device
  access := found.1.access
  programExecutes := !found.1.includes .userExecuteNever
  kernelExecutes := !found.1.includes .kernelExecuteNever

/-- Normal memory, which is executed by programs if they have access and else by the kernel. -/
def normal (target size : Nat) (access : UserAccess) : Leaf where
  target := target
  size := size
  device := false
  access := access
  programExecutes := access != .none
  kernelExecutes := access == .none

/-- The memory of devices, which programs have no access to and nobody executes. -/
def devices (target size : Nat) : Leaf where
  target := target
  size := size
  device := true
  access := .none
  programExecutes := false
  kernelExecutes := false

/-- A page of arguments, which programs read and nobody executes. -/
def arguments (target : Nat) : Leaf :=
  { normal target Config.pageSize .readOnly with programExecutes := false }

/-- An address in a descriptor is where the memory lies, and says nothing else. -/
theorem of_ofAddress_union {address : Nat} (fits : Descriptor.Fits address) {flags : Descriptor}
    (outside : flags.bits &&& Descriptor.addressMask = 0) (size : Nat) :
    of (.ofAddress address ||| flags, size) = { of (flags, size) with target := address } := by
  have same {place : UInt64} (outside : Descriptor.Outside place) :=
    Descriptor.ofAddress_union_includes address flags outside
  have device : (Descriptor.ofAddress address ||| flags).includes .device =
      flags.includes .device := same (by decide)
  have user : (Descriptor.ofAddress address ||| flags).includes .user =
      flags.includes .user := same (by decide)
  have readOnly : (Descriptor.ofAddress address ||| flags).includes .readOnly =
      flags.includes .readOnly := same (by decide)
  have program : (Descriptor.ofAddress address ||| flags).includes .userExecuteNever =
      flags.includes .userExecuteNever := same (by decide)
  have kernel : (Descriptor.ofAddress address ||| flags).includes .kernelExecuteNever =
      flags.includes .kernelExecuteNever := same (by decide)
  simp only [of, Descriptor.access, device, user, readOnly, program, kernel,
    Descriptor.ofAddress_union_address fits outside]

theorem of_normalBlock {address : Nat} (fits : Descriptor.Fits address) (access : UserAccess)
    (size : Nat) : of (.normalBlock address access, size) = normal address size access := by
  rw [Descriptor.normalBlock_eq, of_ofAddress_union fits (by cases access <;> decide)]
  simp only [of, normal, mk.injEq, true_and]
  cases access <;> decide

theorem of_deviceBlock {address : Nat} (fits : Descriptor.Fits address) (size : Nat) :
    of (.deviceBlock address, size) = devices address size := by
  rw [Descriptor.deviceBlock_eq, of_ofAddress_union fits (by decide)]
  simp only [of, devices, mk.injEq, true_and]
  decide

theorem of_asPage_normalBlock {address : Nat} (fits : Descriptor.Fits address)
    (access : UserAccess) (size : Nat) :
    of ((Descriptor.normalBlock address access).asPage, size) = normal address size access := by
  rw [Descriptor.asPage_normalBlock_eq, of_ofAddress_union fits (by cases access <;> decide)]
  simp only [of, normal, mk.injEq, true_and]
  cases access <;> decide

/-! ### Who may do what -/

/-- What holds of every leaf, whatever it maps: programs have access to normal memory alone, and
nobody executes what is not his. -/
structure Guarded (leaf : Leaf) : Prop where
  /-- Where programs have access, it is no device and the kernel executes nothing. -/
  reached : leaf.access ≠ .none → leaf.device = false ∧ leaf.kernelExecutes = false
  /-- Nobody executes a device. -/
  device : leaf.device = true → leaf.programExecutes = false ∧ leaf.kernelExecutes = false

theorem normal_guarded (target size : Nat) (access : UserAccess) :
    (normal target size access).Guarded := by
  constructor
  · intro reached
    exact ⟨rfl, beq_eq_false_iff_ne.2 reached⟩
  · intro device
    cases device

theorem devices_guarded (target size : Nat) : (devices target size).Guarded :=
  ⟨fun reached => absurd rfl reached, fun _ => ⟨rfl, rfl⟩⟩

theorem arguments_guarded (target : Nat) : (arguments target).Guarded :=
  ⟨fun _ => ⟨rfl, rfl⟩, fun device => nomatch device⟩

/-- In terms of bits: a guarded leaf that programs have access to is no device, and the kernel does
not execute it. -/
theorem Guarded.of_user {leaf : Descriptor} {size : Nat} (guarded : (of (leaf, size)).Guarded)
    (user : leaf.includes .user = true) :
    leaf.includes .kernelExecuteNever = true ∧ leaf.includes .device = false := by
  have some_access : (of (leaf, size)).access ≠ .none := by
    simp only [of, Descriptor.access, user, if_true]
    split <;> decide
  obtain ⟨no_device, never⟩ := guarded.reached some_access
  exact ⟨by simpa [of] using never, no_device⟩

theorem user_of_access_none {leaf : Descriptor} {size : Nat}
    (hidden : (of (leaf, size)).access = .none) : leaf.includes .user = false := by
  simp only [of, Descriptor.access] at hidden
  split at hidden
  · split at hidden <;> cases hidden
  · exact Bool.eq_false_iff.2 ‹_›

theorem Guarded.of_device {leaf : Descriptor} {size : Nat} (guarded : (of (leaf, size)).Guarded)
    (device : leaf.includes .device = true) :
    leaf.includes .userExecuteNever = true ∧ leaf.includes .kernelExecuteNever = true := by
  obtain ⟨program, kernel⟩ := guarded.device device
  exact ⟨by simpa [of] using program, by simpa [of] using kernel⟩

end Leaf

/-! ## The maps that are meant -/

/-- How addresses are to be mapped where blocks are not split into pages: in the first gigabyte by
blocks onto themselves, which are devices from an address on, and in the second by one block of
devices. -/
def wholeLeaf? (deviceBase : Nat) (access : Nat → UserAccess) (address : Nat) : Option Leaf :=
  let base := address / block * block
  if address < largeBlock then
    some (if base < deviceBase then .normal base block (access base) else .devices base block)
  else if address < 2 * largeBlock then some (.devices largeBlock largeBlock)
  else none

/-- How the map that the kernel starts with is to map addresses: onto themselves, in the first
gigabyte by blocks of normal memory up to the devices, and in the second by one block of devices. -/
def bootLeaf? (deviceBase address : Nat) : Option Leaf :=
  let base := address / block * block
  if address < min deviceBase largeBlock then some (.normal base block .none)
  else if address < largeBlock then some (.devices base block)
  else if address < 2 * largeBlock then some (.devices largeBlock largeBlock)
  else none

/-- How the map of a process is to map addresses: its argument page where programs see their
arguments, the rest of that block by pages onto themselves, and all else as whole blocks. -/
def processLeaf? (deviceBase argumentPage : Nat) (access : Nat → UserAccess) (address : Nat) :
    Option Leaf :=
  if Extent.Covers ⟨Config.argumentAddress, Config.pageSize⟩ address then
    some (.arguments argumentPage)
  else if Extent.Covers ⟨Config.argumentAddress, block⟩ address then
    some (.normal (address / Config.pageSize * Config.pageSize) Config.pageSize
      (access Config.argumentAddress))
  else wholeLeaf? deviceBase access address

variable {deviceBase argumentPage address : Nat} {access : Nat → UserAccess} {leaf : Leaf}

theorem wholeLeaf?_guarded (meant : wholeLeaf? deviceBase access address = some leaf) :
    leaf.Guarded := by
  simp only [wholeLeaf?] at meant
  split at meant
  case isTrue =>
    cases meant
    split
    · exact Leaf.normal_guarded ..
    · exact Leaf.devices_guarded ..
  case isFalse =>
    split at meant
    · cases meant
      exact Leaf.devices_guarded ..
    · cases meant

/-- Without access for programs, and with devices from a block on, whole blocks are mapped as in the
map that the kernel starts with. -/
theorem wholeLeaf?_eq_bootLeaf? (aligned : deviceBase % block = 0) (address : Nat) :
    wholeLeaf? deviceBase (fun _ => .none) address = bootLeaf? deviceBase address := by
  have below : address / block * block < deviceBase ↔ address < deviceBase := by
    simp only [block] at *
    omega
  simp only [wholeLeaf?, bootLeaf?, below, Nat.lt_min]
  by_cases near : address < largeBlock
  case pos =>
    by_cases low : address < deviceBase
    · rw [if_pos near, if_pos low, if_pos ⟨low, near⟩]
    · rw [if_pos near, if_neg low, if_neg fun both => low both.1, if_pos near]
  case neg =>
    have outside : ¬ (address < deviceBase ∧ address < largeBlock) := fun both => near both.2
    rw [if_neg near, if_neg outside, if_neg near]

theorem bootLeaf?_guarded (meant : bootLeaf? deviceBase address = some leaf) :
    leaf.Guarded ∧ leaf.access = .none := by
  simp only [bootLeaf?] at meant
  split at meant
  case isTrue =>
    cases meant
    exact ⟨Leaf.normal_guarded .., rfl⟩
  case isFalse =>
    split at meant
    case isTrue =>
      cases meant
      exact ⟨Leaf.devices_guarded .., rfl⟩
    case isFalse =>
      split at meant
      · cases meant
        exact ⟨Leaf.devices_guarded .., rfl⟩
      · cases meant

theorem processLeaf?_guarded
    (meant : processLeaf? deviceBase argumentPage access address = some leaf) : leaf.Guarded := by
  rw [processLeaf?] at meant
  split at meant
  case isTrue =>
    cases meant
    exact Leaf.arguments_guarded _
  case isFalse =>
    split at meant
    · cases meant
      exact Leaf.normal_guarded ..
    · exact wholeLeaf?_guarded meant

end Paging
end Microkernel
