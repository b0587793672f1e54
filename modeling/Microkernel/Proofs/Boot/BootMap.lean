import Microkernel.Proofs.Boot.Attempt
import Microkernel.Proofs.Paging.Skeleton

/-!
# The map that the kernel starts with

Boot writes the first map into pages that may have held anything before.  Through this map every
address below two gigabytes is found at itself, and nothing beyond; so once translation is on, the
kernel and the pages of the arena are where they were.
-/

namespace Microkernel
namespace Boot

open Paging

variable {record : BootRecord} {layout : BootLayout} {deviceBase : Nat} {memory : Memory}
  {outcome : BootOutcome}

/-- Whatever memory held before, boot writes the tables of its map and nothing else into their
pages. -/
theorem Built.mapsSkeleton (built : Built layout deviceBase memory outcome)
    (inside : page layout.kernelStop.pageAbove bootPages ≤ Word.limit) :
    MapsSkeleton outcome.memory layout.kernelStop.pageAbove deviceBase (fun _ => .none)
      fun _ => True := by
  rw [built.memory_eq]
  refine mapsSkeleton_writeSkeleton deviceBase _ inside fun address covered => ?_
  rw [Memory.get_fill _ _ _ _ _ (Nat.lt_of_lt_of_le covered.2 inside)]
  exact if_pos covered

theorem Built.changesOnly (built : Built layout deviceBase memory outcome) :
    memory.ChangesOnly outcome.memory
      (Extent.Covers ⟨layout.kernelStop.pageAbove, bootPages * Config.pageSize⟩) := by
  rw [built.memory_eq]
  have cleared := memory.changesOnly_fill layout.kernelStop.pageAbove
    (bootPages * Config.pageSize) 0
  exact cleared.trans (changesOnly_writeSkeleton _ _ _ _)

/-- If boot succeeds with tables that descriptors can point to, its map says of every address what
it is meant to, and nothing but the three pages of the tables is written.  Programs have access to
nothing, and nobody executes a device.  If the device tree lies in front of the devices and in the
first gigabyte, then the kernel, and all pages of the arena behind it, are found at their own
addresses in normal memory. -/
theorem bootstrap_leaves
    (started : (bootstrap record layout deviceBase memory).run = .ok (.ok outcome))
    (aligned : deviceBase % block = 0)
    (small : page outcome.record.rootTable bootPages ≤ 2 ^ 48) :
    let root := outcome.record.rootTable
    memory.ChangesOnly outcome.memory (Extent.Covers ⟨root, bootPages * Config.pageSize⟩) ∧
      (∀ address < 2 ^ 48,
        (lookup outcome.memory root address).map Leaf.of = bootLeaf? deviceBase address ∧
          ∀ leaf size, lookup outcome.memory root address = some (leaf, size) →
            leaf.includes .user = false ∧
              (leaf.includes .device = true →
                leaf.includes .userExecuteNever = true ∧
                  leaf.includes .kernelExecuteNever = true)) ∧
        (layout.tree.pageFloor.value ≤ min deviceBase largeBlock →
          layout.kernelStop.value ≤ outcome.arena.base.value ∧
            outcome.arena.base.value < outcome.arena.bound.value ∧
              ∀ address < outcome.arena.bound.value,
                ∃ leaf size, lookup outcome.memory root address = some (leaf, size) ∧
                  leaf.address + address % size = address ∧ leaf.includes .device = false) := by
  obtain ⟨ready, built⟩ := built_of_bootstrap started
  have root_eq : outcome.record.rootTable = layout.kernelStop.pageAbove := by
    rw [built.record_eq, recordOf]
  rw [root_eq] at small ⊢
  have maps := built.mapsSkeleton (Nat.le_trans small (by decide))
  have fits (number : Nat) (inMap : number < bootPages) :
      Descriptor.Fits (page layout.kernelStop.pageAbove number) :=
    fits_page layout.kernelStop.pageAbove_aligned small inMap
  have meant (address : Nat) (near : address < 2 ^ 48) :
      (lookup outcome.memory layout.kernelStop.pageAbove address).map Leaf.of =
        bootLeaf? deviceBase address :=
    (maps.leaf_eq fits near fun _ => trivial).trans (wholeLeaf?_eq_bootLeaf? aligned address)
  refine ⟨built.changesOnly, fun address near => ⟨meant address near, ?_⟩, fun before => ?_⟩
  case refine_1 =>
    intro leaf size found
    have known := meant address near
    rw [found, Option.map_some] at known
    obtain ⟨guarded, hidden⟩ := bootLeaf?_guarded known.symm
    exact ⟨Leaf.user_of_access_none hidden, guarded.of_device⟩
  case refine_2 =>
    rw [built.arena_eq]
    refine ⟨layout.kernelStop.le_pageAbove, Nat.lt_of_le_of_lt (Nat.le_add_right _ _) ready.room,
      fun address inside => ?_⟩
    have low : address < min deviceBase largeBlock := Nat.lt_of_lt_of_le inside before
    have near : address < 2 ^ 48 :=
      Nat.lt_of_lt_of_le (Nat.lt_of_lt_of_le low (Nat.min_le_right _ _)) (by decide)
    have known := meant address near
    rw [bootLeaf?, if_pos low, Option.map_eq_some_iff] at known
    obtain ⟨⟨leaf, size⟩, found, normal⟩ := known
    obtain ⟨place, rfl, normal_memory⟩ :
        leaf.address = address / block * block ∧ size = block ∧
          leaf.includes .device = false :=
      ⟨congrArg Leaf.target normal, congrArg Leaf.size normal, congrArg Leaf.device normal⟩
    refine ⟨leaf, block, found, ?_, normal_memory⟩
    rw [place, Nat.mul_comm, Nat.div_add_mod]

/-- The tables are found in pages that held other things, and the arena reaches from there to a
device tree at 32 megabytes. -/
theorem bootstrap_leaves_small : ∃ outcome,
    (bootstrap .blank ⟨⟨0x80000⟩, ⟨0xFF8010⟩, ⟨0x2000100⟩, 0x1000, 0⟩ 0x3F000000
      (Memory.zero.fill 0xFF9000 0x3000 0xFF)).run = .ok (.ok outcome) ∧
    (lookup outcome.memory 0xFF9000 0x123456).map Leaf.of = some (.normal 0 block .none) ∧
    (lookup outcome.memory 0xFF9000 0x3F201000).map Leaf.of = some (.devices 0x3F200000 block) ∧
    lookup outcome.memory 0xFF9000 0x80000000 = none ∧
    ∃ leaf size, lookup outcome.memory 0xFF9000 0x1FFFFFF = some (leaf, size) ∧
      leaf.address + 0x1FFFFFF % size = 0x1FFFFFF := by
  have clear : obstacle? .blank ⟨⟨0x80000⟩, ⟨0xFF8010⟩, ⟨0x2000100⟩, 0x1000, 0⟩ = none := by decide
  have ends := bootstrap_ends .blank ⟨⟨0x80000⟩, ⟨0xFF8010⟩, ⟨0x2000100⟩, 0x1000, 0⟩ 0x3F000000
    (Memory.zero.fill 0xFF9000 0x3000 0xFF)
  rw [clear] at ends
  obtain ⟨outcome, started, built⟩ := ends
  have root : outcome.record.rootTable = 0xFF9000 := by
    rw [built.record_eq]
    decide
  have bound : outcome.arena.bound.value = 0x2000000 := by
    rw [built.arena_eq]
    decide
  obtain ⟨_, exactly, identity⟩ := bootstrap_leaves started (by decide) (by rw [root]; decide)
  obtain ⟨_, _, stays⟩ := identity (by decide)
  rw [root] at exactly stays
  obtain ⟨leaf, size, found, here, _⟩ := stays 0x1FFFFFF (by rw [bound]; decide)
  refine ⟨outcome, started, ?_, ?_, ?_, leaf, size, found, here⟩
  · exact (exactly _ (by decide)).1.trans (by decide)
  · exact (exactly _ (by decide)).1.trans (by decide)
  · exact Option.map_eq_none_iff.1 ((exactly _ (by decide)).1.trans (by decide))

end Boot
end Microkernel
