import Microkernel.Paging.Map

/-!
# Surveys of a map

A survey looks up addresses at regular distances and merges neighbours that are mapped alike.
-/

namespace Microkernel

namespace Paging

/-- How an address is mapped, apart from where to. -/
structure Mapping where
  /-- The bits of the descriptor besides its address. -/
  attributes : UInt64
  /-- The size of what the descriptor maps. -/
  size : Nat
  /-- Whether the address is mapped onto itself. -/
  identity : Bool
  deriving DecidableEq, Repr

/-- How an address is mapped by a descriptor that maps a given size. -/
def Mapping.of (address : Nat) (descriptor : Descriptor) (size : Nat) : Mapping where
  attributes := descriptor.attributes
  size := size
  identity := size != 0 && descriptor.address == address / size * size

/-- Addresses that follow each other and are mapped alike, or not at all. -/
structure Run where
  /-- The first address. -/
  first : Nat
  /-- The number of addresses. -/
  count : Nat
  /-- How they are mapped, if they are. -/
  mapping : Option Mapping
  deriving DecidableEq, Repr

/-- Runs, the last one first, with one more address. -/
def extendRuns (runs : List Run) (address : Nat) (mapping : Option Mapping) : List Run :=
  match runs with
  | run :: rest =>
      if run.mapping = mapping then { run with count := run.count + 1 } :: rest
      else { first := address, count := 1, mapping } :: runs
  | [] => [{ first := address, count := 1, mapping }]

/-- How an address is mapped by the tables at a root. -/
def mappingAt (memory : Memory) (root address : Nat) : Option Mapping :=
  (lookup memory root address).map fun (descriptor, size) => .of address descriptor size

/-- The runs of the addresses `start`, `start + step` and so on below `stop`. -/
def survey (memory : Memory) (root start stop step : Nat) : List Run :=
  let addresses := (List.range ((stop - start + step - 1) / step)).map (start + · * step)
  (addresses.foldl (fun runs address => extendRuns runs address (mappingAt memory root address))
    []).reverse

end Paging

end Microkernel
