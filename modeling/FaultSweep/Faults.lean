import FaultSweep.Json.Value
import FaultSweep.Reader
import FaultSweep.Text.Decimal

/-!
# Faults

Which nodes are disabled for a number of faults, and the names of the containers of a node. Node 1
serves the endpoints that are used after the faults and is never disabled.
-/

namespace FaultSweep

inductive FaultMode where
  | uniform
  | communityAware
  deriving DecidableEq

def FaultMode.name : FaultMode → String
  | uniform => "uniform"
  | communityAware => "community_aware"

def FaultMode.toJson (m : FaultMode) : Json := .str m.name

def FaultMode.read {ν : Type} (r : Reader ν) : ν → Option FaultMode :=
  r.enum [(uniform.name, uniform), (communityAware.name, communityAware)]

/-- What stands before the index in the container names of a node. -/
structure NodeNaming where
  storage : String
  overlay : String
  cluster : String
  deriving DecidableEq

namespace NodeNaming

def standard : NodeNaming := ⟨"storage", "overlay", "cluster"⟩

def containersFor (n : NodeNaming) (index : Nat) (mode : FaultMode) : List String :=
  let named (stem : String) := stem ++ Decimal.text index
  match mode with
  | .uniform => [named n.storage, named n.cluster]
  | .communityAware => [named n.storage, named n.overlay, named n.cluster]

def toJson (n : NodeNaming) : Json :=
  .obj [("storage_prefix", .str n.storage), ("overlay_prefix", .str n.overlay),
    ("cluster_prefix", .str n.cluster)]

def fieldNames : List String := ["storage_prefix", "overlay_prefix", "cluster_prefix"]

def read {ν : Type} (r : Reader ν) (n : ν) : Option NodeNaming := do
  let fs ← r.fields? fieldNames n
  return ⟨← Reader.field fs "storage_prefix" (some standard.storage) r.text?,
    ← Reader.field fs "overlay_prefix" (some standard.overlay) r.text?,
    ← Reader.field fs "cluster_prefix" (some standard.cluster) r.text?⟩

end NodeNaming

/-- The nodes disabled for `count` faults: 0, 2, 3, ..., `count`. -/
def faultTargets (count : Nat) : List Nat :=
  if count = 0 then [] else 0 :: List.range' 2 (count - 1)

def maxFaults (nodeCount : Nat) : Nat := nodeCount - 1

@[simp] theorem faultTargets_zero : faultTargets 0 = [] := rfl

theorem faultTargets_succ (n : Nat) : faultTargets (n + 1) = 0 :: List.range' 2 n := by
  simp [faultTargets]

@[simp] theorem length_faultTargets (n : Nat) : (faultTargets n).length = n := by
  cases n <;> simp [faultTargets]

end FaultSweep
