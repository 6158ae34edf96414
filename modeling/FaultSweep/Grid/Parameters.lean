import FaultSweep.Grid.Key

/-!
# Trial parameters

The six parameters of a trial. The values of a key are laid over the parameters of a plan, one entry
after the other.
-/

namespace FaultSweep

structure TrialParameters where
  nodeCount : Nat
  faultCount : Nat
  repairDepth : Nat
  repairPeers : Nat
  replicationFactor : Nat
  payloadSize : String
  deriving DecidableEq

/-- A value of the wrong kind for its dimension. -/
inductive WrongKind where
  | countForPayload (n : Nat)
  | labelForCount (d : Dimension) (s : String)
  deriving DecidableEq

def WrongKind.message : WrongKind → String
  | countForPayload n => "payload_size expects a size label, got " ++ Decimal.text n
  | labelForCount d s => d.name ++ " expects an integer, got '" ++ s ++ "'"

namespace TrialParameters

def standard : TrialParameters := ⟨10, 0, 5, 3, 4, "25MB"⟩

def set (p : TrialParameters) : Entry → Except WrongKind TrialParameters
  | (.payloadSize, .label s) => .ok { p with payloadSize := s }
  | (.payloadSize, .count n) => .error (.countForPayload n)
  | (d, .label s) => .error (.labelForCount d s)
  | (.nodeCount, .count n) => .ok { p with nodeCount := n }
  | (.faultCount, .count n) => .ok { p with faultCount := n }
  | (.repairDepth, .count n) => .ok { p with repairDepth := n }
  | (.repairPeers, .count n) => .ok { p with repairPeers := n }
  | (.replicationFactor, .count n) => .ok { p with replicationFactor := n }

def overlay (p : TrialParameters) : List Entry → Except WrongKind TrialParameters
  | [] => .ok p
  | e :: es =>
    match p.set e with
    | .error err => .error err
    | .ok q => overlay q es

def resolve (p : TrialParameters) (k : ConfigurationKey) : Except WrongKind TrialParameters :=
  p.overlay k.entries

/-- The nodes that are left when the faults are injected. -/
def survivors (p : TrialParameters) : Nat := p.nodeCount - p.faultCount

def toJson (p : TrialParameters) : Json :=
  .obj [("node_count", .nat p.nodeCount), ("fault_count", .nat p.faultCount),
    ("repair_depth", .nat p.repairDepth), ("repair_peers", .nat p.repairPeers),
    ("replication_factor", .nat p.replicationFactor), ("payload_size", .str p.payloadSize)]

def fieldNames : List String :=
  ["node_count", "fault_count", "repair_depth", "repair_peers", "replication_factor",
    "payload_size"]

def read {ν : Type} (r : Reader ν) (n : ν) : Option TrialParameters := do
  let fs ← r.fields? fieldNames n
  let count (name : String) (absent : Nat) := Reader.field fs name (some absent) (r.nat? countBound)
  return ⟨← count "node_count" standard.nodeCount, ← count "fault_count" standard.faultCount,
    ← count "repair_depth" standard.repairDepth, ← count "repair_peers" standard.repairPeers,
    ← count "replication_factor" standard.replicationFactor,
    ← Reader.field fs "payload_size" (some standard.payloadSize) r.text?⟩

end TrialParameters

end FaultSweep
