import FaultSweep.Error
import FaultSweep.Json.Value
import FaultSweep.Reader

/-!
# Storage operations

What a trial asks of the storage network: uploads, downloads, repairs, and the probes that tell how
far they are.
-/

namespace FaultSweep

inductive UploadMode where
  | erasure (alpha s p replication : Nat)
  | direct (factor : Nat)
  deriving DecidableEq

/-- What a download measured: the number of blocks, or a document. -/
inductive Recovery where
  | count (n : Nat)
  | metrics (v : Json)

def Recovery.toJson : Recovery → Json
  | count n => .nat n
  | metrics v => v

structure RepairRequest where
  fileCid : String
  metaCid : String
  depth : Nat
  origin : String
  numPeers : Nat
  deriving DecidableEq

namespace RepairRequest

def toJson (r : RepairRequest) : Json :=
  .obj [("fileCID", .str r.fileCid), ("metaCID", .str r.metaCid), ("depth", .nat r.depth),
    ("origin", .str r.origin), ("numPeers", .nat r.numPeers)]

def read {ν : Type} (r : Reader ν) (n : ν) : Option RepairRequest := do
  let fs ← r.fields? ["fileCID", "metaCID", "depth", "origin", "numPeers"] n
  return ⟨← Reader.field fs "fileCID" none r.text?, ← Reader.field fs "metaCID" none r.text?,
    ← Reader.field fs "depth" none (r.nat? countBound),
    ← Reader.field fs "origin" none r.text?,
    ← Reader.field fs "numPeers" none (r.nat? countBound)⟩

end RepairRequest

structure Gateway (W : Type) where
  upload : String → UploadMode → W → Except CommandError Unit × W
  pinStatus : String → W → Except ProbeError Bool × W
  /-- File, description of the file, depth, and whether a document is asked for. -/
  downloadCount : String → Option String → Nat → Bool → W → Except CommandError Recovery × W
  triggerRepair : RepairRequest → W → Except ProbeError Unit × W
  repairDone : W → Except ProbeError Bool × W
  fetchMetrics : W → Except ProbeError Json × W
  countActivePeers : W → Except ProbeError Nat × W

end FaultSweep
