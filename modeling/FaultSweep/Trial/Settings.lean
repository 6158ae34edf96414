import FaultSweep.Faults
import FaultSweep.Grid.Key
import FaultSweep.Polling

/-!
# Trial settings

What the trials of a sweep have in common: the family they belong to, their waits, the parameters of
erasure coding and the names of the containers; and what is known of a payload.
-/

namespace FaultSweep

inductive TrialFamily where
  | reliability
  | replication
  | singleRepair
  | collabRepair
  deriving DecidableEq

namespace TrialFamily

def name : TrialFamily → String
  | reliability => "reliability"
  | replication => "replication"
  | singleRepair => "single_repair"
  | collabRepair => "collab_repair"

def all : List TrialFamily := [reliability, replication, singleRepair, collabRepair]

/-- Whether the topology has a community. -/
def community (f : TrialFamily) : Bool := f = collabRepair

def faultMode (f : TrialFamily) : FaultMode := if f.community then .communityAware else .uniform

def waitsForPin (f : TrialFamily) : Bool := f ≠ replication

def waitsForDiscovery (f : TrialFamily) : Bool := f = collabRepair

def toJson (f : TrialFamily) : Json := .str f.name

def read {ν : Type} (r : Reader ν) : ν → Option TrialFamily :=
  r.enum (all.map fun f => (f.name, f))

end TrialFamily

/-- The waits of a trial, in seconds. -/
structure Timings where
  warmup : Nat
  pollInterval : Nat
  pinTimeout : Nat
  settle : Nat
  discoveryTimeout : Nat
  repairTimeout : Nat
  deriving DecidableEq

namespace Timings

def standard : Timings := ⟨5, 3, 300, 120, 300, 1800⟩

def poll (t : Timings) (timeout : Nat) : PollSpec := ⟨seconds t.pollInterval, seconds timeout⟩

/-- The most probes that any wait of a trial can make on a clock that moves with every sleep. -/
def maxProbes (t : Timings) : Nat :=
  max (t.poll t.pinTimeout).maxProbes
    (max (t.poll t.discoveryTimeout).maxProbes (t.poll t.repairTimeout).maxProbes)

def toJson (t : Timings) : Json :=
  .obj [("warmup_secs", .nat t.warmup), ("poll_interval_secs", .nat t.pollInterval),
    ("pin_timeout_secs", .nat t.pinTimeout), ("settle_secs", .nat t.settle),
    ("discovery_timeout_secs", .nat t.discoveryTimeout),
    ("repair_timeout_secs", .nat t.repairTimeout)]

def fieldNames : List String :=
  ["warmup_secs", "poll_interval_secs", "pin_timeout_secs", "settle_secs",
    "discovery_timeout_secs", "repair_timeout_secs"]

def read {ν : Type} (r : Reader ν) (n : ν) : Option Timings := do
  let fs ← r.fields? fieldNames n
  let secs (name : String) (absent : Nat) := Reader.field fs name (some absent) (r.nat? wordBound)
  return ⟨← secs "warmup_secs" standard.warmup,
    ← secs "poll_interval_secs" standard.pollInterval,
    ← secs "pin_timeout_secs" standard.pinTimeout, ← secs "settle_secs" standard.settle,
    ← secs "discovery_timeout_secs" standard.discoveryTimeout,
    ← secs "repair_timeout_secs" standard.repairTimeout⟩

end Timings

structure ErasureParams where
  alpha : Nat
  s : Nat
  p : Nat
  deriving DecidableEq

namespace ErasureParams

def standard : ErasureParams := ⟨3, 5, 5⟩

def fields (e : ErasureParams) : List (String × Json) :=
  [("alpha", .nat e.alpha), ("s", .nat e.s), ("p", .nat e.p)]

def toJson (e : ErasureParams) : Json := .obj e.fields

def read {ν : Type} (r : Reader ν) (n : ν) : Option ErasureParams := do
  let fs ← r.fields? ["alpha", "s", "p"] n
  let count (name : String) (absent : Nat) := Reader.field fs name (some absent) (r.nat? countBound)
  return ⟨← count "alpha" standard.alpha, ← count "s" standard.s, ← count "p" standard.p⟩

end ErasureParams

/-- A file to upload, the identifiers it gets, and the number of its blocks if that is known. -/
structure PayloadSpec where
  path : String
  fileCid : String
  metaCid : String
  totalBlocks : Option Nat
  deriving DecidableEq

namespace PayloadSpec

def toJson (p : PayloadSpec) : Json :=
  .obj [("path", .str p.path), ("file_cid", .str p.fileCid), ("meta_cid", .str p.metaCid),
    ("total_blocks", .ofOption .nat p.totalBlocks)]

def fieldNames : List String := ["path", "file_cid", "meta_cid", "total_blocks"]

def read {ν : Type} (r : Reader ν) (n : ν) : Option PayloadSpec := do
  let fs ← r.fields? fieldNames n
  return ⟨← Reader.field fs "path" none r.text?, ← Reader.field fs "file_cid" none r.text?,
    ← Reader.field fs "meta_cid" none r.text?,
    ← Reader.field fs "total_blocks" (some none) (r.option (r.nat? wordBound))⟩

end PayloadSpec

structure TrialSettings where
  family : TrialFamily
  timings : Timings
  erasure : ErasureParams
  naming : NodeNaming
  deriving DecidableEq

end FaultSweep
