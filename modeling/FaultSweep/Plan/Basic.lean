import FaultSweep.Files.Path
import FaultSweep.Plan.Axis
import FaultSweep.Plan.Config

/-!
# Sweep plans

A plan says what is varied, what is uploaded, where the results go, and how the topology and the
services are reached. The cells of its grid are all combinations of the values of its axes; the
first axis varies slowest.
-/

namespace FaultSweep

structure SweepPlan where
  family : TrialFamily
  target : Nat
  ledger : String
  maxPasses : Option Nat
  defaults : TrialParameters
  grid : List Axis
  payloads : SortedMap PayloadSpec
  timings : Timings
  topology : TopologyConfig
  storage : StorageConfig
  endpoints : EndpointConfig
  /-- The directory that commands run in. -/
  baseDir : String

namespace SweepPlan

/-! ### Reading and writing -/

def readPayloads {ν : Type} (r : Reader ν) (n : ν) : Option (SortedMap PayloadSpec) := do
  let es ← (← r.entries? n).mapM fun e => (PayloadSpec.read r e.2).map (e.1, ·)
  return SortedMap.ofList es

def fieldNames : List String :=
  ["family", "target", "ledger", "max_passes", "defaults", "grid", "payloads", "timings",
    "topology", "storage_cli", "endpoints"]

/-- What `read` looks at. -/
def extent : Yaml.Extent :=
  .record fieldNames [("defaults", .record TrialParameters.fieldNames []),
    ("grid", .items (.record Axis.fieldNames [("values", .items .leaf)])),
    ("payloads", .entries (.record PayloadSpec.fieldNames [])),
    ("timings", .record Timings.fieldNames []), ("topology", TopologyConfig.extent),
    ("storage_cli", StorageConfig.extent), ("endpoints", .record EndpointConfig.fieldNames [])]

/-- The plan a document holds, with its paths as they are given there. -/
def read (p : Yaml.Place) : Option SweepPlan := do
  let r := Yaml.reader
  let fs ← r.fields? fieldNames p
  return {
    family := ← Reader.field fs "family" none (TrialFamily.read r)
    target := ← Reader.field fs "target" (some 10) (r.nat? wordBound)
    ledger := ← Reader.field fs "ledger" (some "results.json") r.text?
    maxPasses := ← Reader.field fs "max_passes" (some none) (r.option (r.nat? wordBound))
    defaults := ← Reader.field fs "defaults" (some .standard) (TrialParameters.read r)
    grid := ← Reader.field fs "grid" (some []) (r.list (Axis.read r))
    payloads := ← Reader.field fs "payloads" (some .empty) (readPayloads r)
    timings := ← Reader.field fs "timings" (some .standard) (Timings.read r)
    topology := ← Reader.field fs "topology" (some .standard) (TopologyConfig.read r)
    storage := ← Reader.field fs "storage_cli" (some .standard) StorageConfig.read
    endpoints := ← Reader.field fs "endpoints" (some .standard) (EndpointConfig.read r)
    baseDir := "" }

def toJson (p : SweepPlan) : Json :=
  .obj [("family", p.family.toJson), ("target", .nat p.target), ("ledger", .str p.ledger),
    ("max_passes", .ofOption .nat p.maxPasses), ("defaults", p.defaults.toJson),
    ("grid", .arr (p.grid.map Axis.toJson)), ("payloads", Json.ofMap PayloadSpec.toJson p.payloads),
    ("timings", p.timings.toJson), ("topology", p.topology.toJson),
    ("storage_cli", p.storage.toJson), ("endpoints", p.endpoints.toJson)]

/-- The plan as seen from a directory: relative paths start there. -/
def rebase (p : SweepPlan) (dir : String) : SweepPlan :=
  { p with
    baseDir := dir
    ledger := Path.join dir p.ledger
    payloads := p.payloads.mapValues fun s => { s with path := Path.join dir s.path } }

/-! ### Cells -/

/-- A cell so far, continued along an axis. -/
def extend (defaults : TrialParameters) (a : Axis) (entries : List Entry) :
    Except WrongKind (List (List Entry)) :=
  match defaults.overlay entries with
  | .error e => .error e
  | .ok p => .ok ((a.valuesFor p.nodeCount).map fun v => entries ++ [(a.dimension, v)])

def extendAll (defaults : TrialParameters) (a : Axis) :
    List (List Entry) → Except WrongKind (List (List Entry))
  | [] => .ok []
  | es :: rest =>
    match extend defaults a es with
    | .error e => .error e
    | .ok cells => match extendAll defaults a rest with
      | .error e => .error e
      | .ok more => .ok (cells ++ more)

def expand (defaults : TrialParameters) :
    List Axis → List (List Entry) → Except WrongKind (List (List Entry))
  | [], cells => .ok cells
  | a :: as, cells =>
    match extendAll defaults a cells with
    | .error e => .error e
    | .ok cells => expand defaults as cells

/-- The cells of the grid, in order. -/
def keys (p : SweepPlan) : Except WrongKind (List ConfigurationKey) :=
  match expand p.defaults p.grid [[]] with
  | .error e => .error e
  | .ok cells => .ok (cells.map (⟨·⟩))

def parametersFor (p : SweepPlan) (k : ConfigurationKey) : Except WrongKind TrialParameters :=
  p.defaults.resolve k

def payloadFor (p : SweepPlan) (params : TrialParameters) : Option PayloadSpec :=
  p.payloads.get? params.payloadSize

def settings (p : SweepPlan) : TrialSettings :=
  ⟨p.family, p.timings, p.storage.erasure, p.topology.naming⟩

end SweepPlan

end FaultSweep
