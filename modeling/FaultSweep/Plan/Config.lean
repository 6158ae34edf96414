import FaultSweep.Gateway.Client
import FaultSweep.Trial.Settings
import FaultSweep.Yaml.Extent

/-!
# Parts of a plan

The commands and names of a topology, the storage command with its erasure parameters, and the
addresses of the services.
-/

namespace FaultSweep

structure TopologyConfig where
  /-- Without words there is no rendering. -/
  renderCommand : List String
  composeCommand : List String
  dockerCommand : List String
  naming : NodeNaming
  deriving DecidableEq

namespace TopologyConfig

def standard : TopologyConfig := ⟨[], ["docker-compose"], ["docker"], .standard⟩

def toJson (t : TopologyConfig) : Json :=
  .obj [("render_command", .ofStrings t.renderCommand),
    ("compose_command", .ofStrings t.composeCommand),
    ("docker_command", .ofStrings t.dockerCommand), ("naming", t.naming.toJson)]

def fieldNames : List String := ["render_command", "compose_command", "docker_command", "naming"]

def extent : Yaml.Extent :=
  .record fieldNames [("render_command", .items .leaf), ("compose_command", .items .leaf),
    ("docker_command", .items .leaf), ("naming", .record NodeNaming.fieldNames [])]

def read {ν : Type} (r : Reader ν) (n : ν) : Option TopologyConfig := do
  let fs ← r.fields? fieldNames n
  let words (name : String) (absent : List String) :=
    Reader.field fs name (some absent) (r.list r.text?)
  return ⟨← words "render_command" standard.renderCommand,
    ← words "compose_command" standard.composeCommand,
    ← words "docker_command" standard.dockerCommand,
    ← Reader.field fs "naming" (some standard.naming) (NodeNaming.read r)⟩

end TopologyConfig

structure StorageConfig where
  command : List String
  erasure : ErasureParams
  deriving DecidableEq

namespace StorageConfig

def standard : StorageConfig := ⟨["go", "run", "../main.go"], .standard⟩

/-- The erasure parameters stand beside the command. -/
def toJson (c : StorageConfig) : Json :=
  .obj (("command", .ofStrings c.command) :: c.erasure.fields)

/-- Fields that are kept for later are looked at as a whole, and those that nobody takes up are kept
too. -/
def extent : Yaml.Extent := .fields [("command", .items .leaf)] .whole

def read (p : Yaml.Place) : Option StorageConfig := do
  let r := Yaml.reader
  let fs ← p.keptFields? ["command", "alpha", "s", "p"]
  let count (name : String) (absent : Nat) :=
    Reader.field fs name (some absent) (Yaml.Place.keptNat? countBound)
  return ⟨← Reader.field fs "command" (some standard.command) (r.list r.text?),
    ← count "alpha" standard.erasure.alpha, ← count "s" standard.erasure.s,
    ← count "p" standard.erasure.p⟩

end StorageConfig

structure EndpointConfig where
  control : String
  repair : String
  cluster : String
  downloadAddress : String
  timeoutSecs : Nat
  deriving DecidableEq

namespace EndpointConfig

def standard : EndpointConfig :=
  ⟨"http://localhost:3000", "http://localhost:7071", "http://localhost:9095", "localhost:7071", 10⟩

/-- An address without the slashes at its end. -/
def trimmed (s : String) : String :=
  String.ofList (s.toList.reverse.dropWhile (· = '/')).reverse

def endpoints (c : EndpointConfig) : Endpoints :=
  ⟨trimmed c.control, trimmed c.repair, trimmed c.cluster, c.timeoutSecs⟩

def toJson (c : EndpointConfig) : Json :=
  .obj [("control_api", .str c.control), ("repair_api", .str c.repair),
    ("cluster_api", .str c.cluster), ("download_address", .str c.downloadAddress),
    ("request_timeout_secs", .nat c.timeoutSecs)]

def fieldNames : List String :=
  ["control_api", "repair_api", "cluster_api", "download_address", "request_timeout_secs"]

def read {ν : Type} (r : Reader ν) (n : ν) : Option EndpointConfig := do
  let fs ← r.fields? fieldNames n
  let address (name : String) (absent : String) := Reader.field fs name (some absent) r.text?
  return ⟨← address "control_api" standard.control, ← address "repair_api" standard.repair,
    ← address "cluster_api" standard.cluster,
    ← address "download_address" standard.downloadAddress,
    ← Reader.field fs "request_timeout_secs" (some standard.timeoutSecs) (r.nat? wordBound)⟩

end EndpointConfig

end FaultSweep
