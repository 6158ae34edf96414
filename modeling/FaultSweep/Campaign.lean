import FaultSweep.Gateway.Client
import FaultSweep.Plan.Load
import FaultSweep.Sweep
import FaultSweep.Topology.Compose
import FaultSweep.Trial.Run

/-!
# Campaigns

What can be done with a plan file: run its sweep, show how far its ledger is, take its topology
down, and download one of its payloads. Whatever is wrong with the plan or the ledger is found
before anything is started.
-/

namespace FaultSweep

structure SweepResult where
  family : TrialFamily
  ledger : String
  cells : Nat
  target : Nat
  summary : SweepSummary

def SweepResult.toJson (r : SweepResult) : Json :=
  .obj [("family", r.family.toJson), ("ledger", .str r.ledger), ("cells", .nat r.cells),
    ("target", .nat r.target), ("summary", r.summary.toJson)]

structure CellStatus where
  key : String
  completed : Nat
  remaining : Nat

def CellStatus.toJson (c : CellStatus) : Json :=
  .obj [("key", .str c.key), ("completed", .nat c.completed), ("remaining", .nat c.remaining)]

structure SweepStatus where
  family : TrialFamily
  ledger : String
  target : Nat
  cells : List CellStatus
  outstanding : Nat

def SweepStatus.toJson (s : SweepStatus) : Json :=
  .obj [("family", s.family.toJson), ("ledger", .str s.ledger), ("target", .nat s.target),
    ("cells", .arr (s.cells.map CellStatus.toJson)), ("outstanding", .nat s.outstanding)]

/-- Which payload to download, how deep, and from where; the plan says what is left open. -/
structure DownloadRequest where
  payloadSize : Option String
  depth : Option Nat
  address : Option String

structure Downloaded where
  payloadSize : String
  fileCid : String
  metaCid : String
  depth : Nat
  address : String

def Downloaded.toJson (d : Downloaded) : Json :=
  .obj [("payload_size", .str d.payloadSize), ("file_cid", .str d.fileCid),
    ("meta_cid", .str d.metaCid), ("depth", .nat d.depth), ("address", .str d.address)]

namespace Campaign

variable {σ : Type}

/-- A command of a plan, which runs in the directory of the plan. -/
def line (p : SweepPlan) (argv : List String) : CommandLine := ⟨argv, some p.baseDir⟩

def topology (p : SweepPlan) : ComposeTopology where
  renderer := if p.topology.renderCommand = [] then none else some (line p p.topology.renderCommand)
  compose := line p p.topology.composeCommand
  docker := line p p.topology.dockerCommand
  warmup := seconds p.timings.warmup

def client (p : SweepPlan) : StorageClient :=
  ⟨line p p.storage.command, p.baseDir, p.endpoints.endpoints⟩

def environment (m : Machine σ) (p : SweepPlan) : Environment (World σ) :=
  (topology p).environment m

def bench (m : Machine σ) (p : SweepPlan) : Bench (World σ) where
  environment := environment m p
  gateway := (client p).gateway m
  clock := World.clockOf
  stamp w := Instant.afterEpoch w.clock.elapsed

/-- The ledger file of a plan. -/
def backend (p : SweepPlan) : Backend (World σ) :=
  (Disk.backend p.ledger).within (·.disk) fun d w => { w with disk := d }

/-- A cell with what its trials need. -/
structure Cell where
  key : ConfigurationKey
  params : TrialParameters
  payload : PayloadSpec

/-- What the trials of each key need, in the order of the keys. -/
abbrev Needs := SortedMap (TrialParameters × PayloadSpec) ConfigurationKey

def needsOf (p : SweepPlan) (k : ConfigurationKey) :
    Except Cause (TrialParameters × PayloadSpec) :=
  match p.parametersFor k with
  | .error e => .error (.wrongKind e)
  | .ok params => match p.payloadFor params with
    | none => .error (.noPayload params.payloadSize)
    | some payload => .ok (params, payload)

/-- Enters what keys need, each under its key. A key that comes again is entered again. -/
def enter (p : SweepPlan) : List ConfigurationKey → Needs → Except Cause Needs
  | [], needs => .ok needs
  | k :: ks, needs =>
    match needsOf p k with
    | .error e => .error e
    | .ok found => enter p ks (needs.insert k found)

/-- The cell of a key, with what is entered for it. -/
def Needs.cell? (needs : Needs) (k : ConfigurationKey) : Option Cell :=
  (needs.get? k).map fun found => ⟨k, found.1, found.2⟩

/-- The cells of a plan, which are looked up key by key after all of them have been entered. -/
def cells (p : SweepPlan) : Except Cause (List Cell) :=
  match p.keys with
  | .error e => .error (.wrongKind e)
  | .ok ks => match enter p ks .empty with
    | .error e => .error e
    | .ok needs => .ok (ks.filterMap needs.cell?)

/-- All that is looked at before a sweep starts: the plan, its cells and its ledger. -/
def prepare (path : String) (o : SweepOverrides) (w : World σ) :
    Except Fatal (SweepPlan × List Cell × Ledger) :=
  match SweepPlan.loadWith w.disk path o with
  | .error e => .error e
  | .ok p => match cells p with
    | .error e => .error (.of e)
    | .ok cs => match Ledger.load (backend p) w with
      | .error e => .error e
      | .ok l => .ok (p, cs, l)

def sweepOf (p : SweepPlan) (cs : List Cell) : Sweep Cell := ⟨cs, Cell.key, p.target, p.maxPasses⟩

/-- The trials of a plan. Their waits need no more probes than their timings ask for, since the
clock of a world moves with every sleep. -/
def trialOf (m : Machine σ) (p : SweepPlan) : Trial Cell (World σ) :=
  fun c => Trial.run p.timings.maxProbes (bench m p) p.settings c.params c.payload

/-- Why a campaign does not return. -/
inductive Stop where
  /-- What is outstanding is no word, at which the program stops. -/
  | overflow
  /-- The passes that are looked at do not suffice, or a trial does not end. -/
  | unfinished

/-- Runs the sweep of a plan, after taking down what an earlier run may have left. If the plan
allows any number of passes, `fuel` of them are looked at. -/
def run (m : Machine σ) (fuel : Nat) (path : String) (o : SweepOverrides) (w : World σ) :
    Except Stop (Except Fatal SweepResult) × World σ :=
  match prepare path o w with
  | .error e => (.ok (.error e), w)
  | .ok (p, cs, l) =>
    match (sweepOf p cs).run (p.maxPasses.getD fuel) (backend p) (trialOf m p) l
        ((environment m p).teardown w) with
    | (some .unfinished, last) => (.error .unfinished, last.world)
    | (some .overflow, last) => (.error .overflow, last.world)
    | (some (.failed e), last) => (.ok (.error e), last.world)
    | (none, last) =>
      (.ok (.ok ⟨p.family, p.ledger, cs.length, p.target, last.summary⟩), last.world)

def cellStatus (p : SweepPlan) (l : Ledger) (k : ConfigurationKey) : CellStatus :=
  ⟨k.ledgerKey, l.completed k, l.remaining k p.target⟩

/-- How far the ledger of a plan is. -/
def status (path : String) (o : SweepOverrides) (w : World σ) :
    Except Stop (Except Fatal SweepStatus) :=
  match SweepPlan.loadWith w.disk path o with
  | .error e => .ok (.error e)
  | .ok p => match Ledger.load (backend p) w with
    | .error e => .ok (.error e)
    | .ok l => match p.keys with
      | .error e => .ok (.error (.of (.wrongKind e)))
      | .ok ks =>
        let shown := ks.map (cellStatus p l)
        let outstanding := total (shown.map CellStatus.remaining)
        if wordBound ≤ outstanding then .error .overflow
        else .ok (.ok ⟨p.family, p.ledger, p.target, shown, outstanding⟩)

/-- Takes the topology of a plan down. -/
def teardown (m : Machine σ) (path : String) (w : World σ) : Except Fatal Unit × World σ :=
  match SweepPlan.load w.disk path with
  | .error e => (.error e, w)
  | .ok p => (.ok (), (environment m p).teardown w)

/-- Downloads a payload of a plan. -/
def download (m : Machine σ) (path : String) (r : DownloadRequest) (w : World σ) :
    Except Fatal Downloaded × World σ :=
  match SweepPlan.load w.disk path with
  | .error e => (.error e, w)
  | .ok p =>
    let size := r.payloadSize.getD p.defaults.payloadSize
    match p.payloads.get? size with
    | none => (.error (.of (.noPayload size)), w)
    | some payload =>
      let depth := r.depth.getD p.defaults.repairDepth
      let address := r.address.getD p.endpoints.downloadAddress
      match (client p).download m payload.fileCid payload.metaCid depth address w with
      | (.error e, w) =>
        (.error ((Fatal.of (.command e)).within ("downloading " ++ payload.fileCid)), w)
      | (.ok (), w) => (.ok ⟨size, payload.fileCid, payload.metaCid, depth, address⟩, w)

end Campaign

end FaultSweep
