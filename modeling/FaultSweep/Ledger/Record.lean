import FaultSweep.Json.Reader
import FaultSweep.Time.Text

/-!
# Trial records

What a trial leaves: how it ended, when it began and ended, the last milestone it reached, and what
it measured. Only a trial that ended in a measurement is kept in a ledger.
-/

namespace FaultSweep

inductive TrialStatus where
  | success
  /-- A measurement that found fewer blocks than there are. -/
  | shortfall
  | failed
  | timedOut
  deriving DecidableEq

namespace TrialStatus

def name : TrialStatus → String
  | success => "success"
  | shortfall => "partial"
  | failed => "failed"
  | timedOut => "timed_out"

def all : List TrialStatus := [success, shortfall, failed, timedOut]

/-- Whether a trial with this status is kept. -/
def isRecordable : TrialStatus → Bool
  | success => true
  | shortfall => true
  | failed => false
  | timedOut => false

def toJson (s : TrialStatus) : Json := .str s.name

def read {ν : Type} (r : Reader ν) : ν → Option TrialStatus :=
  r.enum (all.map fun s => (s.name, s))

end TrialStatus

/-- The milestones of a trial. -/
inductive TrialPhase where
  | idle
  | provisioned
  | uploaded
  | pinConverged
  | faulted
  | peersConverged
  | operationTriggered
  | completed
  deriving DecidableEq

namespace TrialPhase

def name : TrialPhase → String
  | idle => "idle"
  | provisioned => "provisioned"
  | uploaded => "uploaded"
  | pinConverged => "pin_converged"
  | faulted => "faulted"
  | peersConverged => "peers_converged"
  | operationTriggered => "operation_triggered"
  | completed => "completed"

def all : List TrialPhase :=
  [idle, provisioned, uploaded, pinConverged, faulted, peersConverged, operationTriggered,
    completed]

def toJson (p : TrialPhase) : Json := .str p.name

def read {ν : Type} (r : Reader ν) : ν → Option TrialPhase :=
  r.enum (all.map fun p => (p.name, p))

end TrialPhase

structure TrialRecord where
  status : TrialStatus
  startedAt : Instant
  finishedAt : Instant
  phase : TrialPhase
  metrics : Json
  detail : Option String

namespace TrialRecord

/-- The fields in the order they are written; no detail, no field. -/
def fields (r : TrialRecord) : List (String × Json) :=
  [("status", r.status.toJson), ("started_at", .str r.startedAt.text),
    ("finished_at", .str r.finishedAt.text), ("phase", r.phase.toJson), ("metrics", r.metrics)] ++
    (match r.detail with
    | some d => [("detail", .str d)]
    | none => [])

def toJson (r : TrialRecord) : Json := .obj r.fields

def readInstant {ν : Type} (r : Reader ν) (n : ν) : Option Instant :=
  (r.text? n).bind Instant.ofText?

def read (n : Json.Node) : Option TrialRecord := do
  let r := Json.reader
  let fs ← r.fields? ["status", "started_at", "finished_at", "phase", "metrics", "detail"] n
  return ⟨← Reader.field fs "status" none (TrialStatus.read r),
    ← Reader.field fs "started_at" none (readInstant r),
    ← Reader.field fs "finished_at" none (readInstant r),
    ← Reader.field fs "phase" none (TrialPhase.read r),
    ← Reader.field fs "metrics" none fun m => Json.Document.value? m.levels m.document,
    ← Reader.field fs "detail" (some none) (r.option r.text?)⟩

end TrialRecord

end FaultSweep
