import FaultSweep.Rehearsal.Script
import FaultSweep.Trial.Run

/-!
# Stages

A stage is a bench on which every call is noted with the time it was made. Who answers the calls is
a cast, which may answer in any way and take any time to do so.
-/

namespace FaultSweep

/-- The calls a trial makes. -/
inductive Call where
  | provision (spec : TopologySpec)
  | teardown
  | stopContainers (names : List String)
  | upload (path : String) (mode : UploadMode)
  | pinStatus (metaCid : String)
  | downloadCount (file : String) (description : Option String) (depth : Nat) (withMetrics : Bool)
  | triggerRepair (request : RepairRequest)
  | repairDone
  | fetchMetrics
  | countActivePeers
  deriving DecidableEq

/-- An answer and the time it takes. -/
structure Timed (α : Type) where
  cost : Nat
  value : α

/-- Those who answer the calls. -/
structure Cast (τ : Type) where
  provision : TopologySpec → τ → Timed (Except Fatal Unit) × τ
  stopContainers : List String → τ → Timed (Except CommandError Unit) × τ
  upload : String → UploadMode → τ → Timed (Except CommandError Unit) × τ
  pinStatus : String → τ → Timed (Except ProbeError Bool) × τ
  downloadCount : String → Option String → Nat → Bool → τ →
    Timed (Except CommandError Recovery) × τ
  triggerRepair : RepairRequest → τ → Timed (Except ProbeError Unit) × τ
  repairDone : τ → Timed (Except ProbeError Bool) × τ
  fetchMetrics : τ → Timed (Except ProbeError Json) × τ
  countActivePeers : τ → Timed (Except ProbeError Nat) × τ

structure Stage (τ : Type) where
  clock : VirtualClock
  /-- The calls and their times, the latest first. -/
  log : List (Nat × Call)
  cast : τ

namespace Stage

variable {τ α : Type}

def start (cast : τ) : Stage τ := ⟨.start, [], cast⟩

/-- The calls and their times in order. -/
def calls (s : Stage τ) : List (Nat × Call) := s.log.reverse

def note (s : Stage τ) (c : Call) : Stage τ := { s with log := (s.clock.elapsed, c) :: s.log }

/-- Notes a call and lets the time of its answer pass. -/
def ask (c : Call) (answer : τ → Timed α × τ) (s : Stage τ) : α × Stage τ :=
  let (a, cast) := answer s.cast
  (a.value, { s.note c with clock := s.clock.advance a.cost, cast := cast })

def clockOf : Clock (Stage τ) where
  now s := s.clock.elapsed
  sleep d s := { s with clock := s.clock.sleep d }

def environment (cast : Cast τ) : Environment (Stage τ) where
  provision spec := ask (.provision spec) (cast.provision spec)
  teardown s := s.note .teardown
  stopContainers names := ask (.stopContainers names) (cast.stopContainers names)

def gateway (cast : Cast τ) : Gateway (Stage τ) where
  upload path mode := ask (.upload path mode) (cast.upload path mode)
  pinStatus cid := ask (.pinStatus cid) (cast.pinStatus cid)
  downloadCount file description depth withMetrics :=
    ask (.downloadCount file description depth withMetrics)
      (cast.downloadCount file description depth withMetrics)
  triggerRepair request := ask (.triggerRepair request) (cast.triggerRepair request)
  repairDone := ask .repairDone cast.repairDone
  fetchMetrics := ask .fetchMetrics cast.fetchMetrics
  countActivePeers := ask .countActivePeers cast.countActivePeers

def bench (cast : Cast τ) : Bench (Stage τ) where
  environment := environment cast
  gateway := gateway cast
  clock := clockOf
  stamp s := Instant.afterEpoch s.clock.elapsed

end Stage

/-- A cast that follows scripts, one for each kind of call. -/
structure Scripts where
  provision : Script (Timed (Except Fatal Unit))
  stopContainers : Script (Timed (Except CommandError Unit))
  upload : Script (Timed (Except CommandError Unit))
  pinStatus : Script (Timed (Except ProbeError Bool))
  downloadCount : Script (Timed (Except CommandError Recovery))
  triggerRepair : Script (Timed (Except ProbeError Unit))
  repairDone : Script (Timed (Except ProbeError Bool))
  fetchMetrics : Script (Timed (Except ProbeError Json))
  countActivePeers : Script (Timed (Except ProbeError Nat))

namespace Scripts

def cast : Cast Scripts where
  provision _ s := let (a, r) := s.provision.next; (a, { s with provision := r })
  stopContainers _ s := let (a, r) := s.stopContainers.next; (a, { s with stopContainers := r })
  upload _ _ s := let (a, r) := s.upload.next; (a, { s with upload := r })
  pinStatus _ s := let (a, r) := s.pinStatus.next; (a, { s with pinStatus := r })
  downloadCount _ _ _ _ s :=
    let (a, r) := s.downloadCount.next; (a, { s with downloadCount := r })
  triggerRepair _ s := let (a, r) := s.triggerRepair.next; (a, { s with triggerRepair := r })
  repairDone s := let (a, r) := s.repairDone.next; (a, { s with repairDone := r })
  fetchMetrics s := let (a, r) := s.fetchMetrics.next; (a, { s with fetchMetrics := r })
  countActivePeers s :=
    let (a, r) := s.countActivePeers.next; (a, { s with countActivePeers := r })

end Scripts

end FaultSweep
