import FaultSweep.Gateway.Operations
import FaultSweep.Ledger.Record
import FaultSweep.Topology.Environment
import FaultSweep.Trial.Settings

/-!
# Trials

A trial brings a topology up, uploads a payload, injects the faults and measures what is left. Each
step that succeeds takes the trial to a further phase; the first that fails ends it, and the record
says how far it came. A topology that was brought up is taken down whatever happened.
-/

namespace FaultSweep

/-- What a trial runs on, as parts of one world. -/
structure Bench (W : Type) where
  environment : Environment W
  gateway : Gateway W
  clock : Clock W
  /-- The time of day. -/
  stamp : W → Instant

/-- The conditions a trial waits for. -/
inductive Wait where
  | pins
  | peers
  | repair
  deriving DecidableEq

def Wait.name : Wait → String
  | pins => "pin convergence"
  | peers => "peer discovery convergence"
  | repair => "repair completion"

/-- Why a trial went no further. -/
inductive Interruption where
  | timedOut (wait : Wait)
  | provision (e : Fatal)
  | upload (e : CommandError)
  | faults (e : CommandError)
  | count (e : CommandError)
  | download (e : CommandError)
  | metrics (e : ProbeError)
  /-- The fuel did not suffice for a wait. -/
  | unfinished
  deriving DecidableEq

namespace Interruption

def status : Interruption → TrialStatus
  | timedOut _ => .timedOut
  | _ => .failed

def detail : Interruption → String
  | timedOut wait => "timed out waiting for " ++ wait.name
  | provision e => "provision: " ++ e.line
  | upload e => "upload: " ++ e.message
  | faults e => "fault injection: " ++ e.message
  | count e => "download count: " ++ e.message
  | download e => "download: " ++ e.message
  | metrics e => "fetching repair metrics: " ++ e.message
  | unfinished => "no end in sight"

end Interruption

/-- A step of a trial. -/
abbrev Step (W α : Type) := W → Except Interruption α × W

/-- A trial on its way: the phase it has reached, and what its last step gave. -/
structure Leg (W α : Type) where
  phase : TrialPhase
  result : Except Interruption α
  world : W

namespace Leg

variable {W α β : Type}

/-- Goes on with a step, unless an earlier one failed; a step that succeeds reaches a phase. -/
def reach (l : Leg W α) (phase : TrialPhase) (step : Step W β) : Leg W β :=
  match l.result with
  | .error i => ⟨l.phase, .error i, l.world⟩
  | .ok _ => match step l.world with
    | (.error i, w) => ⟨l.phase, .error i, w⟩
    | (.ok b, w) => ⟨phase, .ok b, w⟩

/-- Goes on with a step that is no milestone. -/
def stay (l : Leg W α) (step : Step W β) : Leg W β := l.reach l.phase step

end Leg

namespace Trial

variable {W : Type}

/-- A step whose error is one of another kind. -/
def orElse {ε α : Type} (cause : ε → Interruption) (act : W → Except ε α × W) : Step W α :=
  fun w => match act w with
    | (.error e, w) => (.error (cause e), w)
    | (.ok a, w) => (.ok a, w)

/-- Waits until a probe holds. -/
def await (fuel : Nat) (clock : Clock W) (wait : Wait) (spec : PollSpec) (probe : Probe W) :
    Step W Unit :=
  fun w => match awaitCondition fuel clock spec probe w with
    | (some (.satisfied ..), w) => (.ok (), w)
    | (some (.timedOut ..), w) => (.error (.timedOut wait), w)
    | (none, w) => (.error .unfinished, w)

def sleep (clock : Clock W) (secs : Nat) : Step W Unit :=
  fun w => (.ok (), clock.sleep (seconds secs) w)

/-- Replicated payloads go to a number of nodes, all others to every node of the topology, so that
the wait for pins covers the whole cluster. -/
def uploadMode (s : TrialSettings) (p : TrialParameters) : UploadMode :=
  match s.family with
  | .replication => .direct p.replicationFactor
  | _ => .erasure s.erasure.alpha s.erasure.s s.erasure.p p.nodeCount

/-- Asks whether as many peers are active as survive the faults. -/
def peersProbe (g : Gateway W) (expected : Nat) : Probe W :=
  fun w => match g.countActivePeers w with
    | (.error e, w) => (.error e, w)
    | (.ok n, w) => (.ok (n = expected), w)

/-- A count below the number of blocks falls short. -/
def countStatus (payload : PayloadSpec) : Recovery → TrialStatus
  | .count n => match payload.totalBlocks with
    | some total => if n < total then .shortfall else .success
    | none => .success
  | .metrics _ => .success

def countBlocks (g : Gateway W) (payload : PayloadSpec) (description : Option String)
    (depth : Nat) : Step W (TrialStatus × Json) :=
  fun w => match g.downloadCount payload.fileCid description depth false w with
    | (.error e, w) => (.error (.count e), w)
    | (.ok r, w) => (.ok (countStatus payload r, r.toJson), w)

def measureDownload (g : Gateway W) (payload : PayloadSpec) (depth : Nat) :
    Step W (TrialStatus × Json) :=
  fun w => match g.downloadCount payload.fileCid (some payload.metaCid) depth true w with
    | (.error e, w) => (.error (.download e), w)
    | (.ok r, w) => (.ok (.success, r.toJson), w)

def repairRequest (p : TrialParameters) (payload : PayloadSpec) : RepairRequest :=
  ⟨payload.fileCid, payload.metaCid, p.repairDepth, "", p.repairPeers⟩

/-- Asks for a repair. Whether the request was acknowledged does not matter: the repair may go on
without. -/
def trigger (g : Gateway W) (request : RepairRequest) : Step W Unit :=
  fun w => (.ok (), (g.triggerRepair request w).2)

def readMetrics (g : Gateway W) : Step W (TrialStatus × Json) :=
  fun w => match g.fetchMetrics w with
    | (.error e, w) => (.error (.metrics e), w)
    | (.ok v, w) => (.ok (.success, v), w)

/-- The last leg: what the family measures. -/
def measure (fuel : Nat) (b : Bench W) (s : TrialSettings) (p : TrialParameters)
    (payload : PayloadSpec) (l : Leg W Unit) : Leg W (TrialStatus × Json) :=
  match s.family with
  | .reliability =>
    l.reach .completed (countBlocks b.gateway payload (some payload.metaCid) p.repairDepth)
  | .replication => l.reach .completed (countBlocks b.gateway payload none 1)
  | .singleRepair => l.reach .completed (measureDownload b.gateway payload p.repairDepth)
  | .collabRepair =>
    ((l.reach .operationTriggered (trigger b.gateway (repairRequest p payload))).stay
      (await fuel b.clock .repair (s.timings.poll s.timings.repairTimeout)
        b.gateway.repairDone)).reach .completed (readMetrics b.gateway)

/-- Waits for pins, if the family does, and then for the cluster to settle. -/
def settle (fuel : Nat) (b : Bench W) (s : TrialSettings) (payload : PayloadSpec)
    (l : Leg W Unit) : Leg W Unit :=
  let pinned := if s.family.waitsForPin then
      l.reach .pinConverged (await fuel b.clock .pins (s.timings.poll s.timings.pinTimeout)
        (b.gateway.pinStatus payload.metaCid))
    else l
  pinned.stay (sleep b.clock s.timings.settle)

/-- Injects the faults and waits, if the family does, until the peers have noticed. -/
def disturb (fuel : Nat) (b : Bench W) (s : TrialSettings) (p : TrialParameters)
    (l : Leg W Unit) : Leg W Unit :=
  let faulted := l.reach .faulted (orElse .faults fun w =>
    match b.environment.injectFaults s.naming p.faultCount s.family.faultMode w with
    | (.error e, w) => (.error e, w)
    | (.ok _, w) => (.ok (), w))
  if s.family.waitsForDiscovery then
    faulted.reach .peersConverged
      (await fuel b.clock .peers (s.timings.poll s.timings.discoveryTimeout)
        (peersProbe b.gateway p.survivors))
  else faulted

/-- All that happens while the topology is up. -/
def drive (fuel : Nat) (b : Bench W) (s : TrialSettings) (p : TrialParameters)
    (payload : PayloadSpec) (w : W) : Leg W (TrialStatus × Json) :=
  let uploaded := (Leg.mk .provisioned (.ok ()) w).reach .uploaded
    (orElse .upload (b.gateway.upload payload.path (uploadMode s p)))
  measure fuel b s p payload (disturb fuel b s p (settle fuel b s payload uploaded))

/-- The whole of a trial, with the topology brought up before and taken down after. -/
def perform (fuel : Nat) (b : Bench W) (s : TrialSettings) (p : TrialParameters)
    (payload : PayloadSpec) (w : W) : Leg W (TrialStatus × Json) :=
  match b.environment.acquire ⟨p, s.family.community⟩ w with
  | (.error e, w) => ⟨.idle, .error (.provision e), w⟩
  | (.ok (), w) =>
    let l := drive fuel b s p payload w
    { l with world := b.environment.teardown l.world }

/-- The record of a trial that is over; none if it did not end. -/
def record? (startedAt finishedAt : Instant) (l : Leg W (TrialStatus × Json)) :
    Option TrialRecord :=
  match l.result with
  | .ok (status, metrics) => some ⟨status, startedAt, finishedAt, l.phase, metrics, none⟩
  | .error .unfinished => none
  | .error i => some ⟨i.status, startedAt, finishedAt, l.phase, .null, some i.detail⟩

/-- Runs one trial, with at most `fuel` probes for each wait. -/
def run (fuel : Nat) (b : Bench W) (s : TrialSettings) (p : TrialParameters)
    (payload : PayloadSpec) (w : W) : Option TrialRecord × W :=
  let l := perform fuel b s p payload w
  (record? (b.stamp w) (b.stamp l.world) l, l.world)

end Trial

end FaultSweep
