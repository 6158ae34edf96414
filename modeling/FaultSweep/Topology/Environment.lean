import FaultSweep.Error
import FaultSweep.Faults

/-!
# Environments

What a trial asks of the topology it runs on: bring it up, stop containers, take it down. Fault
injection stops the containers of one node after the other and ends at the first failure.
-/

namespace FaultSweep

structure TopologySpec where
  params : TrialParameters
  community : Bool
  deriving DecidableEq

structure Environment (W : Type) where
  provision : TopologySpec → W → Except Fatal Unit × W
  /-- Takes down whatever is up, also after a bring-up that failed half way. -/
  teardown : W → W
  stopContainers : List String → W → Except CommandError Unit × W

namespace Environment

variable {W : Type}

/-- Brings a topology up; one that does not come up is taken down at once. -/
def acquire (env : Environment W) (spec : TopologySpec) (w : W) : Except Fatal Unit × W :=
  match env.provision spec w with
  | (.error e, w) => (.error e, env.teardown w)
  | (.ok (), w) => (.ok (), w)

/-- Stops the containers of the given nodes in order. -/
def stopNodes (env : Environment W) (naming : NodeNaming) (mode : FaultMode) :
    List Nat → W → Except CommandError Unit × W
  | [], w => (.ok (), w)
  | i :: is, w =>
    match env.stopContainers (naming.containersFor i mode) w with
    | (.error e, w) => (.error e, w)
    | (.ok (), w) => stopNodes env naming mode is w

/-- Injects a number of faults; the nodes that were disabled. -/
def injectFaults (env : Environment W) (naming : NodeNaming) (count : Nat) (mode : FaultMode)
    (w : W) : Except CommandError (List Nat) × W :=
  match env.stopNodes naming mode (faultTargets count) w with
  | (.error e, w) => (.error e, w)
  | (.ok (), w) => (.ok (faultTargets count), w)

end Environment

end FaultSweep
