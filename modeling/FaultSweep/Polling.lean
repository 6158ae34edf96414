import FaultSweep.Clock
import FaultSweep.Error

/-!
# Polling

A condition is probed at once and then again after each interval, until it holds or the budget of
time is spent. The last sleep is cut to what is left of the budget, so that the last probe falls on
the deadline. A probe that fails counts as one that says no.
-/

namespace FaultSweep

structure PollSpec where
  interval : Nat
  timeout : Nat
  deriving DecidableEq

/-- The most probes that a wait can make on a clock that moves with every sleep: one at the start,
and one after each interval, the last of which may be cut short. -/
def PollSpec.maxProbes (s : PollSpec) : Nat := (s.timeout + (s.interval - 1)) / s.interval + 1

/-- How a wait ends. Probes are counted in 32 bits. -/
inductive PollOutcome where
  | satisfied (probes : UInt32) (waited : Nat)
  | timedOut (probes : UInt32) (waited : Nat)
  deriving DecidableEq

namespace PollOutcome

def isSatisfied : PollOutcome → Bool
  | satisfied .. => true
  | timedOut .. => false

def probes : PollOutcome → Nat
  | satisfied n _ => n.toNat
  | timedOut n _ => n.toNat

def waited : PollOutcome → Nat
  | satisfied _ t => t
  | timedOut _ t => t

end PollOutcome

/-- A probe that reports whether a condition holds. -/
abbrev Probe (W : Type) := W → Except ProbeError Bool × W

def Probe.holds : Except ProbeError Bool → Bool
  | .ok b => b
  | .error _ => false

/-- Polls from the instant `start`, after `probes` probes, with at most `fuel` probes more. -/
def pollFrom {W : Type} (clock : Clock W) (spec : PollSpec) (probe : Probe W) (start : Nat) :
    Nat → UInt32 → W → Option PollOutcome × W
  | 0, _, w => (none, w)
  | fuel + 1, probes, w =>
    let (reply, w) := probe w
    let waited := clock.now w - start
    if Probe.holds reply then (some (.satisfied (probes + 1) waited), w)
    else if spec.timeout ≤ waited then (some (.timedOut (probes + 1) waited), w)
    else
      pollFrom clock spec probe start fuel (probes + 1)
        (clock.sleep (min spec.interval (spec.timeout - waited)) w)

/-- Polls with at most `fuel` probes; no outcome if they do not suffice. -/
def awaitCondition {W : Type} (fuel : Nat) (clock : Clock W) (spec : PollSpec) (probe : Probe W)
    (w : W) : Option PollOutcome × W :=
  pollFrom clock spec probe (clock.now w) fuel 0 w

end FaultSweep
