import FaultSweep.Topology.Template
import FaultSweep.World

/-!
# Compose topologies

A topology that is described by a rendering command and brought up by a compose command. Taking it
down tries three commands and passes over those that fail.
-/

namespace FaultSweep

structure ComposeTopology where
  renderer : Option CommandLine
  compose : CommandLine
  docker : CommandLine
  warmup : Nat

namespace ComposeTopology

variable {σ : Type}

def discardOutput {ε α : Type} : Except ε α × World σ → Except ε Unit × World σ
  | (.error e, w) => (.error e, w)
  | (.ok _, w) => (.ok (), w)

def render (m : Machine σ) (t : ComposeTopology) (spec : TopologySpec) (w : World σ) :
    Except CommandError Unit × World σ :=
  match t.renderer with
  | none => (.ok (), w)
  | some line => discardOutput (w.runChecked m (Template.render line.argv spec) line.workDir)

def fatal (context : String) (e : CommandError) : Fatal := (Fatal.of (.command e)).within context

def provision (m : Machine σ) (t : ComposeTopology) (spec : TopologySpec) (w : World σ) :
    Except Fatal Unit × World σ :=
  match t.render m spec w with
  | (.error e, w) => (.error (fatal "rendering topology description" e), w)
  | (.ok (), w) => match w.run m t.compose ["up", "-d"] with
    | (.error e, w) => (.error (fatal "starting topology" e), w)
    | (.ok _, w) => (.ok (), World.clockOf.sleep t.warmup w)

/-- The command lines that take a topology down. -/
def teardownLines (t : ComposeTopology) : List (CommandLine × List String) :=
  [(t.compose, ["down"]), (t.docker, ["volume", "prune", "-f"]), (t.compose, ["rm", "-f"])]

def teardown (m : Machine σ) (t : ComposeTopology) (w : World σ) : World σ :=
  t.teardownLines.foldl (fun w l => (w.run m l.1 l.2).2) w

def stopContainers (m : Machine σ) (t : ComposeTopology) (names : List String) (w : World σ) :
    Except CommandError Unit × World σ :=
  if names = [] then (.ok (), w) else discardOutput (w.run m t.docker ("kill" :: names))

def environment (m : Machine σ) (t : ComposeTopology) : Environment (World σ) where
  provision := t.provision m
  teardown := t.teardown m
  stopContainers := t.stopContainers m

end ComposeTopology

end FaultSweep
