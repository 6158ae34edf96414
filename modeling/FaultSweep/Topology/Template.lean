import FaultSweep.Text.Substitution
import FaultSweep.Topology.Environment

/-!
# Command templates

The arguments of the command that renders a topology hold placeholders in braces. They are replaced
one after the other, each in the result of those before it.
-/

namespace FaultSweep.Template

/-- A placeholder in its braces. -/
def token (name : String) : List Char := '\x7b' :: (name.toList ++ ['\x7d'])

def boolText (b : Bool) : String := if b then "true" else "false"

/-- The placeholders and their values, in the order of replacement. -/
def substitutions (spec : TopologySpec) : List (List Char × List Char) :=
  let p := spec.params
  [(token "nodes", Decimal.digits p.nodeCount), (token "faults", Decimal.digits p.faultCount),
    (token "depth", Decimal.digits p.repairDepth),
    (token "repair_peers", Decimal.digits p.repairPeers),
    (token "replication", Decimal.digits p.replicationFactor),
    (token "payload", p.payloadSize.toList), (token "community", (boolText spec.community).toList)]

def renderChars (subs : List (List Char × List Char)) (cs : List Char) : List Char :=
  subs.foldl (fun acc s => Text.replace s.1 s.2 acc) cs

def render (argv : List String) (spec : TopologySpec) : List String :=
  argv.map fun a => String.ofList (renderChars (substitutions spec) a.toList)

@[simp] theorem length_render (argv : List String) (spec : TopologySpec) :
    (render argv spec).length = argv.length := by simp [render]

end FaultSweep.Template
