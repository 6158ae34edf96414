import FaultSweep.Plan.Basic

/-!
# Sound plans

What can be wrong with a plan that has the right form. First the settings and the axes are looked
at, and only if they are sound the cells: each of them needs two nodes, may not lose all nodes but
the first, and needs a payload.
-/

namespace FaultSweep

namespace SweepPlan

inductive Problem where
  | zeroTarget
  | zeroPollInterval
  | noStorageCommand
  | noComposeCommand
  | noDockerCommand
  | repeatedAxis (d : Dimension)
  | axis (d : Dimension) (f : Axis.Fault)
  | grid (e : WrongKind)
  | noCells
  | cell (k : ConfigurationKey) (e : WrongKind)
  | fewNodes (k : ConfigurationKey)
  | manyFaults (k : ConfigurationKey) (faults nodes : Nat)
  | noPayload (size : String)
  deriving DecidableEq

def Problem.message : Problem → String
  | zeroTarget => "target must be at least 1"
  | zeroPollInterval => "timings.poll_interval_secs must be positive"
  | noStorageCommand => "storage_cli.command is empty"
  | noComposeCommand => "topology.compose_command is empty"
  | noDockerCommand => "topology.docker_command is empty"
  | repeatedAxis d => "grid axis " ++ d.name ++ " declared twice"
  | axis d f => f.message d
  | grid e => e.message
  | noCells => "grid expands to no cells"
  | cell k e => k.shown ++ ": " ++ e.message
  | fewNodes k => k.shown ++ ": topology needs at least 2 nodes"
  | manyFaults k faults nodes =>
    k.shown ++ ": " ++ Decimal.text faults ++ " faults would disable node 1 of " ++
      Decimal.text nodes
  | noPayload size => "payloads: no entry for size " ++ size

def settingProblems (p : SweepPlan) : List Problem :=
  (if p.target = 0 then [.zeroTarget] else []) ++
    (if p.timings.pollInterval = 0 then [.zeroPollInterval] else []) ++
    (if p.storage.command = [] then [.noStorageCommand] else []) ++
    (if p.topology.composeCommand = [] then [.noComposeCommand] else []) ++
    (if p.topology.dockerCommand = [] then [.noDockerCommand] else [])

/-- The problems of axes, after axes of the dimensions `seen`. -/
def axisProblems (seen : List Dimension) : List Axis → List Problem
  | [] => []
  | a :: as =>
    (if a.dimension ∈ seen then [.repeatedAxis a.dimension] else []) ++
      a.faults.map (.axis a.dimension) ++ axisProblems (a.dimension :: seen) as

/-- The problems of a cell apart from its payload. -/
def cellProblems (p : SweepPlan) (k : ConfigurationKey) : List Problem :=
  match p.parametersFor k with
  | .error e => [.cell k e]
  | .ok params =>
    if params.nodeCount < 2 then [.fewNodes k]
    else if maxFaults params.nodeCount < params.faultCount then
      [.manyFaults k params.faultCount params.nodeCount]
    else []

/-- The size of a cell's payload if there is none of it. -/
def missingSize? (p : SweepPlan) (k : ConfigurationKey) : Option String :=
  match p.parametersFor k with
  | .error _ => none
  | .ok params => if p.payloads.contains params.payloadSize then none else some params.payloadSize

/-- The payload sizes that are missing, each once and in order. -/
def missingSizes (p : SweepPlan) (ks : List ConfigurationKey) : List String :=
  (SortedMap.ofList ((ks.filterMap p.missingSize?).map (·, ()))).entries.map (·.1)

def gridProblems (p : SweepPlan) : List Problem :=
  match p.keys with
  | .error e => [.grid e]
  | .ok [] => [.noCells]
  | .ok (k :: ks) =>
    (k :: ks).flatMap p.cellProblems ++ (p.missingSizes (k :: ks)).map .noPayload

/-- All that is wrong with a plan. -/
def problems (p : SweepPlan) : List Problem :=
  match p.settingProblems ++ axisProblems [] p.grid with
  | [] => p.gridProblems
  | found => found

def validate (p : SweepPlan) : Except Cause SweepPlan :=
  if p.problems = [] then .ok p else .error (.unsoundPlan (p.problems.map Problem.message))

/-- The plan that a text holds, as seen from a directory. -/
def ofText (text dir : String) : Except Cause SweepPlan :=
  match (Yaml.parse? text).bind (Yaml.Place.read? extent read) with
  | none => .error .unreadablePlan
  | some p => (p.rebase dir).validate

end SweepPlan

end FaultSweep
