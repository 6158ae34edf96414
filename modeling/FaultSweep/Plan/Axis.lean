import FaultSweep.Grid.Parameters

/-!
# Axes

An axis gives the values of one dimension: a list of them, or a range of counts whose end may hang
on the number of nodes of the cell.
-/

namespace FaultSweep

structure Axis where
  dimension : Dimension
  values : List DimensionValue
  start : Option Nat
  stop : Option Nat
  /-- The end of a range as that many below the number of nodes. -/
  stopBelowNodes : Option Nat
  step : Option Nat
  deriving DecidableEq

namespace Axis

def isRange (a : Axis) : Bool := a.start.isSome || a.stop.isSome || a.stopBelowNodes.isSome

def first (a : Axis) : Nat := a.start.getD 0

/-- The bound of a range, which itself is left out. -/
def bound (a : Axis) (nodeCount : Nat) : Nat :=
  match a.stop, a.stopBelowNodes with
  | some n, _ => n
  | none, some below => nodeCount - below
  | none, none => a.first

def stride (a : Axis) : Nat := max (a.step.getD 1) 1

/-- The number of values of a range. -/
def length (a : Axis) (nodeCount : Nat) : Nat :=
  (a.bound nodeCount - a.first + (a.stride - 1)) / a.stride

/-- The values for a cell with a number of nodes. -/
def valuesFor (a : Axis) (nodeCount : Nat) : List DimensionValue :=
  if a.isRange then (List.range' a.first (a.length nodeCount) a.stride).map .count else a.values

/-- What can be wrong with one value of an axis. -/
inductive ValueFault where
  | wrongKind (v : DimensionValue)
  | delimiter (label : String)
  deriving DecidableEq

/-- What can be wrong with an axis. -/
inductive Fault where
  | valuesAndRange
  | payloadRange
  | rangeEnd
  | zeroStep
  | circularEnd
  | noValues
  | value (f : ValueFault)
  deriving DecidableEq

def Fault.message (d : Dimension) : Fault → String
  | valuesAndRange => "grid axis " ++ d.name ++ ": give either values or a range, not both"
  | payloadRange => "grid axis payload_size: ranges are only valid for counts"
  | rangeEnd => "grid axis " ++ d.name ++ ": range needs exactly one of end / end_below_nodes"
  | zeroStep => "grid axis " ++ d.name ++ ": step must be positive"
  | circularEnd => "grid axis node_count: end_below_nodes is circular"
  | noValues => "grid axis " ++ d.name ++ ": no values"
  | value (.wrongKind v) => "grid axis " ++ d.name ++ ": invalid value " ++ v.text
  | value (.delimiter label) =>
    "grid axis " ++ d.name ++ ": label '" ++ label ++ "' may not contain '/' or '='"

/-- Payload sizes are labels, all other values are counts. -/
def suits (d : Dimension) : DimensionValue → Bool
  | .count _ => d ≠ .payloadSize
  | .label _ => d = .payloadSize

/-- The characters that divide a ledger key. -/
def isDelimiter (c : Char) : Bool := c = '/' || c = '='

def hasDelimiter : DimensionValue → Bool
  | .count _ => false
  | .label s => s.toList.any isDelimiter

def valueFaults (d : Dimension) (v : DimensionValue) : List Fault :=
  (if suits d v then [] else [.value (.wrongKind v)]) ++
    (if hasDelimiter v then [.value (.delimiter v.text)] else [])

def rangeFaults (a : Axis) : List Fault :=
  (if a.values = [] then [] else [.valuesAndRange]) ++
    (if a.dimension = .payloadSize then [.payloadRange] else []) ++
    (if a.stop.isSome = a.stopBelowNodes.isSome then [.rangeEnd] else []) ++
    (if a.step = some 0 then [.zeroStep] else []) ++
    (if a.stopBelowNodes.isSome ∧ a.dimension = .nodeCount then [.circularEnd] else [])

/-- All that is wrong with an axis by itself. -/
def faults (a : Axis) : List Fault :=
  (if a.isRange then a.rangeFaults else if a.values = [] then [.noValues] else []) ++
    a.values.flatMap (valueFaults a.dimension)

/-- Fields that are not given are not written. -/
def toJson (a : Axis) : Json :=
  let count (name : String) : Option Nat → List (String × Json)
    | some n => [(name, .nat n)]
    | none => []
  .obj ([("dimension", a.dimension.toJson)] ++
    (if a.values = [] then [] else [("values", .arr (a.values.map DimensionValue.toJson))]) ++
    count "start" a.start ++ count "end" a.stop ++ count "end_below_nodes" a.stopBelowNodes ++
    count "step" a.step)

def fieldNames : List String :=
  ["dimension", "values", "start", "end", "end_below_nodes", "step"]

def read {ν : Type} (r : Reader ν) (n : ν) : Option Axis := do
  let fs ← r.fields? fieldNames n
  let count (name : String) := Reader.field fs name (some none) (r.option (r.nat? countBound))
  return ⟨← Reader.field fs "dimension" none (Dimension.read r),
    ← Reader.field fs "values" (some []) (r.list (DimensionValue.read r)),
    ← count "start", ← count "end", ← count "end_below_nodes", ← count "step"⟩

end Axis

end FaultSweep
