import FaultSweep.Reader
import FaultSweep.Yaml.Node
import FaultSweep.Yaml.Schema
import FaultSweep.Word

/-!
# Reading typed values from YAML

A place that expects a text takes any scalar, one that expects a number takes a plain one, and a
place that takes either goes by what the scalar stands for. A list or record is a collection of its
kind, or nothing after the colon. An alias is read as the node it names; where nothing is read, it
is not followed.
-/

namespace FaultSweep.Yaml

/-- A part of a document. -/
structure Place where
  /-- The nodes that aliases name. -/
  anchored : List (Nat × Node)
  node : Node

namespace Place

def top (n : Node) : Place := ⟨n.anchored.reverse, n⟩

def within (p : Place) (n : Node) : Place := { p with node := n }

/-- The node itself, or the one that it names. -/
def target (p : Place) : Option Node :=
  match p.node with
  | .alias id => (p.anchored.find? (·.1 = id)).map (·.2)
  | n => some n

/-- What a scalar stands for by its tag, its style and its text; none if the tag does not fit. -/
def meaning? (tag : Option Tag) (style : Style) (s : String) : Option Meaning :=
  let plainly := if style = .plain then Schema.meaning s else .text
  match tag with
  | none => some plainly
  | some .null => if Schema.isNull s then some .null else none
  | some .bool => (Schema.bool? s).map .bool
  | some .int => (Schema.int? s.toList).map .int
  | some .real => if Schema.isReal s then some .real else none
  | some (.case _) => none
  | some .garbled => some plainly
  | some .other => some .text

/-- Nothing, written without quotes. -/
def isVoid : Node → Bool
  | .scalar _ _ style s => style = .plain && s = ""
  | _ => false

def text? (p : Place) : Option String :=
  match p.target with
  | some (.scalar _ _ _ s) => some s
  | _ => none

def nat? (bound : Nat) (p : Place) : Option Nat :=
  match p.target with
  | some (.scalar _ tag style s) =>
    if style = .plain ∨ (style = .literal ∧ tag = some .int) then
      Schema.natural? (min bound wordBound) s.toList
    else none
  | _ => none

def natOrText? (p : Place) : Option (Nat ⊕ String) :=
  match p.target with
  | some (.scalar _ tag style s) =>
    match meaning? tag style s with
    | some (.int i) => if 0 ≤ i then some (.inl i.toNat) else none
    | some .text => some (.inr s)
    | _ => none
  | _ => none

def optional? (p : Place) : Option (Option Place) :=
  match p.target with
  | some (.scalar a tag style s) =>
    let n := Node.scalar a tag style s
    if style ≠ .plain then some (some (p.within n))
    else match tag with
    | some .null => if Schema.isNull s then some none else none
    | some _ => some (some (p.within n))
    | none => if s = "" ∨ Schema.isNull s then some none else some (some (p.within n))
  | some n => some (some (p.within n))
  | none => none

def items? (p : Place) : Option (List Place) :=
  match p.target with
  | some (.sequence _ _ items) => some (items.map p.within)
  | some n => if isVoid n then some [] else none
  | none => none

def entries? (p : Place) : Option (List (String × Place)) :=
  match p.target with
  | some (.mapping _ _ es) =>
    es.mapM fun (k, v) => (p.within k).text?.map (·, p.within v)
  | some n => if isVoid n then some [] else none
  | none => none

def case? (p : Place) : Option String :=
  match p.target with
  | some (.scalar _ tag style s) =>
    match tag with
    | some (.case name) =>
      if style = .plain ∧ (s = "" ∨ Schema.isNull s) then some name else none
    | _ => some s
  | _ => none

/-- Whether a scalar has a meaning that is kept for later: its number, if it is one, fits 64
bits. -/
def isKept (tag : Option Tag) (style : Style) (s : String) : Bool :=
  match meaning? tag style s with
  | some (.int i) => -9223372036854775808 ≤ i && i < 18446744073709551616
  | some _ => true
  | none => false

/-- Whether the whole of a node can be kept for later, all its aliases followed, within a number of
levels of collections. -/
def isSound : Nat → Place → Bool
  | 0, p => match p.target with
    | some (.scalar _ tag style s) => isKept tag style s
    | _ => false
  | levels + 1, p => match p.target with
    | some (.scalar _ tag style s) => isKept tag style s
    | some (.sequence _ tag items) =>
      !tag.any Tag.isCase && items.all fun n => isSound levels (p.within n)
    | some (.mapping _ tag es) =>
      !tag.any Tag.isCase &&
        es.all fun e => isSound levels (p.within e.1) && isSound levels (p.within e.2)
    | _ => false

/-- The fields of a record that keeps those it does not know for later, so that they have to be
sound. -/
def keptFields? (names : List String) (p : Place) : Option (List (String × Place)) := do
  let es ← p.entries?
  if es.all fun e => names.contains e.1 || isSound 126 e.2 then Reader.select names es else none

/-- A number in a field that was kept for later, which goes by what its scalar stands for. -/
def keptNat? (bound : Nat) (p : Place) : Option Nat :=
  match p.natOrText? with
  | some (.inl n) => if n < bound then some n else none
  | _ => none

end Place

/-- How YAML reads its nodes. -/
def reader : FaultSweep.Reader Place where
  text? := Place.text?
  nat? := Place.nat?
  natOrText? := Place.natOrText?
  optional? := Place.optional?
  items? := Place.items?
  fields? names p := p.entries?.bind (Reader.select names)
  entries? := Place.entries?
  case? := Place.case?

end FaultSweep.Yaml
