import FaultSweep.Json.Document
import FaultSweep.Reader

/-!
# Reading typed values from JSON

A record is an object, or an array of its fields in order, of which the last may be missing. A case
is its name, or an object with that name and null. Levels of nesting are counted down from the top.
-/

namespace FaultSweep.Json

/-- A part of a document, and how many levels of arrays and objects may still be entered there. -/
structure Node where
  levels : Nat
  document : Document

namespace Node

def natural? : Document → Option Nat
  | .num (some (.int i)) => if 0 ≤ i then some i.toNat else none
  | _ => none

/-- The items of an array. -/
def items? (n : Node) : Option (List Node) :=
  match n.levels, n.document with
  | levels + 1, .arr items => some (items.map (⟨levels, ·⟩))
  | _, _ => none

/-- The entries of an object. -/
def entries? (n : Node) : Option (List (String × Node)) :=
  match n.levels, n.document with
  | levels + 1, .obj fields => fields.mapM fun f => f.1.map (·, ⟨levels, f.2⟩)
  | _, _ => none

def fields? (names : List String) (n : Node) : Option (List (String × Node)) :=
  match n.document with
  | .arr _ => do
    let items ← n.items?
    if items.length ≤ names.length then some (names.zip items) else none
  | _ => n.entries?.bind (Reader.select names)

def case? (n : Node) : Option String :=
  match n.document with
  | .str s => s
  | .obj _ => do
    match ← n.entries? with
    | [(name, ⟨_, .null⟩)] => some name
    | _ => none
  | _ => none

end Node

/-- How JSON reads its nodes. -/
def reader : FaultSweep.Reader Node where
  text? n := match n.document with
    | .str s => s
    | _ => none
  nat? bound n := (Node.natural? n.document).bind fun k => if k < bound then some k else none
  natOrText? n := match n.document with
    | .str s => s.map .inr
    | d => (Node.natural? d).map .inl
  optional? n := match n.document with
    | .null => some none
    | _ => some (some n)
  items? := Node.items?
  fields? := Node.fields?
  entries? := Node.entries?
  case? := Node.case?

/-- The top of a document that was a text. -/
def Node.top (d : Document) : Node := ⟨maxLevels, d⟩

/-- A value that need not be written as text has no bound on its levels. -/
def Node.ofValue (v : Json) : Node := ⟨v.depth + 1, .ofJson v⟩

end FaultSweep.Json
