/-!
# Reading typed values

A document format tells how plain things are read off one of its nodes: texts, numbers, lists,
records. What a program's own types look like in a document is then said once for all formats.
-/

namespace FaultSweep

/-- How one format reads its nodes. Each reading is none where the node has not that form. -/
structure Reader (ν : Type) where
  text? : ν → Option String
  /-- An unsigned number below the bound. -/
  nat? : Nat → ν → Option Nat
  /-- An unsigned number or a text, whichever the node is by itself. -/
  natOrText? : ν → Option (Nat ⊕ String)
  /-- A node that may stand for nothing. -/
  optional? : ν → Option (Option ν)
  items? : ν → Option (List ν)
  /-- The fields of a record that are present. A field of another name is passed over, and one that
  is given twice makes the record unreadable. -/
  fields? : List String → ν → Option (List (String × ν))
  /-- The entries of a map, which may repeat a key. -/
  entries? : ν → Option (List (String × ν))
  /-- The name of a case without content. -/
  case? : ν → Option String

namespace Reader

variable {ν α : Type}

/-- A field of a record, with the value it has where it is absent. -/
def field (fields : List (String × ν)) (name : String) (absent : Option α)
    (read : ν → Option α) : Option α :=
  match fields.find? (·.1 = name) with
  | some f => read f.2
  | none => absent

def list (r : Reader ν) (read : ν → Option α) (n : ν) : Option (List α) :=
  (r.items? n).bind (·.mapM read)

def option (r : Reader ν) (read : ν → Option α) (n : ν) : Option (Option α) :=
  match r.optional? n with
  | none => none
  | some none => some none
  | some (some m) => (read m).map some

/-- The case of an enumeration, by the names of its cases. -/
def enum (r : Reader ν) (cases : List (String × α)) (n : ν) : Option α :=
  (r.case? n).bind fun name => (cases.find? (·.1 = name)).map (·.2)

/-- Keeps the fields of the given names; none if one of them is there twice. -/
def select (names : List String) (fields : List (String × ν)) : Option (List (String × ν)) :=
  let known := fields.filter fun f => names.contains f.1
  if (known.map (·.1)).Nodup then some known else none

end Reader

end FaultSweep
