import FaultSweep.Json.Token

/-!
# JSON documents

A document is the tree of a text before anything is read from it. Fields keep their order and may
repeat; numbers and texts may be without content (see `Token`), and nesting has no bound. What is
read from a document is held to stricter rules: contents are present, and at most 127 arrays and
objects stand inside one another.
-/

namespace FaultSweep.Json

inductive Document where
  | null
  | bool (b : Bool)
  | num (n : Option Number)
  | str (s : Option String)
  | arr (items : List Document)
  | obj (fields : List (Option String × Document))

/-- An array or object that is still open, with what it holds so far in reverse. -/
inductive Frame where
  | arr (items : List Document)
  | obj (fields : List (Option String × Document))
  | field (fields : List (Option String × Document)) (key : Option String)

/-- What may come next. -/
inductive Want where
  | value
  | firstItem
  | firstKey
  | key
  | colon
  | more
  | nothing (d : Document)

structure Parse where
  want : Want
  stack : List Frame

namespace Parse

/-- Takes a finished value into the innermost open array or object. -/
def complete (d : Document) : List Frame → Option Parse
  | [] => some ⟨.nothing d, []⟩
  | .arr items :: fs => some ⟨.more, .arr (d :: items) :: fs⟩
  | .field fields key :: fs => some ⟨.more, .obj ((key, d) :: fields) :: fs⟩
  | .obj _ :: _ => none

def value (stack : List Frame) : Token → Option Parse
  | .null => complete .null stack
  | .bool b => complete (.bool b) stack
  | .num n => complete (.num n) stack
  | .str s => complete (.str s) stack
  | .openArr => some ⟨.firstItem, .arr [] :: stack⟩
  | .openObj => some ⟨.firstKey, .obj [] :: stack⟩
  | _ => none

def step (p : Parse) (t : Token) : Option Parse :=
  match p.want, p.stack, t with
  | .value, stack, t => value stack t
  | .firstItem, .arr items :: fs, .closeArr => complete (.arr items.reverse) fs
  | .firstItem, stack, t => value stack t
  | .firstKey, .obj fields :: fs, .closeObj => complete (.obj fields.reverse) fs
  | .firstKey, .obj fields :: fs, .str k => some ⟨.colon, .field fields k :: fs⟩
  | .key, .obj fields :: fs, .str k => some ⟨.colon, .field fields k :: fs⟩
  | .colon, stack, .colon => some ⟨.value, stack⟩
  | .more, .arr items :: fs, .comma => some ⟨.value, .arr items :: fs⟩
  | .more, .arr items :: fs, .closeArr => complete (.arr items.reverse) fs
  | .more, .obj fields :: fs, .comma => some ⟨.key, .obj fields :: fs⟩
  | .more, .obj fields :: fs, .closeObj => complete (.obj fields.reverse) fs
  | _, _, _ => none

def run : Parse → List Token → Option Parse
  | p, [] => some p
  | p, t :: ts =>
    match p.step t with
    | none => none
    | some p => run p ts

@[simp] theorem run_nil (p : Parse) : p.run [] = some p := rfl

end Parse

namespace Document

def ofTokens? (ts : List Token) : Option Document :=
  match Parse.run ⟨.value, []⟩ ts with
  | some ⟨.nothing d, []⟩ => some d
  | _ => none

def ofPieces? (ps : List Utf8.Piece) : Option Document := (tokens? ps).bind ofTokens?

def parse? (text : String) : Option Document := ofPieces? (Utf8.ofText text)

/-- The document that bytes hold, which need be UTF-8 only where they are read. -/
def ofBytes? (b : Utf8.Bytes) : Option Document := ofPieces? (Utf8.pieces b)

mutual
/-- The value that a document holds, within a number of levels. Fields come in key order, and of two
with one key the later counts. -/
def value? : Nat → Document → Option Json
  | _, .null => some .null
  | _, .bool b => some (.bool b)
  | _, .num n => n.map .num
  | _, .str s => s.map .str
  | 0, .arr _ => none
  | levels + 1, .arr items => (values? levels items).map .arr
  | 0, .obj _ => none
  | levels + 1, .obj fields =>
    (entries? levels fields).map fun es => .obj (SortedMap.ofList es).entries
def values? : Nat → List Document → Option (List Json)
  | _, [] => some []
  | levels, d :: ds => do
    let v ← value? levels d
    let vs ← values? levels ds
    return v :: vs
def entries? : Nat → List (Option String × Document) → Option (List (String × Json))
  | _, [] => some []
  | levels, (k, d) :: fs => do
    let k ← k
    let v ← value? levels d
    let es ← entries? levels fs
    return (k, v) :: es
end

mutual
/-- The document of a value. -/
def ofJson : Json → Document
  | .null => .null
  | .bool b => .bool b
  | .num n => .num (some n)
  | .str s => .str (some s)
  | .arr items => .arr (ofItems items)
  | .obj fields => .obj (ofFields fields)
def ofItems : List Json → List Document
  | [] => []
  | v :: vs => ofJson v :: ofItems vs
def ofFields : List (String × Json) → List (Option String × Document)
  | [] => []
  | (k, v) :: fs => (some k, ofJson v) :: ofFields fs
end

end Document

/-- The levels of arrays and objects a text may nest where it is read. -/
def maxLevels : Nat := 127

/-- The value a text holds. -/
def parse? (text : String) : Option Json := (Document.parse? text).bind (Document.value? maxLevels)

end FaultSweep.Json
