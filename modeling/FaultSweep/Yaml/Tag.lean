import FaultSweep.Text.Utf8

/-!
# Tags

A tag is written with a handle and a suffix, and what it says depends on the whole of it. The four
tags of scalars are known by their full names; a tag that begins with an exclamation mark is the
document's own and names a case.
-/

namespace FaultSweep.Yaml

/-- What the tag of a node says. -/
inductive Tag where
  | null
  | bool
  | int
  | real
  | case (name : String)
  /-- The document's own, but no text. -/
  | garbled
  | other
  deriving DecidableEq

namespace Tag

/-- The exclamation mark of a case is no part of its name, unless there is nothing else. -/
def ofText (s : String) : Tag :=
  if s = "tag:yaml.org,2002:null" then .null
  else if s = "tag:yaml.org,2002:bool" then .bool
  else if s = "tag:yaml.org,2002:int" then .int
  else if s = "tag:yaml.org,2002:float" then .real
  else match s.toList with
  | ['!'] => .case "!"
  | '!' :: name => .case (String.ofList name)
  | _ => .other

/-- The tag of a text with scraps, which escapes may bring into it. -/
def ofPieces (ps : List Utf8.Piece) : Tag :=
  match ps.mapM id with
  | some cs => ofText (String.ofList cs)
  | none => if ps.head? = some (some '!') then .garbled else .other

def isCase : Tag → Bool
  | case _ => true
  | _ => false

end Tag

end FaultSweep.Yaml
