import FaultSweep.Yaml.Reader

/-!
# The extent of a reading

A short document whose aliases stand for lists of aliases may have endless contents. So a reading
follows at most a hundred aliases for each mark of the document, an alias as often as it is met.
What is passed over is not followed; the extent of a reading tells what that is.
-/

namespace FaultSweep.Yaml

/-- How much of a node a reading looks at. -/
inductive Extent where
  | nothing
  /-- The node without what is inside it. -/
  | leaf
  | whole
  | items (each : Extent)
  /-- The keys of a map, and of every value that much. -/
  | entries (each : Extent)
  /-- The keys of a record, and so much of the values by their names. -/
  | fields (known : List (String × Extent)) (others : Extent)

namespace Extent

/-- A record whose fields are leaves, but for some of them. Fields of other names are passed
over. -/
def record (names : List String) (deeper : List (String × Extent)) : Extent :=
  .fields (deeper ++ names.map (·, .leaf)) .nothing

def item : Extent → Extent
  | whole => .whole
  | items each => each
  | _ => .nothing

def key : Extent → Extent
  | whole => .whole
  | entries _ => .leaf
  | fields _ _ => .leaf
  | _ => .nothing

/-- What is looked at of the value under a key. -/
def value (name : Option String) : Extent → Extent
  | whole => .whole
  | entries each => each
  | fields known others =>
    match known.find? (some ·.1 = name) with
    | some f => f.2
    | none => others
  | _ => .nothing

end Extent

namespace Place

/-- Follows an alias, if the node is one and one may still be followed. -/
def step (p : Place) (left : Nat) : Option Nat :=
  match p.node with
  | .alias _ => if left = 0 then none else some (left - 1)
  | _ => some left

/-- Follows the aliases of what a reading looks at, within a number of levels: how many may still be
followed after it. -/
def follow : Nat → Extent → Place → Nat → Option Nat
  | 0, _, _, left => some left
  | _, .nothing, _, left => some left
  | levels + 1, e, p, left => do
    let left ← p.step left
    match p.target with
    | some (.sequence _ _ items) =>
      items.foldlM (fun left n => follow levels e.item (p.within n) left) left
    | some (.mapping _ _ es) =>
      es.foldlM (fun left f => do
        let left ← follow levels e.key (p.within f.1) left
        follow levels (e.value (p.within f.1).text?) (p.within f.2) left) left
    | _ => return left

/-- Deeper than any reading goes. -/
def depthLimit : Nat := 256

/-- Reads a document, unless too many aliases would be followed. -/
def read? {α : Type} (e : Extent) (read : Place → Option α) (n : Node) : Option α := do
  let p := top n
  let _ ← p.follow depthLimit e (100 * n.marks)
  read p

end Place

end FaultSweep.Yaml
