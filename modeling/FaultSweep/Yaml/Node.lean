import FaultSweep.Yaml.Tag
import FaultSweep.Yaml.Token

/-!
# YAML documents

A document is a tree of nodes. A node with an anchor has a number, and an alias names the number of
the node it stands for. Numbers count the names of anchors, so a name that is given again, and the
next new name after it, may come to the same number; the later node has it then.
-/

namespace FaultSweep.Yaml

inductive Node where
  | alias (id : Nat)
  | scalar (anchor : Option Nat) (tag : Option Tag) (style : Style) (content : String)
  | sequence (anchor : Option Nat) (tag : Option Tag) (items : List Node)
  | mapping (anchor : Option Nat) (tag : Option Tag) (entries : List (Node × Node))

namespace Node

/-- The node of nothing at all. -/
def empty : Node := .scalar none none .plain ""

mutual
/-- The nodes with anchors, each before those inside it. -/
def anchored : Node → List (Nat × Node)
  | .alias _ => []
  | .scalar a t s c => (a.map fun i => (i, Node.scalar a t s c)).toList
  | .sequence a t items =>
    (a.map fun i => (i, Node.sequence a t items)).toList ++ anchoredItems items
  | .mapping a t entries =>
    (a.map fun i => (i, Node.mapping a t entries)).toList ++ anchoredEntries entries
def anchoredItems : List Node → List (Nat × Node)
  | [] => []
  | n :: ns => anchored n ++ anchoredItems ns
def anchoredEntries : List (Node × Node) → List (Nat × Node)
  | [] => []
  | (k, v) :: es => anchored k ++ anchored v ++ anchoredEntries es
end

mutual
/-- The number of marks that make a node: a collection has one at its beginning and one at its
end. -/
def marks : Node → Nat
  | .alias _ => 1
  | .scalar .. => 1
  | .sequence _ _ items => marksOfItems items + 2
  | .mapping _ _ entries => marksOfEntries entries + 2
def marksOfItems : List Node → Nat
  | [] => 0
  | n :: ns => marks n + marksOfItems ns
def marksOfEntries : List (Node × Node) → Nat
  | [] => 0
  | (k, v) :: es => marks k + marks v + marksOfEntries es
end

end Node

/-- What is left of the tokens, and what was declared in front of them. -/
structure Compose where
  tokens : List Token
  /-- The names of the anchors so far, with their numbers. -/
  names : List (String × Nat)
  /-- The handles of tags, with what they stand for. -/
  handles : List (String × List Utf8.Piece)

namespace Compose

/-- Passes over a token. -/
def drop (s : Compose) : Compose := { s with tokens := s.tokens.tail }

def declare (s : Compose) (name : String) : Nat × Compose :=
  let id := s.names.length
  (id, { s with names := (name, id) :: s.names.filter (·.1 ≠ name) })

/-- The anchor and the tag in front of a node, in either order. -/
def properties (s : Compose) : Option String × Option (String × List Utf8.Piece) × Compose :=
  match s.tokens with
  | .anchor a :: .tag h x :: ts => (some a, some (h, x), { s with tokens := ts })
  | .anchor a :: ts => (some a, none, { s with tokens := ts })
  | .tag h x :: .anchor a :: ts => (some a, some (h, x), { s with tokens := ts })
  | .tag h x :: ts => (none, some (h, x), { s with tokens := ts })
  | _ => (none, none, s)

/-- The whole tag; none if its handle was not declared. -/
def wholeTag (s : Compose) (handle : String) (suffix : List Utf8.Piece) : Option Tag :=
  if handle = "" then some (.ofPieces suffix)
  else (s.handles.find? (·.1 = handle)).map fun h => .ofPieces (h.2 ++ suffix)

mutual
/-- The next node. In a block it may be a block collection, and where a key or value stands a
sequence whose entries are not indented. -/
def node (inBlock unindented : Bool) : Nat → Compose → Option (Node × Compose)
  | 0, _ => none
  | fuel + 1, s =>
    match s.tokens with
    | .alias name :: _ =>
      (s.names.find? (·.1 = name)).map fun n => (.alias n.2, s.drop)
    | _ => do
      let (name, parts, s) := s.properties
      let tag ← match parts with
        | some (h, x) => (s.wholeTag h x).map some
        | none => some none
      let (anchor, s) := match name with
        | some a => let (i, s) := s.declare a; (some i, s)
        | none => (none, s)
      match s.tokens with
      | .scalar style content :: _ =>
        return (.scalar anchor tag style content, s.drop)
      | .flowSequenceStart :: _ =>
        let (items, s) ← flowItems true fuel s.drop
        return (.sequence anchor tag items, s)
      | .flowMappingStart :: _ =>
        let (entries, s) ← flowEntries true fuel s.drop
        return (.mapping anchor tag entries, s)
      | t :: _ =>
        if unindented ∧ t = .entry then
          let (items, s) ← bareItems fuel s
          return (.sequence anchor tag items, s)
        else if inBlock ∧ t = .sequenceStart then
          let (items, s) ← blockItems fuel s.drop
          return (.sequence anchor tag items, s)
        else if inBlock ∧ t = .mappingStart then
          let (entries, s) ← blockEntries fuel s.drop
          return (.mapping anchor tag entries, s)
        else if name.isSome ∨ tag.isSome then return (.scalar anchor tag .plain "", s)
        else none
      | [] => none

/-- A node, or nothing in front of the given tokens. -/
def nodeUnless (ends : List Token) (inBlock unindented : Bool) :
    Nat → Compose → Option (Node × Compose)
  | 0, _ => none
  | fuel + 1, s =>
    if s.tokens.head?.any ends.contains then some (.empty, s)
    else node inBlock unindented fuel s

/-- The entries of a block sequence up to its end. -/
def blockItems : Nat → Compose → Option (List Node × Compose)
  | 0, _ => none
  | fuel + 1, s =>
    match s.tokens with
    | .entry :: _ => do
      let (n, s) ← nodeUnless [.entry, .blockEnd] true false fuel s.drop
      let (ns, s) ← blockItems fuel s
      return (n :: ns, s)
    | .blockEnd :: _ => some ([], s.drop)
    | _ => none

/-- The entries of a sequence that has no end of its own. -/
def bareItems : Nat → Compose → Option (List Node × Compose)
  | 0, _ => none
  | fuel + 1, s =>
    match s.tokens with
    | .entry :: _ => do
      let (n, s) ← nodeUnless [.entry, .key, .value, .blockEnd] true false fuel s.drop
      let (ns, s) ← bareItems fuel s
      return (n :: ns, s)
    | _ => some ([], s)

/-- The entries of a block mapping up to its end. -/
def blockEntries : Nat → Compose → Option (List (Node × Node) × Compose)
  | 0, _ => none
  | fuel + 1, s =>
    match s.tokens with
    | .key :: _ => do
      let (k, s) ← nodeUnless [.key, .value, .blockEnd] true true fuel s.drop
      let (v, s) ← match s.tokens with
        | .value :: _ => nodeUnless [.key, .value, .blockEnd] true true fuel s.drop
        | _ => some (.empty, s)
      let (es, s) ← blockEntries fuel s
      return ((k, v) :: es, s)
    | .blockEnd :: _ => some ([], s.drop)
    | _ => none

/-- The items of a flow sequence up to its end. An item with the mark of a key is a mapping of one
entry. -/
def flowItems (first : Bool) : Nat → Compose → Option (List Node × Compose)
  | 0, _ => none
  | fuel + 1, s =>
    match s.tokens with
    | .flowSequenceEnd :: _ => some ([], s.drop)
    | t :: _ => do
      if !first ∧ t ≠ .separator then none
      let s := if first then s else s.drop
      match s.tokens with
      | .flowSequenceEnd :: _ => return ([], s.drop)
      | .key :: _ =>
        let (e, s) ← flowPair fuel s.drop
        let (ns, s) ← flowItems false fuel s
        return (.mapping none none [e] :: ns, s)
      | _ =>
        let (n, s) ← node false false fuel s
        let (ns, s) ← flowItems false fuel s
        return (n :: ns, s)
    | [] => none

/-- The only entry of a mapping inside a flow sequence. A key that is missing takes the next token
with it. -/
def flowPair : Nat → Compose → Option ((Node × Node) × Compose)
  | 0, _ => none
  | fuel + 1, s => do
    let ends := [Token.value, .separator, .flowSequenceEnd]
    let (k, s) ←
      if s.tokens.head?.any ends.contains then some (Node.empty, s.drop)
      else node false false fuel s
    let (v, s) ← match s.tokens with
      | .value :: _ => nodeUnless [.separator, .flowSequenceEnd] false false fuel s.drop
      | _ => some (.empty, s)
    return ((k, v), s)

/-- The entries of a flow mapping up to its end. An entry without the mark of a key has no value. -/
def flowEntries (first : Bool) : Nat → Compose → Option (List (Node × Node) × Compose)
  | 0, _ => none
  | fuel + 1, s =>
    match s.tokens with
    | .flowMappingEnd :: _ => some ([], s.drop)
    | t :: _ => do
      if !first ∧ t ≠ .separator then none
      let s := if first then s else s.drop
      match s.tokens with
      | .flowMappingEnd :: _ => return ([], s.drop)
      | .key :: _ =>
        let (k, s) ← nodeUnless [.value, .separator, .flowMappingEnd] false false fuel s.drop
        let (v, s) ← match s.tokens with
          | .value :: _ => nodeUnless [.separator, .flowMappingEnd] false false fuel s.drop
          | _ => some (.empty, s)
        let (es, s) ← flowEntries false fuel s
        return ((k, v) :: es, s)
      | _ =>
        let (k, s) ← node false false fuel s
        let (es, s) ← flowEntries false fuel s
        return ((k, .empty) :: es, s)
    | [] => none
end

/-! ### Documents -/

def standardHandles : List (String × List Utf8.Piece) :=
  [("!", Utf8.ofText "!"), ("!!", Utf8.ofText "tag:yaml.org,2002:")]

/-- Takes the directives in front of a document. Each may be given once, and only versions 1.1 and
1.2 are known. -/
def directives : List Token → Bool → List (String × List Utf8.Piece) →
    Option (List (String × List Utf8.Piece) × List Token)
  | .version major minor :: ts, versioned, handles =>
    if versioned ∨ major ≠ 1 ∨ (minor ≠ 1 ∧ minor ≠ 2) then none
    else directives ts true handles
  | .handle name stem :: ts, versioned, handles =>
    if handles.any (·.1 = name) then none else directives ts versioned ((name, stem) :: handles)
  | ts, _, handles => some (handles ++ standardHandles, ts)

/-- Whether a token cannot be part of a document. -/
def isOutside : Token → Bool
  | .version .. | .handle .. | .documentStart | .documentEnd | .streamEnd => true
  | _ => false

/-- The first document, and the tokens after it. -/
def document (ts : List Token) : Option (Node × List Token) := do
  let fuel := 4 * ts.length + 8
  match ts with
  | .streamEnd :: _ => return (.empty, ts)
  | .version .. :: _ | .handle .. :: _ | .documentStart :: _ =>
    let (handles, ts) ← directives ts false []
    match ts with
    | .documentStart :: ts =>
      if ts.head?.any isOutside then return (.empty, ts)
      let (n, s) ← node true false fuel ⟨ts, [], handles⟩
      return (n, s.tokens)
    | _ => none
  | _ =>
    let (n, s) ← node true false fuel ⟨ts, [], standardHandles⟩
    return (n, s.tokens)

end Compose

/-- The tree of a text that holds one document. -/
def parse? (text : String) : Option Node := do
  let ts ← tokens? text
  let (n, rest) ← Compose.document ts.toList
  match rest.dropWhile (· = .documentEnd) with
  | [.streamEnd] => return n
  | _ => none

end FaultSweep.Yaml
