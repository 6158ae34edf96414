import FaultSweep.Yaml.Cursor

/-!
# Contents of YAML scalars

The text of a scalar in its five styles. Lines of plain and quoted scalars are folded; a block
scalar keeps its lines, or folds those that are not indented further.
-/

namespace FaultSweep.Yaml

inductive Style where
  | plain
  | singleQuoted
  | doubleQuoted
  | literal
  | folded
  deriving DecidableEq

namespace Content

/-! ### Plain scalars -/

def isFlowIndicator (c : Char) : Bool :=
  c = ',' || c = '[' || c = ']' || c = '\x7b' || c = '\x7d'

/-- The characters up to a gap or an indicator that ends a plain scalar. In a flow collection a
colon may not stand right before an indicator. -/
def plainWord (inFlow : Bool) : List Char → Option (List Char)
  | [] => some []
  | c :: cs =>
    if isBlank c || isBreak c then some []
    else if inFlow && c = ':' && cs.head?.any (fun d => isFlowIndicator d || d = '?') then none
    else if (c = ':' && isGap cs.head?) || (inFlow && isFlowIndicator c) then some []
    else (plainWord inFlow cs).map (c :: ·)

/-- A plain scalar whose further lines are indented by at least `indent`, what follows it, and
whether it ended after a line break. -/
def plain (inFlow : Bool) (indent : Nat) :
    Nat → Cursor → List Char → Gap → Option (List Char × Cursor × Bool)
  | 0, _, _, _ => none
  | fuel + 1, c, acc, gap => do
    if c.isDocumentMark ∨ c.head? = some '#' then return (acc, c, gap.isBroken)
    let word ← plainWord inFlow c.rest
    if word = [] then return (acc, c, gap.isBroken)
    let acc := acc ++ gap.folded ++ word
    let c := c.skip word.length
    if c.head?.isNone ∨ !isGap c.head? then return (acc, c, false)
    let (gap, c) ← Gap.none.extend indent c.rest.length c
    if !inFlow ∧ c.column < indent then return (acc, c, gap.isBroken)
    plain inFlow indent fuel c acc gap

/-! ### Quoted scalars -/

/-- The escapes of one character. -/
def shortEscape? : Char → Option Char
  | '0' => some '\x00'
  | 'a' => some '\x07'
  | 'b' => some '\x08'
  | 't' => some '\t'
  | '\t' => some '\t'
  | 'n' => some '\n'
  | 'v' => some '\x0b'
  | 'f' => some '\x0c'
  | 'r' => some '\r'
  | 'e' => some '\x1b'
  | ' ' => some ' '
  | '\x22' => some '\x22'
  | '/' => some '/'
  | '\x5c' => some '\x5c'
  | 'N' => some '\u0085'
  | '_' => some '\u00a0'
  | 'L' => some '\u2028'
  | 'P' => some '\u2029'
  | _ => none

/-- The number of digits after an escape that names a code. -/
def codeLength? : Char → Option Nat
  | 'x' => some 2
  | 'u' => some 4
  | 'U' => some 8
  | _ => none

def hexValue? (c : Char) : Option Nat :=
  if c.isDigit then some (c.toNat - 48)
  else if 'a' ≤ c ∧ c ≤ 'f' then some (c.toNat - 87)
  else if 'A' ≤ c ∧ c ≤ 'F' then some (c.toNat - 55)
  else none

def hexNumber? (cs : List Char) : Option Nat :=
  cs.foldlM (fun n c => (hexValue? c).map (n * 16 + ·)) 0

/-- The character of a code. -/
def codeChar? (digits : List Char) (length : Nat) : Option Char :=
  if digits.length < length then none
  else (hexNumber? digits).bind fun n => if n.isValidChar then some (Char.ofNat n) else none

/-- An escape after its backslash: the character it stands for, and its length. -/
def escape? (cs : List Char) : Option (Char × Nat) :=
  match cs with
  | [] => none
  | c :: cs =>
    match codeLength? c with
    | some n => (codeChar? (cs.take n) n).map (·, n + 1)
    | none => (shortEscape? c).map (·, 1)

/-- The text up to the closing quote, and what follows the quote. -/
def quoted (single : Bool) : Nat → Cursor → List Char → Option (List Char × Cursor)
  | 0, _, _ => none
  | fuel + 1, c, acc =>
    if c.isDocumentMark then none
    else match c.rest with
    | [] => none
    | ch :: cs =>
      if isBlank ch || isBreak ch then do
        let (gap, c) ← Gap.none.extend 0 c.rest.length c
        quoted single fuel c (gap.folded.reverse ++ acc)
      else if single then
        if ch = '\x27' then
          if cs.head? = some '\x27' then quoted single fuel (c.skip 2) ('\x27' :: acc)
          else some (acc.reverse, c.skip 1)
        else quoted single fuel (c.skip 1) (ch :: acc)
      else if ch = '\x22' then some (acc.reverse, c.skip 1)
      else if ch = '\x5c' then
        if cs.head?.any isBreak then do
          let c := (c.skip 1).skipBreak
          let (gap, c) ← (Gap.breaks [] []).extend 0 c.rest.length c
          quoted single fuel c (gap.folded.reverse ++ acc)
        else do
          let (d, n) ← escape? cs
          quoted single fuel (c.skip (n + 1)) (d :: acc)
      else quoted single fuel (c.skip 1) (ch :: acc)

/-! ### Block scalars -/

inductive Chomping where
  | strip
  | clip
  | keep

/-- The header of a block scalar after its indicator: how its end is treated, and the indentation it
names. Each may be missing, and either may come first. -/
def header (c : Cursor) : Option (Chomping × Option Nat × Cursor) :=
  let chomping? : Option Char → Option Chomping
    | some '+' => some .keep
    | some '-' => some .strip
    | _ => none
  let digit? : Option Char → Option Nat
    | some d => if d.isDigit then some (d.toNat - 48) else none
    | none => none
  match chomping? c.head?, digit? c.head? with
  | some ch, _ =>
    match digit? (c.get? 1) with
    | some 0 => none
    | some n => some (ch, some n, c.skip 2)
    | none => some (ch, none, c.skip 1)
  | none, some 0 => none
  | none, some n =>
    match chomping? (c.get? 1) with
    | some ch => some (ch, some n, c.skip 2)
    | none => some (.clip, some n, c.skip 1)
  | none, none => some (.clip, none, c)

/-- Passes over empty lines and the indentation of the next one: the texts of the breaks, and the
deepest column seen. Without a known indentation all blanks count as such. -/
def blockGap (indent : Option Nat) :
    Nat → Cursor → List Char → Nat → Option (List Char × Nat × Cursor)
  | 0, _, _, _ => none
  | fuel + 1, c, breaks, deepest =>
    let blanks := (c.rest.takeWhile (· = ' ')).length
    let c := c.skip (match indent with
      | some n => min blanks (n - c.column)
      | none => blanks)
    let deepest := max deepest c.column
    if c.head? = some '\t' ∧ indent.all (c.column < ·) then none
    else if c.head?.any isBreak then
      let (text, c) := c.takeBreak
      blockGap indent fuel c (breaks ++ text) deepest
    else some (breaks, deepest, c)

/-- The lines of a block scalar, with the break that ended the last one and the empty lines after
it. -/
structure Lines where
  text : List Char
  lastBreak : List Char
  empty : List Char
  /-- Whether the last line began with a blank. -/
  indented : Bool

/-- Joins the next line to those before it. -/
def Lines.join (l : Lines) (literal : Bool) (indented : Bool) : List Char :=
  if !literal ∧ l.lastBreak = ['\n'] ∧ !l.indented ∧ !indented then
    (if l.empty = [] then l.text ++ [' '] else l.text) ++ l.empty
  else l.text ++ l.lastBreak ++ l.empty

def blockLines (literal : Bool) (indent : Nat) : Nat → Cursor → Lines → Option (Lines × Cursor)
  | 0, _, _ => none
  | fuel + 1, c, l =>
    if c.column = indent ∧ c.head?.isSome then do
      let indented := c.head?.any isBlank
      let line := c.rest.takeWhile (!isBreak ·)
      let text := l.join literal indented ++ line
      let (lastBreak, c) := (c.skip line.length).takeBreak
      let (empty, _, c) ← blockGap (some indent) (c.rest.length + 1) c [] 0
      blockLines literal indent fuel c ⟨text, lastBreak, empty, indented⟩
    else some (l, c)

/-- A block scalar after its indicator, inside a block of indentation `outer`. -/
def block (literal : Bool) (outer : Int) (c : Cursor) : Option (List Char × Cursor) := do
  let (chomping, named, c) ← header c
  let c := (c.skipWhile isBlank).skipComment
  if !c.head?.all isBreak then none
  let c := c.skipBreak
  let known := named.map fun n => (max outer 0).toNat + n
  let (empty, deepest, c) ← blockGap known (c.rest.length + 1) c [] 0
  let indent := known.getD (max deepest (max (outer + 1) 1).toNat)
  let (l, c) ← blockLines literal indent (c.rest.length + 1) c ⟨[], [], empty, false⟩
  return (match chomping with
    | .strip => l.text
    | .clip => l.text ++ l.lastBreak
    | .keep => l.text ++ l.lastBreak ++ l.empty, c)

end Content

end FaultSweep.Yaml
