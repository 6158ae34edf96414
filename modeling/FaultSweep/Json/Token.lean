import FaultSweep.Json.Numeral
import FaultSweep.Text.Utf8

/-!
# Tokens of JSON text

The scanner is a machine that takes one character at a time, or a scrap of bytes that are none. A
text token that holds a scrap or whose escapes name no character, and a number token that is too
large for a double, stay tokens without content: a place that is not read may hold them.
-/

namespace FaultSweep.Json

inductive Token where
  | null
  | bool (b : Bool)
  | num (n : Option Number)
  | str (s : Option String)
  | openArr
  | closeArr
  | openObj
  | closeObj
  | comma
  | colon

/-- Where the scanner stands. The content of a text is kept in reverse, and none once it can be no
text; `high` is the first half of a surrogate pair whose second half must follow at once. -/
inductive Scan where
  | between
  | word (owed : List Char) (token : Token)
  | numeral (seen : List Char)
  | text (seen : Option (List Char)) (high : Option Nat)
  | escape (seen : Option (List Char)) (high : Option Nat)
  | code (seen : Option (List Char)) (high : Option Nat) (value : Nat) (owed : Nat)

namespace Scan

def isSpace (c : Char) : Bool := c = ' ' || c = '\n' || c = '\t' || c = '\r'

def isNumeral (c : Char) : Bool :=
  c.isDigit || c = '-' || c = '+' || c = '.' || c = 'e' || c = 'E'

def hexValue? (c : Char) : Option Nat :=
  if c.isDigit then some (c.toNat - 48)
  else if 'a' ≤ c ∧ c ≤ 'f' then some (c.toNat - 87)
  else if 'A' ≤ c ∧ c ≤ 'F' then some (c.toNat - 55)
  else none

/-- Adds a character to a text; it may not come between the halves of a pair. -/
def push (seen : Option (List Char)) (high : Option Nat) (c : Char) : Option (List Char) :=
  if high.isSome then none else seen.map (c :: ·)

/-- Adds a four-digit code to a text. -/
def pushCode (seen : Option (List Char)) (high : Option Nat) (v : Nat) : Scan :=
  match high with
  | some h =>
    if 0xDC00 ≤ v ∧ v ≤ 0xDFFF then
      .text (seen.map (Char.ofNat (0x10000 + (h - 0xD800) * 0x400 + (v - 0xDC00)) :: ·)) none
    else .text none none
  | none =>
    if 0xD800 ≤ v ∧ v ≤ 0xDBFF then .text seen (some v)
    else if 0xDC00 ≤ v ∧ v ≤ 0xDFFF then .text none none
    else .text (seen.map (Char.ofNat v :: ·)) none

def numeralToken? (seen : List Char) : Option Token :=
  (Numeral.parse? seen.reverse).map fun n => .num n.value?

/-- A character between tokens. -/
def start (c : Char) : Option (List Token × Scan) :=
  match c with
  | '[' => some ([.openArr], .between)
  | ']' => some ([.closeArr], .between)
  | '\x7b' => some ([.openObj], .between)
  | '\x7d' => some ([.closeObj], .between)
  | ',' => some ([.comma], .between)
  | ':' => some ([.colon], .between)
  | '\x22' => some ([], .text (some []) none)
  | 'n' => some ([], .word ['u', 'l', 'l'] .null)
  | 't' => some ([], .word ['r', 'u', 'e'] (.bool true))
  | 'f' => some ([], .word ['a', 'l', 's', 'e'] (.bool false))
  | _ =>
    if isSpace c then some ([], .between)
    else if c.isDigit ∨ c = '-' then some ([], .numeral [c])
    else none

def step : Scan → Char → Option (List Token × Scan)
  | .between, c => start c
  | .word owed t, c =>
    match owed with
    | [] => none
    | d :: ds =>
      if c = d then
        if ds = [] then some ([t], .between) else some ([], .word ds t)
      else none
  | .numeral seen, c =>
    if isNumeral c then some ([], .numeral (c :: seen))
    else do
      let t ← numeralToken? seen
      let (ts, s) ← start c
      return (t :: ts, s)
  | .text seen high, c =>
    if c = '\x22' then
      let s := if high.isSome then none else seen.map fun cs => String.ofList cs.reverse
      some ([.str s], .between)
    else if c = '\x5c' then some ([], .escape seen high)
    else if c.toNat < 0x20 then none
    else some ([], .text (push seen high c) none)
  | .escape seen high, c =>
    match c with
    | '\x22' => some ([], .text (push seen high c) none)
    | '\x5c' => some ([], .text (push seen high c) none)
    | '/' => some ([], .text (push seen high c) none)
    | 'b' => some ([], .text (push seen high '\x08') none)
    | 'f' => some ([], .text (push seen high '\x0c') none)
    | 'n' => some ([], .text (push seen high '\n') none)
    | 'r' => some ([], .text (push seen high '\r') none)
    | 't' => some ([], .text (push seen high '\t') none)
    | 'u' => some ([], .code seen high 0 4)
    | _ => none
  | .code seen high value owed, c =>
    match hexValue? c with
    | none => none
    | some d =>
      let v := value * 16 + d
      if owed ≤ 1 then some ([], pushCode seen high v)
      else some ([], .code seen high v (owed - 1))

/-- A scrap can only stand in a text, where it is no escape or part of one. -/
def stepPiece (s : Scan) : Utf8.Piece → Option (List Token × Scan)
  | some c => s.step c
  | none =>
    match s with
    | .text _ _ => some ([], .text none none)
    | _ => none

/-- What the end of the text leaves. -/
def finish : Scan → Option (List Token)
  | .between => some []
  | .numeral seen => (numeralToken? seen).map ([·])
  | _ => none

def run : Scan → List Utf8.Piece → Option (List Token)
  | s, [] => s.finish
  | s, p :: ps =>
    match s.stepPiece p with
    | none => none
    | some (ts, s) => (run s ps).map (ts ++ ·)

end Scan

/-- The tokens of bytes that were cut into pieces. -/
def tokens? (ps : List Utf8.Piece) : Option (List Token) := Scan.run .between ps

end FaultSweep.Json
