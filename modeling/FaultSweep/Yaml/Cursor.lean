/-!
# Places in YAML text

A cursor is a place in a text: what follows it, how many bytes of UTF-8 stand before it, and its
line and column. Columns count characters. Line breaks are five characters; a carriage return with a
line feed counts as one break.
-/

namespace FaultSweep.Yaml

def isBreak (c : Char) : Bool :=
  c = '\n' || c = '\r' || c = '\u0085' || c = '\u2028' || c = '\u2029'

def isBlank (c : Char) : Bool := c = ' ' || c = '\t'

/-- A blank, a line break or the end of the text. -/
def isGap : Option Char → Bool
  | some c => isBlank c || isBreak c
  | none => true

/-- The characters of names: of anchors, directives and tag handles. -/
def isNameChar (c : Char) : Bool := c.isAlphanum || c = '_' || c = '-'

/-- The characters a text may hold. -/
def isPrintable (c : Char) : Bool :=
  let n := c.toNat
  n == 0x09 || n == 0x0A || n == 0x0D || (0x20 ≤ n && n ≤ 0x7E) || n == 0x85 ||
    (0xA0 ≤ n && n ≤ 0xD7FF) || (0xE000 ≤ n && n ≤ 0xFFFD) || 0x10000 ≤ n

def byteOrderMark : Char := '\ufeff'

structure Cursor where
  rest : List Char
  offset : Nat
  line : Nat
  column : Nat

namespace Cursor

def ofText (cs : List Char) : Cursor := ⟨cs, 0, 0, 0⟩

def head? (c : Cursor) : Option Char := c.rest.head?

def get? (c : Cursor) (n : Nat) : Option Char := c.rest[n]?

/-- The bytes that characters take. -/
def width (cs : List Char) : Nat := cs.foldl (fun n c => n + c.utf8Size) 0

/-- Passes over a number of characters of the line. -/
def skip (c : Cursor) (n : Nat) : Cursor :=
  ⟨c.rest.drop n, c.offset + width (c.rest.take n), c.line, c.column + n⟩

/-- Passes over the characters of the line that satisfy `p`. -/
def skipWhile (c : Cursor) (p : Char → Bool) : Cursor := c.skip (c.rest.takeWhile p).length

/-- Passes over a line break, if there is one. The text of a break is a line feed, unless it is one
of the two separators, which stand for themselves. -/
def takeBreak (c : Cursor) : List Char × Cursor :=
  match c.rest with
  | '\r' :: '\n' :: r => (['\n'], ⟨r, c.offset + 2, c.line + 1, 0⟩)
  | ch :: r =>
    if isBreak ch then
      (if ch = '\u2028' ∨ ch = '\u2029' then [ch] else ['\n'],
        ⟨r, c.offset + ch.utf8Size, c.line + 1, 0⟩)
    else ([], c)
  | [] => ([], c)

def skipBreak (c : Cursor) : Cursor := c.takeBreak.2

/-- Passes over a comment. -/
def skipComment (c : Cursor) : Cursor :=
  if c.head? = some '#' then c.skipWhile (!isBreak ·) else c

/-- Three equal characters that stand alone at the beginning of a line. -/
def isRule (c : Cursor) (mark : Char) : Bool :=
  c.column = 0 && c.rest.take 3 == [mark, mark, mark] && isGap (c.get? 3)

/-- The mark that begins or ends a document. -/
def isDocumentMark (c : Cursor) : Bool := c.isRule '-' || c.isRule '.'

end Cursor

/-- What stands between two words of a scalar: blanks, or line breaks with their texts. -/
inductive Gap where
  | blanks (cs : List Char)
  | breaks (first more : List Char)

namespace Gap

def none : Gap := .blanks []

def isBroken : Gap → Bool
  | .blanks _ => false
  | .breaks .. => true

/-- Blanks stay. Of the breaks the first is folded: it becomes a blank, or nothing where more
follow. -/
def folded : Gap → List Char
  | .blanks cs => cs
  | .breaks first more =>
    if first = ['\n'] then (if more = [] then [' '] else more) else first ++ more

/-- Goes on with a gap. A tab in the indentation of a later line is refused below a column. -/
def extend (tabLimit : Nat) : Nat → Cursor → Gap → Option (Gap × Cursor)
  | 0, c, g => some (g, c)
  | fuel + 1, c, g =>
    match c.head? with
    | Option.none => some (g, c)
    | some ch =>
      if isBlank ch then
        match g with
        | .blanks cs => extend tabLimit fuel (c.skip 1) (.blanks (cs ++ [ch]))
        | .breaks .. =>
          if ch = '\t' ∧ c.column < tabLimit then Option.none
          else extend tabLimit fuel (c.skip 1) g
      else if isBreak ch then
        let (text, c) := c.takeBreak
        match g with
        | .blanks _ => extend tabLimit fuel c (.breaks text [])
        | .breaks first more => extend tabLimit fuel c (.breaks first (more ++ text))
      else some (g, c)

end Gap

end FaultSweep.Yaml
