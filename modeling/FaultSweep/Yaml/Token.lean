import FaultSweep.Text.Utf8
import FaultSweep.Yaml.Content

/-!
# Tokens of YAML text

Indentation becomes tokens that open and close collections. A key need not be marked: what may turn
out to be a key is remembered until its line ends or 1024 bytes have passed, and when a colon
follows in time the marks are put in front of it.
-/

namespace FaultSweep.Yaml

inductive Token where
  | version (major minor : Nat)
  | handle (name : String) (stem : List Utf8.Piece)
  | documentStart
  | documentEnd
  | sequenceStart
  | mappingStart
  | blockEnd
  | flowSequenceStart
  | flowSequenceEnd
  | flowMappingStart
  | flowMappingEnd
  | entry
  | separator
  | key
  | value
  | alias (name : String)
  | anchor (name : String)
  | tag (handle : String) (suffix : List Utf8.Piece)
  | scalar (style : Style) (content : String)
  | streamEnd
  deriving DecidableEq

/-- Something that a colon may still make a key. -/
structure OpenKey where
  /-- It stands where only a key can stand. -/
  required : Bool
  /-- The number of tokens in front of it. -/
  place : Nat
  start : Cursor

/-- Where the scanner stands. -/
structure Scan where
  here : Cursor
  tokens : Array Token
  /-- Whether a key may begin here. -/
  keyAllowed : Bool
  /-- The column of the innermost block collection, -1 outside of all, and those around it. -/
  indent : Int
  outer : List Int
  /-- What may become a key in each flow collection, the innermost first, and outside of them. -/
  keys : List (Option OpenKey)

namespace Scan

def start (cs : List Char) : Scan := ⟨.ofText cs, #[], true, -1, [], [none]⟩

def inFlow (s : Scan) : Bool := 1 < s.keys.length

def emit (s : Scan) (t : Token) : Scan := { s with tokens := s.tokens.push t }

def skip (s : Scan) (n : Nat) : Scan := { s with here := s.here.skip n }

def allow (s : Scan) (b : Bool) : Scan := { s with keyAllowed := b }

/-! ### Between tokens -/

/-- Passes over blanks, comments and line breaks, and over one byte order mark where a line begins.
Tabs are no indentation. -/
def toNextToken : Nat → Scan → Scan
  | 0, s => s
  | fuel + 1, s =>
    let c := s.here
    let c := if c.column = 0 ∧ c.head? = some byteOrderMark then c.skip 1 else c
    let c := c.skipWhile fun ch => ch = ' ' || (ch = '\t' && (s.inFlow || !s.keyAllowed))
    let c := c.skipComment
    if c.head?.any isBreak then
      toNextToken fuel { s with here := c.skipBreak, keyAllowed := s.keyAllowed || !s.inFlow }
    else { s with here := c }

/-! ### Keys without a mark -/

/-- Gives up what can no longer become a key; none if it had to become one. -/
def expire (s : Scan) : Option Scan := do
  let keys ← s.keys.mapM fun k => match k with
    | none => some none
    | some k =>
      if k.start.line < s.here.line ∨ k.start.offset + 1024 < s.here.offset then
        if k.required then none else some none
      else some (some k)
  return { s with keys := keys }

/-- Gives up the innermost candidate. -/
def dropKey (s : Scan) : Option Scan :=
  match s.keys with
  | some k :: ks => if k.required then none else some { s with keys := none :: ks }
  | _ => some s

/-- Remembers that a key may begin here. -/
def saveKey (s : Scan) : Option Scan :=
  if s.keyAllowed then do
    let s ← s.dropKey
    let required := !s.inFlow && decide (s.indent = s.here.column)
    return { s with keys := some ⟨required, s.tokens.size, s.here⟩ :: s.keys.tail }
  else some s

/-! ### Indentation -/

/-- Opens a block collection at a column if it is deeper than the innermost one; its token goes in
front of the one numbered `place`. -/
def openBlock (s : Scan) (column place : Nat) (t : Token) : Scan :=
  if !s.inFlow ∧ s.indent < column then
    { s with
      outer := s.indent :: s.outer
      indent := column
      tokens := s.tokens.insertIdxIfInBounds place t }
  else s

/-- Closes the block collections that are deeper than a column. -/
def closeBlocks (column : Int) : List Int → Scan → Scan
  | [], s => s
  | i :: is, s =>
    if column < s.indent then
      closeBlocks column is ({ s with indent := i, outer := is }.emit .blockEnd)
    else s

def unroll (s : Scan) (column : Int) : Scan :=
  if s.inFlow then s else closeBlocks column s.outer s

/-! ### Properties and directives -/

/-- The name of an anchor or alias after its indicator. -/
def anchorName (c : Cursor) : Option (String × Cursor) :=
  let name := c.rest.takeWhile isNameChar
  let c := c.skip name.length
  let ends := isGap c.head? || c.head?.any "?:,]\x7d%@\x60".toList.contains
  if name ≠ [] ∧ ends then some (String.ofList name, c) else none

def isUriChar (verbatim : Bool) (c : Char) : Bool :=
  isNameChar c || ";/?:@&=+$.%!~*'()".toList.contains c || (verbatim && ",[]".toList.contains c)

/-- The octet of an escape `%41`. -/
def octet? : List Char → Option Nat
  | '%' :: a :: b :: _ => do
    let h ← Content.hexValue? a
    let l ← Content.hexValue? b
    return h * 16 + l
  | _ => none

def octetWidth? (b : Nat) : Option Nat :=
  if b < 0x80 then some 1
  else if 0xC0 ≤ b ∧ b < 0xE0 then some 2
  else if 0xE0 ≤ b ∧ b < 0xF0 then some 3
  else if 0xF0 ≤ b ∧ b < 0xF8 then some 4
  else none

def laterOctets : Nat → Cursor → List UInt8 → Option (List UInt8 × Cursor)
  | 0, c, bs => some (bs.reverse, c)
  | n + 1, c, bs => do
    let b ← octet? c.rest
    if 0x80 ≤ b ∧ b < 0xC0 then laterOctets n (c.skip 3) (UInt8.ofNat b :: bs) else none

/-- The character that a run of escapes stands for. What has the form of one need not be one. -/
def escapedChar (c : Cursor) : Option (List Utf8.Piece × Cursor) := do
  let b ← octet? c.rest
  let width ← octetWidth? b
  let (bs, c) ← laterOctets (width - 1) (c.skip 3) [UInt8.ofNat b]
  return (Utf8.pieces ⟨bs.toArray⟩, c)

def uriPieces (verbatim : Bool) :
    Nat → Cursor → List Utf8.Piece → Option (List Utf8.Piece × Cursor)
  | 0, c, acc => some (acc, c)
  | fuel + 1, c, acc =>
    match c.head? with
    | none => some (acc, c)
    | some ch =>
      if ch = '%' then do
        let (ps, c) ← escapedChar c
        uriPieces verbatim fuel c (acc ++ ps)
      else if isUriChar verbatim ch then uriPieces verbatim fuel (c.skip 1) (acc ++ [some ch])
      else some (acc, c)

/-- A text of the characters of an address. It goes on from the start of one, of which the
exclamation mark is left out, and is not empty with it. An escaped NUL ends its content. -/
def uri (verbatim : Bool) (head : List Char) (c : Cursor) : Option (List Utf8.Piece × Cursor) := do
  let (ps, next) ← uriPieces verbatim c.rest.length c (head.tail.map some)
  if head = [] ∧ next.offset = c.offset then none
  return (ps.takeWhile (· ≠ some '\x00'), next)

/-- An exclamation mark, a name, and the exclamation mark after it if there is one. -/
def tagHandle (c : Cursor) : Option (List Char × Cursor) :=
  match c.rest with
  | '!' :: cs =>
    let name := cs.takeWhile isNameChar
    if (cs.drop name.length).head? = some '!' then
      some ('!' :: (name ++ ['!']), c.skip (name.length + 2))
    else some ('!' :: name, c.skip (name.length + 1))
  | _ => none

/-- Whether a handle ends in the exclamation mark of a pair. -/
def isPaired (handle : List Char) : Bool := 1 < handle.length && handle.getLast? = some '!'

/-- The handle and suffix of a tag. -/
def tagParts (c : Cursor) : Option (String × List Utf8.Piece × Cursor) :=
  if c.get? 1 = some '<' then do
    let (suffix, c) ← uri true [] (c.skip 2)
    if c.head? = some '>' then some ("", suffix, c.skip 1) else none
  else do
    let (handle, c) ← tagHandle c
    if isPaired handle then
      let (suffix, c) ← uri false [] c
      return (String.ofList handle, suffix, c)
    else
      let (suffix, c) ← uri false handle c
      return if suffix = [] then ("", [some '!'], c) else ("!", suffix, c)

def versionNumber (c : Cursor) : Option (Nat × Cursor) :=
  let ds := c.rest.takeWhile Char.isDigit
  if ds = [] ∨ 9 < ds.length then none
  else some (Nat.ofDigitChars 10 ds 0, c.skip ds.length)

def directiveToken (name : String) (c : Cursor) : Option (Token × Cursor) := do
  let c := c.skipWhile isBlank
  if name = "YAML" then
    let (major, c) ← versionNumber c
    if c.head? ≠ some '.' then none
    let (minor, c) ← versionNumber (c.skip 1)
    return (.version major minor, c)
  else if name = "TAG" then
    let (handle, c) ← tagHandle c
    if handle ≠ ['!'] ∧ !isPaired handle then none
    if !c.head?.any isBlank then none
    let (stem, c) ← uri true [] (c.skipWhile isBlank)
    if !isGap c.head? then none
    return (.handle (String.ofList handle) stem, c)
  else none

/-- A directive after its percent sign, with its line. -/
def directive (c : Cursor) : Option (Token × Cursor) := do
  let name := c.rest.takeWhile isNameChar
  let c := c.skip name.length
  if name = [] ∨ !isGap c.head? then none
  let (t, c) ← directiveToken (String.ofList name) c
  let c := (c.skipWhile isBlank).skipComment
  if !c.head?.all isBreak then none
  return (t, c.skipBreak)

/-! ### Tokens -/

def fetchEnd (s : Scan) : Option Scan := do
  let s ← (s.unroll (-1)).dropKey
  return (s.allow false).emit .streamEnd

def fetchDirective (s : Scan) : Option Scan := do
  let s ← (s.unroll (-1)).dropKey
  let (t, c) ← directive (s.here.skip 1)
  return ({ s with here := c }.allow false).emit t

def fetchDocumentMark (s : Scan) (t : Token) : Option Scan := do
  let s ← (s.unroll (-1)).dropKey
  return ((s.allow false).skip 3).emit t

def fetchFlowStart (s : Scan) (t : Token) : Option Scan := do
  let s ← s.saveKey
  return (({ s with keys := none :: s.keys }.allow true).skip 1).emit t

def fetchFlowEnd (s : Scan) (t : Token) : Option Scan := do
  let s ← s.dropKey
  let keys := if s.inFlow then s.keys.tail else s.keys
  return (({ s with keys := keys }.allow false).skip 1).emit t

def fetchSeparator (s : Scan) : Option Scan := do
  let s ← s.dropKey
  return ((s.allow true).skip 1).emit .separator

def fetchEntry (s : Scan) : Option Scan := do
  if !s.inFlow ∧ !s.keyAllowed then none
  let s ← (s.openBlock s.here.column s.tokens.size .sequenceStart).dropKey
  return ((s.allow true).skip 1).emit .entry

def fetchKey (s : Scan) : Option Scan := do
  if !s.inFlow ∧ !s.keyAllowed then none
  let s ← (s.openBlock s.here.column s.tokens.size .mappingStart).dropKey
  return ((s.allow (!s.inFlow)).skip 1).emit .key

def fetchValue (s : Scan) : Option Scan :=
  match s.keys with
  | some k :: ks =>
    let s := { s with keys := none :: ks, tokens := s.tokens.insertIdxIfInBounds k.place .key }
    let s := s.openBlock k.start.column k.place .mappingStart
    some (((s.allow false).skip 1).emit .value)
  | _ => do
    if !s.inFlow ∧ !s.keyAllowed then none
    let s := s.openBlock s.here.column s.tokens.size .mappingStart
    return ((s.allow (!s.inFlow)).skip 1).emit .value

def fetchAnchor (s : Scan) (token : String → Token) : Option Scan := do
  let s ← s.saveKey
  let (name, c) ← anchorName (s.here.skip 1)
  return ({ s with here := c }.allow false).emit (token name)

def fetchTag (s : Scan) : Option Scan := do
  let s ← s.saveKey
  let (handle, suffix, c) ← tagParts s.here
  if !isGap c.head? ∧ !(s.inFlow ∧ c.head? = some ',') then none
  return ({ s with here := c }.allow false).emit (.tag handle suffix)

def fetchBlockScalar (s : Scan) (literal : Bool) : Option Scan := do
  let s ← s.dropKey
  let (cs, c) ← Content.block literal s.indent (s.here.skip 1)
  let style := if literal then Style.literal else .folded
  return ({ s with here := c }.allow true).emit (.scalar style (String.ofList cs))

def fetchQuoted (s : Scan) (single : Bool) : Option Scan := do
  let s ← s.saveKey
  let c := s.here.skip 1
  let (cs, c) ← Content.quoted single (c.rest.length + 1) c []
  let style := if single then Style.singleQuoted else .doubleQuoted
  return ({ s with here := c }.allow false).emit (.scalar style (String.ofList cs))

def fetchPlain (s : Scan) : Option Scan := do
  let s ← s.saveKey
  let (cs, c, broken) ←
    Content.plain s.inFlow (s.indent + 1).toNat (s.here.rest.length + 1) s.here [] .none
  return ({ s with here := c }.allow broken).emit (.scalar .plain (String.ofList cs))

/-- Whether a plain scalar may begin with a character, by the one after it. -/
def beginsPlain (inFlow : Bool) (c : Char) (next : Option Char) : Bool :=
  if c = '-' then !next.any isBlank
  else if c = '?' ∨ c = ':' then !inFlow && !isGap next
  else !isBlank c && !Content.isFlowIndicator c && !"#&*!|>%@".toList.contains c &&
    c ≠ '\x27' && c ≠ '\x22' && c ≠ '\x60'

/-- Scans the token that begins at a character. -/
def fetch (s : Scan) (c : Char) : Option Scan :=
  let next := s.here.get? 1
  if s.here.column = 0 ∧ c = '%' then s.fetchDirective
  else if s.here.isRule '-' then s.fetchDocumentMark .documentStart
  else if s.here.isRule '.' then s.fetchDocumentMark .documentEnd
  else if c = '[' then s.fetchFlowStart .flowSequenceStart
  else if c = '\x7b' then s.fetchFlowStart .flowMappingStart
  else if c = ']' then s.fetchFlowEnd .flowSequenceEnd
  else if c = '\x7d' then s.fetchFlowEnd .flowMappingEnd
  else if c = ',' then s.fetchSeparator
  else if c = '-' ∧ isGap next then s.fetchEntry
  else if c = '?' ∧ (s.inFlow ∨ isGap next) then s.fetchKey
  else if c = ':' ∧ (s.inFlow ∨ isGap next) then s.fetchValue
  else if c = '*' then s.fetchAnchor .alias
  else if c = '&' then s.fetchAnchor .anchor
  else if c = '!' then s.fetchTag
  else if c = '|' ∧ !s.inFlow then s.fetchBlockScalar true
  else if c = '>' ∧ !s.inFlow then s.fetchBlockScalar false
  else if c = '\x27' then s.fetchQuoted true
  else if c = '\x22' then s.fetchQuoted false
  else if beginsPlain s.inFlow c next then s.fetchPlain
  else none

/-- Scans to the end. Every token is longer than nothing. -/
def run : Nat → Scan → Option (Array Token)
  | 0, _ => none
  | fuel + 1, s => do
    let s := s.toNextToken (s.here.rest.length + 1)
    let s ← s.expire
    let s := s.unroll s.here.column
    match s.here.head? with
    | none => return (← s.fetchEnd).tokens
    | some c => run fuel (← s.fetch c)

end Scan

/-- The tokens of a text. -/
def tokens? (text : String) : Option (Array Token) :=
  let cs := text.toList
  if cs.all isPrintable then Scan.run (cs.length + 1) (.start cs) else none

end FaultSweep.Yaml
