/-!
# Text from bytes

A strict reader refuses bytes that are not UTF-8. Others cut them into characters and scraps, which
are the longest pieces that a character could start with and does not: one tells where the scraps
are, and a forgiving one puts U+FFFD in their place.
-/

namespace FaultSweep.Utf8

/-- What a file holds. -/
abbrev Bytes := ByteArray

def encode (s : String) : Bytes := s.toUTF8

def decode? (b : Bytes) : Option String := String.fromUTF8? b

/-- A character that has begun: its bits so far, the bytes still owed, and the range of the next
byte. -/
structure Pending where
  bits : Nat
  owed : Nat
  low : Nat
  high : Nat

/-- A character, or none for a scrap. -/
abbrev Piece := Option Char

/-- A byte between characters: a finished character, or one that has begun. -/
def first (b : Nat) : List Piece × Option Pending :=
  if b < 0x80 then ([some (Char.ofNat b)], none)
  else if 0xC2 ≤ b ∧ b ≤ 0xDF then ([], some ⟨b - 0xC0, 1, 0x80, 0xBF⟩)
  else if b = 0xE0 then ([], some ⟨0, 2, 0xA0, 0xBF⟩)
  else if b = 0xED then ([], some ⟨0xD, 2, 0x80, 0x9F⟩)
  else if 0xE1 ≤ b ∧ b ≤ 0xEF then ([], some ⟨b - 0xE0, 2, 0x80, 0xBF⟩)
  else if b = 0xF0 then ([], some ⟨0, 3, 0x90, 0xBF⟩)
  else if b = 0xF4 then ([], some ⟨4, 3, 0x80, 0x8F⟩)
  else if 0xF1 ≤ b ∧ b ≤ 0xF3 then ([], some ⟨b - 0xF0, 3, 0x80, 0xBF⟩)
  else ([none], none)

/-- The pieces that one more byte finishes, and what is pending after it. A byte that cannot go on
with a character ends it as a scrap and then counts as a first byte. -/
def step (pending : Option Pending) (byte : UInt8) : List Piece × Option Pending :=
  let b := byte.toNat
  match pending with
  | none => first b
  | some p =>
    if p.low ≤ b ∧ b ≤ p.high then
      let bits := p.bits * 64 + (b - 0x80)
      if p.owed = 1 then ([some (Char.ofNat bits)], none)
      else ([], some ⟨bits, p.owed - 1, 0x80, 0xBF⟩)
    else
      let (ps, next) := first b
      (none :: ps, next)

def cut (pending : Option Pending) : List UInt8 → List Piece
  | [] => if pending.isSome then [none] else []
  | b :: bs =>
    let (ps, next) := step pending b
    ps ++ cut next bs

/-- The pieces of a text are its characters. -/
def ofText (s : String) : List Piece := s.toList.map some

def pieces (b : Bytes) : List Piece :=
  match decode? b with
  | some s => ofText s
  | none => cut none b.toList

def replacement : Char := '\ufffd'

def forgiving (b : Bytes) : String :=
  String.ofList ((pieces b).map (·.getD replacement))

end FaultSweep.Utf8
