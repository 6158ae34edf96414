import FaultSweep.Json.Value
import FaultSweep.Text.Decimal
import FaultSweep.Text.Shortest
import FaultSweep.Word

/-!
# Numbers in JSON text

A numeral is cut into sign, whole part, fraction and exponent. A numeral without fraction and
exponent that fits 64 bits is a whole number. Every other one is a binary fraction: its digits are
gathered into a 64-bit significand, further digits of the whole part count as tens and further
digits of the fraction are dropped, and the significand is scaled by a power of ten once, so the
last bit may differ from correct rounding.
-/

namespace FaultSweep

structure Numeral where
  negative : Bool
  whole : List Char
  fraction : List Char
  /-- Sign (negative) and digits. -/
  exponent : Option (Bool × List Char)

namespace Numeral

/-- A run of digits that is not empty, and what follows it. -/
def digits? (cs : List Char) : Option (List Char × List Char) :=
  match cs.span Char.isDigit with
  | ([], _) => none
  | r => some r

def fraction? : List Char → Option (List Char × List Char)
  | '.' :: cs => digits? cs
  | cs => some ([], cs)

def exponent? : List Char → Option (Option (Bool × List Char))
  | [] => some none
  | c :: cs =>
    if c = 'e' ∨ c = 'E' then
      let (negative, ds) := match cs with
        | '+' :: r => (false, r)
        | '-' :: r => (true, r)
        | r => (false, r)
      match digits? ds with
      | some (ds, []) => some (some (negative, ds))
      | _ => none
    else none

/-- Cuts a numeral into its parts. A whole part of more than one digit does not start with zero. -/
def parse? (cs : List Char) : Option Numeral := do
  let (negative, cs) := match cs with
    | '-' :: r => (true, r)
    | r => (false, r)
  let (whole, cs) ← digits? cs
  if whole.length > 1 ∧ whole.head? = some '0' then none
  let (fraction, cs) ← fraction? cs
  let exponent ← exponent? cs
  return ⟨negative, whole, fraction, exponent⟩

/-- Appends digits to a significand while it stays a word; also the number of digits left
out, which are all from the first that does not fit. -/
def gather (s : Nat) : List Char → Nat × Nat
  | [] => (s, 0)
  | c :: cs =>
    let next := s * 10 + (c.toNat - '0'.toNat)
    if next < wordBound then gather next cs else (s, cs.length + 1)

/-- `f * 10 ^ power`, by one multiplication or division with a power of ten up to 308. A quotient
whose power is larger is first divided by `10 ^ 308`; after two such rounds it is zero. -/
def scaled? : Nat → Float → Int → Option Float
  | rounds, f, power =>
    if power.natAbs ≤ 308 then
      let ten := Float.ofScientific 1 false power.natAbs
      if 0 ≤ power then
        let r := f * ten
        if r.isInf then none else some r
      else some (f / ten)
    else if f == 0 then some f
    else if 0 ≤ power then none
    else match rounds with
      | 0 => some 0
      | rounds + 1 => scaled? rounds (f / Float.ofScientific 1 false 308) (power + 308)

def signed (negative : Bool) (f : Float) : Number :=
  .real (if negative then -f else f).toBits

/-- The number a numeral stands for; none if it is too large for a double. -/
def value? (n : Numeral) : Option Number :=
  let (s, left) := gather 0 n.whole
  if left = 0 ∧ n.fraction = [] ∧ n.exponent.isNone then
    if n.negative then
      if 0 < s ∧ s ≤ 9223372036854775808 then some (.int (-s))
      else some (signed true (UInt64.ofNat s).toFloat)
    else some (.int s)
  else
    let (s, dropped) := gather s n.fraction
    let power : Int := left - (n.fraction.length - dropped : Nat)
    let f := (UInt64.ofNat s).toFloat
    match n.exponent with
    | none => (scaled? 3 f power).map (signed n.negative)
    | some (negative, ds) =>
      let e := Nat.ofDigitChars 10 ds 0
      if 2147483648 ≤ e then
        if s ≠ 0 ∧ !negative then none else some (signed n.negative 0)
      else
        let power := if negative then power - e else power + e
        (scaled? 3 f power).map (signed n.negative)

end Numeral

namespace Number

/-- A binary fraction is written with the fewest digits: positionally, with at least one digit after
the point, when its first digit stands at a power of ten from -5 to 15, else with an exponent that
always has a sign. -/
def realText (bits : UInt64) : List Char :=
  let magnitude :=
    if bits.toNat % Shortest.signBit = 0 then ['0', '.', '0']
    else
      let d := Shortest.digits bits
      if -5 ≤ d.power ∧ d.power ≤ 15 then
        if d.power < 0 then
          '0' :: '.' :: (List.replicate (d.power.natAbs - 1) '0' ++ d.digits)
        else
          let whole := d.power.toNat + 1
          if d.digits.length ≤ whole then
            d.digits ++ List.replicate (whole - d.digits.length) '0' ++ ['.', '0']
          else d.digits.take whole ++ '.' :: d.digits.drop whole
      else
        let mantissa := match d.digits with
          | c :: [] => [c]
          | c :: cs => c :: '.' :: cs
          | [] => []
        let sign := if d.power < 0 then '-' else '+'
        mantissa ++ 'e' :: sign :: Decimal.digits d.power.natAbs
  if Shortest.isNegative bits then '-' :: magnitude else magnitude

def intText (i : Int) : List Char :=
  if i < 0 then '-' :: Decimal.digits i.natAbs else Decimal.digits i.natAbs

def text : Number → List Char
  | .int i => intText i
  | .real bits => realText bits

end Number

end FaultSweep
