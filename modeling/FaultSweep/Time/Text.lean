import FaultSweep.Time.Instant
import FaultSweep.Text.Blank
import FaultSweep.Text.Decimal

/-!
# Instants as text

An instant is written `2024-05-01T10:00:00Z`, with 3, 6 or 9 digits of a second where they are
needed, and with a sign before a year that four digits do not hold. The reader is wider: blanks may
stand before each number and separator, most numbers may be short, further digits of a second are
dropped, and any offset of less than a day may follow.
-/

namespace FaultSweep.Instant

open Text

def two (n : Nat) : List Char := Decimal.padded 2 n

def yearText (y : Int) : List Char :=
  if 0 ≤ y ∧ y ≤ 9999 then Decimal.padded 4 y.natAbs
  else (if y < 0 then '-' else '+') :: Decimal.padded 4 y.natAbs

def fractionText (nano : Nat) : List Char :=
  if nano = 0 then []
  else if nano % 1000000 = 0 then '.' :: Decimal.padded 3 (nano / 1000000)
  else if nano % 1000 = 0 then '.' :: Decimal.padded 6 (nano / 1000)
  else '.' :: Decimal.padded 9 nano

def chars (t : Instant) : List Char :=
  yearText t.date.year ++ '-' :: two t.date.month ++ '-' :: two t.date.day ++
    'T' :: two t.hour ++ ':' :: two t.minute ++ ':' :: two t.second ++
      fractionText t.nano ++ ['Z']

def text (t : Instant) : String := String.ofList t.chars

/-- A number of at least one and at most `width` digits, and what follows it. -/
def number? (width : Nat) (cs : List Char) : Option (Nat × List Char) :=
  let ds := (cs.take width).takeWhile Char.isDigit
  if ds = [] then none else some (Nat.ofDigitChars 10 ds 0, cs.drop ds.length)

/-- A number of any length, below `2 ^ 63`. -/
def longNumber? (cs : List Char) : Option (Nat × List Char) := do
  let (n, rest) ← number? cs.length cs
  if n < 9223372036854775808 then some (n, rest) else none

def literal? (c : Char) : List Char → Option (List Char)
  | d :: cs => if d = c then some cs else none
  | [] => none

/-- A year: up to four digits, or a sign and any number of digits. -/
def year? (cs : List Char) : Option (Int × List Char) :=
  match cs with
  | '-' :: r => (longNumber? r).map fun (n, r) => (-(n : Int), r)
  | '+' :: r => (longNumber? r).map fun (n, r) => ((n : Int), r)
  | r => (number? 4 r).map fun (n, r) => ((n : Int), r)

/-- A number of one or two digits after blanks. -/
def short? (cs : List Char) : Option (Nat × List Char) := number? 2 (trimStart cs)

def date? (cs : List Char) : Option (Date × List Char) := do
  let (year, cs) ← year? (trimStart cs)
  let cs ← literal? '-' (trimStart cs)
  let (month, cs) ← short? cs
  let cs ← literal? '-' (trimStart cs)
  let (day, cs) ← short? cs
  return (⟨year, month, day⟩, cs)

/-- The nanoseconds of a fraction; digits after the ninth are passed over. -/
def fraction? (cs : List Char) : Option (Nat × List Char) :=
  match cs with
  | '.' :: r => do
    let (n, rest) ← number? 9 r
    let used := r.length - rest.length
    return (n * Nat.pow 10 (9 - used), rest.dropWhile Char.isDigit)
  | r => some (0, r)

/-- Two digits. -/
def pair? : List Char → Option (Nat × List Char)
  | a :: b :: cs =>
    if a.isDigit ∧ b.isDigit then some (Nat.ofDigitChars 10 [a, b] 0, cs) else none
  | _ => none

def signedOffset? (negative : Bool) (cs : List Char) : Option (Int × List Char) := do
  let (hours, cs) ← pair? cs
  let (minutes, cs) ← pair? (cs.dropWhile fun c => c = ':' || isBlank c)
  if 60 ≤ minutes then none
  let total : Int := hours * 60 + minutes
  if 1440 ≤ total then none
  return (if negative then -total else total, cs)

/-- The minutes by which a local clock is ahead: `UTC` or `Z` in either case, or a sign, hours and
minutes. -/
def offset? (cs : List Char) : Option (Int × List Char) :=
  if (cs.take 3).map Char.toUpper = ['U', 'T', 'C'] then some (0, cs.drop 3)
  else match cs with
    | c :: r =>
      if c = 'Z' ∨ c = 'z' then some (0, r)
      else if c = '+' then signedOffset? false r
      else if c = '-' ∨ c = '\u2212' then signedOffset? true r
      else none
    | [] => none

def separator? : List Char → Option (List Char)
  | c :: cs => if c = 'T' ∨ c = 't' ∨ c = ' ' then some cs else none
  | [] => none

def ofChars? (cs : List Char) : Option Instant := do
  let (date, cs) ← date? cs
  let cs ← separator? cs
  let (hour, cs) ← short? cs
  let cs ← literal? ':' (trimStart cs)
  let (minute, cs) ← short? cs
  let cs ← literal? ':' (trimStart cs)
  let (second, cs) ← short? cs
  let (nano, cs) ← fraction? cs
  let (ahead, cs) ← offset? (trimStart cs)
  let shown : Instant := ⟨date, hour, minute, second, nano⟩
  let t := shown.ofLocal ahead
  if trimStart cs = [] ∧ shown.Valid ∧ t.Valid then some t else none

def ofText? (s : String) : Option Instant := ofChars? s.toList

end FaultSweep.Instant
