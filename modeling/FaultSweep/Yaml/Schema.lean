/-!
# Plain scalars

What a scalar without quotes stands for: nothing, a truth value, a number, or else its own text.
Whole numbers may be written to the bases 16, 8 and 2; a run of digits that begins with zero is a
text.
-/

namespace FaultSweep.Yaml

/-- What a scalar stands for. -/
inductive Meaning where
  | null
  | bool (b : Bool)
  | int (i : Int)
  | real
  | text
  deriving DecidableEq

namespace Schema

def isNull (s : String) : Bool := ["null", "Null", "NULL", "~"].contains s

def bool? (s : String) : Option Bool :=
  if ["true", "True", "TRUE"].contains s then some true
  else if ["false", "False", "FALSE"].contains s then some false
  else none

def dropSign (cs : List Char) : List Char :=
  match cs with
  | '+' :: r => r
  | '-' :: r => r
  | r => r

/-- Several digits of which the first is zero. -/
def isPadded (cs : List Char) : Bool :=
  let ds := dropSign cs
  1 < ds.length && ds.head? = some '0' && ds.all Char.isDigit

def digit? (base : Nat) (c : Char) : Option Nat :=
  let n :=
    if c.isDigit then c.toNat - 48
    else if 'a' ≤ c ∧ c ≤ 'z' then c.toNat - 87
    else if 'A' ≤ c ∧ c ≤ 'Z' then c.toNat - 55
    else base
  if n < base then some n else none

def digits? (base : Nat) (cs : List Char) : Option Nat :=
  if cs = [] then none else cs.foldlM (fun n c => (digit? base c).map (n * base + ·)) 0

/-- The digits of a number and their base. -/
def based : List Char → Nat × List Char
  | '0' :: 'x' :: r => (16, r)
  | '0' :: 'o' :: r => (8, r)
  | '0' :: 'b' :: r => (2, r)
  | r => (10, r)

/-- A number without a minus sign, below a bound. -/
def natural? (bound : Nat) (cs : List Char) : Option Nat :=
  let body := match cs with
    | '+' :: r => r
    | r => r
  let (base, ds) := based body
  if base = 10 ∧ isPadded cs then none
  else (digits? base ds).bind fun n => if n < bound then some n else none

/-- A number with a minus sign, not below the negative bound. -/
def negative? (bound : Nat) : List Char → Option Int
  | '-' :: r =>
    let (base, ds) := based r
    if base = 10 ∧ isPadded r then none
    else (digits? base ds).bind fun n => if n ≤ bound then some (-n) else none
  | _ => none

/-- A whole number of at most 128 bits. -/
def int? (cs : List Char) : Option Int :=
  match natural? (Nat.pow 2 128) cs with
  | some n => some n
  | none => negative? (Nat.pow 2 127) cs

def infinities : List String :=
  [".inf", ".Inf", ".INF", "+.inf", "+.Inf", "+.INF", "-.inf", "-.Inf", "-.INF"]

def notNumbers : List String := [".nan", ".NaN", ".NAN"]

/-- The parts of a decimal number: digits of the whole part and of the fraction, and the exponent.
One of the two parts may be empty, but not both. -/
def decimal? (cs : List Char) : Option (List Char × List Char × Int) :=
  let whole := cs.takeWhile Char.isDigit
  let (fraction, rest) := match cs.drop whole.length with
    | '.' :: r => (r.takeWhile Char.isDigit, r.dropWhile Char.isDigit)
    | r => ([], r)
  if whole = [] ∧ fraction = [] then none
  else match rest with
  | [] => some (whole, fraction, 0)
  | c :: r =>
    if c = 'e' ∨ c = 'E' then
      (digits? 10 (dropSign r)).map fun n =>
        (whole, fraction, if r.head? = some '-' then -n else n)
    else none

/-- Whether a number is rounded to a finite double. -/
def isFinite (whole fraction : List Char) (exponent : Int) : Bool :=
  let m := Nat.ofDigitChars 10 (whole ++ fraction) 0
  let e := exponent - fraction.length
  if m = 0 ∨ e < -(whole.length + fraction.length : Nat) then true
  else if 400 < e then false
  else
    let limit := Nat.pow 2 1024 - Nat.pow 2 970
    if 0 ≤ e then m * Nat.pow 10 e.toNat < limit else m < limit * Nat.pow 10 e.natAbs

def isReal (s : String) : Bool :=
  infinities.contains s || notNumbers.contains s ||
    (let cs := s.toList
    let body := match cs with
      | '+' :: r => if r.head? = some '+' ∨ r.head? = some '-' then [] else r
      | '-' :: r => r
      | r => r
    match decimal? body with
    | some (whole, fraction, exponent) => isFinite whole fraction exponent
    | none => false)

/-- What a scalar without quotes stands for. -/
def meaning (s : String) : Meaning :=
  if s = "" ∨ isNull s then .null
  else match bool? s with
  | some b => .bool b
  | none => match int? s.toList with
    | some i => .int i
    | none => if !isPadded s.toList ∧ isReal s then .real else .text

end Schema

end FaultSweep.Yaml
