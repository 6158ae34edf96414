/-!
# Shortest decimal digits of a binary fraction

A double is `m * 2 ^ q`. The reals that are rounded to it form an interval around it, with its ends
when `m` is even. For 1, 2, ... 17 digits the two neighbours of the value on that decimal grid are
tried; the first grid with a neighbour in the interval wins, and of two the nearer one.
-/

namespace FaultSweep.Shortest

/-- Digits `d₁d₂…` and the power of ten of the first: `d₁.d₂… * 10 ^ power`. -/
structure Digits where
  digits : List Char
  power : Int

/-- A positive double: significand, and power of two. -/
structure Binary where
  m : Nat
  q : Int
  deriving DecidableEq

/-- The weight of the first bit of a significand of full length, `2 ^ 52`. -/
def leadingBit : Nat := 4503599627370496

/-- The weight of the sign, `2 ^ 63`. -/
def signBit : Nat := 9223372036854775808

def fractionBits (bits : UInt64) : Nat := bits.toNat % leadingBit
def exponentBits (bits : UInt64) : Nat := bits.toNat / leadingBit % 2048
def isNegative (bits : UInt64) : Bool := signBit ≤ bits.toNat

def binary (bits : UInt64) : Binary :=
  if exponentBits bits = 0 then ⟨fractionBits bits, -1074⟩
  else ⟨leadingBit + fractionBits bits, exponentBits bits - 1075⟩

/-- A non-negative rational number. -/
structure Ratio where
  num : Nat
  den : Nat

def scale (n : Nat) (twos : Int) : Ratio :=
  if twos < 0 then ⟨n, Nat.pow 2 twos.natAbs⟩ else ⟨n * Nat.pow 2 twos.natAbs, 1⟩

/-- The power of ten of the first digit of a positive rational. -/
def leadingPower (r : Ratio) : Int :=
  if r.den ≤ r.num then (Nat.toDigits 10 (r.num / r.den)).length - 1
  else
    let n := (Nat.toDigits 10 (r.den / r.num)).length
    if r.den ≤ r.num * Nat.pow 10 (n - 1) then -((n : Int) - 1) else -(n : Int)

/-- `r` divided by `10 ^ power`. -/
def perPower (r : Ratio) (power : Int) : Ratio :=
  if power < 0 then ⟨r.num * Nat.pow 10 power.natAbs, r.den⟩
  else ⟨r.num, r.den * Nat.pow 10 power.natAbs⟩

/-- The multiple of `10 ^ power` nearest to the value among those in its interval, if there is one.
The interval and the value are in quarters of the last binary place. -/
def onGrid? (b : Binary) (power : Int) : Option Nat :=
  let unit (n : Nat) := perPower (scale n (b.q - 2)) power
  let low := if b.m = leadingBit ∧ b.q ≠ -1074 then 4 * b.m - 1 else 4 * b.m - 2
  let high := 4 * b.m + 2
  let inside (n : Nat) : Bool :=
    let l := unit low
    let h := unit high
    if b.m % 2 = 0 then l.num ≤ n * l.den && n * h.den ≤ h.num
    else l.num < n * l.den && n * h.den < h.num
  let v := unit (4 * b.m)
  let below := v.num / v.den
  match inside below, inside (below + 1) with
  | false, false => none
  | true, false => some below
  | false, true => some (below + 1)
  | true, true =>
    let down := v.num - below * v.den
    let up := (below + 1) * v.den - v.num
    if down < up ∨ (down = up ∧ below % 2 = 0) then some below else some (below + 1)

def search (b : Binary) (lead : Int) : Nat → Nat → Digits
  | 0, _ => ⟨['0'], 0⟩
  | rounds + 1, count =>
    let power := lead - count + 1
    match onGrid? b power with
    | some n =>
      let ds := Nat.toDigits 10 n
      let kept := (ds.reverse.dropWhile (· = '0')).reverse
      ⟨kept, power + ds.length - 1⟩
    | none => search b lead rounds (count + 1)

/-- The shortest digits that are rounded to the given positive double. -/
def digits (bits : UInt64) : Digits :=
  let b := binary bits
  search b (leadingPower (scale b.m b.q)) 17 1

end FaultSweep.Shortest
