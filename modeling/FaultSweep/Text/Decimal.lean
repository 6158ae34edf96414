/-!
# Decimal text

Whole numbers are written without sign and without leading zeros. They are read from a run of
ASCII digits, of any length; a reader with a bound refuses what does not fit instead of wrapping.
-/

namespace FaultSweep.Decimal

/-- The decimal digits of a number, most significant first. -/
def digits (n : Nat) : List Char := Nat.toDigits 10 n

def text (n : Nat) : String := String.ofList (digits n)

/-- The value of a run of digits; the empty run and every other character are refused. -/
def ofDigits? (cs : List Char) : Option Nat :=
  if cs ≠ [] ∧ cs.all Char.isDigit then some (Nat.ofDigitChars 10 cs 0) else none

@[simp] theorem ofDigits?_nil : ofDigits? [] = none := rfl

theorem digits_ne_nil (n : Nat) : digits n ≠ [] := Nat.toDigits_ne_nil

theorem isDigit_of_mem_digits {n : Nat} {c : Char} (h : c ∈ digits n) : c.isDigit :=
  Nat.isDigit_of_mem_toDigits (b := 10) (by decide) (by decide) h

@[simp] theorem ofDigits?_digits (n : Nat) : ofDigits? (digits n) = some n := by
  have hall : (digits n).all Char.isDigit = true :=
    List.all_eq_true.2 fun _ h => isDigit_of_mem_digits h
  simp only [ofDigits?, ne_eq, digits_ne_nil, not_false_eq_true, hall, and_self, ↓reduceIte]
  simp [digits, Nat.ofDigitChars_ten_toDigits]

theorem digits_injective {m n : Nat} (h : digits m = digits n) : m = n := by
  have := congrArg ofDigits? h
  simpa using this

/-- An unsigned number below `bound`, with an optional plus sign in front. -/
def unsigned? (bound : Nat) (cs : List Char) : Option Nat :=
  let body := if cs.head? = some '+' then cs.tail else cs
  match ofDigits? body with
  | some n => if n < bound then some n else none
  | none => none

/-- A number of at least `width` digits, filled with zeros on the left. -/
def padded (width n : Nat) : List Char :=
  List.replicate (width - (digits n).length) '0' ++ digits n

end FaultSweep.Decimal
