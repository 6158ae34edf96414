import Mathlib
import FaultSweep.Text.Decimal

/-!
# Digits

What the readers of numbers need to know of the digits that are written: how many there are, which
comes first, and what they are worth.
-/

namespace FaultSweep.Decimal

/-- What a run of digits is worth. -/
abbrev worth (cs : List Char) : Nat := Nat.ofDigitChars 10 cs 0

@[simp] theorem worth_digits (n : Nat) : worth (digits n) = n := Nat.ofDigitChars_ten_toDigits

theorem worth_append (cs ds : List Char) :
    worth (cs ++ ds) = 10 ^ ds.length * worth cs + worth ds := by
  rw [worth, Nat.ofDigitChars_append, Nat.ofDigitChars_eq_ofDigitChars_zero]

@[simp] theorem worth_zeros (k : Nat) : worth (List.replicate k '0') = 0 := by
  rw [worth, Nat.ofDigitChars_replicate_zero, Nat.mul_zero]

theorem digits_concat {n : Nat} (h : 10 ≤ n) :
    digits n = digits (n / 10) ++ [Nat.digitChar (n % 10)] :=
  Nat.toDigits_of_base_le (by decide) h

theorem digits_small {n : Nat} (h : n < 10) : digits n = [Nat.digitChar n] :=
  Nat.toDigits_of_lt_base h

/-- Only zero starts with the digit zero. -/
theorem head?_digits {n : Nat} (h : 0 < n) : (digits n).head? ≠ some '0' := by
  induction n using Nat.strong_induction_on with
  | _ n ih =>
    by_cases hn : n < 10
    · rw [digits_small hn]
      interval_cases n <;> decide
    · have hten : 10 ≤ n := by omega
      rw [digits_concat hten, List.head?_append_of_ne_nil _ (digits_ne_nil _)]
      exact ih (n / 10) (by omega) (by omega)

theorem length_digits_le {n width : Nat} (hw : 0 < width) (h : n < 10 ^ width) :
    (digits n).length ≤ width :=
  (Nat.length_toDigits_le_iff (by decide) hw).2 h

theorem length_padded {width n : Nat} (hw : 0 < width) (h : n < 10 ^ width) :
    (padded width n).length = width := by
  have hle := length_digits_le hw h
  simp only [padded, List.length_append, List.length_replicate]
  omega

@[simp] theorem worth_padded (width n : Nat) : worth (padded width n) = n := by
  simp [padded, worth_append, worth]

theorem isDigit_of_mem_padded {width n : Nat} {c : Char} (h : c ∈ padded width n) :
    c.isDigit := by
  rcases List.mem_append.1 h with h | h
  · rw [List.eq_of_mem_replicate h]
    decide
  · exact isDigit_of_mem_digits h

theorem padded_ne_nil (width n : Nat) : padded width n ≠ [] := by
  simp [padded, digits_ne_nil]

theorem lt_of_unsigned? {bound n : Nat} {cs : List Char} (h : unsigned? bound cs = some n) :
    n < bound := by
  unfold unsigned? at h
  generalize (if cs.head? = some '+' then cs.tail else cs) = body at h
  dsimp only at h
  split at h
  · split at h
    · next hlt =>
      cases h
      exact hlt
    · cases h
  · cases h

theorem worth_cons (c : Char) (cs : List Char) :
    worth (c :: cs) = 10 ^ cs.length * (c.toNat - '0'.toNat) + worth cs := by
  rw [worth, Nat.ofDigitChars_cons, Nat.ofDigitChars_eq_ofDigitChars_zero, Nat.mul_zero,
    Nat.zero_add]

theorem worth_lt {cs : List Char} (h : ∀ c ∈ cs, c.isDigit = true) :
    worth cs < 10 ^ cs.length := by
  induction cs with
  | nil => decide
  | cons c cs ih =>
    have hc : c.toNat - '0'.toNat ≤ 9 :=
      Nat.sub_le_of_le_add (Char.isDigit_iff_toNat.1 (h c (by simp))).2
    have hcs := ih fun d hd => h d (by simp [hd])
    have hdigit := Nat.mul_le_mul_left (10 ^ cs.length) hc
    rw [worth_cons, List.length_cons, Nat.pow_succ]
    omega

/-- A number whose first digit is not zero has as many places as digits. -/
theorem le_worth {c : Char} {cs : List Char} (hc : c.isDigit = true) (hzero : c ≠ '0') :
    10 ^ cs.length ≤ worth (c :: cs) := by
  have hne : '0'.toNat ≠ c.toNat := by
    intro h
    exact hzero (Char.toNat_inj.1 h.symm)
  have hdigit : 1 ≤ c.toNat - '0'.toNat :=
    Nat.sub_pos_of_lt (Nat.lt_of_le_of_ne (Char.isDigit_iff_toNat.1 hc).1 hne)
  have hfirst := Nat.mul_le_mul_left (10 ^ cs.length) hdigit
  rw [worth_cons]
  omega

/-- `n * 10 ^ power` is at most `bound`. -/
def AtMost (n : Nat) (power : Int) (bound : Nat) : Prop :=
  n * 10 ^ power.toNat ≤ bound * 10 ^ (-power).toNat

theorem AtMost.mono {m n bound : Nat} {power : Int} (h : AtMost n power bound) (hmn : m ≤ n) :
    AtMost m power bound :=
  Nat.le_trans (Nat.mul_le_mul_right _ hmn) h

/-- Tens may stand in the number or in the power. -/
theorem AtMost.shift {n k bound : Nat} {power : Int} (h : AtMost (n * 10 ^ k) power bound) :
    AtMost n (power + k) bound := by
  have hexponents : (power + k).toNat + (-power).toNat =
      k + power.toNat + (-(power + k)).toNat := by omega
  have hpos : 0 < 10 ^ (-power).toNat := Nat.pow_pos (by decide)
  refine Nat.le_of_mul_le_mul_right ?_ hpos
  calc n * 10 ^ (power + k).toNat * 10 ^ (-power).toNat
      = n * 10 ^ ((power + k).toNat + (-power).toNat) := by ring
    _ = n * 10 ^ k * 10 ^ power.toNat * 10 ^ (-(power + k)).toNat := by
      rw [hexponents]
      ring
    _ ≤ bound * 10 ^ (-power).toNat * 10 ^ (-(power + k)).toNat := Nat.mul_le_mul_right _ h
    _ = bound * 10 ^ (-(power + k)).toNat * 10 ^ (-power).toNat := by ring

theorem AtMost.le {n k bound : Nat} (h : AtMost n k bound) : n * 10 ^ k ≤ bound := by
  simpa [AtMost] using h

end FaultSweep.Decimal
