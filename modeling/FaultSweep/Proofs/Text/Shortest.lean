import FaultSweep.Proofs.Text.Decimal
import FaultSweep.Text.Shortest

/-!
# The shortest digits are digits of a number near by

Whatever grid wins, the digits are those of a positive multiple of its step, without the zeros at
the end, and the multiple lies within the interval of the double.
-/

namespace FaultSweep.Shortest

open Decimal (worth AtMost)

/-- Digits a numeral can begin with: a zero in front is the number zero. -/
structure Digits.Proper (d : Digits) : Prop where
  ne_nil : d.digits ≠ []
  digits : ∀ c ∈ d.digits, c.isDigit = true
  leading : d.digits.head? = some '0' → d.digits = ['0'] ∧ d.power = 0

/-- The digits of a number without the zeros at the end. -/
def significant (n : Nat) : List Char := (Decimal.digits n).rdropWhile (· = '0')

theorem digits_eq_significant (n : Nat) :
    ∃ k, Decimal.digits n = significant n ++ List.replicate k '0' := by
  refine ⟨((Decimal.digits n).rtakeWhile (· = '0')).length, ?_⟩
  have hzeros : (Decimal.digits n).rtakeWhile (· = '0') =
      List.replicate ((Decimal.digits n).rtakeWhile (· = '0')).length '0' := by
    apply List.eq_replicate_of_mem
    intro c hc
    simpa using List.mem_rtakeWhile_imp hc
  rw [← hzeros]
  exact List.rdropWhile_append_rtakeWhile.symm

theorem isDigit_of_mem_significant {n : Nat} {c : Char} (h : c ∈ significant n) :
    c.isDigit = true :=
  Decimal.isDigit_of_mem_digits ((List.rdropWhile_prefix _ _).subset h)

theorem significant_ne_nil {n : Nat} (h : 0 < n) : significant n ≠ [] := by
  intro hnil
  obtain ⟨k, hk⟩ := digits_eq_significant n
  rw [hnil, List.nil_append] at hk
  have hworth := Decimal.worth_digits n
  rw [hk, Decimal.worth_zeros] at hworth
  omega

theorem head?_significant {n : Nat} (h : 0 < n) : (significant n).head? ≠ some '0' := by
  obtain ⟨k, hk⟩ := digits_eq_significant n
  have hhead := Decimal.head?_digits h
  rwa [hk, List.head?_append_of_ne_nil _ (significant_ne_nil h)] at hhead

/-- The lower end of the interval of a double, in quarters of its last place. -/
def lowEnd (b : Binary) : Nat :=
  if b.m = leadingBit ∧ b.q ≠ -1074 then 4 * b.m - 1 else 4 * b.m - 2

/-- A number of quarters of the last place, on the grid of a power of ten. -/
def quarters (b : Binary) (power : Int) (n : Nat) : Ratio := perPower (scale n (b.q - 2)) power

/-- A multiple that is found lies within the interval. -/
theorem inside_of_onGrid? {b : Binary} {power : Int} {n : Nat} (h : onGrid? b power = some n) :
    (quarters b power (lowEnd b)).num ≤ n * (quarters b power (lowEnd b)).den ∧
      n * (quarters b power (4 * b.m + 2)).den ≤ (quarters b power (4 * b.m + 2)).num := by
  have hinside : ∀ k : Nat, (if b.m % 2 = 0 then
      decide ((quarters b power (lowEnd b)).num ≤ k * (quarters b power (lowEnd b)).den) &&
        decide (k * (quarters b power (4 * b.m + 2)).den ≤ (quarters b power (4 * b.m + 2)).num)
      else decide ((quarters b power (lowEnd b)).num < k * (quarters b power (lowEnd b)).den) &&
        decide (k * (quarters b power (4 * b.m + 2)).den < (quarters b power (4 * b.m + 2)).num)) =
        true →
      (quarters b power (lowEnd b)).num ≤ k * (quarters b power (lowEnd b)).den ∧
        k * (quarters b power (4 * b.m + 2)).den ≤ (quarters b power (4 * b.m + 2)).num := by
    intro k hk
    split at hk <;> simp only [Bool.and_eq_true, decide_eq_true_eq] at hk
    · exact hk
    · exact ⟨Nat.le_of_lt hk.1, Nat.le_of_lt hk.2⟩
  simp only [onGrid?] at h
  split at h
  · cases h
  · next hbelow _ =>
    cases h
    exact hinside _ hbelow
  · next _ habove =>
    cases h
    exact hinside _ habove
  · next hbelow habove =>
    split at h
    · cases h
      exact hinside _ hbelow
    · cases h
      exact hinside _ habove

theorem search_cases (b : Binary) (lead : Int) (rounds count : Nat) :
    search b lead rounds count = ⟨['0'], 0⟩ ∨
      ∃ power n, onGrid? b power = some n ∧ search b lead rounds count =
        ⟨significant n, power + (Decimal.digits n).length - 1⟩ := by
  induction rounds generalizing count with
  | zero => exact .inl rfl
  | succ rounds ih =>
    rw [search]
    cases hgrid : onGrid? b (lead - count + 1) with
    | none => exact ih (count + 1)
    | some n => exact .inr ⟨lead - count + 1, n, hgrid, rfl⟩

theorem quarters_pos (b : Binary) (power : Int) {n : Nat} (h : 0 < n) :
    0 < (quarters b power n).num := by
  unfold quarters perPower scale
  split <;> split <;> simp [h]

theorem pos_of_onGrid? {b : Binary} {power : Int} {n : Nat} (hm : 0 < b.m)
    (h : onGrid? b power = some n) : 0 < n := by
  have hlow : 0 < lowEnd b := by
    unfold lowEnd
    split <;> omega
  have hnum := quarters_pos b power hlow
  have hinside := (inside_of_onGrid? h).1
  by_contra hn
  obtain rfl : n = 0 := by omega
  omega

theorem binary_pos {bits : UInt64} (h : bits.toNat % signBit ≠ 0) : 0 < (binary bits).m := by
  unfold binary
  split
  · next he =>
    simp only [exponentBits, fractionBits, leadingBit, signBit] at he h ⊢
    omega
  · simp [leadingBit]

/-- A double that is not zero has digits a numeral can begin with. -/
theorem digits_proper {bits : UInt64} (h : bits.toNat % signBit ≠ 0) : (digits bits).Proper := by
  rcases search_cases (binary bits) (leadingPower (scale (binary bits).m (binary bits).q)) 17 1
    with he | ⟨power, n, hgrid, he⟩
  · rw [digits, he]
    exact ⟨by simp, by simp, fun _ => ⟨rfl, rfl⟩⟩
  · have hn := pos_of_onGrid? (binary_pos h) hgrid
    rw [digits, he]
    exact ⟨significant_ne_nil hn, fun c hc => isDigit_of_mem_significant hc,
      fun hz => absurd hz (head?_significant hn)⟩

/-- The digits stand for a number of at most `bound`. -/
def Digits.AtMost (d : Digits) (bound : Nat) : Prop :=
  Decimal.AtMost (worth d.digits) (d.power + 1 - d.digits.length) bound

theorem scale_den_pos (n : Nat) (twos : Int) : 0 < (scale n twos).den := by
  unfold scale
  split
  · exact Nat.two_pow_pos _
  · exact Nat.one_pos

theorem scale_le (n : Nat) {twos : Int} {k : Nat} (h : twos ≤ k) :
    (scale n twos).num ≤ n * 2 ^ k * (scale n twos).den := by
  unfold scale
  by_cases hneg : twos < 0
  · rw [if_pos hneg]
    calc n = n * 1 * 1 := by ring
      _ ≤ n * 2 ^ k * 2 ^ twos.natAbs := by gcongr <;> exact Nat.one_le_two_pow
  · rw [if_neg hneg]
    have hpow : 2 ^ twos.natAbs ≤ 2 ^ k := Nat.pow_le_pow_right (by decide) (by omega)
    rw [Nat.mul_one]
    exact Nat.mul_le_mul_left n hpow

/-- A multiple of a power of ten below a ratio is below what bounds the ratio. -/
theorem atMost_of_perPower {r : Ratio} {power : Int} {n bound : Nat} (hden : 0 < r.den)
    (hr : r.num ≤ bound * r.den) (h : n * (perPower r power).den ≤ (perPower r power).num) :
    AtMost n power bound := by
  refine Nat.le_of_mul_le_mul_right ?_ hden
  unfold perPower at h
  by_cases hneg : power < 0
  · rw [if_pos hneg] at h
    have habs : power.natAbs = (-power).toNat := by omega
    have hzero : power.toNat = 0 := by omega
    rw [hzero, Nat.pow_zero, Nat.mul_one]
    calc n * r.den ≤ r.num * 10 ^ (-power).toNat := by
          rw [← habs]
          exact h
      _ ≤ bound * r.den * 10 ^ (-power).toNat := Nat.mul_le_mul_right _ hr
      _ = bound * 10 ^ (-power).toNat * r.den := by ring
  · rw [if_neg hneg] at h
    have habs : power.natAbs = power.toNat := by omega
    have hzero : (-power).toNat = 0 := by omega
    rw [hzero, Nat.pow_zero, Nat.mul_one]
    calc n * 10 ^ power.toNat * r.den = n * (r.den * 10 ^ power.toNat) := by ring
      _ ≤ r.num := by
        rw [← habs]
        exact h
      _ ≤ bound * r.den := hr

/-- The digits of a multiple of a power of ten are worth no more without the zeros at their end. -/
theorem atMost_significant {power : Int} {n bound : Nat} (h : AtMost n power bound) :
    Digits.AtMost ⟨significant n, power + (Decimal.digits n).length - 1⟩ bound := by
  obtain ⟨k, hk⟩ := digits_eq_significant n
  have hworth : n = worth (significant n) * 10 ^ k := by
    calc n = worth (Decimal.digits n) := (Decimal.worth_digits n).symm
      _ = worth (significant n) * 10 ^ k := by
        rw [hk, Decimal.worth_append, List.length_replicate, Decimal.worth_zeros, Nat.add_zero,
          Nat.mul_comm]
  have hlength : (Decimal.digits n).length = (significant n).length + k := by
    rw [hk, List.length_append, List.length_replicate]
  rw [hworth] at h
  have hpower : power + (Decimal.digits n).length - 1 + 1 - (significant n).length = power + k := by
    omega
  rw [Digits.AtMost, hpower]
  exact h.shift

/-- Digits that are found stand for no more than the upper end of the interval. -/
theorem digits_atMost {bits : UInt64} {bound : Nat}
    (h : (scale (4 * (binary bits).m + 2) ((binary bits).q - 2)).num ≤
      bound * (scale (4 * (binary bits).m + 2) ((binary bits).q - 2)).den) :
    (digits bits).AtMost bound := by
  rcases search_cases (binary bits) (leadingPower (scale (binary bits).m (binary bits).q)) 17 1
    with he | ⟨power, n, hgrid, he⟩
  · rw [digits, he]
    exact Nat.zero_le _
  · rw [digits, he]
    have hinside := (inside_of_onGrid? hgrid).2
    exact atMost_significant (atMost_of_perPower (scale_den_pos _ _) h hinside)

end FaultSweep.Shortest
