import Mathlib

/-!
# How far a double is rounded

A significand is shifted until its last bit has the place it may have, the bits that were shifted
out decide whether one is added, and where that carries it is shifted once more. So the exponent
grows by the shift and at most one, and a significand of full length grows by one in `2 ^ 52` parts
at most.
-/

namespace FaultSweep.Double

open Float.Model Float.Model.UnpackedFloat

/-- The places a significand is shifted by. -/
def shift (m : Nat) (e : Int) : Nat := (max ((m.log2 : Int) - 52) (-1074 - e)).toNat

theorem mantissa_shiftRight (em : ExtendedMantissa) (k : Nat) :
    (em >>> k).mantissa = em.mantissa / 2 ^ k := by
  induction k with
  | zero => exact (Nat.div_one _).symm
  | succ k ih =>
    have hstep : (em >>> (k + 1)).mantissa = (em >>> k).mantissa / 2 := rfl
    rw [hstep, ih, Nat.div_div_eq_div_mul, Nat.pow_succ]

theorem mantissa_ofMantissaAndAccuracy (m : Nat) (a : Accuracy) :
    (ExtendedMantissa.ofMantissaAndAccuracy m a).mantissa = m := by
  cases a with
  | exact => rfl
  | inexact o => cases o <;> rfl

theorem shiftToTargetExponent_eq (m : Nat) (e : Int) (a : Accuracy) :
    shiftToTargetExponent Format.binary64 m e a =
      (ExtendedMantissa.ofMantissaAndAccuracy m a >>> shift m e, e + shift m e) := by
  have htarget : (Format.binary64.targetExponent (totalExponent m e) - e).toNat = shift m e := by
    simp only [Format.targetExponent, totalExponent, Format.mantissaBits, Format.minExponent, shift]
    norm_num
    omega
  simp only [shiftToTargetExponent, shiftToExponent, htarget]

/-- The significand after the shift and the addition of one, if it is added. -/
def rounded (m : Nat) (e : Int) (a : Accuracy) : Nat :=
  (ExtendedMantissa.ofMantissaAndAccuracy m a >>> shift m e).roundedMantissa

theorem roundedMantissa_bounds (em : ExtendedMantissa) :
    em.mantissa ≤ em.roundedMantissa ∧ em.roundedMantissa ≤ em.mantissa + 1 := by
  obtain ⟨m, roundBit, stickyBit⟩ := em
  simp only [ExtendedMantissa.roundedMantissa]
  cases roundBit <;> cases stickyBit <;>
    simp only [ExtendedMantissa.accuracy, Accuracy.roundToNearestEven] <;> omega

theorem rounded_bounds (m : Nat) (e : Int) (a : Accuracy) :
    m / 2 ^ shift m e ≤ rounded m e a ∧ rounded m e a ≤ m / 2 ^ shift m e + 1 := by
  have h := roundedMantissa_bounds (ExtendedMantissa.ofMantissaAndAccuracy m a >>> shift m e)
  rwa [mantissa_shiftRight, mantissa_ofMantissaAndAccuracy] at h

theorem rounded_exact_of_shift_eq_zero {m : Nat} {e : Int} (h : shift m e = 0) :
    rounded m e .exact = m := by
  rw [rounded, h]
  rfl

theorem roundWithAccuracy_eq (s : Sign) (m : Nat) (e : Int) (a : Accuracy) :
    roundWithAccuracy Format.binary64 s m e a =
      if h : rounded m e a / 2 ^ shift (rounded m e a) (e + shift m e) = 0 then .zero s
      else .finite s (rounded m e a / 2 ^ shift (rounded m e a) (e + shift m e))
        (e + shift m e + shift (rounded m e a) (e + shift m e)) (Nat.pos_of_ne_zero h) := by
  simp only [roundWithAccuracy, shiftToTargetExponent_eq, mantissa_shiftRight,
    mantissa_ofMantissaAndAccuracy]
  rfl

theorem lt_of_log2_le {m k : Nat} (h : m.log2 ≤ k) : m < 2 ^ (k + 1) := by
  have hself := Nat.lt_log2_self (n := m)
  have hpow : 2 ^ (m.log2 + 1) ≤ 2 ^ (k + 1) := Nat.pow_le_pow_right (by decide) (by omega)
  omega

theorem log2_le_of_le {m k : Nat} (h : m ≤ 2 ^ k) : m.log2 ≤ k := by
  by_cases hm : m = 0
  · simp [hm]
  · have hself := Nat.log2_self_le hm
    exact (Nat.pow_le_pow_iff_right (by decide)).1 (Nat.le_trans hself h)

theorem log2_le_shift (m : Nat) (e : Int) : m.log2 ≤ 52 + shift m e := by
  unfold shift
  omega

/-- After the shift a significand has at most 53 bits. -/
theorem shifted_lt (m : Nat) (e : Int) : m / 2 ^ shift m e < 2 ^ 53 := by
  rw [Nat.div_lt_iff_lt_mul (Nat.two_pow_pos _), ← Nat.pow_add]
  have h := lt_of_log2_le (log2_le_shift m e)
  rwa [show 52 + shift m e + 1 = 53 + shift m e by omega] at h

/-- A significand of full length keeps it. -/
theorem le_shifted {m : Nat} {e : Int} (hm : 52 ≤ m.log2) (he : -1074 ≤ e) :
    2 ^ 52 ≤ m / 2 ^ shift m e := by
  have hpos : m ≠ 0 := by
    rintro rfl
    simp at hm
  have hshift : 52 + shift m e = m.log2 := by
    unfold shift
    omega
  rw [Nat.le_div_iff_mul_le (Nat.two_pow_pos _), ← Nat.pow_add, hshift]
  exact Nat.log2_self_le hpos

/-- What rounding has for its result: zero, or a significand of at most 53 bits, whose exponent
has grown by the shift and at most one. -/
theorem roundWithAccuracy_cases (s : Sign) (m : Nat) (e : Int) (a : Accuracy) :
    roundWithAccuracy Format.binary64 s m e a = .zero s ∨
      ∃ m' e' h, roundWithAccuracy Format.binary64 s m e a = .finite s m' e' h ∧
        m' < 2 ^ 53 ∧ e' ≤ e + shift m e + 1 := by
  rw [roundWithAccuracy_eq]
  split
  · exact .inl rfl
  · next h =>
    refine .inr ⟨_, _, Nat.pos_of_ne_zero h, rfl, shifted_lt _ _, ?_⟩
    have hrounded := (rounded_bounds m e a).2
    have hshifted := shifted_lt m e
    have hlog : (rounded m e a).log2 ≤ 53 := log2_le_of_le (by omega)
    have hplace : -1074 ≤ e + shift m e := by
      unfold shift
      omega
    have hsecond : shift (rounded m e a) (e + shift m e) ≤ 1 := by
      unfold shift at hplace ⊢
      omega
    omega

/-- Without a shift nothing is added, and with one a unit is little beside a full significand. -/
theorem rounded_exact_le {m : Nat} {e : Int} (hm : 52 ≤ m.log2) (he : -1074 ≤ e) :
    rounded m e .exact * 2 ^ shift m e * 2 ^ 52 ≤ m * (2 ^ 52 + 1) := by
  by_cases hzero : shift m e = 0
  · rw [rounded_exact_of_shift_eq_zero hzero, hzero]
    omega
  · have hfull := le_shifted hm he
    have hrounded := (rounded_bounds m e .exact).2
    have hdiv := Nat.div_mul_le_self m (2 ^ shift m e)
    calc rounded m e .exact * 2 ^ shift m e * 2 ^ 52
        ≤ (m / 2 ^ shift m e + 1) * 2 ^ shift m e * 2 ^ 52 := by gcongr
      _ = (m / 2 ^ shift m e * 2 ^ 52 + 2 ^ 52) * 2 ^ shift m e := by ring
      _ ≤ (m / 2 ^ shift m e * 2 ^ 52 + m / 2 ^ shift m e) * 2 ^ shift m e := by gcongr
      _ = m / 2 ^ shift m e * 2 ^ shift m e * (2 ^ 52 + 1) := by ring
      _ ≤ m * (2 ^ 52 + 1) := by gcongr

/-- A significand of full length is rounded to one, and grows by one in `2 ^ 52` parts at most. -/
theorem roundWithAccuracy_exact (s : Sign) {m : Nat} {e : Int} (hm : 52 ≤ m.log2)
    (he : -1074 ≤ e) :
    ∃ m' k h, roundWithAccuracy Format.binary64 s m e .exact = .finite s m' (e + (k : Nat)) h ∧
      2 ^ 52 ≤ m' ∧ m' < 2 ^ 53 ∧ m' * 2 ^ k * 2 ^ 52 ≤ m * (2 ^ 52 + 1) := by
  have hgrown := rounded_exact_le hm he
  have hrounded := (rounded_bounds m e .exact).1
  have hfull := le_shifted hm he
  have heq := roundWithAccuracy_eq s m e .exact
  generalize rounded m e .exact = r at *
  generalize shift m e = k at *
  have hlog : 52 ≤ r.log2 := (Nat.le_log2 (by omega)).2 (by omega)
  have hagain : 2 ^ 52 ≤ r / 2 ^ shift r (e + k) := le_shifted hlog (by omega)
  rw [dif_neg (by omega)] at heq
  refine ⟨r / 2 ^ shift r (e + k), k + shift r (e + k), by omega, ?_, hagain, shifted_lt _ _, ?_⟩
  · rw [heq]
    congr 1
    push_cast
    ring
  · have hdiv := Nat.div_mul_le_self r (2 ^ shift r (e + k))
    calc r / 2 ^ shift r (e + k) * 2 ^ (k + shift r (e + k)) * 2 ^ 52
        = r / 2 ^ shift r (e + k) * 2 ^ shift r (e + k) * 2 ^ k * 2 ^ 52 := by ring
      _ ≤ r * 2 ^ k * 2 ^ 52 := by gcongr
      _ ≤ m * (2 ^ 52 + 1) := hgrown

end FaultSweep.Double
