import FaultSweep.Proofs.Double.Packing
import FaultSweep.Word

/-!
# Products and quotients with powers of ten

A word and a power of ten up to `10 ^ 308` are turned into a double with one rounding, and a product
of the two with a third. That keeps a product below `2 ^ 1024` finite, if it is below by a few parts
in `2 ^ 53`. A quotient has an exponent that is not much larger than its dividend's.
-/

namespace FaultSweep.Double

open Float.Model Float.Model.UnpackedFloat

/-- The double has a significand of full length, and is `n` or, for the rounding, larger by one in
`2 ^ 52` parts at most. -/
def AtMost (n : Nat) (f : Float) : Prop :=
  ∃ s m, ∃ k : Nat, ∃ h, f.toModel.unpack = .finite s m (k - 53) h ∧ 2 ^ 52 ≤ m ∧ m < 2 ^ 53 ∧
    m * 2 ^ k * 2 ^ 52 ≤ n * 2 ^ 53 * (2 ^ 52 + 1) ∧ field f ≤ k + 1022

/-- What is rounded from a significand of at least full length and fits is packed as it is. -/
theorem atMost_pack {n m k : Nat} {s : Sign} {h : 0 < m} (hlow : 2 ^ 52 ≤ m) (hhigh : m < 2 ^ 53)
    (hn : m * 2 ^ k * 2 ^ 52 ≤ n * 2 ^ 53 * (2 ^ 52 + 1)) (hfits : n ≤ 10 ^ 308) :
    AtMost n (.ofModel (.pack (.finite s m (k - 53) h))) := by
  have hk : k ≤ 1024 := by
    by_contra hlarge
    have hpow := Nat.pow_le_pow_right (show 0 < 2 by decide) (show 1025 ≤ k by omega)
    have hprod : 2 ^ 52 * 2 ^ 1025 * 2 ^ 52 ≤ 10 ^ 308 * 2 ^ 53 * (2 ^ 52 + 1) :=
      calc 2 ^ 52 * 2 ^ 1025 * 2 ^ 52 ≤ m * 2 ^ k * 2 ^ 52 := by gcongr
        _ ≤ n * 2 ^ 53 * (2 ^ 52 + 1) := hn
        _ ≤ 10 ^ 308 * 2 ^ 53 * (2 ^ 52 + 1) := by gcongr
    exact absurd hprod (by decide +kernel)
  obtain ⟨s', hs⟩ := unpack_pack (s := s) h hlow hhigh (show (-1074 : Int) ≤ k - 53 by omega)
    (by omega)
  have hfield := field_pack_finite s h (show (k : Int) - 53 ≤ 971 by omega)
  exact ⟨s', m, k, h, hs, hlow, hhigh, hn, by omega⟩

/-- What is rounded once is at most what it was rounded from. -/
theorem atMost_round {n m a : Nat} (s : Sign) (hm : 52 ≤ m.log2) (ha : a ≤ 53)
    (hn : m = n * 2 ^ a) (hfits : n ≤ 10 ^ 308) :
    AtMost n (.ofModel (.pack (roundWithAccuracy Format.binary64 s m (-a) .exact))) := by
  obtain ⟨m', k, h, heq, hlow, hhigh, hle⟩ :=
    roundWithAccuracy_exact s hm (show (-1074 : Int) ≤ -a by omega)
  have hexponent : -(a : Int) + k = ((k + (53 - a) : Nat) : Int) - 53 := by omega
  have hsplit : 2 ^ a * 2 ^ (53 - a) = 2 ^ 53 := by
    rw [← Nat.pow_add, Nat.add_sub_cancel' ha]
  have hgrown : m' * 2 ^ (k + (53 - a)) * 2 ^ 52 ≤ n * 2 ^ 53 * (2 ^ 52 + 1) :=
    calc m' * 2 ^ (k + (53 - a)) * 2 ^ 52 = m' * 2 ^ k * 2 ^ 52 * 2 ^ (53 - a) := by ring
      _ ≤ n * 2 ^ a * (2 ^ 52 + 1) * 2 ^ (53 - a) := by
        rw [← hn]
        gcongr
      _ = n * (2 ^ a * 2 ^ (53 - a)) * (2 ^ 52 + 1) := by ring
      _ = n * 2 ^ 53 * (2 ^ 52 + 1) := by rw [hsplit]
  rw [heq, hexponent]
  exact atMost_pack hlow hhigh hgrown hfits

/-- A word that is not zero. -/
theorem atMost_toFloat {n : Nat} (h : 0 < n) (hword : n < wordBound) :
    AtMost n (UInt64.ofNat n).toFloat := by
  have hn : (UInt64.ofNat n).toNat = n := by
    rw [UInt64.toNat_ofNat']
    exact Nat.mod_eq_of_lt hword
  have hnormal : (UInt64.ofNat n).toFloat = .ofModel (.pack (UnpackedFloat.normalize
      Format.binary64 ((UInt64.ofNat n).toNat : Nat) 0 .positive)) := rfl
  have hpos : compare (n : Int) 0 = .gt := by
    rw [Int.compare_eq_gt]
    omega
  have hshift : (-Format.binary64.targetExponent (totalExponent n 0)).toNat = 52 - n.log2 := by
    simp only [Format.targetExponent, totalExponent, Format.mantissaBits, Format.minExponent]
    norm_num
    omega
  have hround : (UInt64.ofNat n).toFloat = .ofModel (.pack (roundWithAccuracy Format.binary64
      .positive (n * 2 ^ (52 - n.log2)) (-((52 - n.log2 : Nat) : Int)) .exact)) := by
    rw [hnormal, hn, UnpackedFloat.normalize, hpos]
    simp only [UnpackedFloat.round, decreaseExponent, hshift, Int.toNat_natCast,
      Nat.shiftLeft_eq, Int.zero_sub]
  have hfull : 2 ^ 52 ≤ n * 2 ^ (52 - n.log2) :=
    calc 2 ^ 52 ≤ 2 ^ (n.log2 + (52 - n.log2)) := Nat.pow_le_pow_right (by decide) (by omega)
      _ = 2 ^ n.log2 * 2 ^ (52 - n.log2) := Nat.pow_add ..
      _ ≤ n * 2 ^ (52 - n.log2) := Nat.mul_le_mul_right _ (Nat.log2_self_le (by omega))
  have hsize : n ≤ 10 ^ 308 :=
    calc n ≤ wordBound := Nat.le_of_lt hword
      _ ≤ 10 ^ 308 := by decide +kernel
  rw [hround]
  exact atMost_round .positive ((Nat.le_log2 (by omega)).2 hfull) (by omega) rfl hsize

theorem field_toFloat_le {n : Nat} (h : n < wordBound) : field (UInt64.ofNat n).toFloat ≤ 1088 := by
  by_cases hzero : n = 0
  · subst hzero
    decide
  · obtain ⟨s, m, k, hm, -, hlow, -, hle, hfield⟩ := atMost_toFloat (Nat.pos_of_ne_zero hzero) h
    have hk : k ≤ 66 := by
      by_contra hlarge
      have hpow := Nat.pow_le_pow_right (show 0 < 2 by decide) (show 67 ≤ k by omega)
      have hprod := Nat.mul_le_mul_right (2 ^ 52) (Nat.mul_le_mul hlow hpow)
      rw [wordBound] at h
      omega
    omega

/-- A power of ten. -/
theorem atMost_ten {p : Nat} (h : p ≤ 308) : AtMost (10 ^ p) (Float.ofScientific 1 false p) := by
  have hmodel : Float.ofScientific 1 false p = .ofModel (Float.Model.ofScientific 1 p) := by
    by_cases hsmall : p ≤ 22
    · have hexact : ∀ i : Fin 23, Float.ofScientific 1 false i =
          .ofModel (Float.Model.ofScientific 1 (i : Nat)) := by decide +kernel
      exact hexact ⟨p, by omega⟩
    · rw [Float.ofScientific, dif_neg (by omega)]
      rfl
  have hround : Float.Model.ofScientific 1 p = .pack (roundWithAccuracy Format.binary64 .positive
      (10 ^ p * 2 ^ 53) (-(53 : Nat)) .exact) := by
    rw [Float.Model.ofScientific, UnpackedFloat.ofScientific, dif_neg (by decide),
      if_neg (by norm_num; omega), if_neg (by norm_num; omega), if_pos (by omega),
      UnpackedFloat.mul]
    simp only [Int.toNat_natCast, Nat.shiftLeft_eq, Nat.one_mul, Int.add_zero]
    rw [Nat.mul_comm]
    rfl
  have hfull : 2 ^ 52 ≤ 10 ^ p * 2 ^ 53 :=
    calc 2 ^ 52 ≤ 1 * 2 ^ 53 := by decide
      _ ≤ 10 ^ p * 2 ^ 53 := Nat.mul_le_mul_right _ (Nat.one_le_pow _ _ (by decide))
  rw [hmodel, hround]
  refine atMost_round .positive ((Nat.le_log2 (by omega)).2 hfull) (Nat.le_refl 53) rfl ?_
  gcongr
  decide

/-- A bound below `2 ^ 1024` that three roundings do not pass. -/
def safe : Nat := (2 ^ 55 - 34) * 2 ^ 969

/-- A product that is safe is finite. -/
theorem field_mul_le {a b : Nat} {f g : Float} (hf : AtMost a f) (hg : AtMost b g)
    (hsafe : a * b ≤ safe) : field (f * g) ≤ 2046 := by
  obtain ⟨s₁, m₁, k₁, h₁, hf, hlow₁, hhigh₁, hle₁, -⟩ := hf
  obtain ⟨s₂, m₂, k₂, h₂, hg, hlow₂, hhigh₂, hle₂, -⟩ := hg
  have hprod : f * g = .ofModel (.pack (UnpackedFloat.mul Format.binary64 f.toModel.unpack
      g.toModel.unpack)) := rfl
  have hfull : 2 ^ 52 ≤ m₁ * m₂ :=
    calc 2 ^ 52 ≤ 2 ^ 52 * 1 := by decide
      _ ≤ m₁ * m₂ := Nat.mul_le_mul hlow₁ h₂
  obtain ⟨m, k, h, heq, hlow, hhigh, hle⟩ := roundWithAccuracy_exact (s₁ * s₂)
    ((Nat.le_log2 (by omega)).2 hfull) (show (-1074 : Int) ≤ (k₁ - 53) + (k₂ - 53) by omega)
  have hgrown : m * 2 ^ (k₁ + k₂ + k) * 2 ^ 156 ≤ safe * 2 ^ 106 * (2 ^ 52 + 1) ^ 3 :=
    calc m * 2 ^ (k₁ + k₂ + k) * 2 ^ 156
        = m * 2 ^ k * 2 ^ 52 * (2 ^ k₁ * 2 ^ 52) * (2 ^ k₂ * 2 ^ 52) := by ring
      _ ≤ m₁ * m₂ * (2 ^ 52 + 1) * (2 ^ k₁ * 2 ^ 52) * (2 ^ k₂ * 2 ^ 52) := by gcongr
      _ = m₁ * 2 ^ k₁ * 2 ^ 52 * (m₂ * 2 ^ k₂ * 2 ^ 52) * (2 ^ 52 + 1) := by ring
      _ ≤ a * 2 ^ 53 * (2 ^ 52 + 1) * (b * 2 ^ 53 * (2 ^ 52 + 1)) * (2 ^ 52 + 1) := by gcongr
      _ = a * b * 2 ^ 106 * (2 ^ 52 + 1) ^ 3 := by ring
      _ ≤ safe * 2 ^ 106 * (2 ^ 52 + 1) ^ 3 := by gcongr
  have hexponent : k₁ + k₂ + k ≤ 1077 := by
    by_contra hlarge
    have hpow := Nat.pow_le_pow_right (show 0 < 2 by decide) (show 1078 ≤ k₁ + k₂ + k by omega)
    have hover := Nat.mul_le_mul_right (2 ^ 156) (Nat.mul_le_mul hlow hpow)
    exact absurd (Nat.le_trans hover hgrown) (by decide +kernel)
  rw [hprod, hf, hg, UnpackedFloat.mul, heq]
  have hfield := field_pack_finite (s₁ * s₂) h
    (show (k₁ : Int) - 53 + (k₂ - 53) + k ≤ 971 by omega)
  omega

theorem field_zero_mul {n : Nat} {g : Float} (hg : AtMost n g) :
    field ((UInt64.ofNat 0).toFloat * g) = 0 := by
  obtain ⟨s, m, k, h, hg, -⟩ := hg
  have hprod : (UInt64.ofNat 0).toFloat * g = .ofModel (.pack (UnpackedFloat.mul Format.binary64
      (UInt64.ofNat 0).toFloat.toModel.unpack g.toModel.unpack)) := rfl
  have hzero : (UInt64.ofNat 0).toFloat.toModel.unpack = .zero .positive := by rfl
  rw [hprod, hg, hzero, UnpackedFloat.mul, field_pack_zero]

/-- A product that is not infinite is finite. -/
theorem field_mul_of_isInf_eq_false {k n : Nat} {f g : Float} (hf : field f ≤ k) (hk : 0 < k)
    (hfits : k < 2047) (hg : AtMost n g) (h : (f * g).isInf = false) : field (f * g) ≤ 2046 := by
  obtain ⟨s₂, m₂, k₂, h₂, hg, -⟩ := hg
  have hprod : f * g = .ofModel (.pack (UnpackedFloat.mul Format.binary64 f.toModel.unpack
      g.toModel.unpack)) := rfl
  rw [hprod] at h ⊢
  refine field_pack_of_isInf_eq_false ?_ h
  rw [hg]
  rcases unpack_cases hf hk hfits with ⟨s, hu⟩ | ⟨s, m, e, hm, hu, -⟩
  · rw [hu]
    rfl
  · rw [hu, UnpackedFloat.mul]
    rcases roundWithAccuracy_cases (s * s₂) (m * m₂) (e + (k₂ - 53)) .exact with
      hround | ⟨_, _, _, hround, -⟩
    · rw [hround]
      rfl
    · rw [hround]
      rfl

/-- A quotient's exponent is larger than the dividend's by at most 54: a divisor with a significand
of full length is at least `1 / 2`. -/
theorem field_div_le {k n : Nat} {f g : Float} (hf : field f ≤ k) (hk : 0 < k)
    (hfits : k + 54 < 2047) (hg : AtMost n g) : field (f / g) ≤ k + 54 := by
  obtain ⟨s₂, m₂, k₂, h₂, hg, hlow, -⟩ := hg
  have hquot : f / g = .ofModel (.pack (UnpackedFloat.div Format.binary64 f.toModel.unpack
      g.toModel.unpack)) := rfl
  rw [hquot, hg]
  rcases unpack_cases hf hk (by omega) with ⟨s, hu⟩ | ⟨s, m, e, hm, hu, hlt, he⟩
  · rw [hu, UnpackedFloat.div, field_pack_zero]
    omega
  · rw [hu]
    simp only [UnpackedFloat.div, divCore]
    generalize hplace : min (e - (k₂ - 53)) (Format.binary64.targetExponent
      (totalExponent m e - totalExponent m₂ (k₂ - 53))) = t
    generalize hshift : (e - (k₂ - 53) - t).toNat = a
    have hquotient : m <<< a / m₂ < 2 ^ (a + 1) := by
      rw [Nat.div_lt_iff_lt_mul h₂, Nat.shiftLeft_eq]
      calc m * 2 ^ a < 2 ^ 53 * 2 ^ a := Nat.mul_lt_mul_of_pos_right hlt (Nat.two_pow_pos a)
        _ = 2 ^ (a + 1) * 2 ^ 52 := by ring
        _ ≤ 2 ^ (a + 1) * m₂ := Nat.mul_le_mul_left _ hlow
    have hlog : (m <<< a / m₂).log2 ≤ a := by
      by_cases hzero : m <<< a / m₂ = 0
      · simp [hzero]
      · exact Nat.le_of_lt_succ ((Nat.log2_lt hzero).2 hquotient)
    rcases roundWithAccuracy_cases (s / s₂) (m <<< a / m₂) t
      (accuracyOfFraction (m <<< a % m₂) m₂) with hround | ⟨m', e', h', hround, -, he'⟩
    · rw [hround, field_pack_zero]
      omega
    · have hgrown : e' + 1075 ≤ k + 54 := by
        unfold shift at he'
        omega
      have hfield := field_pack_finite (s / s₂) h' (show e' ≤ 971 by omega)
      rw [hround]
      omega

/-- A change of the sign keeps a double finite. -/
theorem field_neg_le {k : Nat} {f : Float} (hf : field f ≤ k) (hk : 0 < k) (hfits : k < 2047) :
    field (-f) ≤ k := by
  have hneg : -f = .ofModel (.pack f.toModel.unpack.neg) := rfl
  rw [hneg]
  rcases unpack_cases hf hk hfits with ⟨s, hu⟩ | ⟨s, m, e, hm, hu, -, he⟩
  · rw [hu, UnpackedFloat.neg, field_pack_zero]
    omega
  · have hfield := field_pack_finite (-s) hm (show e ≤ 971 by omega)
    rw [hu, UnpackedFloat.neg]
    omega

end FaultSweep.Double
