import FaultSweep.Proofs.Double.Rounding
import FaultSweep.Text.Shortest

/-!
# The exponent field of a double

Of the bits of a double the field of the exponent says whether it is finite: it is 2047 for what is
not. A double whose field is at most `k` is zero or has an exponent of at most `k - 1075`.
-/

namespace FaultSweep.Double

open Float.Model Float.Model.UnpackedFloat

/-- The exponent field of a double. -/
def field (f : Float) : Nat := Shortest.exponentBits f.toBits

theorem exponentBits_eq (b : UInt64) :
    Shortest.exponentBits b = (@unpackExponent Format.binary64 b.toBitVec).toNat := by
  have hextract : (@unpackExponent Format.binary64 b.toBitVec).toNat =
      (b.toNat >>> 52) % 2 ^ 11 := by
    simp [unpackExponent, BitVec.extractLsb, BitVec.extractLsb']
  rw [hextract, Nat.shiftRight_eq_div_pow]
  rfl

theorem field_pack_eq (u : UnpackedFloat) :
    field (.ofModel (.pack u)) = (unpackExponent (UnpackedFloat.pack Format.binary64 u)).toNat :=
  exponentBits_eq _

/-- How a datum with a significand is packed: a significand that is not of full length has no
exponent. -/
theorem pack_finite (s : Sign) (m : Nat) (e : Int) (hm : 0 < m) :
    UnpackedFloat.pack Format.binary64 (.finite s m e hm) =
      if 971 < e then packedInfinity Format.binary64 s
      else packComponents Format.binary64 s
        (BitVec.ofNat 11 (if m.log2 = 52 then (e + 1075).toNat else 0)) (BitVec.ofNat 52 m) := by
  have hbias : Format.binary64.exponentBias = 1023 := rfl
  have hbits : Format.binary64.mantissaBits = 53 := rfl
  simp only [UnpackedFloat.pack, hbias, hbits, Nat.cast_ofNat]
  by_cases hbig : 971 < e
  · rw [if_pos hbig, if_pos (by norm_num; omega)]
  · rw [if_neg hbig, if_neg (by norm_num; omega)]
    by_cases hfull : m.log2 = 52
    · rw [if_pos hfull, if_pos (by omega), show e + 1023 + 52 = e + 1075 by omega]
    · rw [if_neg hfull, if_neg (by omega)]

theorem field_pack_finite (s : Sign) {m : Nat} {e : Int} (hm : 0 < m) (he : e ≤ 971) :
    field (.ofModel (.pack (.finite s m e hm))) ≤ (e + 1075).toNat := by
  rw [field_pack_eq, pack_finite, if_neg (by omega), unpackExponent_packComponents,
    BitVec.toNat_ofNat]
  refine Nat.le_trans (Nat.mod_le _ _) ?_
  split
  · exact Nat.le_refl _
  · exact Nat.zero_le _

theorem field_pack_zero (s : Sign) : field (.ofModel (.pack (.zero s))) = 0 := by
  rw [field_pack_eq, UnpackedFloat.pack, packedZero, unpackExponent_packComponents]
  rfl

/-- What does not overflow when it is packed has a field that is not 2047. -/
theorem field_pack_of_isInf_eq_false {u : UnpackedFloat} (hu : u.isFinite = true)
    (hinf : (Float.ofModel (.pack u)).isInf = false) : field (.ofModel (.pack u)) ≤ 2046 := by
  cases u with
  | infinity s => cases hu
  | notANumber => cases hu
  | zero s =>
    rw [field_pack_zero]
    omega
  | finite s m e hm =>
    by_cases hbig : 971 < e
    · have hisInf : (Float.ofModel (.pack (.finite s m e hm))).isInf =
          (UnpackedFloat.unpack Format.binary64
            (UnpackedFloat.pack Format.binary64 (.finite s m e hm))).isInf := rfl
      rw [hisInf, pack_finite, if_pos hbig] at hinf
      simp [UnpackedFloat.unpack, packedInfinity, UnpackedFloat.isInf] at hinf
    · have hfield := field_pack_finite s hm (show e ≤ 971 by omega)
      omega

theorem toNat_append_one (m : BitVec 52) : (1#1 ++ m).toNat = 2 ^ 52 + m.toNat := by
  rw [BitVec.toNat_append, ← Nat.shiftLeft_add_eq_or_of_lt m.isLt]
  rfl

/-- A double that is finite is unpacked as zero, or with a significand of at most 53 bits and an
exponent that its field bounds. -/
theorem unpack_cases {k : Nat} {f : Float} (h : field f ≤ k) (hk : 0 < k) (hfits : k < 2047) :
    (∃ s, f.toModel.unpack = .zero s) ∨
      ∃ s m e hm, f.toModel.unpack = .finite s m e hm ∧ m < 2 ^ 53 ∧ e + 1075 ≤ k := by
  rw [field, exponentBits_eq] at h
  have hbias : Format.binary64.exponentBias = 1023 := rfl
  have hunpack : f.toModel.unpack = UnpackedFloat.unpack Format.binary64 f.toBits.toBitVec := rfl
  have hlt := (@unpackMantissa Format.binary64 f.toBits.toBitVec).isLt
  have hfinite : @unpackExponent Format.binary64 f.toBits.toBitVec ≠ -1#11 := by
    intro heq
    rw [heq] at h
    have hones : (-1#11).toNat = 2047 := rfl
    omega
  rw [hunpack, UnpackedFloat.unpack]
  simp only [hbias, if_neg hfinite]
  split
  · next hzero =>
    split
    · exact .inl ⟨_, rfl⟩
    · next hne =>
      have hpos : 0 < (@unpackMantissa Format.binary64 f.toBits.toBitVec).toNat :=
        Nat.pos_of_ne_zero fun h0 => hne (BitVec.eq_of_toNat_eq h0)
      refine .inr ⟨_, _, _, hpos, rfl, ?_, ?_⟩
      · norm_num at hlt ⊢
        omega
      · rw [hzero, BitVec.toNat_zero]
        norm_num
        omega
  · have happend := toNat_append_one (@unpackMantissa Format.binary64 f.toBits.toBitVec)
    have hpos : 0 < (1#1 ++ @unpackMantissa Format.binary64 f.toBits.toBitVec).toNat := by omega
    refine .inr ⟨_, _, _, hpos, rfl, ?_, ?_⟩
    · rw [happend]
      norm_num at hlt ⊢
      omega
    · norm_num
      omega

theorem isInf_eq_false {f : Float} (h : field f ≤ 2046) : f.isInf = false := by
  have hisInf : f.isInf = f.toModel.unpack.isInf := rfl
  rw [hisInf]
  rcases unpack_cases h (by decide) (by decide) with ⟨s, hu⟩ | ⟨s, m, e, hm, hu, -⟩
  · rw [hu]
    rfl
  · rw [hu]
    rfl

/-- A significand of full length is unpacked as it was packed. Nothing below asks for its sign. -/
theorem unpack_pack {s : Sign} {m : Nat} {e : Int} (h : 0 < m) (hlow : 2 ^ 52 ≤ m)
    (hhigh : m < 2 ^ 53) (he : -1074 ≤ e) (hfits : e ≤ 971) :
    ∃ s', (Float.Model.pack (.finite s m e h)).unpack = .finite s' m e h := by
  have hlog : m.log2 = 52 := by
    have hle := (Nat.le_log2 (by omega)).2 hlow
    have hlt := (Nat.log2_lt (by omega)).2 hhigh
    omega
  have hbias : Format.binary64.exponentBias = 1023 := rfl
  have hunpack : (Float.Model.pack (.finite s m e h)).unpack =
      UnpackedFloat.unpack Format.binary64
        (UnpackedFloat.pack Format.binary64 (.finite s m e h)) := rfl
  have hfield : (BitVec.ofNat 11 (e + 1075).toNat).toNat = (e + 1075).toNat := by
    rw [BitVec.toNat_ofNat]
    exact Nat.mod_eq_of_lt (by omega)
  have hinfinite : BitVec.ofNat 11 (e + 1075).toNat ≠ -1#11 := by
    intro heq
    have hones : (-1#11).toNat = 2047 := rfl
    rw [heq, hones] at hfield
    omega
  have hsmall : BitVec.ofNat 11 (e + 1075).toNat ≠ 0#11 := by
    intro heq
    rw [heq, BitVec.toNat_zero] at hfield
    omega
  have hmantissa : (1#1 ++ BitVec.ofNat 52 m).toNat = m := by
    rw [toNat_append_one, BitVec.toNat_ofNat]
    omega
  rw [hunpack, pack_finite, if_neg (by omega), if_pos hlog, UnpackedFloat.unpack]
  simp only [unpackMantissa_packComponents, unpackExponent_packComponents, if_neg hinfinite,
    if_neg hsmall, hmantissa, hfield, hbias]
  have hexponent : ((e + 1075).toNat : Int) - ((1023 : Nat) + (52 : Nat)) = e := by
    norm_num
    omega
  exact ⟨_, (UnpackedFloat.finite.injEq _ _ _ _ _ _ _ _).mpr ⟨rfl, rfl, hexponent⟩⟩

end FaultSweep.Double
