import FaultSweep.Proofs.Double.Arithmetic
import FaultSweep.Proofs.Json.Numerals

/-!
# Numbers that are read are finite, and finite numbers are read again

A numeral whose double would be infinite is refused, so what a numeral is read as is a 64-bit whole
number or a finite double. And the shortest digits of a finite double are a numeral that is read:
three roundings do not take it to infinity, except perhaps for the eight largest doubles, whose
digits are looked at one by one.
-/

namespace FaultSweep

open Double (field)

namespace Number

/-- A whole number of 64 bits or a finite double. -/
def Finite : Number → Prop
  | .int i => (Number.int i).Fits
  | .real bits => Shortest.exponentBits bits ≤ 2046

end Number

namespace Numeral

theorem gather_lt {s : Nat} (cs : List Char) (h : s < wordBound) : (gather s cs).1 < wordBound := by
  induction cs generalizing s with
  | nil => exact h
  | cons c cs ih =>
    rw [gather]
    split
    · next hnext => exact ih hnext
    · exact h

/-- The digits that are gathered are worth no more than all of them. -/
theorem gather_le (s : Nat) (cs : List Char) :
    (gather s cs).1 * 10 ^ (gather s cs).2 ≤ Nat.ofDigitChars 10 cs s := by
  induction cs generalizing s with
  | nil => simp [gather]
  | cons c cs ih =>
    rw [gather, Nat.ofDigitChars_cons, Nat.mul_comm 10 s]
    split
    · exact ih _
    · rw [Nat.ofDigitChars_eq_ofDigitChars_zero]
      have hmul : 10 ^ cs.length * (s * 10) ≤
          10 ^ cs.length * (s * 10 + (c.toNat - '0'.toNat)) :=
        Nat.mul_le_mul_left _ (Nat.le_add_right _ _)
      calc s * 10 ^ (cs.length + 1) = 10 ^ cs.length * (s * 10) := by ring
        _ ≤ _ := Nat.le_trans hmul (Nat.le_add_right _ _)

theorem dropped_le (s : Nat) (cs : List Char) : (gather s cs).2 ≤ cs.length := by
  induction cs generalizing s with
  | nil => exact Nat.le_refl 0
  | cons c cs ih =>
    rw [gather]
    split
    · exact Nat.le_succ_of_le (ih _)
    · exact Nat.le_refl _

/-- What scaling makes of a double, with so many divisions by `10 ^ 308` at most. -/
inductive Scaled : Nat → Float → Float → Prop
  | multiplied {rounds p : Nat} {f : Float} (hp : p ≤ 308)
      (hfinite : (f * Float.ofScientific 1 false p).isInf = false) :
      Scaled rounds f (f * Float.ofScientific 1 false p)
  | divided {rounds p : Nat} {f : Float} (hp : p ≤ 308) :
      Scaled rounds f (f / Float.ofScientific 1 false p)
  | same {rounds : Nat} {f : Float} : Scaled rounds f f
  | vanished {rounds : Nat} {f : Float} : Scaled rounds f 0
  | later {rounds : Nat} {f r : Float} (h : Scaled rounds (f / Float.ofScientific 1 false 308) r) :
      Scaled (rounds + 1) f r

theorem scaled_of_scaled? {rounds : Nat} {f r : Float} {power : Int}
    (h : scaled? rounds f power = some r) : Scaled rounds f r := by
  fun_induction scaled? rounds f power with
  | case1 rounds f power hpower ten hup product hinf => cases h
  | case2 rounds f power hpower ten hup product hfinite =>
    obtain rfl : product = r := Option.some.inj h
    exact .multiplied hpower (Bool.eq_false_iff.2 hfinite)
  | case3 rounds f power hpower ten hdown =>
    cases h
    exact .divided hpower
  | case4 rounds f power hpower hzero =>
    cases h
    exact .same
  | case5 => cases h
  | case6 =>
    cases h
    exact .vanished
  | case7 f power hpower hzero hdown rounds ih => exact .later (ih h)

/-- Scaling has no infinite result: a product that is infinite is refused, and each of the few
divisions adds at most 54 to the exponent. -/
theorem Scaled.field_le {rounds k : Nat} {f r : Float} (h : Scaled rounds f r) (hf : field f ≤ k)
    (hk : 0 < k) (hfits : k + 54 * (rounds + 1) ≤ 2046) : field r ≤ 2046 := by
  induction h generalizing k with
  | multiplied hp hfinite =>
    exact Double.field_mul_of_isInf_eq_false hf hk (by omega) (Double.atMost_ten hp) hfinite
  | divided hp =>
    have hquot := Double.field_div_le hf hk (by omega) (Double.atMost_ten hp)
    omega
  | same => omega
  | vanished => decide
  | later h ih =>
    have hquot := Double.field_div_le hf hk (by omega) (Double.atMost_ten (Nat.le_refl 308))
    exact ih hquot (by omega) (by omega)

theorem finite_signed {f : Float} (h : field f ≤ 2046) (negative : Bool) :
    (signed negative f).Finite := by
  cases negative with
  | true => exact Double.field_neg_le h (by decide) (by decide)
  | false => exact h

theorem finite_of_map_signed {o : Option Float} {negative : Bool} {v : Number}
    (ho : ∀ f, o = some f → field f ≤ 2046) (h : o.map (signed negative) = some v) : v.Finite := by
  obtain ⟨f, hf, rfl⟩ := Option.map_eq_some_iff.1 h
  exact finite_signed (ho f hf) negative

/-- What a numeral is read as is finite. -/
theorem finite_of_value? {n : Numeral} {v : Number} (h : n.value? = some v) : v.Finite := by
  have hwhole : (gather 0 n.whole).1 < wordBound := gather_lt n.whole (by decide)
  have hall : (gather (gather 0 n.whole).1 n.fraction).1 < wordBound := gather_lt n.fraction hwhole
  have hscaled : ∀ power r, scaled? 3
      (UInt64.ofNat (gather (gather 0 n.whole).1 n.fraction).1).toFloat power = some r →
      field r ≤ 2046 := by
    intro power r hr
    exact (scaled_of_scaled? hr).field_le (Double.field_toFloat_le hall) (by decide) (by decide)
  rw [value?] at h
  dsimp only at h
  split at h
  · split at h
    · split at h
      · next hfits =>
        cases h
        refine ⟨?_, ?_⟩ <;> omega
      · cases h
        have hfield := Double.field_toFloat_le hwhole
        exact finite_signed (by omega) true
    · cases h
      rw [wordBound] at hwhole
      refine ⟨?_, ?_⟩ <;> omega
  · split at h
    · exact finite_of_map_signed (hscaled _) h
    · split at h
      · split at h
        · cases h
        · cases h
          exact finite_signed (by decide) n.negative
      · exact finite_of_map_signed (hscaled _) h

/-- Divisions are never refused. -/
theorem isSome_scaled?_of_neg {rounds : Nat} {f : Float} {power : Int} (h : power < 0) :
    (scaled? rounds f power).isSome = true := by
  fun_induction scaled? rounds f power with
  | case1 => omega
  | case2 => rfl
  | case3 => rfl
  | case4 => rfl
  | case5 => omega
  | case6 => rfl
  | case7 f power hpower hzero hdown rounds ih => exact ih (by omega)

/-- A product that is safe is not refused. -/
theorem isSome_scaled?_of_safe {rounds n p : Nat} (hn : n < wordBound) (hp : p ≤ 308)
    (h : n * 10 ^ p ≤ Double.safe) :
    (scaled? rounds (UInt64.ofNat n).toFloat p).isSome = true := by
  have hfield : field ((UInt64.ofNat n).toFloat * Float.ofScientific 1 false p) ≤ 2046 := by
    by_cases hzero : n = 0
    · subst hzero
      rw [Double.field_zero_mul (Double.atMost_ten hp)]
      omega
    · have hpos : 0 < n := Nat.pos_of_ne_zero hzero
      exact Double.field_mul_le (Double.atMost_toFloat hpos hn) (Double.atMost_ten hp) h
  rw [scaled?.eq_def]
  dsimp only
  rw [if_pos (by omega), if_pos (by omega), Int.natAbs_natCast, Double.isInf_eq_false hfield]
  rfl

theorem isSome_scaled? {rounds n : Nat} {power : Int} (hn : n < wordBound) (hp : power ≤ 308)
    (h : Decimal.AtMost n power Double.safe) :
    (scaled? rounds (UInt64.ofNat n).toFloat power).isSome = true := by
  by_cases hneg : power < 0
  · exact isSome_scaled?_of_neg hneg
  · obtain ⟨p, rfl⟩ := Int.eq_ofNat_of_zero_le (show 0 ≤ power by omega)
    exact isSome_scaled?_of_safe hn (by omega) h.le

theorem safe_of_nonpos {n : Nat} {power : Int} (hn : n < wordBound) (hp : power ≤ 0) :
    Decimal.AtMost n power Double.safe := by
  have hzero : power.toNat = 0 := by omega
  have hsafe : wordBound ≤ Double.safe := by decide +kernel
  rw [Decimal.AtMost, hzero, Nat.pow_zero, Nat.mul_one]
  calc n ≤ Double.safe * 1 := by omega
    _ ≤ Double.safe * 10 ^ (-power).toNat :=
      Nat.mul_le_mul_left _ (Nat.one_le_pow _ _ (by decide))

/-- A numeral whose whole part is gathered is read, if what its exponent makes of it is safe. -/
theorem isSome_value? {n : Numeral} {w : Nat} (hwhole : gather 0 n.whole = (w, 0))
    (hexponent : ∀ ds, n.exponent = some (false, ds) → Nat.ofDigitChars 10 ds 0 ≤ 308 ∧
      Decimal.AtMost (gather w n.fraction).1
        (Nat.ofDigitChars 10 ds 0 - (n.fraction.length - (gather w n.fraction).2 : Nat))
        Double.safe) : n.value?.isSome = true := by
  have hw : w < wordBound := by
    have hlt := gather_lt n.whole (show 0 < wordBound by decide)
    rwa [hwhole] at hlt
  have hall := gather_lt n.fraction hw
  rw [value?, hwhole]
  dsimp only
  split
  · split
    · split
      · rfl
      · rfl
    · rfl
  · split
    · rw [Option.isSome_map]
      exact isSome_scaled? hall (by omega) (safe_of_nonpos hall (by omega))
    · next negative ds hds =>
      cases negative with
      | true =>
        split
        · rw [if_neg (by simp)]
          rfl
        · rw [Option.isSome_map, if_pos rfl]
          exact isSome_scaled? hall (by omega) (safe_of_nonpos hall (by omega))
      | false =>
        obtain ⟨hsmall, hsafe⟩ := hexponent ds hds
        rw [if_neg (by omega), Option.isSome_map, if_neg (by decide)]
        have hpower : ((0 : Nat) : Int) - (n.fraction.length - (gather w n.fraction).2 : Nat) +
            Nat.ofDigitChars 10 ds 0 = Nat.ofDigitChars 10 ds 0 -
              (n.fraction.length - (gather w n.fraction).2 : Nat) := by omega
        rw [hpower]
        exact isSome_scaled? hall (by omega) hsafe

/-- Without an exponent that lets it grow, such a numeral is always read. -/
theorem isSome_value?_of_not_grown {n : Numeral} {w : Nat} (hwhole : gather 0 n.whole = (w, 0))
    (hexponent : ∀ ds, n.exponent ≠ some (false, ds)) : n.value?.isSome = true := by
  apply isSome_value? hwhole
  intro ds hds
  exact absurd hds (hexponent ds)

end Numeral

namespace Number

open Decimal (worth)
open Numeral (gather)
open Shortest (Digits)

theorem gather_whole {cs : List Char} (hd : ∀ c ∈ cs, c.isDigit = true) (hlen : cs.length ≤ 16) :
    gather 0 cs = (worth cs, 0) := by
  have hpow : 10 ^ cs.length ≤ 10 ^ 16 := Nat.pow_le_pow_right (by decide) hlen
  have hword : 10 ^ 16 < wordBound := by decide
  have hlt := Decimal.worth_lt hd
  exact Numeral.gather_eq (show worth cs < wordBound by omega)

theorem le_of_atMost {power : Int} (h : Decimal.AtMost 1 power Double.safe) : power ≤ 308 := by
  by_contra hlarge
  obtain ⟨p, rfl⟩ := Int.eq_ofNat_of_zero_le (show 0 ≤ power by omega)
  have hpow := Nat.pow_le_pow_right (show 0 < 10 by decide) (show 309 ≤ p by omega)
  have hle := h.le
  rw [Nat.one_mul] at hle
  exact absurd (Nat.le_trans hpow hle) (by decide +kernel)

/-- Digits with an exponent are read if they are safe. -/
theorem isSome_value?_exponential (negative : Bool) {c : Char} {cs : List Char} {e : Nat}
    (hd : ∀ d ∈ c :: cs, d.isDigit = true) (hc : c ≠ '0')
    (h : Decimal.AtMost (worth (c :: cs)) (e - cs.length) Double.safe) :
    (Numeral.value? ⟨negative, [c], cs, some (false, Decimal.digits e)⟩).isSome = true := by
  have hone : ∀ d ∈ [c], d.isDigit = true := by
    intro d hmem
    rw [List.mem_singleton.1 hmem]
    exact hd c (by simp)
  have hwhole := gather_whole hone (by simp)
  apply Numeral.isSome_value? hwhole
  intro ds hds
  obtain ⟨-, rfl⟩ : false = false ∧ Decimal.digits e = ds := by simpa using hds
  have hworth : Nat.ofDigitChars 10 (Decimal.digits e) 0 = e := Decimal.worth_digits e
  have hgathered := Numeral.gather_le (worth [c]) cs
  have hcons : Nat.ofDigitChars 10 cs (worth [c]) = worth (c :: cs) := by
    rw [worth, worth, ← Nat.ofDigitChars_append]
    rfl
  rw [hcons] at hgathered
  have hdropped := Numeral.dropped_le (worth [c]) cs
  -- the exponent is that of the first digit, which is not zero
  have hlead : (e : Int) ≤ 308 := by
    apply le_of_atMost
    have hplaces : Decimal.AtMost (1 * 10 ^ cs.length) (e - cs.length) Double.safe := by
      apply h.mono
      rw [Nat.one_mul]
      exact Decimal.le_worth (hd c (by simp)) hc
    have hshift := hplaces.shift
    rwa [Int.sub_add_cancel] at hshift
  have hsafe : Decimal.AtMost (gather (worth [c]) cs).1
      (e - cs.length + (gather (worth [c]) cs).2) Double.safe := (h.mono hgathered).shift
  have hpower : (e : Int) - (cs.length - (gather (worth [c]) cs).2 : Nat) =
      e - cs.length + (gather (worth [c]) cs).2 := by omega
  rw [hworth]
  dsimp only
  rw [hpower]
  exact ⟨by omega, hsafe⟩

/-- Digits are read, wherever the first stands, if they are safe. -/
theorem isSome_value?_partsOf (negative : Bool) {d : Digits} (hd : d.Proper)
    (h : d.AtMost Double.safe) : (partsOf negative d).value?.isSome = true := by
  have hproper := (partsOf_proper negative hd).whole
  unfold partsOf at hproper ⊢
  by_cases hplace : -5 ≤ d.power ∧ d.power ≤ 15
  · rw [if_pos hplace] at hproper ⊢
    by_cases hneg : d.power < 0
    · rw [if_pos hneg] at hproper ⊢
      exact Numeral.isSome_value?_of_not_grown (gather_whole hproper (by simp)) (by simp)
    · rw [if_neg hneg] at hproper ⊢
      by_cases hlen : d.digits.length ≤ d.power.toNat + 1
      · rw [if_pos hlen] at hproper ⊢
        refine Numeral.isSome_value?_of_not_grown (gather_whole hproper ?_) (by simp)
        simp only [List.length_append, List.length_replicate]
        omega
      · rw [if_neg hlen] at hproper ⊢
        refine Numeral.isSome_value?_of_not_grown (gather_whole hproper ?_) (by simp)
        rw [List.length_take]
        omega
  · rw [if_neg hplace] at hproper ⊢
    by_cases hneg : d.power < 0
    · rw [decide_eq_true hneg]
      refine Numeral.isSome_value?_of_not_grown (gather_whole hproper ?_) (by simp)
      rw [List.length_take]
      omega
    · rw [decide_eq_false hneg]
      obtain ⟨digits, power⟩ := d
      obtain ⟨c, cs, rfl⟩ := List.exists_cons_of_ne_nil hd.ne_nil
      obtain ⟨e, rfl⟩ := Int.eq_ofNat_of_zero_le (show 0 ≤ power by simpa using hneg)
      have hc : c ≠ '0' := by
        rintro rfl
        have hzero := (hd.leading rfl).2
        simp only at hzero hplace
        omega
      have hpower : (e : Int) + 1 - (c :: cs).length = e - cs.length := by
        rw [List.length_cons]
        omega
      rw [Digits.AtMost, hpower] at h
      exact isSome_value?_exponential negative hd.digits hc h

/-- The upper end of the interval of a double is safe, if it is not one of the eight largest. -/
theorem scale_binary_le {bits : UInt64} (h : Shortest.exponentBits bits ≤ 2046)
    (hsmall : Shortest.exponentBits bits = 2046 →
      Shortest.fractionBits bits < Shortest.leadingBit - 8) :
    (Shortest.scale (4 * (Shortest.binary bits).m + 2) ((Shortest.binary bits).q - 2)).num ≤
      Double.safe *
        (Shortest.scale (4 * (Shortest.binary bits).m + 2) ((Shortest.binary bits).q - 2)).den := by
  have hfraction : Shortest.fractionBits bits < Shortest.leadingBit :=
    Nat.mod_lt _ (by decide)
  have hbinary : (Shortest.binary bits).m < 2 * Shortest.leadingBit ∧
      (Shortest.binary bits).q ≤ 971 ∧ ((Shortest.binary bits).q = 971 →
        (Shortest.binary bits).m + 8 < 2 * Shortest.leadingBit) := by
    unfold Shortest.binary
    split <;> simp only <;> refine ⟨by omega, by omega, fun hq => ?_⟩
    · cases hq
    · have hlast := hsmall (by omega)
      omega
  obtain ⟨hm, hq, hlast⟩ := hbinary
  rw [Shortest.leadingBit] at hm hlast
  by_cases htop : (Shortest.binary bits).q = 971
  · refine Nat.le_trans (Shortest.scale_le _ (k := 969) (by omega)) (Nat.mul_le_mul_right _ ?_)
    exact Nat.mul_le_mul_right _ (by have hle := hlast htop; omega)
  · refine Nat.le_trans (Shortest.scale_le _ (k := 968) (by omega)) (Nat.mul_le_mul_right _ ?_)
    calc (4 * (Shortest.binary bits).m + 2) * 2 ^ 968
        ≤ (2 ^ 55 - 34) * 2 * 2 ^ 968 := Nat.mul_le_mul_right _ (by omega)
      _ = Double.safe := by decide +kernel

/-- The doubles that are looked at one by one: the eight before infinity, on either side. -/
theorem isSome_value?_largest : ∀ i : Fin 8,
    (realNumeral (UInt64.ofNat (9218868437227405304 + i))).value?.isSome = true ∧
      (realNumeral (UInt64.ofNat (18442240474082181112 + i))).value?.isSome = true := by
  decide +kernel

theorem isSome_value?_of_large {bits : UInt64} (h : Shortest.exponentBits bits = 2046)
    (hlarge : Shortest.leadingBit - 8 ≤ Shortest.fractionBits bits) :
    (realNumeral bits).value?.isSome = true := by
  have hlt := bits.toNat_lt
  unfold Shortest.exponentBits at h
  unfold Shortest.fractionBits at hlarge
  rw [Shortest.leadingBit] at h hlarge
  have hbits : ∃ i : Fin 8, bits = UInt64.ofNat (9218868437227405304 + i) ∨
      bits = UInt64.ofNat (18442240474082181112 + i) := by
    refine ⟨⟨bits.toNat % 4503599627370496 - 4503599627370488, by omega⟩, ?_⟩
    rw [← UInt64.toNat_inj, ← UInt64.toNat_inj, UInt64.toNat_ofNat', UInt64.toNat_ofNat']
    simp only
    omega
  obtain ⟨i, hi⟩ := hbits
  obtain ⟨hpos, hneg⟩ := isSome_value?_largest i
  rcases hi with rfl | rfl
  · exact hpos
  · exact hneg

/-- The text of a finite number is read as a number again. -/
theorem isSome_reread {n : Number} (h : n.Finite) : n.reread.isSome = true := by
  cases n with
  | int i =>
    have hfits : (int i).Fits := h
    rw [reread_of_fits hfits]
    rfl
  | real bits =>
    rw [reread, numeral]
    by_cases hlarge : Shortest.exponentBits bits = 2046 ∧
        Shortest.leadingBit - 8 ≤ Shortest.fractionBits bits
    · exact isSome_value?_of_large hlarge.1 hlarge.2
    · unfold realNumeral
      by_cases hzero : bits.toNat % Shortest.signBit = 0
      · rw [if_pos hzero]
        have hwhole : gather 0 ['0'] = (0, 0) := by decide
        exact Numeral.isSome_value?_of_not_grown hwhole (by simp)
      · rw [if_neg hzero]
        have hsafe := scale_binary_le h fun he => by
          by_contra hge
          exact hlarge ⟨he, by omega⟩
        exact isSome_value?_partsOf _ (Shortest.digits_proper hzero) (Shortest.digits_atMost hsafe)

/-- What a numeral is read as can be written and read again. -/
theorem isSome_reread_of_value? {k : Numeral} {n : Number} (h : k.value? = some n) :
    n.reread.isSome = true :=
  isSome_reread (Numeral.finite_of_value? h)

end Number

end FaultSweep
