import FaultSweep.Json.Numeral
import FaultSweep.Proofs.Text.Decimal
import FaultSweep.Proofs.Text.Shortest

/-!
# Numerals that are written are numerals that are read

The text of a number is put together from the parts that the reader cuts it into. Every number,
whole or not, is written as a numeral; a whole number of 64 bits is read back as itself.
-/

namespace FaultSweep

namespace Numeral

/-- The text of the exponent, which has a sign. -/
def exponentChars : Option (Bool × List Char) → List Char
  | none => []
  | some (negative, ds) => 'e' :: (if negative then '-' else '+') :: ds

def fractionChars (ds : List Char) : List Char := if ds = [] then [] else '.' :: ds

/-- The text of a numeral after its sign. -/
def magnitude (n : Numeral) : List Char :=
  n.whole ++ (fractionChars n.fraction ++ exponentChars n.exponent)

def chars (n : Numeral) : List Char := if n.negative then '-' :: n.magnitude else n.magnitude

/-- What a reader asks of the parts of a numeral. -/
structure Proper (n : Numeral) : Prop where
  whole_ne_nil : n.whole ≠ []
  whole : ∀ c ∈ n.whole, c.isDigit = true
  leading : n.whole.length > 1 → n.whole.head? ≠ some '0'
  fraction : ∀ c ∈ n.fraction, c.isDigit = true
  exponent : ∀ e ∈ n.exponent, e.2 ≠ [] ∧ ∀ c ∈ e.2, c.isDigit = true

theorem digits?_append {ds rest : List Char} (hne : ds ≠ []) (hd : ∀ c ∈ ds, c.isDigit = true)
    (hr : ∀ c ∈ rest.head?, c.isDigit = false) : digits? (ds ++ rest) = some (ds, rest) := by
  have hrest : rest.takeWhile Char.isDigit = [] ∧ rest.dropWhile Char.isDigit = rest := by
    cases rest with
    | nil => simp
    | cons c cs => simp [hr c rfl]
  have hspan : (ds ++ rest).span Char.isDigit = (ds, rest) := by
    rw [List.span_eq_takeWhile_dropWhile, List.takeWhile_append_of_pos hd,
      List.dropWhile_append_of_pos hd, hrest.1, hrest.2, List.append_nil]
  unfold digits?
  rw [hspan]
  cases ds with
  | nil => exact absurd rfl hne
  | cons d ds => rfl

theorem fraction?_append {ds rest : List Char} (hd : ∀ c ∈ ds, c.isDigit = true)
    (hr : ∀ c ∈ rest.head?, c.isDigit = false ∧ c ≠ '.') :
    fraction? (fractionChars ds ++ rest) = some (ds, rest) := by
  by_cases h : ds = []
  · subst h
    unfold fraction?
    split
    · next he => exact absurd rfl (hr '.' (by simp_all [fractionChars])).2
    · simp [fractionChars]
  · rw [fractionChars, if_neg h, List.cons_append, fraction?]
    exact digits?_append h hd (fun c hc => (hr c hc).1)

theorem exponent?_exponentChars {e : Option (Bool × List Char)}
    (h : ∀ x ∈ e, x.2 ≠ [] ∧ ∀ c ∈ x.2, c.isDigit = true) :
    exponent? (exponentChars e) = some e := by
  cases e with
  | none => rfl
  | some x =>
    obtain ⟨negative, ds⟩ := x
    obtain ⟨hne, hd⟩ := h _ rfl
    have hds : digits? (ds ++ []) = some (ds, []) := digits?_append hne hd (by simp)
    rw [List.append_nil] at hds
    cases negative <;> simp [exponentChars, exponent?, hds]

theorem head?_exponentChars (e : Option (Bool × List Char)) :
    ∀ c ∈ (exponentChars e).head?, c.isDigit = false ∧ c ≠ '.' := by
  cases e with
  | none => simp [exponentChars]
  | some x =>
    intro c hc
    obtain rfl : 'e' = c := by simpa [exponentChars] using hc
    decide

theorem head?_fractionChars (ds : List Char) (e : Option (Bool × List Char)) :
    ∀ c ∈ (fractionChars ds ++ exponentChars e).head?, c.isDigit = false := by
  by_cases h : ds = []
  · subst h
    intro c hc
    exact (head?_exponentChars e c hc).1
  · intro c hc
    obtain rfl : '.' = c := by simpa [fractionChars, h] using hc
    decide

/-- A numeral is cut into the parts it was put together from. -/
theorem parse?_chars {n : Numeral} (h : n.Proper) : parse? n.chars = some n := by
  obtain ⟨negative, whole, fraction, exponent⟩ := n
  have hwhole := digits?_append h.whole_ne_nil h.whole (head?_fractionChars fraction exponent)
  have hfraction := fraction?_append h.fraction (head?_exponentChars exponent)
  have hexponent := exponent?_exponentChars h.exponent
  have hlead : ¬(whole.length > 1 ∧ whole.head? = some '0') := by
    intro hl
    exact h.leading hl.1 hl.2
  cases negative with
  | true => simp [chars, magnitude, parse?, hwhole, hfraction, hexponent, hlead]
  | false =>
    obtain ⟨c, cs, rfl⟩ := List.exists_cons_of_ne_nil h.whole_ne_nil
    have hc : c ≠ '-' := by
      rintro rfl
      exact absurd (h.whole '-' (by simp)) (by decide)
    simp only [List.cons_append] at hwhole
    simpa [chars, magnitude, parse?, hc, hwhole, hfraction, hexponent] using hlead

theorem le_ofDigitChars (cs : List Char) (s : Nat) : s ≤ Nat.ofDigitChars 10 cs s := by
  rw [Nat.ofDigitChars_eq_ofDigitChars_zero]
  have hpow : 1 ≤ 10 ^ cs.length := Nat.one_le_pow _ _ (by decide)
  have hmul : 1 * s ≤ 10 ^ cs.length * s := Nat.mul_le_mul_right s hpow
  omega

/-- Digits that stay a word are all gathered. -/
theorem gather_eq {cs : List Char} {s : Nat} (h : Nat.ofDigitChars 10 cs s < wordBound) :
    gather s cs = (Nat.ofDigitChars 10 cs s, 0) := by
  induction cs generalizing s with
  | nil => rfl
  | cons c cs ih =>
    rw [Nat.ofDigitChars_cons, Nat.mul_comm] at h ⊢
    have hnext := Nat.lt_of_le_of_lt (le_ofDigitChars cs _) h
    rw [gather]
    simp only [if_pos hnext]
    exact ih h

end Numeral

namespace Number

open Shortest (Digits)

/-- The parts in which digits are written, by the place of the first. -/
def partsOf (negative : Bool) (d : Digits) : Numeral :=
  if -5 ≤ d.power ∧ d.power ≤ 15 then
    if d.power < 0 then
      ⟨negative, ['0'], List.replicate (d.power.natAbs - 1) '0' ++ d.digits, none⟩
    else if d.digits.length ≤ d.power.toNat + 1 then
      ⟨negative, d.digits ++ List.replicate (d.power.toNat + 1 - d.digits.length) '0', ['0'], none⟩
    else ⟨negative, d.digits.take (d.power.toNat + 1), d.digits.drop (d.power.toNat + 1), none⟩
  else
    ⟨negative, d.digits.take 1, d.digits.drop 1,
      some (decide (d.power < 0), Decimal.digits d.power.natAbs)⟩

def realNumeral (bits : UInt64) : Numeral :=
  if bits.toNat % Shortest.signBit = 0 then ⟨Shortest.isNegative bits, ['0'], ['0'], none⟩
  else partsOf (Shortest.isNegative bits) (Shortest.digits bits)

def intNumeral (i : Int) : Numeral := ⟨decide (i < 0), Decimal.digits i.natAbs, [], none⟩

/-- The numeral that a number is written as. -/
def numeral : Number → Numeral
  | .int i => intNumeral i
  | .real bits => realNumeral bits

@[simp] theorem negative_partsOf (negative : Bool) (d : Digits) :
    (partsOf negative d).negative = negative := by
  unfold partsOf
  split
  · split
    · rfl
    · split <;> rfl
  · rfl

/-- The text that digits are placed in. -/
theorem magnitude_partsOf (negative : Bool) {d : Digits} (hd : d.digits ≠ []) :
    (partsOf negative d).magnitude =
      if -5 ≤ d.power ∧ d.power ≤ 15 then
        if d.power < 0 then
          '0' :: '.' :: (List.replicate (d.power.natAbs - 1) '0' ++ d.digits)
        else if d.digits.length ≤ d.power.toNat + 1 then
          d.digits ++ List.replicate (d.power.toNat + 1 - d.digits.length) '0' ++ ['.', '0']
        else d.digits.take (d.power.toNat + 1) ++ '.' :: d.digits.drop (d.power.toNat + 1)
      else
        (match d.digits with
        | c :: [] => [c]
        | c :: cs => c :: '.' :: cs
        | [] => []) ++ 'e' :: (if d.power < 0 then '-' else '+') ::
          Decimal.digits d.power.natAbs := by
  unfold partsOf
  split
  · split
    · simp [Numeral.magnitude, Numeral.fractionChars, Numeral.exponentChars, hd]
    · split
      · simp [Numeral.magnitude, Numeral.fractionChars, Numeral.exponentChars]
      · next hlong =>
        have hdrop : d.digits.drop (d.power.toNat + 1) ≠ [] := by
          simp only [ne_eq, List.drop_eq_nil_iff]
          omega
        simp [Numeral.magnitude, Numeral.fractionChars, Numeral.exponentChars, hdrop]
  · obtain ⟨digits, power⟩ := d
    obtain ⟨c, cs, rfl⟩ := List.exists_cons_of_ne_nil hd
    cases cs <;> simp [Numeral.magnitude, Numeral.fractionChars, Numeral.exponentChars]

theorem partsOf_proper (negative : Bool) {d : Digits} (h : d.Proper) :
    (partsOf negative d).Proper := by
  have hdrop : ∀ n, ∀ c ∈ d.digits.drop n, c.isDigit = true := by
    intro n c hc
    exact h.digits c (List.mem_of_mem_drop hc)
  unfold partsOf
  split
  · split
    · refine ⟨by simp, by simp, by simp, ?_, by simp⟩
      intro c hc
      rcases List.mem_append.1 hc with hc | hc
      · rw [List.eq_of_mem_replicate hc]
        decide
      · exact h.digits c hc
    · next hpower =>
      split
      · refine ⟨by simp [h.ne_nil], ?_, ?_, by simp, by simp⟩
        · intro c hc
          rcases List.mem_append.1 hc with hc | hc
          · exact h.digits c hc
          · rw [List.eq_of_mem_replicate hc]
            decide
        · intro hlen hzero
          rw [List.head?_append_of_ne_nil _ h.ne_nil] at hzero
          obtain ⟨hd, hp⟩ := h.leading hzero
          simp [hd, hp] at hlen
      · next hlong =>
        refine ⟨by simp [h.ne_nil], fun c hc => h.digits c (List.mem_of_mem_take hc), ?_,
          hdrop _, by simp⟩
        intro _ hzero
        rw [List.head?_take, if_neg (by omega)] at hzero
        obtain ⟨hd, hp⟩ := h.leading hzero
        simp [hd, hp] at hlong
  · refine ⟨by simp [h.ne_nil], fun c hc => h.digits c (List.mem_of_mem_take hc), ?_, hdrop _, ?_⟩
    · intro hlen
      simp only [List.length_take] at hlen
      omega
    · intro e he
      cases he
      exact ⟨Decimal.digits_ne_nil _, fun c hc => Decimal.isDigit_of_mem_digits hc⟩

theorem realNumeral_proper (bits : UInt64) : (realNumeral bits).Proper := by
  unfold realNumeral
  split
  · exact ⟨by simp, by simp, by simp, by simp, by simp⟩
  · next h => exact partsOf_proper _ (Shortest.digits_proper h)

theorem intNumeral_proper (i : Int) : (intNumeral i).Proper := by
  refine ⟨Decimal.digits_ne_nil _, fun c hc => Decimal.isDigit_of_mem_digits hc, ?_,
    by simp [intNumeral], by simp [intNumeral]⟩
  intro hlen
  apply Decimal.head?_digits
  by_contra hz
  obtain hz : i.natAbs = 0 := by omega
  simp [intNumeral, hz, Decimal.digits] at hlen

/-- Every number is written as a numeral. -/
theorem numeral_proper (n : Number) : n.numeral.Proper := by
  cases n with
  | int i => exact intNumeral_proper i
  | real bits => exact realNumeral_proper bits

theorem realText_eq (bits : UInt64) : realText bits = (realNumeral bits).chars := by
  by_cases h : bits.toNat % Shortest.signBit = 0
  · simp only [realText, realNumeral, if_pos h, Numeral.chars]
    rfl
  · have hd := (Shortest.digits_proper h).ne_nil
    simp only [realText, realNumeral, if_neg h, Numeral.chars, negative_partsOf]
    exact congrArg (fun m => if Shortest.isNegative bits = true then '-' :: m else m)
      (magnitude_partsOf _ hd).symm

theorem intText_eq (i : Int) : intText i = (intNumeral i).chars := by
  simp [intText, intNumeral, Numeral.chars, Numeral.magnitude, Numeral.fractionChars,
    Numeral.exponentChars]

theorem text_eq (n : Number) : n.text = n.numeral.chars := by
  cases n with
  | int i => exact intText_eq i
  | real bits => exact realText_eq bits

theorem parse?_text (n : Number) : Numeral.parse? n.text = some n.numeral := by
  rw [text_eq]
  exact Numeral.parse?_chars n.numeral_proper

/-- What a reader makes of the text of a number. -/
def reread (n : Number) : Option Number := n.numeral.value?

/-- A whole number of 64 bits is read back as itself. -/
theorem reread_of_fits {n : Number} (h : n.Fits) : n.reread = some n := by
  cases n with
  | real bits => exact absurd h id
  | int i =>
    obtain ⟨hlow, hhigh⟩ := h
    have hword : Decimal.worth (Decimal.digits i.natAbs) < wordBound := by
      rw [Decimal.worth_digits, wordBound]
      omega
    simp only [reread, numeral, intNumeral, Numeral.value?, Numeral.gather_eq hword,
      Decimal.worth_digits]
    by_cases hneg : i < 0
    · have hbound : 0 < i.natAbs ∧ i.natAbs ≤ 9223372036854775808 := by omega
      have hback : -(i.natAbs : Int) = i := by omega
      simpa [hneg, hbound] using hback
    · have hback : (i.natAbs : Int) = i := by omega
      simpa [hneg] using hback

end Number

end FaultSweep
