import FaultSweep.Proofs.Text.Decimal
import FaultSweep.Time.Text

/-!
# Instants that are written are read back

The reader takes many spellings. Of the one that is written it takes each number whole, finds no
blanks to skip, and ends at an offset of nothing, so that a valid instant comes back as it was.
-/

namespace FaultSweep.Instant

open Text
open Decimal (padded worth)

theorem trimStart_cons {c : Char} (h : isBlank c = false) (cs : List Char) :
    trimStart (c :: cs) = c :: cs := by
  simp [trimStart, h]

theorem isBlank_of_isDigit {c : Char} (h : c.isDigit = true) : isBlank c = false := by
  have hn := Char.isDigit_iff_toNat.1 h
  have hlow : 48 ≤ c.toNat := hn.1
  have hhigh : c.toNat ≤ 57 := hn.2
  simp only [isBlank, Bool.or_eq_false_iff, Bool.and_eq_false_iff, beq_eq_false_iff_ne,
    decide_eq_false_iff_not]
  omega

theorem trimStart_digits {ds : List Char} (hne : ds ≠ []) (hd : ∀ c ∈ ds, c.isDigit = true)
    (rest : List Char) : trimStart (ds ++ rest) = ds ++ rest := by
  obtain ⟨c, cs, rfl⟩ := List.exists_cons_of_ne_nil hne
  exact trimStart_cons (isBlank_of_isDigit (hd c (by simp))) (cs ++ rest)

/-- A number ends where its width is used up or other characters follow. -/
theorem number?_append {width : Nat} {ds rest : List Char} (hne : ds ≠ [])
    (hd : ∀ c ∈ ds, c.isDigit = true) (hlen : ds.length ≤ width)
    (hstop : ∀ c ∈ (rest.take (width - ds.length)).head?, c.isDigit = false) :
    number? width (ds ++ rest) = some (worth ds, rest) := by
  have hrest : (rest.take (width - ds.length)).takeWhile Char.isDigit = [] := by
    cases hr : rest.take (width - ds.length) with
    | nil => rfl
    | cons c cs =>
      rw [hr] at hstop
      simp [hstop c rfl]
  have htake : ((ds ++ rest).take width).takeWhile Char.isDigit = ds := by
    rw [List.take_append, List.take_of_length_le hlen, List.takeWhile_append_of_pos hd, hrest,
      List.append_nil]
  simp only [number?, htake, if_neg hne, List.drop_left]

theorem number?_padded (width n : Nat) (hw : 0 < width) (h : n < 10 ^ width) (rest : List Char) :
    number? width (padded width n ++ rest) = some (n, rest) := by
  have hlen := Decimal.length_padded hw h
  rw [number?_append (Decimal.padded_ne_nil width n)
    (fun c hc => Decimal.isDigit_of_mem_padded hc) (Nat.le_of_eq hlen) (by simp [hlen]),
    Decimal.worth_padded]

theorem short?_two {n : Nat} (h : n < 100) (rest : List Char) :
    short? (two n ++ rest) = some (n, rest) := by
  rw [short?, two, trimStart_digits (Decimal.padded_ne_nil 2 n)
    (fun c hc => Decimal.isDigit_of_mem_padded hc), number?_padded 2 n (by decide) h]

theorem literal?_trimStart {c : Char} (h : isBlank c = false) (cs : List Char) :
    literal? c (trimStart (c :: cs)) = some cs := by
  rw [trimStart_cons h, literal?, if_pos rfl]

theorem longNumber?_padded (width n : Nat) (h : n < 9223372036854775808) {c : Char}
    (hc : c.isDigit = false) (rest : List Char) :
    longNumber? (padded width n ++ c :: rest) = some (n, c :: rest) := by
  have hnumber : number? (padded width n ++ c :: rest).length (padded width n ++ c :: rest) =
      some (n, c :: rest) := by
    rw [number?_append (Decimal.padded_ne_nil width n)
      (fun d hd => Decimal.isDigit_of_mem_padded hd) (by simp) (by simp [hc]),
      Decimal.worth_padded]
  rw [longNumber?, hnumber]
  simp [h]

/-- A year is read with its sign, or as four digits without one. -/
theorem year?_yearText {y : Int} (hlow : Date.firstYear ≤ y) (hhigh : y ≤ Date.lastYear)
    (rest : List Char) :
    year? (trimStart (yearText y ++ '-' :: rest)) = some (y, '-' :: rest) := by
  simp only [Date.firstYear, Date.lastYear] at hlow hhigh
  unfold yearText
  split
  · next hshort =>
    have hdigits : ∀ c ∈ padded 4 y.natAbs, c.isDigit = true := by
      intro c hc
      exact Decimal.isDigit_of_mem_padded hc
    have hnumber := number?_padded 4 y.natAbs (by decide) (by omega)
      ('-' :: rest)
    have hback : (y.natAbs : Int) = y := by omega
    rw [trimStart_digits (Decimal.padded_ne_nil _ _) hdigits]
    obtain ⟨c, cs, hcs⟩ := List.exists_cons_of_ne_nil (Decimal.padded_ne_nil 4 y.natAbs)
    have hc := hdigits c (by simp [hcs])
    rw [hcs, List.cons_append] at hnumber ⊢
    unfold year?
    split
    · next he =>
      obtain ⟨rfl, -⟩ := List.cons.inj he
      exact absurd hc (by decide)
    · next he =>
      obtain ⟨rfl, -⟩ := List.cons.inj he
      exact absurd hc (by decide)
    · rw [hnumber]
      simpa using hback
  · next hlong =>
    have hnumber := longNumber?_padded 4 y.natAbs (by omega)
      (c := '-') (by decide) rest
    split
    · next hneg =>
      have hback : -(y.natAbs : Int) = y := by omega
      rw [List.cons_append, trimStart_cons (by decide)]
      simp only [year?, hnumber]
      simpa using hback
    · next hpos =>
      have hback : (y.natAbs : Int) = y := by omega
      rw [List.cons_append, trimStart_cons (by decide)]
      simp only [year?, hnumber]
      simpa using hback

theorem date?_text {d : Date} (h : d.Valid) (rest : List Char) :
    date? (yearText d.year ++ '-' :: (two d.month ++ '-' :: (two d.day ++ rest))) =
      some (d, rest) := by
  obtain ⟨hlow, hhigh, -, hmonth, -, hday⟩ := h
  have hdays : Date.daysIn d.year d.month ≤ 31 := by
    unfold Date.daysIn
    split
    · split <;> decide
    · split <;> decide
  have hyear := year?_yearText hlow hhigh (two d.month ++ '-' :: (two d.day ++ rest))
  have hdash := literal?_trimStart (c := '-') (by decide)
  have hmonths := short?_two (n := d.month) (by omega) ('-' :: (two d.day ++ rest))
  have hdayNumber := short?_two (n := d.day) (by omega) rest
  simp [date?, hyear, hdash, hmonths, hdayNumber]

/-- Three, six or nine digits are as many nanoseconds as they were written for. -/
theorem fraction?_padded {width n : Nat} (hw : 0 < width) (hnine : width ≤ 9)
    (h : n < 10 ^ width) {c : Char} (hc : c.isDigit = false) (rest : List Char) :
    fraction? ('.' :: (padded width n ++ c :: rest)) = some (n * 10 ^ (9 - width), c :: rest) := by
  have hlen := Decimal.length_padded hw h
  have hnumber : number? 9 (padded width n ++ c :: rest) = some (n, c :: rest) := by
    rw [number?_append (Decimal.padded_ne_nil width n)
      (fun d hd => Decimal.isDigit_of_mem_padded hd) (by omega), Decimal.worth_padded]
    intro d hd
    cases hk : 9 - (padded width n).length with
    | zero => simp [hk] at hd
    | succ k =>
      obtain rfl : c = d := by simpa [hk] using hd
      exact hc
  simp [fraction?, hnumber, hlen, hc]

theorem fraction?_fractionText {nano : Nat} (h : nano < 1000000000) {c : Char}
    (hc : c.isDigit = false) (hdot : c ≠ '.') (rest : List Char) :
    fraction? (fractionText nano ++ c :: rest) = some (nano, c :: rest) := by
  unfold fractionText
  split
  · next hzero =>
    subst hzero
    unfold fraction?
    split
    · next he => exact absurd (List.cons.inj he).1 hdot
    · rfl
  · split
    · next hmilli =>
      have hback : nano / 1000000 * 10 ^ (9 - 3) = nano := by omega
      rw [List.cons_append, fraction?_padded (by decide) (by decide) (by omega) hc, hback]
    · split
      · next hmicro =>
        have hback : nano / 1000 * 10 ^ (9 - 6) = nano := by omega
        rw [List.cons_append, fraction?_padded (by decide) (by decide) (by omega) hc, hback]
      · rw [List.cons_append, fraction?_padded (by decide) (by decide) h hc]
        simp

/-- A clock that shows universal time shows the instant itself. -/
theorem ofLocal_zero {t : Instant} (h : t.Valid) : t.ofLocal 0 = t := by
  obtain ⟨date, hour, minute, second, nano⟩ := t
  obtain ⟨-, hhour, hminute, -, -⟩ := h
  simp only at hhour hminute
  have hlow : ¬((hour : Int) * 60 + minute - 0 < 0) := by omega
  have hhigh : ¬(1440 ≤ (hour : Int) * 60 + minute - 0) := by omega
  have hhours : ((hour : Int) * 60 + minute - 0).toNat / 60 = hour := by omega
  have hminutes : ((hour : Int) * 60 + minute - 0).toNat % 60 = minute := by omega
  simp only [ofLocal, if_neg hlow, if_neg hhigh, hhours, hminutes]

theorem ofChars?_chars {t : Instant} (h : t.Valid) : ofChars? t.chars = some t := by
  have hvalid := h
  obtain ⟨hdate, hhour, hminute, hsecond, hnano⟩ := h
  have hd := date?_text hdate ('T' :: (two t.hour ++ ':' :: (two t.minute ++ ':' ::
    (two t.second ++ (fractionText t.nano ++ ['Z'])))))
  have hh := short?_two (n := t.hour) (by omega)
    (':' :: (two t.minute ++ ':' :: (two t.second ++ (fractionText t.nano ++ ['Z']))))
  have hm := short?_two (n := t.minute) (by omega)
    (':' :: (two t.second ++ (fractionText t.nano ++ ['Z'])))
  have hs := short?_two (n := t.second) (by omega) (fractionText t.nano ++ ['Z'])
  have hf := fraction?_fractionText hnano (c := 'Z') (by decide) (by decide) []
  have hcolon := literal?_trimStart (c := ':') (by decide)
  have hz : offset? (trimStart ['Z']) = some (0, []) := by decide
  have hnil : trimStart [] = [] := rfl
  have hshape : t.chars = yearText t.date.year ++ '-' :: (two t.date.month ++ '-' ::
      (two t.date.day ++ 'T' :: (two t.hour ++ ':' :: (two t.minute ++ ':' ::
        (two t.second ++ (fractionText t.nano ++ ['Z'])))))) := by
    simp [chars]
  simp [hshape, ofChars?, hd, separator?, hh, hcolon, hm, hs, hf, hz, ofLocal_zero hvalid, hvalid,
    hnil]

/-- A valid instant is read back from its text. -/
theorem ofText?_text {t : Instant} (h : t.Valid) : ofText? t.text = some t := by
  rw [ofText?, text, String.toList_ofList, ofChars?_chars h]

/-- What is read is valid, however it was written. -/
theorem valid_of_ofText? {s : String} {t : Instant} (h : ofText? s = some t) : t.Valid := by
  simp only [ofText?, ofChars?, Option.bind_eq_bind, Option.bind_eq_some_iff] at h
  obtain ⟨_, _, _, _, _, _, _, _, _, _, _, _, _, _, _, _, _, _, h⟩ := h
  split at h
  · next hvalid =>
    cases h
    exact hvalid.2.2
  · cases h

end FaultSweep.Instant
