import Mathlib
import FaultSweep.Gateway.Client
import FaultSweep.Proofs.Text.Decimal

/-!
# Block counts

A count is read from a text if it is a number in decimal digits with nothing but blanks around it.
The number may have a plus sign and any number of zeros in front, and has to fit a word. Every other
text is refused, so that no count is ever cut or wraps around.
-/

namespace FaultSweep

namespace Text

def Blanks (cs : List Char) : Prop := ∀ c ∈ cs, isBlank c = true

/-- A text that neither begins nor ends with a blank. -/
structure Bare (cs : List Char) : Prop where
  head : ∀ c, cs.head? = some c → isBlank c = false
  last : ∀ c, cs.getLast? = some c → isBlank c = false

theorem dropWhile_of_head {cs : List Char} (h : ∀ c, cs.head? = some c → isBlank c = false) :
    cs.dropWhile isBlank = cs := by
  cases cs with
  | nil => rfl
  | cons c cs => exact List.dropWhile_cons_of_neg (by simp [h c rfl])

variable {lead body trail : List Char}

theorem trimStart_padded (hlead : Blanks lead) (htrail : Blanks trail) (hbody : Bare body) :
    trimStart (lead ++ body ++ trail) = if body = [] then [] else body ++ trail := by
  rw [trimStart, List.append_assoc, List.dropWhile_append_of_pos hlead]
  split_ifs with h
  · rw [h, List.nil_append]
    exact List.dropWhile_eq_nil_iff.2 htrail
  · refine dropWhile_of_head fun c hc => hbody.head c ?_
    rwa [List.head?_append_of_ne_nil body h] at hc

theorem trimEnd_padded (htrail : Blanks trail) (hbody : Bare body) :
    trimEnd (body ++ trail) = body := by
  have htrail' : ∀ c ∈ trail.reverse, isBlank c = true := fun c hc =>
    htrail c (List.mem_reverse.1 hc)
  rw [trimEnd, List.reverse_append, List.dropWhile_append_of_pos htrail', dropWhile_of_head,
    List.reverse_reverse]
  intro c hc
  exact hbody.last c (by rwa [List.head?_reverse] at hc)

/-- What stands between blanks is what trimming leaves. -/
theorem trim_padded (hlead : Blanks lead) (htrail : Blanks trail) (hbody : Bare body) :
    trim (lead ++ body ++ trail) = body := by
  rw [trim, trimStart_padded hlead htrail hbody]
  split_ifs with h
  · rw [h]
    rfl
  · exact trimEnd_padded htrail hbody

theorem head_dropWhile {cs : List Char} {c : Char} (h : (cs.dropWhile isBlank).head? = some c) :
    isBlank c = false := by
  have hnot := List.head?_dropWhile_not isBlank cs
  rwa [h] at hnot

theorem bare_trim (cs : List Char) : Bare (trim cs) := by
  have htrim : trim cs = (trimStart cs).rdropWhile isBlank := rfl
  constructor
  · intro c hc
    have hprefix : [c] <+: trimStart cs :=
      (List.singleton_prefix_iff_head?_eq_some.2 hc).trans (List.rdropWhile_prefix isBlank _)
    exact head_dropWhile (List.singleton_prefix_iff_head?_eq_some.1 hprefix)
  · intro c hc
    rw [htrim, List.rdropWhile, List.getLast?_reverse] at hc
    exact head_dropWhile hc

theorem exists_padding (cs : List Char) : ∃ lead trail, cs = lead ++ trim cs ++ trail ∧
    Blanks lead ∧ Blanks trail := by
  refine ⟨cs.takeWhile isBlank, (trimStart cs).rtakeWhile isBlank, ?_,
    fun c hc => List.mem_takeWhile_imp hc, fun c hc => List.mem_rtakeWhile_imp hc⟩
  have htrim : trim cs = (trimStart cs).rdropWhile isBlank := rfl
  rw [htrim, List.append_assoc, List.rdropWhile_append_rtakeWhile]
  exact List.takeWhile_append_dropWhile.symm

end Text

namespace Decimal

/-- What a run of digits is worth, place by place, the units first. -/
theorem worth_eq_ofDigits (ds : List Char) :
    worth ds = Nat.ofDigits 10 (ds.reverse.map fun d => d.toNat - '0'.toNat) := by
  induction ds using List.reverseRecOn with
  | nil => rfl
  | append_singleton ds d ih =>
    rw [worth_append, worth_cons, ih, List.reverse_append, List.reverse_singleton,
      List.singleton_append, List.map_cons, Nat.ofDigits_cons]
    simp [worth]
    ring

/-- A number as it may be written: in digits, with zeros in front or without, and perhaps after a
plus sign. -/
def Spells (cs : List Char) (n : Nat) : Prop :=
  ∃ sign ds, cs = sign ++ ds ∧ (sign = [] ∨ sign = ['+']) ∧ ds ≠ [] ∧
    (∀ d ∈ ds, d.isDigit = true) ∧
    Nat.ofDigits 10 (ds.reverse.map fun d => d.toNat - '0'.toNat) = n

theorem ofDigits?_eq_some_iff {cs : List Char} {n : Nat} :
    ofDigits? cs = some n ↔ cs ≠ [] ∧ (∀ c ∈ cs, c.isDigit = true) ∧
      Nat.ofDigits 10 (cs.reverse.map fun d => d.toNat - '0'.toNat) = n := by
  rw [← worth_eq_ofDigits, ofDigits?]
  simp [and_assoc]

theorem spells_signed {ds : List Char} {n : Nat} :
    Spells ('+' :: ds) n ↔ ofDigits? ds = some n := by
  rw [ofDigits?_eq_some_iff]
  constructor
  · rintro ⟨sign, ds', hcs, rfl | rfl, hne, hdigits, hworth⟩
    · have hds : '+' :: ds = ds' := hcs
      exact absurd (hdigits '+' (hds ▸ List.mem_cons_self)) (by decide)
    · obtain rfl : ds = ds' := List.cons.inj hcs |>.2
      exact ⟨hne, hdigits, hworth⟩
  · rintro ⟨hne, hdigits, hworth⟩
    exact ⟨['+'], ds, rfl, .inr rfl, hne, hdigits, hworth⟩

theorem spells_unsigned {cs : List Char} {n : Nat} (h : cs.head? ≠ some '+') :
    Spells cs n ↔ ofDigits? cs = some n := by
  rw [ofDigits?_eq_some_iff]
  constructor
  · rintro ⟨sign, ds, rfl, rfl | rfl, hne, hdigits, hworth⟩
    · exact ⟨hne, hdigits, hworth⟩
    · exact absurd rfl h
  · rintro ⟨hne, hdigits, hworth⟩
    exact ⟨[], cs, rfl, .inl rfl, hne, hdigits, hworth⟩

theorem unsigned?_eq (bound : Nat) (cs : List Char) : unsigned? bound cs =
    (ofDigits? (if cs.head? = some '+' then cs.tail else cs)).filter (· < bound) := by
  unfold unsigned?
  dsimp only
  cases ofDigits? (if cs.head? = some '+' then cs.tail else cs) with
  | none => rfl
  | some n => simp [Option.filter]

theorem unsigned?_eq_some_iff {bound n : Nat} {cs : List Char} :
    unsigned? bound cs = some n ↔ Spells cs n ∧ n < bound := by
  rw [unsigned?_eq, Option.filter_eq_some_iff, decide_eq_true_iff]
  split_ifs with h
  · obtain ⟨ds, rfl⟩ := List.head?_eq_some_iff.1 h
    rw [spells_signed, List.tail_cons]
  · rw [spells_unsigned h]

/-- A number neither begins nor ends with a blank. -/
theorem Spells.bare {cs : List Char} {n : Nat} (h : Spells cs n) : Text.Bare cs := by
  obtain ⟨sign, ds, rfl, hsign, hne, hdigits, -⟩ := h
  have hsolid : ∀ c ∈ sign ++ ds, Text.isBlank c = false := by
    intro c hc
    rcases List.mem_append.1 hc with hc | hc
    · rcases hsign with rfl | rfl
      · cases hc
      · rw [List.mem_singleton.1 hc]
        decide
    · have hdigit := Char.isDigit_iff_toNat.1 (hdigits c hc)
      simp only [Text.isBlank, Char.reduceToNat] at hdigit ⊢
      simp
      omega
  exact ⟨fun c hc => hsolid c (List.mem_of_head? hc),
    fun c hc => hsolid c (List.mem_of_getLast? hc)⟩

theorem spells_digits (n : Nat) : Spells (digits n) n := by
  refine ⟨[], digits n, rfl, .inl rfl, digits_ne_nil n, fun _ => isDigit_of_mem_digits, ?_⟩
  rw [← worth_eq_ofDigits, worth_digits]

end Decimal

namespace StorageClient

open Text Decimal

/-- A text that stands for a number of blocks: a number that fits a word, between blanks. -/
def Counts (contents : List Char) (n : Nat) : Prop :=
  ∃ lead body trail, contents = lead ++ body ++ trail ∧ Blanks lead ∧ Blanks trail ∧
    Spells body n ∧ n < wordBound

theorem counts_iff {contents : List Char} {n : Nat} :
    Counts contents n ↔ unsigned? wordBound (trim contents) = some n := by
  rw [unsigned?_eq_some_iff]
  constructor
  · rintro ⟨lead, body, trail, rfl, hlead, htrail, hspells, hn⟩
    rw [trim_padded hlead htrail hspells.bare]
    exact ⟨hspells, hn⟩
  · rintro ⟨hspells, hn⟩
    obtain ⟨lead, trail, hcontents, hlead, htrail⟩ := exists_padding contents
    exact ⟨lead, trim contents, trail, hcontents, hlead, htrail, hspells, hn⟩

/-- A count is read from the texts that stand for one, and is the number they stand for. Every other
text is refused, and the error shows it without the blanks around it. In particular every number
that fits a word is read back from its digits, whatever blanks stand around them. -/
theorem counts_read_exactly (contents : String) :
    (∀ n, parseRecovery contents false = .ok (.count n) ↔ Counts contents.toList n) ∧
    ((∀ n, ¬Counts contents.toList n) → ∃ lead body trail,
      contents.toList = lead ++ body ++ trail ∧ Blanks lead ∧ Blanks trail ∧ Bare body ∧
        parseRecovery contents false =
          .error ("expected a block count, found '" ++ String.ofList body ++ "'")) ∧
    ∀ n lead trail, n < wordBound → Blanks lead → Blanks trail →
      parseRecovery (String.ofList (lead ++ digits n ++ trail)) false = .ok (.count n) := by
  have hread : ∀ (contents : String) n,
      parseRecovery contents false = .ok (.count n) ↔ Counts contents.toList n := by
    intro contents n
    rw [counts_iff]
    cases hnumber : unsigned? wordBound (trim contents.toList) <;> simp [parseRecovery, hnumber]
  refine ⟨hread contents, ?_, ?_⟩
  · intro hnone
    obtain ⟨lead, trail, hcontents, hlead, htrail⟩ := exists_padding contents.toList
    refine ⟨lead, trim contents.toList, trail, hcontents, hlead, htrail, bare_trim _, ?_⟩
    have hrefused : unsigned? wordBound (trim contents.toList) = none :=
      Option.eq_none_iff_forall_ne_some.2 fun n hn => hnone n (counts_iff.2 hn)
    simp [parseRecovery, hrefused]
  · intro n lead trail hn hlead htrail
    rw [hread, String.toList_ofList]
    exact ⟨lead, digits n, trail, rfl, hlead, htrail, spells_digits n, hn⟩

/-- More zeros than any word has digits do not matter, the greatest word is read, and the number
after it is refused. -/
theorem greatest_count_is_read :
    parseRecovery "\u2003+0000000000000000000000042\r\n" false = .ok (.count 42) ∧
    18446744073709551615 < wordBound ∧ Blanks ['\t'] ∧ Blanks ['\u00a0'] ∧
    parseRecovery (String.ofList (['\t'] ++ digits 18446744073709551615 ++ ['\u00a0'])) false =
      .ok (.count 18446744073709551615) ∧
    (∀ n, ¬Counts "18446744073709551616".toList n) ∧
    ∃ details, parseRecovery "18446744073709551616" false = .error details := by
  have hzeros : Counts "\u2003+0000000000000000000000042\r\n".toList 42 :=
    counts_iff.2 (by decide +kernel)
  have hgreatest : 18446744073709551615 < wordBound := by decide
  have htab : Blanks ['\t'] := by
    intro c hc
    rw [List.mem_singleton.1 hc]
    decide
  have hspace : Blanks ['\u00a0'] := by
    intro c hc
    rw [List.mem_singleton.1 hc]
    decide
  have hbeyond : ∀ n, ¬Counts "18446744073709551616".toList n := by
    have hrefused : unsigned? wordBound (trim "18446744073709551616".toList) = none := by
      decide +kernel
    intro n hn
    rw [counts_iff, hrefused] at hn
    cases hn
  obtain ⟨hread, hrefuses, hback⟩ := counts_read_exactly "18446744073709551616"
  obtain ⟨lead, body, trail, -, -, -, -, herror⟩ := hrefuses hbeyond
  exact ⟨((counts_read_exactly _).1 42).2 hzeros, hgreatest, htab, hspace,
    hback _ _ _ hgreatest htab hspace, hbeyond, _, herror⟩

end StorageClient

end FaultSweep
