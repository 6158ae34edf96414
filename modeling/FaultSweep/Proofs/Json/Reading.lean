import FaultSweep.Json.Reader
import FaultSweep.Proofs.Json.Values

/-!
# What was read

A value that was read nests no more levels than were allowed, and each of its numbers is what a
numeral of the text stands for. The scanner makes numbers of numerals only, the parser keeps them,
and a reader only leaves some out.
-/

namespace FaultSweep

/-- The number is what a numeral stands for. -/
def Number.Given (n : Number) : Prop := ∃ k : Numeral, k.value? = some n

namespace Json

theorem depthFields_le {fs : List (String × Json)} {levels : Nat} :
    depthFields fs ≤ levels ↔ ∀ f ∈ fs, f.2.depth ≤ levels := by
  induction fs with
  | nil => simp [depthFields]
  | cons f fs ih => rw [depthFields, Nat.max_le, ih, List.forall_mem_cons]

theorem regularFields_iff {fs : List (String × Json)} :
    RegularFields fs ↔ ∀ f ∈ fs, f.2.Regular := by
  induction fs with
  | nil => simp [RegularFields]
  | cons f fs ih => rw [RegularFields, ih, List.forall_mem_cons]

theorem depthItems_le {vs : List Json} {levels : Nat} :
    depthItems vs ≤ levels ↔ ∀ v ∈ vs, v.depth ≤ levels := by
  induction vs with
  | nil => simp [depthItems]
  | cons v vs ih => rw [depthItems, Nat.max_le, ih, List.forall_mem_cons]

theorem mem_fieldNumbers {fs : List (String × Json)} {n : Number} :
    n ∈ fieldNumbers fs ↔ ∃ f ∈ fs, n ∈ f.2.numbers := by
  induction fs with
  | nil => simp [fieldNumbers]
  | cons f fs ih => rw [fieldNumbers, List.mem_append, ih, List.exists_mem_cons_iff]

namespace Document

mutual
/-- The numbers in a document, without those that are too large. -/
def numbers : Document → List Number
  | .num (some n) => [n]
  | .arr items => itemNumbers items
  | .obj fields => fieldNumbers fields
  | _ => []
def itemNumbers : List Document → List Number
  | [] => []
  | d :: ds => numbers d ++ itemNumbers ds
def fieldNumbers : List (Option String × Document) → List Number
  | [] => []
  | (_, d) :: fs => numbers d ++ fieldNumbers fs
end

mutual
/-- A value that is read has the depth and the numbers that it may have. -/
theorem value?_within (d : Document) {levels : Nat} {v : Json} (h : value? levels d = some v) :
    v.depth ≤ levels ∧ ∀ n ∈ v.numbers, n ∈ d.numbers := by
  cases d with
  | null =>
    cases h
    simp [depth, Json.numbers]
  | bool b =>
    cases h
    simp [depth, Json.numbers]
  | num o =>
    cases o with
    | none => cases h
    | some n =>
      cases h
      simp [depth, Json.numbers, numbers]
  | str s =>
    cases s with
    | none => cases h
    | some s =>
      cases h
      simp [depth, Json.numbers]
  | arr items =>
    cases levels with
    | zero => cases h
    | succ levels =>
      rw [value?, Option.map_eq_some_iff] at h
      obtain ⟨vs, hvs, rfl⟩ := h
      obtain ⟨hdepth, hnumbers⟩ := values?_within items hvs
      refine ⟨by simpa using hdepth, ?_⟩
      simpa [Json.numbers, numbers] using hnumbers
  | obj fields =>
    cases levels with
    | zero => cases h
    | succ levels =>
      rw [value?, Option.map_eq_some_iff] at h
      obtain ⟨es, hes, rfl⟩ := h
      obtain ⟨hdepth, hnumbers⟩ := entries?_within fields hes
      have hmem : ∀ e ∈ (SortedMap.ofList es).entries, e ∈ es := by
        intro e he
        exact SortedMap.mem_ofList he
      constructor
      · have hle : depthFields (SortedMap.ofList es).entries ≤ levels :=
          depthFields_le.2 fun e he => depthFields_le.1 hdepth e (hmem e he)
        simpa using hle
      · intro n hn
        rw [Json.numbers] at hn
        obtain ⟨e, he, hn⟩ := mem_fieldNumbers.1 hn
        rw [numbers]
        exact hnumbers n (mem_fieldNumbers.2 ⟨e, hmem e he, hn⟩)
theorem values?_within (ds : List Document) {levels : Nat} {vs : List Json}
    (h : values? levels ds = some vs) :
    depthItems vs ≤ levels ∧ ∀ n ∈ Json.itemNumbers vs, n ∈ itemNumbers ds := by
  match ds with
  | [] =>
    cases h
    simp [depthItems, Json.itemNumbers]
  | d :: ds =>
    simp only [values?, Option.bind_eq_bind, Option.bind_eq_some_iff, Option.pure_def,
      Option.some.injEq] at h
    obtain ⟨v, hv, vs, hvs, rfl⟩ := h
    obtain ⟨hdepth, hnumbers⟩ := value?_within d hv
    obtain ⟨hdepths, hrest⟩ := values?_within ds hvs
    refine ⟨by rw [depthItems]; omega, ?_⟩
    intro n hn
    rw [Json.itemNumbers, List.mem_append] at hn
    rw [itemNumbers, List.mem_append]
    exact hn.imp (hnumbers n) (hrest n)
theorem entries?_within (fs : List (Option String × Document)) {levels : Nat}
    {es : List (String × Json)} (h : entries? levels fs = some es) :
    depthFields es ≤ levels ∧ ∀ n ∈ Json.fieldNumbers es, n ∈ fieldNumbers fs := by
  match fs with
  | [] =>
    cases h
    simp [depthFields, Json.fieldNumbers]
  | (k, d) :: fs =>
    simp only [entries?, Option.bind_eq_bind, Option.bind_eq_some_iff, Option.pure_def,
      Option.some.injEq] at h
    obtain ⟨k, rfl, v, hv, es, hes, rfl⟩ := h
    obtain ⟨hdepth, hnumbers⟩ := value?_within d hv
    obtain ⟨hdepths, hrest⟩ := entries?_within fs hes
    refine ⟨by rw [depthFields]; omega, ?_⟩
    intro n hn
    rw [Json.fieldNumbers, List.mem_append] at hn
    rw [fieldNumbers, List.mem_append]
    exact hn.imp (hnumbers n) (hrest n)
end

mutual
/-- The objects of a value that is read are in key order, so that only its numbers can be
irregular. -/
theorem regular_of_value? (d : Document) {levels : Nat} {v : Json} (h : value? levels d = some v)
    (hn : v.Whole) : v.Regular := by
  cases d with
  | null =>
    cases h
    simp [Regular]
  | bool b =>
    cases h
    simp [Regular]
  | num o =>
    cases o with
    | none => cases h
    | some n =>
      cases h
      simpa [Whole, Regular, Json.numbers] using hn
  | str s =>
    cases s with
    | none => cases h
    | some s =>
      cases h
      simp [Regular]
  | arr items =>
    cases levels with
    | zero => cases h
    | succ levels =>
      rw [value?, Option.map_eq_some_iff] at h
      obtain ⟨vs, hvs, rfl⟩ := h
      rw [Whole, Json.numbers] at hn
      rw [Regular]
      exact regular_of_values? items hvs hn
  | obj fields =>
    cases levels with
    | zero => cases h
    | succ levels =>
      rw [value?, Option.map_eq_some_iff] at h
      obtain ⟨es, hes, rfl⟩ := h
      rw [Whole, Json.numbers] at hn
      rw [Regular, regularFields_iff]
      refine ⟨(SortedMap.ofList es).sorted, fun e he => ?_⟩
      refine regular_of_entries? fields hes e (SortedMap.mem_ofList he) fun n hmem => ?_
      exact hn n (Json.mem_fieldNumbers.2 ⟨e, he, hmem⟩)
theorem regular_of_values? (ds : List Document) {levels : Nat} {vs : List Json}
    (h : values? levels ds = some vs) (hn : ∀ n ∈ Json.itemNumbers vs, n.Fits) :
    RegularItems vs := by
  match ds with
  | [] =>
    cases h
    simp [RegularItems]
  | d :: ds =>
    simp only [values?, Option.bind_eq_bind, Option.bind_eq_some_iff, Option.pure_def,
      Option.some.injEq] at h
    obtain ⟨v, hv, vs, hvs, rfl⟩ := h
    rw [Json.itemNumbers, List.forall_mem_append] at hn
    rw [RegularItems]
    exact ⟨regular_of_value? d hv hn.1, regular_of_values? ds hvs hn.2⟩
/-- Of fields with one key only the last is kept, so this is said field by field. -/
theorem regular_of_entries? (fs : List (Option String × Document)) {levels : Nat}
    {es : List (String × Json)} (h : entries? levels fs = some es) :
    ∀ e ∈ es, e.2.Whole → e.2.Regular := by
  match fs with
  | [] =>
    cases h
    exact List.forall_mem_nil _
  | (k, d) :: fs =>
    simp only [entries?, Option.bind_eq_bind, Option.bind_eq_some_iff, Option.pure_def,
      Option.some.injEq] at h
    obtain ⟨k, rfl, v, hv, es, hes, rfl⟩ := h
    exact List.forall_mem_cons.2 ⟨regular_of_value? d hv, regular_of_entries? fs hes⟩
end

theorem mem_itemNumbers {ds : List Document} {n : Number} :
    n ∈ itemNumbers ds ↔ ∃ d ∈ ds, n ∈ d.numbers := by
  induction ds with
  | nil => simp [itemNumbers]
  | cons d ds ih => rw [itemNumbers, List.mem_append, ih, List.exists_mem_cons_iff]

theorem mem_fieldNumbers {fs : List (Option String × Document)} {n : Number} :
    n ∈ fieldNumbers fs ↔ ∃ f ∈ fs, n ∈ f.2.numbers := by
  induction fs with
  | nil => simp [fieldNumbers]
  | cons f fs ih => rw [fieldNumbers, List.mem_append, ih, List.exists_mem_cons_iff]

/-- Every number in the document is what a numeral stands for. -/
def Given (d : Document) : Prop := ∀ n ∈ d.numbers, n.Given

theorem given_arr {ds : List Document} : (arr ds).Given ↔ ∀ d ∈ ds, d.Given := by
  simp only [Given, numbers, mem_itemNumbers]
  constructor
  · intro h d hd n hn
    exact h n ⟨d, hd, hn⟩
  · rintro h n ⟨d, hd, hn⟩
    exact h d hd n hn

theorem given_obj {fs : List (Option String × Document)} :
    (obj fs).Given ↔ ∀ f ∈ fs, f.2.Given := by
  simp only [Given, numbers, mem_fieldNumbers]
  constructor
  · intro h f hf n hn
    exact h n ⟨f, hf, hn⟩
  · rintro h n ⟨f, hf, hn⟩
    exact h f hf n hn

end Document

/-- A number token, if it has a number, has one that a numeral stands for. -/
def Token.Given : Token → Prop
  | .num (some n) => n.Given
  | _ => True

namespace Parse

open Document (given_arr given_obj)

def FrameGiven : Frame → Prop
  | .arr items => ∀ d ∈ items, d.Given
  | .obj fields => ∀ f ∈ fields, f.2.Given
  | .field fields _ => ∀ f ∈ fields, f.2.Given

/-- All numbers the parser holds are what numerals stand for. -/
structure Given (p : Parse) : Prop where
  want : ∀ d, p.want = .nothing d → d.Given
  stack : ∀ f ∈ p.stack, FrameGiven f

/-- Where a value is still awaited, only the stack holds numbers. -/
theorem given_moved {want : Want} {stack : List Frame} (hwant : ∀ d, want ≠ .nothing d)
    (hstack : ∀ f ∈ stack, FrameGiven f) : Given ⟨want, stack⟩ := by
  constructor
  · intro d hd
    exact absurd hd (hwant d)
  · exact hstack

theorem given_complete {d : Document} {stack : List Frame} {p : Parse} (hd : d.Given)
    (hstack : ∀ f ∈ stack, FrameGiven f) (h : complete d stack = some p) : p.Given := by
  cases stack with
  | nil =>
    cases h
    constructor
    · intro e he
      cases he
      exact hd
    · exact hstack
  | cons f fs =>
    obtain ⟨hf, hfs⟩ := List.forall_mem_cons.1 hstack
    cases f with
    | arr items =>
      cases h
      have hitems : ∀ e ∈ d :: items, e.Given := List.forall_mem_cons.2 ⟨hd, hf⟩
      exact given_moved (by simp) (List.forall_mem_cons.2 ⟨hitems, hfs⟩)
    | obj fields => cases h
    | field fields key =>
      cases h
      have hfields : ∀ e ∈ (key, d) :: fields, e.2.Given := List.forall_mem_cons.2 ⟨hd, hf⟩
      exact given_moved (by simp) (List.forall_mem_cons.2 ⟨hfields, hfs⟩)

theorem given_value {stack : List Frame} {t : Token} {p : Parse} (ht : t.Given)
    (hstack : ∀ f ∈ stack, FrameGiven f) (h : value stack t = some p) : p.Given := by
  cases t with
  | null => exact given_complete (by simp [Document.Given, Document.numbers]) hstack h
  | bool b => exact given_complete (by simp [Document.Given, Document.numbers]) hstack h
  | str s => exact given_complete (by simp [Document.Given, Document.numbers]) hstack h
  | num o =>
    refine given_complete ?_ hstack h
    cases o with
    | none => simp [Document.Given, Document.numbers]
    | some n => simpa [Document.Given, Document.numbers, Token.Given] using ht
  | openArr =>
    cases h
    exact given_moved (by simp) (List.forall_mem_cons.2 ⟨by simp [FrameGiven], hstack⟩)
  | openObj =>
    cases h
    exact given_moved (by simp) (List.forall_mem_cons.2 ⟨by simp [FrameGiven], hstack⟩)
  | closeArr => cases h
  | closeObj => cases h
  | comma => cases h
  | colon => cases h

theorem given_step {p q : Parse} {t : Token} (hp : p.Given) (ht : t.Given)
    (h : p.step t = some q) : q.Given := by
  obtain ⟨want, stack⟩ := p
  obtain ⟨-, hstack⟩ := hp
  unfold step at h
  simp only at h hstack
  split at h
  · exact given_value ht hstack h
  · obtain ⟨hf, hfs⟩ := List.forall_mem_cons.1 hstack
    exact given_complete (given_arr.2 fun d hd => hf d (List.mem_reverse.1 hd)) hfs h
  · exact given_value ht hstack h
  · obtain ⟨hf, hfs⟩ := List.forall_mem_cons.1 hstack
    exact given_complete (given_obj.2 fun d hd => hf d (List.mem_reverse.1 hd)) hfs h
  · cases h
    exact given_moved (by simp) (by simpa [FrameGiven] using hstack)
  · cases h
    exact given_moved (by simp) (by simpa [FrameGiven] using hstack)
  · cases h
    exact given_moved (by simp) hstack
  · cases h
    exact given_moved (by simp) hstack
  · obtain ⟨hf, hfs⟩ := List.forall_mem_cons.1 hstack
    exact given_complete (given_arr.2 fun d hd => hf d (List.mem_reverse.1 hd)) hfs h
  · cases h
    exact given_moved (by simp) hstack
  · obtain ⟨hf, hfs⟩ := List.forall_mem_cons.1 hstack
    exact given_complete (given_obj.2 fun d hd => hf d (List.mem_reverse.1 hd)) hfs h
  · cases h

theorem given_run {p q : Parse} {ts : List Token} (hp : p.Given) (hts : ∀ t ∈ ts, t.Given)
    (h : p.run ts = some q) : q.Given := by
  induction ts generalizing p with
  | nil =>
    cases h
    exact hp
  | cons t ts ih =>
    rw [run_cons, Option.bind_eq_some_iff] at h
    obtain ⟨r, hr, h⟩ := h
    exact ih (given_step hp (hts t (by simp)) hr) (fun u hu => hts u (by simp [hu])) h

end Parse

namespace Scan

/-- The word that is being read is not a number. -/
def Worded : Scan → Prop
  | .word _ t => t.Given
  | _ => True

theorem given_start {c : Char} {ts : List Token} {s : Scan} (h : start c = some (ts, s)) :
    (∀ t ∈ ts, t.Given) ∧ s.Worded := by
  unfold start at h
  split at h
  case h_11 =>
    split at h
    · cases h
      simp [Worded]
    · split at h <;> cases h
      simp [Worded]
  all_goals
    cases h
    simp [Token.Given, Worded]

theorem given_numeral {seen : List Char} {t : Token} (h : numeralToken? seen = some t) :
    t.Given := by
  rw [numeralToken?, Option.map_eq_some_iff] at h
  obtain ⟨k, -, rfl⟩ := h
  cases hk : k.value? with
  | none => trivial
  | some n => exact ⟨k, hk⟩

theorem worded_pushCode (seen : Option (List Char)) (high : Option Nat) (v : Nat) :
    (pushCode seen high v).Worded := by
  unfold pushCode
  split
  · split <;> trivial
  · split
    · trivial
    · split <;> trivial

theorem given_step {s s' : Scan} {c : Char} {ts : List Token} (hs : s.Worded)
    (h : s.step c = some (ts, s')) : (∀ t ∈ ts, t.Given) ∧ s'.Worded := by
  cases s with
  | between => exact given_start h
  | word owed t =>
    cases owed with
    | nil => cases h
    | cons d ds =>
      simp only [step] at h
      split at h
      · split at h
        · cases h
          exact ⟨by simpa [Worded] using hs, trivial⟩
        · cases h
          exact ⟨by simp, hs⟩
      · cases h
  | numeral seen =>
    simp only [step] at h
    split at h
    · cases h
      exact ⟨by simp, trivial⟩
    · simp only [Option.bind_eq_bind, Option.bind_eq_some_iff, Option.pure_def,
        Option.some.injEq, Prod.mk.injEq] at h
      obtain ⟨t, ht, ⟨us, r⟩, hstart, rfl, rfl⟩ := h
      obtain ⟨hus, hr⟩ := given_start hstart
      exact ⟨List.forall_mem_cons.2 ⟨given_numeral ht, hus⟩, hr⟩
  | text seen high =>
    simp only [step] at h
    split at h
    · cases h
      exact ⟨by simp [Token.Given], trivial⟩
    · split at h
      · cases h
        exact ⟨by simp, trivial⟩
      · split at h <;> cases h
        exact ⟨by simp, trivial⟩
  | escape seen high =>
    simp only [step] at h
    split at h <;> cases h <;> exact ⟨by simp, trivial⟩
  | code seen high value owed =>
    simp only [step] at h
    split at h
    · cases h
    · split at h
      · cases h
        exact ⟨by simp, worded_pushCode ..⟩
      · cases h
        exact ⟨by simp, trivial⟩

theorem given_stepPiece {s s' : Scan} {p : Utf8.Piece} {ts : List Token} (hs : s.Worded)
    (h : s.stepPiece p = some (ts, s')) : (∀ t ∈ ts, t.Given) ∧ s'.Worded := by
  cases p with
  | some c => exact given_step hs h
  | none =>
    cases s with
    | text seen high =>
      cases h
      exact ⟨by simp, trivial⟩
    | _ => cases h

theorem given_finish {s : Scan} {ts : List Token} (h : s.finish = some ts) :
    ∀ t ∈ ts, t.Given := by
  cases s with
  | between =>
    cases h
    simp
  | numeral seen =>
    rw [finish, Option.map_eq_some_iff] at h
    obtain ⟨t, ht, rfl⟩ := h
    simpa using given_numeral ht
  | _ => cases h

/-- The scanner makes numbers of numerals only. -/
theorem given_run {s : Scan} {ps : List Utf8.Piece} {ts : List Token} (hs : s.Worded)
    (h : run s ps = some ts) : ∀ t ∈ ts, t.Given := by
  induction ps generalizing s ts with
  | nil => exact given_finish h
  | cons p ps ih =>
    rw [run] at h
    split at h
    · cases h
    · next us s' hstep =>
      obtain ⟨hus, hs'⟩ := given_stepPiece hs hstep
      rw [Option.map_eq_some_iff] at h
      obtain ⟨vs, hvs, rfl⟩ := h
      intro t ht
      exact (List.mem_append.1 ht).elim (hus t) (ih hs' hvs t)

end Scan

namespace Document

theorem given_ofPieces? {ps : List Utf8.Piece} {d : Document} (h : ofPieces? ps = some d) :
    d.Given := by
  rw [ofPieces?, Option.bind_eq_some_iff] at h
  obtain ⟨ts, hts, h⟩ := h
  unfold ofTokens? at h
  split at h
  · next e hrun =>
    cases h
    have hfirst : Scan.between.Worded := trivial
    have hempty : Parse.Given ⟨.value, []⟩ := Parse.given_moved (by simp) (by simp)
    exact (Parse.given_run hempty (Scan.given_run hfirst hts) hrun).want d rfl
  · cases h

end Document

end Json

end FaultSweep
