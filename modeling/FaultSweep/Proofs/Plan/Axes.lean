import FaultSweep.Proofs.Plan.Cells
import FaultSweep.Proofs.Plan.Listing

/-!
# Sound axes

What an axis has to be is said here without the order of the checks, and so is what can be wrong
with it. The faults of an axis are a listing of what is wrong, and a sound axis has values of the
right kind for every cell.
-/

namespace FaultSweep

namespace Axis

/-- Given as a range and not as a list of values. -/
def Ranged (a : Axis) : Prop := a.start ≠ none ∨ a.stop ≠ none ∨ a.stopBelowNodes ≠ none

/-- Labels are for payload sizes, and their text goes into ledger keys. -/
def Allows (d : Dimension) : DimensionValue → Prop
  | .count _ => d ≠ .payloadSize
  | .label s => d = .payloadSize ∧ '/' ∉ s.toList ∧ '=' ∉ s.toList

structure Sound (a : Axis) : Prop where
  range_only : a.Ranged → a.values = []
  counts : a.Ranged → a.dimension ≠ .payloadSize
  one_end : a.Ranged → (a.stop ≠ none ↔ a.stopBelowNodes = none)
  moves : a.Ranged → a.step ≠ some 0
  not_circular : a.Ranged → ¬(a.dimension = .nodeCount ∧ a.stopBelowNodes ≠ none)
  some_value : ¬a.Ranged → a.values ≠ []
  allowed : ∀ v ∈ a.values, Allows a.dimension v

/-- What is wrong with an axis as a whole, or with the value at some place of its list. -/
inductive Flaw (a : Axis) : Option Nat → Fault → Prop where
  | valuesAndRange : a.Ranged → a.values ≠ [] → Flaw a none .valuesAndRange
  | payloadRange : a.Ranged → a.dimension = .payloadSize → Flaw a none .payloadRange
  | rangeEnd : a.Ranged → ¬(a.stop ≠ none ↔ a.stopBelowNodes = none) → Flaw a none .rangeEnd
  | zeroStep : a.Ranged → a.step = some 0 → Flaw a none .zeroStep
  | circularEnd : a.Ranged → a.dimension = .nodeCount → a.stopBelowNodes ≠ none →
      Flaw a none .circularEnd
  | noValues : ¬a.Ranged → a.values = [] → Flaw a none .noValues
  | wrongCount {j n} : a.values[j]? = some (.count n) → a.dimension = .payloadSize →
      Flaw a (some j) (.value (.wrongKind (.count n)))
  | wrongLabel {j s} : a.values[j]? = some (.label s) → a.dimension ≠ .payloadSize →
      Flaw a (some j) (.value (.wrongKind (.label s)))
  | delimiter {j s} : a.values[j]? = some (.label s) → '/' ∈ s.toList ∨ '=' ∈ s.toList →
      Flaw a (some j) (.value (.delimiter s))

variable {a : Axis}

theorem isRange_iff : a.isRange = true ↔ a.Ranged := by
  simp [isRange, Ranged, Option.isSome_iff_ne_none, or_assoc]

/-- The faults of an axis as a whole. -/
def wholeFaults (a : Axis) : List Fault :=
  if a.isRange then a.rangeFaults else if a.values = [] then [.noValues] else []

theorem faults_eq (a : Axis) :
    a.faults = a.wholeFaults ++ a.values.flatMap (valueFaults a.dimension) := rfl

theorem nodup_wholeFaults (a : Axis) : a.wholeFaults.Nodup := by
  unfold wholeFaults rangeFaults
  split_ifs <;> decide

theorem mem_rangeFaults {f : Fault} (h : a.Ranged) : f ∈ a.rangeFaults ↔ a.Flaw none f := by
  have hend : a.stop.isSome = a.stopBelowNodes.isSome ↔
      ¬(a.stop ≠ none ↔ a.stopBelowNodes = none) := by
    cases a.stop <;> cases a.stopBelowNodes <;> simp
  simp only [rangeFaults, List.mem_append, List.mem_ite_nil_left, List.mem_ite_nil_right,
    List.mem_singleton, hend, Option.isSome_iff_ne_none]
  constructor
  · rintro ((((⟨hv, rfl⟩ | ⟨hd, rfl⟩) | ⟨he, rfl⟩) | ⟨hs, rfl⟩) | ⟨⟨he, hd⟩, rfl⟩)
    · exact .valuesAndRange h hv
    · exact .payloadRange h hd
    · exact .rangeEnd h he
    · exact .zeroStep h hs
    · exact .circularEnd h hd he
  · intro hf
    cases hf with
    | valuesAndRange _ hv => simp [hv]
    | payloadRange _ hd => simp [hd]
    | rangeEnd _ he => simp [he]
    | zeroStep _ hs => simp [hs]
    | circularEnd _ hd he => simp [hd, he]
    | noValues hl => exact absurd h hl

theorem mem_wholeFaults {f : Fault} : f ∈ a.wholeFaults ↔ a.Flaw none f := by
  unfold wholeFaults
  by_cases hr : a.Ranged
  · rw [if_pos (isRange_iff.2 hr), mem_rangeFaults hr]
  · rw [if_neg (mt isRange_iff.1 hr), List.mem_ite_nil_right, List.mem_singleton]
    constructor
    · rintro ⟨hv, rfl⟩
      exact .noValues hr hv
    · intro hf
      cases hf with
      | noValues _ hv => exact ⟨hv, rfl⟩
      | _ => contradiction

theorem nodup_valueFaults (d : Dimension) (v : DimensionValue) : (valueFaults d v).Nodup := by
  unfold valueFaults
  split_ifs <;> simp

theorem hasDelimiter_label (s : String) :
    hasDelimiter (.label s) = true ↔ '/' ∈ s.toList ∨ '=' ∈ s.toList := by
  simp [hasDelimiter, isDelimiter, and_or_left, exists_or]

theorem mem_valueFaults {j : Nat} {v : DimensionValue} {f : Fault} (hv : a.values[j]? = some v) :
    f ∈ valueFaults a.dimension v ↔ a.Flaw (some j) f := by
  constructor
  · intro hf
    rcases List.mem_append.1 hf with hf | hf
    · cases v with
      | count n =>
        obtain ⟨hd, rfl⟩ : a.dimension = .payloadSize ∧ f = .value (.wrongKind (.count n)) := by
          simpa [suits] using hf
        exact .wrongCount hv hd
      | label s =>
        obtain ⟨hd, rfl⟩ : a.dimension ≠ .payloadSize ∧ f = .value (.wrongKind (.label s)) := by
          simpa [suits] using hf
        exact .wrongLabel hv hd
    · cases v with
      | count n => simp [hasDelimiter] at hf
      | label s =>
        obtain ⟨hc, rfl⟩ : hasDelimiter (.label s) = true ∧ f = .value (.delimiter s) := by
          simpa [DimensionValue.text] using hf
        exact .delimiter hv ((hasDelimiter_label s).1 hc)
  · intro hf
    cases hf with
    | wrongCount hj hd =>
      cases hv.symm.trans hj
      simp [valueFaults, suits, hd]
    | wrongLabel hj hd =>
      cases hv.symm.trans hj
      simp [valueFaults, suits, hd]
    | delimiter hj hc =>
      cases hv.symm.trans hj
      simp [valueFaults, (hasDelimiter_label _).2 hc, DimensionValue.text]

/-- The faults of an axis are its flaws, each as often as there are places that have it. -/
theorem lists_faults (a : Axis) : Lists a.Flaw a.faults := by
  have hwhole := Lists.of_nodup (none : Option Nat) a.nodup_wholeFaults
  have hvalues := (Lists.of_elements fun v (_ : v ∈ a.values) =>
    nodup_valueFaults a.dimension v).respot (Option.some_injective Nat)
  rw [faults_eq]
  refine (hwhole.append hvalues ?_).congr ?_
  · rintro i f ⟨rfl, -⟩ ⟨j, hj, -⟩
    cases hj
  · intro i f
    cases i with
    | none => simp [mem_wholeFaults]
    | some j =>
      simp only [reduceCtorEq, false_and, false_or, Option.some.injEq, exists_eq_left]
      constructor
      · intro hf
        obtain ⟨v, hv⟩ : ∃ v, a.values[j]? = some v := by
          cases hf <;> exact ⟨_, ‹_›⟩
        exact ⟨v, hv, (mem_valueFaults hv).2 hf⟩
      · rintro ⟨v, hv, hf⟩
        exact (mem_valueFaults hv).1 hf

theorem sound_iff (a : Axis) : a.Sound ↔ ∀ i f, ¬a.Flaw i f := by
  constructor
  · rintro h i f hf
    cases hf with
    | valuesAndRange hr hv => exact hv (h.range_only hr)
    | payloadRange hr hd => exact h.counts hr hd
    | rangeEnd hr he => exact he (h.one_end hr)
    | zeroStep hr hs => exact h.moves hr hs
    | circularEnd hr hd he => exact h.not_circular hr ⟨hd, he⟩
    | noValues hr hv => exact h.some_value hr hv
    | wrongCount hj hd => exact h.allowed _ (List.mem_of_getElem? hj) hd
    | wrongLabel hj hd => exact hd (h.allowed _ (List.mem_of_getElem? hj)).1
    | delimiter hj hc =>
      obtain ⟨-, hslash, hequals⟩ := h.allowed _ (List.mem_of_getElem? hj)
      exact hc.elim hslash hequals
  · intro h
    constructor
    case range_only => exact fun hr => by_contra fun hv => h _ _ (.valuesAndRange hr hv)
    case counts => exact fun hr hd => h _ _ (.payloadRange hr hd)
    case one_end => exact fun hr => by_contra fun he => h _ _ (.rangeEnd hr he)
    case moves => exact fun hr hs => h _ _ (.zeroStep hr hs)
    case not_circular => exact fun hr hc => h _ _ (.circularEnd hr hc.1 hc.2)
    case some_value => exact fun hr hv => h _ _ (.noValues hr hv)
    case allowed =>
      intro v hv
      obtain ⟨j, hj⟩ := List.mem_iff_getElem?.1 hv
      cases v with
      | count n => exact fun hd => h _ _ (.wrongCount hj hd)
      | label s =>
        refine ⟨by_contra fun hd => h _ _ (.wrongLabel hj hd), ?_, ?_⟩
        · exact fun hc => h _ _ (.delimiter hj (.inl hc))
        · exact fun hc => h _ _ (.delimiter hj (.inr hc))

theorem Sound.fits (h : a.Sound) : a.Fits := by
  intro n v hv
  unfold valuesFor at hv
  split at hv
  · next hr =>
    obtain ⟨k, -, rfl⟩ := List.mem_map.1 hv
    simpa [suits] using h.counts (isRange_iff.1 hr)
  · have hallowed := h.allowed v hv
    cases v with
    | count k => simpa [suits, Allows] using hallowed
    | label s => simpa [suits] using hallowed.1

end Axis

end FaultSweep
