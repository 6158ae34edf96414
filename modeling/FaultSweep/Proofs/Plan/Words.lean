import FaultSweep.Proofs.Ledger.Reading
import FaultSweep.Proofs.Plan.Acceptance

/-!
# The counts of a plan

The counts that are written in a plan are words of 32 bits, whichever way they are given: a text
with a larger one holds no plan.
-/

namespace FaultSweep

namespace Reader

variable {ν α : Type}

/-- What a field gives is what it has where it is absent, or was read off one of the fields. -/
theorem field_eq_some {fs : List (String × ν)} {name : String} {absent : Option α}
    {read : ν → Option α} {a : α} (h : field fs name absent read = some a) :
    absent = some a ∨ ∃ n, read n = some a := by
  unfold field at h
  split at h
  · exact .inr ⟨_, h⟩
  · exact .inl h

theorem of_option_eq_some {r : Reader ν} {read : ν → Option α} {n : ν} {a : α}
    (h : r.option read n = some (some a)) : ∃ m, read m = some a := by
  unfold option at h
  split at h
  · cases h
  · cases h
  · next m _ =>
    obtain ⟨b, hb, rfl⟩ : ∃ b, read m = some b ∧ b = a := by simpa using h
    exact ⟨m, hb⟩

theorem of_mem_list {r : Reader ν} {read : ν → Option α} {n : ν} {as : List α}
    (h : r.list read n = some as) {a : α} (ha : a ∈ as) : ∃ m, read m = some a := by
  obtain ⟨ns, -, hns⟩ := Option.bind_eq_some_iff.1 h
  obtain ⟨m, -, hm⟩ := exists_of_mem_mapM hns ha
  exact ⟨m, hm⟩

/-- A reader whose numbers are below the bound that is asked for. -/
def Bounded (r : Reader ν) : Prop := ∀ bound n k, r.nat? bound n = some k → k < bound

variable {r : Reader ν} {fs : List (String × ν)} {name : String} {bound k : Nat}

/-- A number that must be given is below its bound. -/
theorem field_lt (hr : r.Bounded) (h : field fs name none (r.nat? bound) = some k) : k < bound := by
  obtain ⟨f, -, hf⟩ := exists_of_field h
  exact hr _ _ _ hf

/-- A number that has a default is below its bound if the default is. -/
theorem field_default_lt {d : Nat} (hr : r.Bounded) (hd : d < bound)
    (h : field fs name (some d) (r.nat? bound) = some k) : k < bound := by
  rcases field_eq_some h with hk | ⟨m, hm⟩
  · cases hk
    exact hd
  · exact hr _ _ _ hm

/-- A number that need not be there is below its bound if it is. -/
theorem field_option_lt {o : Option Nat} (hr : r.Bounded)
    (h : field fs name (some none) (r.option (r.nat? bound)) = some o) : ∀ k ∈ o, k < bound := by
  rintro k rfl
  rcases field_eq_some h with habsent | ⟨m, hm⟩
  · cases habsent
  · obtain ⟨m', hm'⟩ := of_option_eq_some hm
    exact hr _ _ _ hm'

end Reader

theorem Yaml.Schema.lt_of_natural? {bound k : Nat} {cs : List Char}
    (h : natural? bound cs = some k) : k < bound := by
  unfold natural? at h
  dsimp only at h
  split_ifs at h
  obtain ⟨n, -, hn⟩ := Option.bind_eq_some_iff.1 h
  split_ifs at hn with hlt
  cases hn
  exact hlt

theorem Yaml.bounded_reader : Yaml.reader.Bounded := by
  intro bound p k h
  have hnat : p.nat? bound = some k := h
  unfold Place.nat? at hnat
  split at hnat
  · split_ifs at hnat
    exact (Schema.lt_of_natural? hnat).trans_le (min_le_left _ _)
  · cases hnat

/-- All counts of a value are words of 32 bits. -/
def DimensionValue.IsWord (v : DimensionValue) : Prop := ∀ n, v = .count n → n < countBound

/-- The counts that the values of an axis come from are words of 32 bits. -/
structure Axis.Words (a : Axis) : Prop where
  values : ∀ v ∈ a.values, v.IsWord
  stop : ∀ n, a.stop = some n → n < countBound

variable {ν : Type} {r : Reader ν}

theorem DimensionValue.isWord_of_read {n : ν} {v : DimensionValue}
    (h : DimensionValue.read r n = some v) : v.IsWord := by
  rintro k rfl
  unfold DimensionValue.read at h
  split at h
  · split_ifs at h with hk
    cases h
    exact hk
  · cases h
  · cases h

theorem Axis.words_of_read (hr : r.Bounded) {n : ν} {a : Axis} (h : Axis.read r n = some a) :
    a.Words := by
  simp only [Axis.read, Option.bind_eq_bind, Option.bind_eq_some_iff, Option.pure_def,
    Option.some.injEq] at h
  obtain ⟨fs, -, d, -, vs, hvalues, start, -, stop, hstop, below, -, step, -, rfl⟩ := h
  constructor
  · intro v hv
    rcases Reader.field_eq_some hvalues with habsent | ⟨m, hm⟩
    · cases habsent
      cases hv
    · obtain ⟨m', hm'⟩ := Reader.of_mem_list hm hv
      exact DimensionValue.isWord_of_read hm'
  · exact Reader.field_option_lt hr hstop

theorem TrialParameters.nodeCount_of_read (hr : r.Bounded) {n : ν} {p : TrialParameters}
    (h : TrialParameters.read r n = some p) : p.nodeCount < countBound := by
  simp only [TrialParameters.read, Option.bind_eq_bind, Option.bind_eq_some_iff, Option.pure_def,
    Option.some.injEq] at h
  obtain ⟨fs, -, nodes, hnodes, faults, -, depth, -, peers, -, factor, -, size, -, rfl⟩ := h
  have hstandard : standard.nodeCount < countBound := by decide
  exact Reader.field_default_lt hr hstandard hnodes

namespace SweepPlan

structure Words (p : SweepPlan) : Prop where
  nodes : p.defaults.nodeCount < countBound
  axes : ∀ a ∈ p.grid, a.Words

variable {p : SweepPlan}

theorem words_of_read {place : Yaml.Place} (h : read place = some p) : p.Words := by
  simp only [read, Option.bind_eq_bind, Option.bind_eq_some_iff, Option.pure_def,
    Option.some.injEq] at h
  obtain ⟨fs, -, family, -, target, -, ledger, -, passes, -, defaults, hdefaults, grid, hgrid, -,
    -, -, -, -, -, -, -, -, -, rfl⟩ := h
  constructor
  · rcases Reader.field_eq_some hdefaults with habsent | ⟨m, hm⟩
    · cases habsent
      show TrialParameters.standard.nodeCount < countBound
      decide
    · exact TrialParameters.nodeCount_of_read Yaml.bounded_reader hm
  · intro a ha
    rcases Reader.field_eq_some hgrid with habsent | ⟨m, hm⟩
    · cases habsent
      cases ha
    · obtain ⟨m', hm'⟩ := Reader.of_mem_list hm ha
      exact Axis.words_of_read Yaml.bounded_reader hm'

/-- The counts of a plan that is accepted are words. -/
theorem words_of_ofText {text dir : String} (h : ofText text dir = .ok p) : p.Words := by
  unfold ofText at h
  split at h
  · cases h
  · next q hq =>
    obtain ⟨n, -, hn⟩ := Option.bind_eq_some_iff.1 hq
    have hread : ∃ place, read place = some q := by
      simp only [Yaml.Place.read?, Option.bind_eq_bind, Option.bind_eq_some_iff] at hn
      obtain ⟨-, -, hread⟩ := hn
      exact ⟨_, hread⟩
    obtain ⟨place, hread⟩ := hread
    have hwords := words_of_read hread
    unfold validate at h
    split_ifs at h
    cases h
    exact ⟨hwords.nodes, hwords.axes⟩

end SweepPlan

end FaultSweep
