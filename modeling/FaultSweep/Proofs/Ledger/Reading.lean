import FaultSweep.Ledger.Store
import FaultSweep.Proofs.Json.Reading
import FaultSweep.Proofs.Ledger.RoundTrip

/-!
# What a ledger that was read holds

A reader goes down one level at a time and takes what it reads from the document it was given. So a
ledger that was read has instants that there are, and measurements of 124 levels at most, whose
numbers are what numerals stand for.
-/

namespace FaultSweep

theorem exists_of_mem_mapM {α β : Type} {f : α → Option β} {xs : List α} {ys : List β}
    (h : xs.mapM f = some ys) {y : β} (hy : y ∈ ys) : ∃ x ∈ xs, f x = some y := by
  induction xs generalizing ys with
  | nil =>
    cases h
    cases hy
  | cons x xs ih =>
    simp only [List.mapM_cons, Option.bind_eq_bind, Option.bind_eq_some_iff, Option.pure_def,
      Option.some.injEq] at h
    obtain ⟨z, hz, zs, hzs, rfl⟩ := h
    rcases List.mem_cons.1 hy with rfl | hy
    · exact ⟨x, by simp, hz⟩
    · obtain ⟨w, hw, hwy⟩ := ih hzs hy
      exact ⟨w, by simp [hw], hwy⟩

theorem Reader.exists_of_field {ν α : Type} {fs : List (String × ν)} {name : String}
    {read : ν → Option α} {a : α} (h : Reader.field fs name none read = some a) :
    ∃ f ∈ fs, read f.2 = some a := by
  unfold Reader.field at h
  split at h
  · next f hf => exact ⟨f, List.mem_of_find?_eq_some hf, h⟩
  · cases h

namespace Json.Node

/-- `m` stands one level below `n`, and its numbers are among those of `n`. -/
structure Below (m n : Node) : Prop where
  levels : m.levels + 1 = n.levels
  given : n.document.Given → m.document.Given

theorem below_of_mem_items {m n : Node} {ms : List Node} (h : n.items? = some ms) (hm : m ∈ ms) :
    Below m n := by
  obtain ⟨levels, document⟩ := n
  unfold items? at h
  split at h
  · next items hlevels hdocument =>
    simp only at hlevels hdocument
    subst hlevels hdocument
    cases h
    obtain ⟨d, hd, rfl⟩ := List.mem_map.1 hm
    exact ⟨rfl, fun hg => Document.given_arr.1 hg d hd⟩
  · cases h

theorem below_of_mem_entries {n : Node} {es : List (String × Node)} (h : n.entries? = some es)
    {e : String × Node} (he : e ∈ es) : Below e.2 n := by
  obtain ⟨levels, document⟩ := n
  unfold entries? at h
  split at h
  · next fields hlevels hdocument =>
    simp only at hlevels hdocument
    subst hlevels hdocument
    obtain ⟨f, hf, hfe⟩ := exists_of_mem_mapM h he
    rw [Option.map_eq_some_iff] at hfe
    obtain ⟨k, -, rfl⟩ := hfe
    exact ⟨rfl, fun hg => Document.given_obj.1 hg f hf⟩
  · cases h

theorem below_of_mem_fields {n : Node} {names : List String} {fs : List (String × Node)}
    (h : n.fields? names = some fs) {f : String × Node} (hf : f ∈ fs) : Below f.2 n := by
  unfold fields? at h
  split at h
  · simp only [Option.bind_eq_bind, Option.bind_eq_some_iff] at h
    obtain ⟨ms, hms, h⟩ := h
    split at h <;> cases h
    obtain ⟨name, m⟩ := f
    exact below_of_mem_items hms (List.of_mem_zip hf).2
  · rw [Option.bind_eq_some_iff] at h
    obtain ⟨es, hes, h⟩ := h
    simp only [Reader.select] at h
    split at h <;> cases h
    exact below_of_mem_entries hes (List.mem_of_mem_filter hf)

end Json.Node

namespace TrialRecord

/-- A record that stands where `levels` may still be entered, as a reader finds it. -/
structure Sound (levels : Nat) (r : TrialRecord) : Prop where
  started : r.startedAt.Valid
  finished : r.finishedAt.Valid
  depth : r.metrics.depth ≤ levels
  given : ∀ n ∈ r.metrics.numbers, n.Given
  whole : r.metrics.Whole → r.metrics.Regular

theorem valid_of_readInstant {n : Json.Node} {t : Instant}
    (h : readInstant Json.reader n = some t) : t.Valid := by
  rw [readInstant, Option.bind_eq_some_iff] at h
  obtain ⟨s, -, h⟩ := h
  exact Instant.valid_of_ofText? h

theorem sound_of_read {n : Json.Node} {r : TrialRecord} (hn : n.document.Given)
    (h : TrialRecord.read n = some r) : ∃ levels, levels + 1 = n.levels ∧ r.Sound levels := by
  simp only [TrialRecord.read, Option.bind_eq_bind, Option.bind_eq_some_iff, Option.pure_def,
    Option.some.injEq] at h
  obtain ⟨fs, hfs, status, -, startedAt, hstart, finishedAt, hfinish, phase, -, metrics, hmetrics,
    detail, -, rfl⟩ := h
  obtain ⟨f, hf, hvalue⟩ := Reader.exists_of_field hmetrics
  obtain ⟨_, _, hstarted⟩ := Reader.exists_of_field hstart
  obtain ⟨_, _, hfinished⟩ := Reader.exists_of_field hfinish
  have hbelow := Json.Node.below_of_mem_fields hfs hf
  obtain ⟨hdepth, hnumbers⟩ := Json.Document.value?_within f.2.document hvalue
  exact ⟨f.2.levels, hbelow.levels, valid_of_readInstant hstarted, valid_of_readInstant hfinished,
    hdepth, fun k hk => hbelow.given hn k (hnumbers k hk),
    Json.Document.regular_of_value? f.2.document hvalue⟩

end TrialRecord

namespace Ledger

/-- A ledger as a reader finds it. -/
def Sound (l : Ledger) : Prop := ∀ e ∈ l.entries, ∀ r ∈ e.2, r.Sound 124

theorem sound_of_list {n : Json.Node} {rs : List TrialRecord} (hn : n.document.Given)
    (h : Json.reader.list TrialRecord.read n = some rs) {r : TrialRecord} (hr : r ∈ rs) :
    ∃ levels, levels + 2 = n.levels ∧ r.Sound levels := by
  rw [Reader.list, Option.bind_eq_some_iff] at h
  obtain ⟨ms, hms, h⟩ := h
  obtain ⟨m, hm, hread⟩ := exists_of_mem_mapM h hr
  have hbelow := Json.Node.below_of_mem_items hms hm
  obtain ⟨levels, hlevels, hsound⟩ := TrialRecord.sound_of_read (hbelow.given hn) hread
  exact ⟨levels, by rw [← hbelow.levels, ← hlevels], hsound⟩

theorem sound_of_read {n : Json.Node} {l : Ledger} (hn : n.document.Given)
    (h : Ledger.read n = some l) {e : String × List TrialRecord} (he : e ∈ l.entries)
    {r : TrialRecord} (hr : r ∈ e.2) : ∃ levels, levels + 3 = n.levels ∧ r.Sound levels := by
  simp only [Ledger.read, Option.bind_eq_bind, Option.bind_eq_some_iff, Option.pure_def,
    Option.some.injEq] at h
  obtain ⟨fs, hfs, es, hes, rfl⟩ := h
  obtain ⟨f, hf, hfe⟩ := exists_of_mem_mapM hes (SortedMap.mem_ofList he)
  rw [Option.map_eq_some_iff] at hfe
  obtain ⟨rs, hrs, rfl⟩ := hfe
  have hbelow := Json.Node.below_of_mem_entries hfs hf
  obtain ⟨levels, hlevels, hsound⟩ := sound_of_list (hbelow.given hn) hrs hr
  exact ⟨levels, by rw [← hbelow.levels, ← hlevels], hsound⟩

/-- Whatever bytes a ledger was read from, it is sound. -/
theorem sound_of_decode? {b : Utf8.Bytes} {l : Ledger} (h : decode? b = some l) : l.Sound := by
  intro e he r hr
  rw [decode?, Option.bind_eq_some_iff] at h
  obtain ⟨d, hd, h⟩ := h
  have hgiven : d.Given := Json.Document.given_ofPieces? hd
  obtain ⟨levels, hlevels, hsound⟩ := sound_of_read (n := .top d) hgiven h he hr
  obtain rfl : levels = 124 := Nat.add_right_cancel (m := 3) hlevels
  exact hsound

/-- A file that is missing or holds a ledger. -/
def WellStored (stored : Option Utf8.Bytes) : Prop :=
  ∀ b, stored = some b → (decode? b).isSome = true

theorem sound_ofStored {stored : Option Utf8.Bytes} (h : WellStored stored) :
    (ofStored stored).Sound := by
  cases stored with
  | none =>
    intro e he
    cases he
  | some b =>
    obtain ⟨l, hl⟩ := Option.isSome_iff_exists.1 (h b rfl)
    have he : ofStored (some b) = l := by simp [ofStored, hl]
    rw [he]
    exact sound_of_decode? hl

end Ledger

end FaultSweep
