import FaultSweep.Proofs.Files.Replacing
import FaultSweep.Proofs.Ledger.Growth
import FaultSweep.Proofs.Ledger.Reading
import FaultSweep.Proofs.Trial.Attainment

/-!
# Ledgers that are stored record by record

A record stands three levels down in its ledger, and a text may nest no more levels there than
anywhere else. So a measurement that the storage client accepts may be too deep for the ledger. It
is stored all the same, and the file can then no longer be read as a ledger.
-/

namespace FaultSweep.Ledger

variable {W : Type}

/-- Enters records one after another, each with a write of its own, until a write fails. -/
def appendAll (b : Backend W) (l : Ledger) : List Entered → W → Except Fatal Ledger × W
  | [], w => (.ok l, w)
  | e :: es, w =>
    match append b l e.1 e.2 w with
    | (.error x, w) => (.error x, w)
    | (.ok l, w) => appendAll b l es w

theorem append_ok {b : Backend W} {l l' : Ledger} {k : ConfigurationKey} {r : TrialRecord}
    {w w' : W} (h : append b l k r w = (.ok l', w')) :
    l' = l.push k r ∧ b.replace l'.encode w = (.ok (), w') := by
  unfold append at h
  split at h
  · split at h
    · cases h
    · next w'' hw =>
      cases h
      exact ⟨rfl, hw⟩
  · cases h

/-- After appends that succeed the backend holds the ledger with all the records. -/
theorem appendAll_ok {b : Backend W} (hb : b.Keeps) {l l' : Ledger} {es : List Entered} {w w' : W}
    (h : appendAll b l es w = (.ok l', w')) :
    l' = l.pushAll es ∧ (es = [] ∧ w' = w ∨ b.read w' = .ok (some l'.encode)) := by
  induction es generalizing l w with
  | nil =>
    cases h
    exact ⟨rfl, .inl ⟨rfl, rfl⟩⟩
  | cons e es ih =>
    rw [appendAll] at h
    split at h
    · cases h
    · next l₁ w₁ happend =>
      obtain ⟨rfl, hreplace⟩ := append_ok happend
      obtain ⟨rfl, hstored⟩ := ih h
      refine ⟨rfl, .inr ?_⟩
      rcases hstored with ⟨rfl, rfl⟩ | hstored
      · exact hb _ _ _ hreplace
      · exact hstored

/-- The file that a ledger was written to holds a ledger, if and only if no measurement in it nests
more than 124 levels. -/
theorem wellStored_encode {l : Ledger} (ht : l.Timed)
    (hl : ∀ e ∈ l.entries, ∀ r ∈ e.2, r.metrics.Legible) :
    WellStored (some l.encode) ↔ ∀ e ∈ l.entries, ∀ r ∈ e.2, r.metrics.depth ≤ 124 := by
  have hdecode := isSome_decode?_encode ht
  constructor
  · intro h e he r hr
    exact (hdecode.1 (h l.encode rfl) e he r hr).1
  · intro h b hb
    obtain rfl := Option.some.inj hb
    exact hdecode.2 fun e he r hr => ⟨h e he r hr, hl e he r hr⟩

/-- Records that trials give are stored so that a ledger can be read again, exactly if none of them
measured more than 124 levels. The storage client accepts 127. -/
theorem appends_readable_iff {b : Backend W} (hb : b.Keeps) {stored : Option Utf8.Bytes}
    {w w' : W} {l l' : Ledger} {es : List Entered} (hread : b.read w = .ok stored)
    (hstored : WellStored stored) (hload : load b w = .ok l)
    (hes : ∀ e ∈ es, Trial.Gives e.2) (happend : appendAll b l es w = (.ok l', w')) :
    ∃ stored', b.read w' = .ok stored' ∧
      (WellStored stored' ↔ ∀ e ∈ es, e.2.metrics.depth ≤ 124) := by
  have hl : l = ofStored stored := by
    rw [load, hread] at hload
    exact (Except.ok.inj hload).symm
  have hsound : l.Sound := hl ▸ sound_ofStored hstored
  obtain ⟨rfl, hnone | hsome⟩ := appendAll_ok hb happend
  · obtain ⟨rfl, rfl⟩ := hnone
    refine ⟨stored, hread, ?_⟩
    constructor
    · intro _ e he
      cases he
    · intro _
      exact hstored
  · refine ⟨some (l.pushAll es).encode, hsome, ?_⟩
    have htimed : (l.pushAll es).Timed := by
      refine forall_pushAll.2 ⟨?_, ?_⟩
      · intro e he r hr
        exact ⟨(hsound e he r hr).started, (hsound e he r hr).finished⟩
      · intro e he
        exact (hes e he).timed
    have hlegible : ∀ e ∈ (l.pushAll es).entries, ∀ r ∈ e.2, r.metrics.Legible := by
      refine forall_pushAll.2 ⟨?_, ?_⟩
      · intro e he r hr
        exact Json.legible_of_given (hsound e he r hr).given
      · intro e he
        exact Json.legible_of_given (hes e he).accepted.given
    rw [wellStored_encode htimed hlegible, forall_pushAll]
    apply and_iff_right
    intro e he r hr
    exact (hsound e he r hr).depth

/-- One level more than there is room for, in a new ledger. -/
theorem deep_measurement_unreadable :
    ∃ r l' m', Trial.Gives r ∧ r.metrics.depth = 125 ∧
      appendAll MemoryFile.backend SortedMap.empty [(⟨[]⟩, r)] ⟨none, false, 0⟩ = (.ok l', m') ∧
      ∃ stored', MemoryFile.backend.read m' = .ok stored' ∧ ¬WellStored stored' := by
  obtain ⟨r, hgives, hstatus, hmetrics⟩ := Trial.gives_of_regular (Json.regular_nested 124)
    (by rw [Json.depth_nested]; decide)
  have hdepth : r.metrics.depth = 125 := by rw [hmetrics, Json.depth_nested]
  have happend : appendAll MemoryFile.backend SortedMap.empty [(⟨[]⟩, r)] ⟨none, false, 0⟩ =
      (.ok (push SortedMap.empty ⟨[]⟩ r),
        ⟨some (push SortedMap.empty ⟨[]⟩ r).encode, false, 1⟩) := by
    have hkept : r.status.isRecordable = true := by
      rw [hstatus]
      rfl
    simp [appendAll, append, hkept, MemoryFile.backend]
  have hnone : WellStored none := by
    intro b hb
    cases hb
  have habsent : MemoryFile.backend.read ⟨none, false, 0⟩ = .ok none := rfl
  have hload : load MemoryFile.backend ⟨none, false, 0⟩ = .ok SortedMap.empty := rfl
  have hes : ∀ e ∈ [((⟨[]⟩ : ConfigurationKey), r)], Trial.Gives e.2 := by
    intro e he
    rw [List.mem_singleton.1 he]
    exact hgives
  obtain ⟨stored', hread, hiff⟩ := appends_readable_iff MemoryFile.backend_keeps habsent hnone hload
    hes happend
  refine ⟨r, _, _, hgives, hdepth, happend, stored', hread, ?_⟩
  intro hstored
  have hle := hiff.1 hstored (⟨[]⟩, r) (by simp)
  rw [hdepth] at hle
  omega

end FaultSweep.Ledger
