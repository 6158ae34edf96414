import FaultSweep.Proofs.Ledger.Growth
import FaultSweep.Proofs.Ledger.Reading

/-!
# Ledgers that can be stored

What has to hold of a ledger so that its file gives it back, said record by record: the instants are
some that a text can stand for, and the measurements are of whole numbers and leave three levels for
the record, its list and the ledger around them.
-/

namespace FaultSweep

namespace TrialRecord

/-- A record that is read back as it was once it is stored. -/
structure Storable (r : TrialRecord) : Prop where
  started : r.startedAt.Valid
  finished : r.finishedAt.Valid
  regular : r.metrics.Regular
  depth : r.metrics.depth ≤ 124

theorem depth_toJson (r : TrialRecord) : r.toJson.depth = r.metrics.depth + 1 := by
  obtain ⟨status, startedAt, finishedAt, phase, metrics, detail⟩ := r
  cases detail <;>
    simp [toJson, fields, TrialStatus.toJson, TrialPhase.toJson, Json.depthFields, Json.depth]

/-- A trial that succeeded at once, and measured nothing. -/
def atEpoch : TrialRecord :=
  ⟨.success, .afterEpoch 0, .afterEpoch 0, .completed, .null, none⟩

theorem storable_atEpoch : atEpoch.Storable := ⟨by decide, by decide, trivial, by decide⟩

end TrialRecord

namespace Ledger

/-- A ledger that is read back as it was once it is stored. -/
def Storable (l : Ledger) : Prop := ∀ e ∈ l.entries, ∀ r ∈ e.2, r.Storable

theorem decode?_encode_storable {l : Ledger} (h : l.Storable) : decode? l.encode = some l :=
  decode?_encode (fun e he r hr => ⟨(h e he r hr).started, (h e he r hr).finished⟩)
    (fun e he r hr => ⟨(h e he r hr).regular, (h e he r hr).depth⟩)

theorem storable_pushAll {l : Ledger} (h : l.Storable) {es : List Entered}
    (hes : ∀ e ∈ es, e.2.Storable) : (l.pushAll es).Storable :=
  forall_pushAll.2 ⟨h, hes⟩

/-- Of a file that holds a ledger, all but the numbers is as it has to be. -/
theorem storable_ofStored {stored : Option Utf8.Bytes} (h : WellStored stored)
    (hm : ∀ e ∈ (ofStored stored).entries, ∀ r ∈ e.2, r.metrics.Regular) :
    (ofStored stored).Storable := by
  intro e he r hr
  obtain ⟨hstart, hfinish, hdepth, -⟩ := sound_ofStored h e he r hr
  exact ⟨hstart, hfinish, hm e he r hr, hdepth⟩

theorem entries_ofStored_of_not_wellStored {stored : Option Utf8.Bytes} (h : ¬WellStored stored) :
    (ofStored stored).entries = [] := by
  obtain ⟨b, rfl, hb⟩ : ∃ b, stored = some b ∧ decode? b = none := by
    simpa [WellStored] using h
  simp [ofStored, hb, SortedMap.empty]

/-- Bytes that hold no ledger are loaded as one without records. -/
theorem storable_loaded {stored : Option Utf8.Bytes}
    (hm : ∀ e ∈ (ofStored stored).entries, ∀ r ∈ e.2, r.metrics.Regular) :
    (ofStored stored).Storable := by
  by_cases hs : WellStored stored
  · exact storable_ofStored hs hm
  · intro e he
    rw [entries_ofStored_of_not_wellStored hs] at he
    cases he

/-- What is loaded from a file can be stored again if all its numbers are whole. -/
theorem storable_loaded_of_whole {stored : Option Utf8.Bytes}
    (hm : ∀ e ∈ (ofStored stored).entries, ∀ r ∈ e.2, r.metrics.Whole) :
    (ofStored stored).Storable := by
  refine storable_loaded fun e he r hr => ?_
  by_cases hs : WellStored stored
  · exact (sound_ofStored hs e he r hr).whole (hm e he r hr)
  · rw [entries_ofStored_of_not_wellStored hs] at he
    cases he

/-- Three levels of a document belong to the ledger, the rest to the measurements. -/
theorem depth_toJson_le {l : Ledger} {levels : Nat} :
    l.toJson.depth ≤ levels + 3 ↔ ∀ e ∈ l.entries, ∀ r ∈ e.2, r.metrics.depth ≤ levels := by
  have hlist : ∀ rs : List TrialRecord, (Json.arr (rs.map TrialRecord.toJson)).depth ≤ levels + 2 ↔
      ∀ r ∈ rs, r.metrics.depth ≤ levels := by
    intro rs
    rw [Json.depth_arr, Nat.add_le_add_iff_right, Json.depthItems_le, List.forall_mem_map]
    simp only [TrialRecord.depth_toJson, Nat.add_le_add_iff_right]
  rw [toJson, Json.ofMap, Json.depth_obj, Nat.add_le_add_iff_right, Json.depthFields_le,
    List.forall_mem_map]
  exact forall₂_congr fun e _ => hlist e.2

end Ledger

end FaultSweep
