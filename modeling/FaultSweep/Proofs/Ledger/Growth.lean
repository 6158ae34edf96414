import FaultSweep.Ledger.Text
import FaultSweep.Proofs.SortedMap

/-!
# Ledgers that grow

Records are entered one by one, each at the end of the list of its own ledger key. What a list of
them makes of a ledger is said key by key: the old list, then the new records of that key in order.
-/

namespace FaultSweep

/-- A record and the key of the cell it is entered for. -/
abbrev Entered := ConfigurationKey × TrialRecord

namespace Ledger

def pushAll (l : Ledger) : List Entered → Ledger
  | [] => l
  | e :: es => (l.push e.1 e.2).pushAll es

@[simp] theorem pushAll_nil (l : Ledger) : l.pushAll [] = l := rfl
@[simp] theorem pushAll_cons (l : Ledger) (e : Entered) (es : List Entered) :
    l.pushAll (e :: es) = (l.push e.1 e.2).pushAll es := rfl

theorem pushAll_append (l : Ledger) (es fs : List Entered) :
    l.pushAll (es ++ fs) = (l.pushAll es).pushAll fs := by
  induction es generalizing l with
  | nil => rfl
  | cons e es ih => exact ih (l.push e.1 e.2)

theorem pushAll_concat (l : Ledger) (es : List Entered) (k : ConfigurationKey)
    (r : TrialRecord) : l.pushAll (es ++ [(k, r)]) = (l.pushAll es).push k r := by
  rw [pushAll_append]
  rfl

/-- Of the records of a list, those that are entered under a ledger key. -/
def under (k : String) (es : List Entered) : List TrialRecord :=
  (es.filter fun e => e.1.ledgerKey = k).map (·.2)

@[simp] theorem under_nil (k : String) : under k [] = [] := rfl

theorem under_cons_self (e : Entered) (es : List Entered) :
    under e.1.ledgerKey (e :: es) = e.2 :: under e.1.ledgerKey es := by
  simp [under]

theorem under_cons_of_ne {k : String} {e : Entered} (h : e.1.ledgerKey ≠ k) (es : List Entered) :
    under k (e :: es) = under k es := by
  simp [under, h]

theorem get?_push_of_ne (l : Ledger) {j : String} {k : ConfigurationKey} (r : TrialRecord)
    (h : j ≠ k.ledgerKey) : (l.push k r).get? j = l.get? j := by
  simp [push, SortedMap.get?_insert_of_ne _ _ h]

theorem recordsAt_push_self (l : Ledger) (k : ConfigurationKey) (r : TrialRecord) :
    (l.push k r).recordsAt k.ledgerKey = l.recordsAt k.ledgerKey ++ [r] :=
  records_push_self l k r

/-- `l'` is `l` with the records of a list entered in order, and with nothing else changed. -/
structure Grows (l : Ledger) (es : List Entered) (l' : Ledger) : Prop where
  recordsAt : ∀ k : String, l'.recordsAt k = l.recordsAt k ++ under k es
  untouched : ∀ k : String, under k es = [] → l'.get? k = l.get? k

theorem recordsAt_pushAll (l : Ledger) (es : List Entered) (k : String) :
    (l.pushAll es).recordsAt k = l.recordsAt k ++ under k es := by
  induction es generalizing l with
  | nil => simp
  | cons e es ih =>
    rw [pushAll_cons, ih]
    by_cases h : e.1.ledgerKey = k
    · subst h
      rw [recordsAt_push_self, under_cons_self, List.append_assoc, List.singleton_append]
    · rw [recordsAt_push_of_ne l e.2 (Ne.symm h), under_cons_of_ne h]

theorem get?_pushAll (l : Ledger) (es : List Entered) (k : String) (h : under k es = []) :
    (l.pushAll es).get? k = l.get? k := by
  induction es generalizing l with
  | nil => rfl
  | cons e es ih =>
    have hne : e.1.ledgerKey ≠ k := by
      intro he
      subst he
      rw [under_cons_self] at h
      cases h
    rw [under_cons_of_ne hne] at h
    rw [pushAll_cons, ih _ h, get?_push_of_ne l e.2 (Ne.symm hne)]

theorem grows_pushAll (l : Ledger) (es : List Entered) : l.Grows es (l.pushAll es) :=
  ⟨recordsAt_pushAll l es, get?_pushAll l es⟩

/-- What a ledger holds under a key it was given records for is told by the records. -/
theorem get?_of_recordsAt_ne_nil {l : Ledger} {k : String} (h : l.recordsAt k ≠ []) :
    l.get? k = some (l.recordsAt k) := by
  unfold recordsAt at h ⊢
  cases hk : l.get? k with
  | none => simp [hk] at h
  | some rs => rfl

/-- Two ledgers that grew out of one are the same if they have the same records. -/
theorem pushAll_ext {l : Ledger} {es fs : List Entered}
    (h : ∀ k, (l.pushAll es).recordsAt k = (l.pushAll fs).recordsAt k) :
    l.pushAll es = l.pushAll fs := by
  refine SortedMap.ext_get? fun k => ?_
  have hunder : under k es = under k fs := by
    have hk := h k
    rwa [recordsAt_pushAll, recordsAt_pushAll, List.append_cancel_left_eq] at hk
  by_cases hnil : under k es = []
  · rw [get?_pushAll l es k hnil, get?_pushAll l fs k (hunder ▸ hnil)]
  · have hne : (l.pushAll es).recordsAt k ≠ [] := by simp [recordsAt_pushAll, hnil]
    rw [get?_of_recordsAt_ne_nil hne, get?_of_recordsAt_ne_nil (h k ▸ hne), h k]

theorem completed_pushAll (l : Ledger) (es : List Entered) (k : ConfigurationKey) :
    (l.pushAll es).completed k = l.completed k + (under k.ledgerKey es).length := by
  simp only [completed, records, recordsAt_pushAll, List.length_append]

theorem mem_under {k : String} {es : List Entered} {r : TrialRecord} :
    r ∈ under k es ↔ ∃ e ∈ es, e.1.ledgerKey = k ∧ e.2 = r := by
  simp only [under, List.mem_map, List.mem_filter, decide_eq_true_eq, and_assoc]

/-- What holds of every record in the entries holds of every record under a key. -/
theorem forall_records {P : TrialRecord → Prop} {l : Ledger} :
    (∀ e ∈ l.entries, ∀ r ∈ e.2, P r) ↔ ∀ k, ∀ r ∈ l.recordsAt k, P r := by
  constructor
  · intro h k r hr
    unfold recordsAt SortedMap.get? at hr
    cases hf : l.entries.find? (·.1 = k) with
    | none => simp [hf] at hr
    | some e => exact h e (List.mem_of_find?_eq_some hf) r (by simpa [hf] using hr)
  · intro h e he r hr
    apply h e.1 r
    rw [recordsAt, SortedMap.get?_of_mem he]
    exact hr

/-- What a ledger has after records were entered is what it had, and the records. -/
theorem forall_pushAll {P : TrialRecord → Prop} {l : Ledger} {es : List Entered} :
    (∀ e ∈ (l.pushAll es).entries, ∀ r ∈ e.2, P r) ↔
      (∀ e ∈ l.entries, ∀ r ∈ e.2, P r) ∧ ∀ e ∈ es, P e.2 := by
  rw [forall_records, forall_records]
  constructor
  · intro h
    constructor
    · intro k r hr
      apply h k r
      rw [recordsAt_pushAll]
      exact List.mem_append_left _ hr
    · intro e he
      apply h e.1.ledgerKey e.2
      rw [recordsAt_pushAll]
      exact List.mem_append_right _ (mem_under.2 ⟨e, he, rfl, rfl⟩)
  · rintro ⟨hold, hnew⟩ k r hr
    rw [recordsAt_pushAll] at hr
    rcases List.mem_append.1 hr with hr | hr
    · exact hold k r hr
    · obtain ⟨e, he, -, rfl⟩ := mem_under.1 hr
      exact hnew e he

end Ledger

end FaultSweep
