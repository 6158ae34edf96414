import Mathlib
import FaultSweep.SortedMap

/-!
# Maps built from entries

A map that is built entry by entry holds nothing but the entries, and of sorted entries it holds
all, in their order.
-/

namespace FaultSweep.SortedMap

variable {α : Type}

theorem put_last {k : String} {v : α} {es : List (String × α)} (h : ∀ e ∈ es, e.1 < k) :
    put k v es = es ++ [(k, v)] := by
  induction es with
  | nil => rfl
  | cons e es ih =>
    have he := h e (by simp)
    rw [put, if_neg (String.lt_asymm he), if_pos he, ih (fun d hd => h d (by simp [hd]))]
    rfl

theorem entries_foldl_insert {m : SortedMap α} {es : List (String × α)}
    (h : (m.entries ++ es).Pairwise (fun a b => a.1 < b.1)) :
    (es.foldl (fun m e => m.insert e.1 e.2) m).entries = m.entries ++ es := by
  induction es generalizing m with
  | nil => simp
  | cons e es ih =>
    have hbefore : ∀ d ∈ m.entries, d.1 < e.1 := by
      intro d hd
      exact (List.pairwise_append.1 h).2.2 d hd e (by simp)
    have hinsert : (m.insert e.1 e.2).entries = m.entries ++ [e] := put_last hbefore
    rw [List.foldl_cons, ih (by rw [hinsert]; simpa using h), hinsert]
    simp

/-- Entries that are sorted make the map that has them. -/
theorem entries_ofList {es : List (String × α)} (h : es.Pairwise (fun a b => a.1 < b.1)) :
    (ofList es).entries = es :=
  entries_foldl_insert (m := empty) h

theorem ofList_entries (m : SortedMap α) : ofList m.entries = m :=
  ext (entries_ofList m.sorted)

theorem mem_foldl_insert {m : SortedMap α} {es : List (String × α)} {e : String × α}
    (h : e ∈ (es.foldl (fun m e => m.insert e.1 e.2) m).entries) : e ∈ m.entries ∨ e ∈ es := by
  induction es generalizing m with
  | nil => exact .inl h
  | cons d ds ih =>
    rcases ih h with hm | hd
    · rcases mem_put hm with rfl | hm
      · exact .inr (by simp)
      · exact .inl hm
    · exact .inr (by simp [hd])

/-- A map holds no entry that it was not given. -/
theorem mem_ofList {es : List (String × α)} {e : String × α} (h : e ∈ (ofList es).entries) :
    e ∈ es := by
  rcases mem_foldl_insert h with h | h
  · cases h
  · exact h

/-- An entry is what the map has under its key. -/
theorem get?_of_mem {m : SortedMap α} {e : String × α} (h : e ∈ m.entries) :
    m.get? e.1 = some e.2 := by
  obtain ⟨es, hsorted⟩ := m
  rw [get?, Option.map_eq_some_iff]
  refine ⟨e, ?_, rfl⟩
  induction es with
  | nil => cases h
  | cons d ds ih =>
    obtain ⟨hfirst, hrest⟩ := List.pairwise_cons.1 hsorted
    rcases List.mem_cons.1 h with rfl | hmem
    · simp
    · have hne : d.1 ≠ e.1 := by
        intro he
        exact String.lt_irrefl e.1 (he ▸ hfirst e hmem)
      rw [List.find?_cons_of_neg (by simpa using hne)]
      exact ih hrest hmem

theorem mem_entries_iff {m : SortedMap α} {e : String × α} :
    e ∈ m.entries ↔ m.get? e.1 = some e.2 := by
  refine ⟨get?_of_mem, ?_⟩
  intro h
  obtain ⟨d, hfound, hvalue⟩ := Option.map_eq_some_iff.1 h
  have hkey : d.1 = e.1 := by simpa using List.find?_some hfound
  rw [← Prod.ext hkey hvalue]
  exact List.mem_of_find?_eq_some hfound

/-- A map is what can be looked up in it. -/
theorem ext_get? {m n : SortedMap α} (h : ∀ k, m.get? k = n.get? k) : m = n := by
  have hirrefl : Std.Irrefl fun a b : String × α => a.1 < b.1 := ⟨fun a => String.lt_irrefl a.1⟩
  have hantisymm : Std.Antisymm fun a b : String × α => a.1 < b.1 :=
    ⟨fun _ _ hab hba => absurd hba (String.lt_asymm hab)⟩
  apply ext
  refine m.sorted.eq_of_mem_iff n.sorted ?_
  intro e
  rw [mem_entries_iff, mem_entries_iff, h]

theorem nodup_keys (m : SortedMap α) : (m.entries.map (·.1)).Nodup :=
  List.pairwise_map.2 (m.sorted.imp fun h => String.ne_of_lt h)

theorem contains_iff {m : SortedMap α} {k : String} :
    m.contains k = true ↔ k ∈ m.entries.map (·.1) := by
  simp [contains, get?]

theorem contains_insert {m : SortedMap α} {j k : String} {v : α} :
    (m.insert k v).contains j = true ↔ j = k ∨ m.contains j = true := by
  by_cases h : j = k
  · subst h
    simp [contains]
  · simp [contains, get?_insert_of_ne m v h, h]

theorem contains_foldl_insert {m : SortedMap α} {es : List (String × α)} {k : String} :
    (es.foldl (fun m e => m.insert e.1 e.2) m).contains k = true ↔
      m.contains k = true ∨ k ∈ es.map (·.1) := by
  induction es generalizing m with
  | nil => simp
  | cons e es ih =>
    rw [List.foldl_cons, ih, contains_insert, List.map_cons, List.mem_cons]
    tauto

/-- The keys of a list of entries are those of the map it makes. -/
theorem mem_keys_ofList {es : List (String × α)} {k : String} :
    k ∈ (ofList es).entries.map (·.1) ↔ k ∈ es.map (·.1) := by
  rw [← contains_iff, ofList, contains_foldl_insert]
  simp [contains]

theorem contains_mapValues {β : Type} (m : SortedMap α) (f : α → β) (k : String) :
    (m.mapValues f).contains k = m.contains k := by
  rw [Bool.eq_iff_iff, contains_iff, contains_iff, mapValues, List.map_map]
  rfl

end FaultSweep.SortedMap
