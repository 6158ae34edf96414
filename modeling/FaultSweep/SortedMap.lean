/-!
# Maps in key order

A finite map, kept as its entries in strictly increasing order of the keys. Most maps are from
texts, which are ordered by code points. Two maps with the same entries are the same map, and the
order in which a map is written is the order it is kept in.
-/

namespace FaultSweep

structure SortedMap (α : Type) (κ : Type := String) [LT κ] where
  entries : List (κ × α)
  sorted : entries.Pairwise (fun a b => a.1 < b.1)

namespace SortedMap

variable {α β κ : Type} [LT κ]

theorem ext {m n : SortedMap α κ} (h : m.entries = n.entries) : m = n := by
  cases m; cases n; simp_all

def empty : SortedMap α κ := ⟨[], List.Pairwise.nil⟩

def get? [DecidableEq κ] (m : SortedMap α κ) (k : κ) : Option α :=
  (m.entries.find? (·.1 = k)).map (·.2)

@[simp] theorem get?_empty [DecidableEq κ] (k : κ) : (empty : SortedMap α κ).get? k = none := rfl

def contains [DecidableEq κ] (m : SortedMap α κ) (k : κ) : Bool := (m.get? k).isSome

def mapValues (f : α → β) (m : SortedMap α κ) : SortedMap β κ :=
  ⟨m.entries.map fun e => (e.1, f e.2), by
    rw [List.pairwise_map]
    exact m.sorted⟩

variable [DecidableLT κ]

/-- Puts an entry where its key belongs, in the place of an older one of the same key. -/
def put (k : κ) (v : α) : List (κ × α) → List (κ × α)
  | [] => [(k, v)]
  | e :: es =>
    if k < e.1 then (k, v) :: e :: es
    else if e.1 < k then e :: put k v es
    else (k, v) :: es

theorem mem_put {k : κ} {v : α} {es : List (κ × α)} {e : κ × α} (h : e ∈ put k v es) :
    e = (k, v) ∨ e ∈ es := by
  induction es with
  | nil => simpa [put] using h
  | cons d ds ih =>
    simp only [put] at h
    split at h
    · simpa using h
    · split at h
      · rcases List.mem_cons.1 h with h | h
        · exact .inr (by simp [h])
        · rcases ih h with h | h
          · exact .inl h
          · exact .inr (by simp [h])
      · rcases List.mem_cons.1 h with h | h
        · exact .inl h
        · exact .inr (by simp [h])

variable [LE κ] [Std.LawfulOrderLT κ] [Std.IsLinearOrder κ]

omit [DecidableLT κ] in
theorem eq_of_not_lt {a b : κ} (h₁ : ¬a < b) (h₂ : ¬b < a) : a = b :=
  Std.le_antisymm (Std.not_lt.1 h₂) (Std.not_lt.1 h₁)

theorem put_pairwise (k : κ) (v : α) {es : List (κ × α)}
    (h : es.Pairwise (fun a b => a.1 < b.1)) : (put k v es).Pairwise (fun a b => a.1 < b.1) := by
  induction es with
  | nil => simp [put]
  | cons d ds ih =>
    obtain ⟨hd, hds⟩ := List.pairwise_cons.1 h
    simp only [put]
    split
    case isTrue hk =>
      refine List.pairwise_cons.2 ⟨fun e he => ?_, h⟩
      rcases List.mem_cons.1 he with he | he
      · subst he; exact hk
      · exact Std.lt_trans hk (hd e he)
    case isFalse hk =>
      split
      case isTrue hk' =>
        refine List.pairwise_cons.2 ⟨fun e he => ?_, ih hds⟩
        rcases mem_put he with he | he
        · subst he; exact hk'
        · exact hd e he
      case isFalse hk' =>
        have hkey : k = d.1 := eq_of_not_lt hk hk'
        refine List.pairwise_cons.2 ⟨fun e he => ?_, hds⟩
        rw [hkey]
        exact hd e he

def insert (m : SortedMap α κ) (k : κ) (v : α) : SortedMap α κ :=
  ⟨put k v m.entries, put_pairwise k v m.sorted⟩

/-- The map of a list of entries; of two entries with one key the later counts. -/
def ofList (es : List (κ × α)) : SortedMap α κ :=
  es.foldl (fun m e => m.insert e.1 e.2) empty

variable [DecidableEq κ]

omit [Std.IsLinearOrder κ] in
theorem find?_put_self (k : κ) (v : α) (es : List (κ × α)) :
    (put k v es).find? (·.1 = k) = some (k, v) := by
  induction es with
  | nil => simp [put]
  | cons d ds ih =>
    simp only [put]
    split
    · simp
    · split
      case isTrue h =>
        have : d.1 ≠ k := fun e => Std.lt_irrefl (a := k) (e ▸ h)
        simp [this, ih]
      case isFalse => simp

theorem find?_put_of_ne {j k : κ} (v : α) (h : j ≠ k) (es : List (κ × α)) :
    (put k v es).find? (·.1 = j) = es.find? (·.1 = j) := by
  induction es with
  | nil => simp [put, h.symm]
  | cons d ds ih =>
    simp only [put]
    split
    · simp [List.find?_cons, h.symm]
    · split
      · simp [List.find?_cons, ih]
      case isFalse hk hk' =>
        have hkey : k = d.1 := eq_of_not_lt hk hk'
        simp [h.symm, ← hkey]

@[simp] theorem get?_insert_self (m : SortedMap α κ) (k : κ) (v : α) :
    (m.insert k v).get? k = some v := by
  simp [get?, insert, find?_put_self]

theorem get?_insert_of_ne (m : SortedMap α κ) {j k : κ} (v : α) (h : j ≠ k) :
    (m.insert k v).get? j = m.get? j := by
  simp [get?, insert, find?_put_of_ne v h]

end SortedMap

end FaultSweep
