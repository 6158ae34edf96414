import Mathlib.Data.List.Basic

/-!
# Delimiters

A text can be taken apart at a character if this does not stand in the parts.
-/

namespace FaultSweep

/-- What stands before the first of a delimiter, and what comes after it, can be told. -/
theorem append_delimiter_inj {x : Char} {as bs cs ds : List Char} (ha : x ∉ as) (hb : x ∉ bs)
    (h : as ++ x :: cs = bs ++ x :: ds) : as = bs ∧ cs = ds := by
  rcases List.append_eq_append_iff.1 h with ⟨ys, rfl, hrest⟩ | ⟨ys, rfl, hrest⟩
  · cases ys with
    | nil => simpa using hrest
    | cons y ys =>
      obtain ⟨rfl, -⟩ := List.cons.inj hrest
      simp at hb
  · cases ys with
    | nil => simpa [eq_comm] using hrest
    | cons y ys =>
      obtain ⟨rfl, -⟩ := List.cons.inj hrest
      simp at ha

/-- Pieces that are not empty and free of a delimiter are found again when they are joined by it. -/
theorem intercalate_delimiter_inj {x : Char} {ls ms : List (List Char)}
    (hl : ∀ l ∈ ls, l ≠ [] ∧ x ∉ l) (hm : ∀ m ∈ ms, m ≠ [] ∧ x ∉ m)
    (h : [x].intercalate ls = [x].intercalate ms) : ls = ms := by
  induction ls generalizing ms with
  | nil =>
    cases ms with
    | nil => rfl
    | cons m ms => cases ms <;> simp_all
  | cons l ls ih =>
    obtain ⟨⟨hne, hfree⟩, hls⟩ := List.forall_mem_cons.1 hl
    cases ms with
    | nil => cases ls <;> simp_all
    | cons m ms =>
      obtain ⟨⟨hne', hfree'⟩, hms⟩ := List.forall_mem_cons.1 hm
      cases ls with
      | nil =>
        cases ms with
        | nil => simpa using h
        | cons m' ms =>
          simp at h
          rw [h] at hfree
          simp at hfree
      | cons l' ls =>
        cases ms with
        | nil =>
          simp at h
          rw [← h] at hfree'
          simp at hfree'
        | cons m' ms =>
          rw [List.intercalate_cons_cons, List.intercalate_cons_cons, List.append_assoc,
            List.append_assoc] at h
          obtain ⟨rfl, hrest⟩ := append_delimiter_inj hfree hfree' h
          rw [ih hls hms hrest]

end FaultSweep
