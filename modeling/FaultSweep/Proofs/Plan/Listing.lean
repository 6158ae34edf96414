import Mathlib

/-!
# Listings

A check finds items at spots, and the same item may be found at several of them. A list reports what
was found if it has one item for each item at each spot, and no others.
-/

namespace FaultSweep

variable {ι κ α β : Type}

/-- `xs` has one item for each spot at which `R` finds it, and no others. -/
def Lists (R : ι → α → Prop) (xs : List α) : Prop :=
  ∃ found : List (ι × α), found.Nodup ∧ (∀ i x, (i, x) ∈ found ↔ R i x) ∧ found.map (·.2) = xs

namespace Lists

variable {R S : ι → α → Prop} {xs ys : List α}

theorem congr (h : Lists R xs) (hRS : ∀ i x, S i x ↔ R i x) : Lists S xs := by
  obtain ⟨found, hnodup, hmem, hxs⟩ := h
  exact ⟨found, hnodup, fun i x => (hmem i x).trans (hRS i x).symm, hxs⟩

/-- Nothing is reported exactly if nothing is found. -/
theorem eq_nil_iff (h : Lists R xs) : xs = [] ↔ ∀ i x, ¬R i x := by
  obtain ⟨found, -, hmem, rfl⟩ := h
  rw [List.map_eq_nil_iff, List.eq_nil_iff_forall_not_mem]
  constructor
  · intro hnone i x hR
    exact hnone (i, x) ((hmem i x).2 hR)
  · rintro hnone ⟨i, x⟩ hmem'
    exact hnone i x ((hmem i x).1 hmem')

theorem of_nodup (i : ι) (h : xs.Nodup) : Lists (fun j x => j = i ∧ x ∈ xs) xs := by
  refine ⟨xs.map (i, ·), h.map (Prod.mk_right_injective i), ?_, ?_⟩
  · intro j x
    simp [eq_comm, and_comm]
  · simp

/-- Items that tell their spots. -/
theorem of_spots {is : List ι} (h : is.Nodup) (f : ι → α) :
    Lists (fun i x => i ∈ is ∧ x = f i) (is.map f) := by
  refine ⟨is.map fun i => (i, f i), h.map fun i j hij => congrArg Prod.fst hij, ?_, ?_⟩
  · intro i x
    simp only [List.mem_map, Prod.mk.injEq]
    constructor
    · rintro ⟨j, hj, rfl, rfl⟩
      exact ⟨hj, rfl⟩
    · rintro ⟨hi, rfl⟩
      exact ⟨i, hi, rfl, rfl⟩
  · simp

theorem append (h : Lists R xs) (h' : Lists S ys) (hRS : ∀ i x, R i x → ¬S i x) :
    Lists (fun i x => R i x ∨ S i x) (xs ++ ys) := by
  obtain ⟨found, hnodup, hmem, rfl⟩ := h
  obtain ⟨found', hnodup', hmem', rfl⟩ := h'
  refine ⟨found ++ found', hnodup.append hnodup' ?_, ?_, by simp⟩
  · rintro ⟨i, x⟩ hi hi'
    exact hRS i x ((hmem i x).1 hi) ((hmem' i x).1 hi')
  · intro i x
    rw [List.mem_append, hmem, hmem']

/-- Spots may be given other names. -/
theorem respot {f : ι → κ} (h : Lists R xs) (hf : f.Injective) :
    Lists (fun k x => ∃ i, f i = k ∧ R i x) xs := by
  obtain ⟨found, hnodup, hmem, rfl⟩ := h
  refine ⟨found.map (Prod.map f id), hnodup.map (hf.prodMap Function.injective_id), ?_, by simp⟩
  intro k x
  simp only [List.mem_map, Prod.exists, Prod.map_apply, id_eq, Prod.mk.injEq, hmem]
  constructor
  · rintro ⟨i, x, hR, hk, rfl⟩
    exact ⟨i, hk, hR⟩
  · rintro ⟨i, hk, hR⟩
    exact ⟨i, x, hR, hk, rfl⟩

/-- Items may be given other names. -/
theorem map {g : α → β} (h : Lists R xs) (hg : g.Injective) :
    Lists (fun i y => ∃ x, g x = y ∧ R i x) (xs.map g) := by
  obtain ⟨found, hnodup, hmem, rfl⟩ := h
  refine ⟨found.map (Prod.map id g), hnodup.map (Function.injective_id.prodMap hg), ?_, by simp⟩
  intro i y
  simp only [List.mem_map, Prod.exists, Prod.map_apply, id_eq, Prod.mk.injEq, hmem]
  constructor
  · rintro ⟨i, x, hR, rfl, hy⟩
    exact ⟨x, hy, hR⟩
  · rintro ⟨x, hy, hR⟩
    exact ⟨i, x, hR, rfl, hy⟩

/-- Spots that are counted: those of the first part, and then those of the rest. -/
theorem cons {T : Nat × ι → α → Prop} (h : Lists R xs) (h' : Lists T ys) :
    Lists (fun (s : Nat × ι) x => (s.1 = 0 ∧ R s.2 x) ∨ ∃ n, s.1 = n + 1 ∧ T (n, s.2) x)
      (xs ++ ys) := by
  have hfirst := h.respot (Prod.mk_right_injective 0)
  have hrest := h'.respot (f := fun s => (s.1 + 1, s.2)) fun s t hst => by
    simpa [Prod.ext_iff] using hst
  refine (hfirst.append hrest ?_).congr ?_
  · rintro s x ⟨i, rfl, -⟩ ⟨t, ht, -⟩
    simp at ht
  · rintro ⟨n, i⟩ x
    constructor
    · rintro (⟨rfl, hR⟩ | ⟨n, rfl, hT⟩)
      · exact .inl ⟨i, rfl, hR⟩
      · exact .inr ⟨(n, i), rfl, hT⟩
    · rintro (⟨j, hj, hR⟩ | ⟨⟨m, j⟩, hj, hT⟩)
      · cases hj
        exact .inl ⟨rfl, hR⟩
      · cases hj
        exact .inr ⟨m, rfl, hT⟩

theorem flatMap {R : β → ι → α → Prop} {f : β → List α} {bs : List β}
    (h : ∀ b ∈ bs, Lists (R b) (f b)) :
    Lists (fun (s : Nat × ι) x => ∃ b, bs[s.1]? = some b ∧ R b s.2 x) (bs.flatMap f) := by
  induction bs with
  | nil => exact ⟨[], by simp⟩
  | cons b bs ih =>
    obtain ⟨hfirst, hrest⟩ := List.forall_mem_cons.1 h
    refine (hfirst.cons (ih hrest)).congr ?_
    rintro ⟨n, i⟩ x
    cases n with
    | zero => simp
    | succ n => simp

/-- Elements with a spot for each of them. -/
theorem of_placed {f : β → List α} {spot : β → κ} {bs : List β} (hspots : (bs.map spot).Nodup)
    (h : ∀ b ∈ bs, (f b).Nodup) :
    Lists (fun k x => ∃ b ∈ bs, spot b = k ∧ x ∈ f b) (bs.flatMap f) := by
  refine ⟨bs.flatMap fun b => (f b).map (spot b, ·), List.nodup_flatMap.2 ⟨?_, ?_⟩, ?_, ?_⟩
  · exact fun b hb => (h b hb).map (Prod.mk_right_injective (spot b))
  · refine (List.pairwise_map.1 hspots).imp fun {b c} hbc => ?_
    rintro ⟨k, x⟩ hb hc
    obtain ⟨y, -, hy⟩ := List.mem_map.1 hb
    obtain ⟨z, -, hz⟩ := List.mem_map.1 hc
    exact hbc ((congrArg Prod.fst hy).trans (congrArg Prod.fst hz).symm)
  · intro k x
    simp [and_comm]
  · simp [List.map_flatMap, Function.comp_def]

/-- Each element of a list is a spot. -/
theorem of_elements {f : β → List α} {bs : List β} (h : ∀ b ∈ bs, (f b).Nodup) :
    Lists (fun (n : Nat) x => ∃ b, bs[n]? = some b ∧ x ∈ f b) (bs.flatMap f) := by
  have hpairs := flatMap fun b hb => of_nodup () (h b hb)
  refine (hpairs.respot (f := Prod.fst) fun s t hst => Prod.ext hst rfl).congr ?_
  intro n x
  simp

end Lists

end FaultSweep
