import FaultSweep.Proofs.Grid.Overlay
import FaultSweep.Proofs.Plan.Axes

/-!
# Choices along axes

What stands at a place of an axis for a number of nodes is said here without a loop, and so is what
it takes for entries to be chosen along axes. A cell of a plan is such a choice: its parameters are
the values that were chosen, and the defaults where no axis chooses. The loops of the grid go
through all choices, in the order of their places.
-/

namespace FaultSweep

namespace Axis

/-- Whether a count is before the end of a range, for a number of nodes. -/
structure Before (a : Axis) (nodes k : Nat) : Prop where
  stop : ∀ n, a.stop = some n → k < n
  below : ∀ n, a.stopBelowNodes = some n → k < nodes - n

/-- The count at a place of a range, wherever the range ends. -/
def countAt (a : Axis) (j : Nat) : Nat := a.start.getD 0 + j * a.step.getD 1

/-- What stands at a place of an axis, for a number of nodes. -/
inductive Offers (a : Axis) (nodes j : Nat) : DimensionValue → Prop where
  | listed {v : DimensionValue} : ¬a.Ranged → a.values[j]? = some v → Offers a nodes j v
  | counted : a.Ranged → a.Before nodes (a.countAt j) → Offers a nodes j (.count (a.countAt j))

variable {a : Axis} {nodes j k : Nat} {v : DimensionValue}

theorem Sound.before_iff (h : a.Sound) (hr : a.Ranged) :
    a.Before nodes k ↔ k < a.bound nodes := by
  have hend := h.one_end hr
  unfold bound
  cases hstop : a.stop with
  | some n =>
    rw [hstop] at hend
    have hbelow : a.stopBelowNodes = none := hend.1 (by simp)
    constructor
    · exact fun hk => hk.stop n hstop
    · exact fun hk => ⟨fun m hm => by cases hstop.symm.trans hm; exact hk, by simp [hbelow]⟩
  | none =>
    rw [hstop] at hend
    obtain ⟨n, hn⟩ : ∃ n, a.stopBelowNodes = some n :=
      Option.ne_none_iff_exists'.1 fun hnone => absurd rfl (hend.2 hnone)
    rw [hn]
    constructor
    · exact fun hk => hk.below n hn
    · exact fun hk => ⟨by simp [hstop], fun m hm => by cases hn.symm.trans hm; exact hk⟩

theorem Sound.stride_eq (h : a.Sound) (hr : a.Ranged) : a.stride = a.step.getD 1 := by
  have hmoves := h.moves hr
  unfold stride
  cases hstep : a.step with
  | none => rfl
  | some n =>
    have hn : n ≠ 0 := by
      rintro rfl
      exact hmoves hstep
    exact max_eq_left (Nat.one_le_iff_ne_zero.2 hn)

/-- A range has a place for each count before its end. -/
theorem lt_length_iff (a : Axis) (nodes j : Nat) :
    j < a.length nodes ↔ a.first + j * a.stride < a.bound nodes := by
  unfold length
  rw [Nat.lt_div_iff_mul_lt a.stride_pos, Nat.add_sub_cancel]
  omega

/-- The values for a number of nodes are those that an axis offers, at their places. -/
theorem Sound.getElem?_valuesFor (h : a.Sound) :
    (a.valuesFor nodes)[j]? = some v ↔ a.Offers nodes j v := by
  unfold valuesFor
  by_cases hr : a.Ranged
  · have hcount : a.first + a.stride * j = a.countAt j := by
      rw [h.stride_eq hr, Nat.mul_comm]
      rfl
    have hbefore : j < a.length nodes ↔ a.Before nodes (a.countAt j) := by
      rw [lt_length_iff, h.before_iff hr, Nat.mul_comm, hcount]
    have hrange : ∀ n, (List.range' a.first (a.length nodes) a.stride)[j]? = some n ↔
        j < a.length nodes ∧ a.countAt j = n := by
      intro n
      simp [List.getElem?_eq_some_iff, hcount]
    simp only [if_pos (isRange_iff.2 hr), List.getElem?_map, Option.map_eq_some_iff, hrange,
      hbefore]
    constructor
    · rintro ⟨n, ⟨hk, rfl⟩, rfl⟩
      exact .counted hr hk
    · intro hv
      cases hv with
      | listed hl => exact absurd hr hl
      | counted _ hk => exact ⟨_, ⟨hk, rfl⟩, rfl⟩
  · rw [if_neg (mt isRange_iff.1 hr)]
    constructor
    · exact .listed hr
    · intro hv
      cases hv with
      | listed _ hj => exact hj
      | counted hr' => exact absurd hr' hr

end Axis

/-! ### Nested loops -/

/-- The number of nodes that entries give; if they give none, the one they started from. -/
def nodesOf (nodes : Nat) (es : List Entry) : Nat :=
  match es.lookup .nodeCount with
  | some (.count n) => n
  | _ => nodes

theorem nodesOf_cons (nodes : Nat) {e : Entry} {es : List Entry}
    (h : e.1 ∉ es.map Prod.fst) : nodesOf nodes (e :: es) = nodesOf (nodesOf nodes [e]) es := by
  obtain ⟨d, v⟩ := e
  by_cases hd : d = .nodeCount
  · subst hd
    have hnone : es.lookup Dimension.nodeCount = none := by
      rw [List.lookup_eq_none_iff]
      intro e he
      simpa using fun heq : Dimension.nodeCount = e.1 => h (List.mem_map.2 ⟨e, he, heq.symm⟩)
    cases v <;> simp [nodesOf, hnone]
  · have hne : (Dimension.nodeCount == d) = false := by simpa using Ne.symm hd
    simp [nodesOf, List.lookup_cons, hne]

theorem TrialParameters.nodeCount_given (p : TrialParameters) (e : Entry) :
    (p.given e).nodeCount = nodesOf p.nodeCount [e] := by
  obtain ⟨d, v⟩ := e
  cases d <;> cases v <;> rfl

/-- The choices along axes, each as the places and the entries that were chosen, by a loop for each
axis with the first outermost. -/
def loops : Nat → List Axis → List (List Nat × List Entry)
  | _, [] => [([], [])]
  | nodes, a :: as => (a.valuesFor nodes).zipIdx.flatMap fun x =>
    (loops (nodesOf nodes [(a.dimension, x.1)]) as).map fun c =>
      (x.2 :: c.1, (a.dimension, x.1) :: c.2)

/-- The loops go through the cells that the grid expands to. -/
theorem entries_loops (as : List Axis) (p : TrialParameters) :
    (loops p.nodeCount as).map Prod.snd = (Cell.along as p).map Cell.entries := by
  induction as generalizing p with
  | nil => rfl
  | cons a as ih =>
    let inner (v : DimensionValue) : List (List Entry) :=
      (loops (nodesOf p.nodeCount [(a.dimension, v)]) as).map fun c => (a.dimension, v) :: c.2
    have hinner : ∀ v ∈ a.valuesFor p.nodeCount, inner v =
        (Cell.along as (p.given (a.dimension, v))).map fun c => (a.dimension, v) :: c.entries := by
      intro v _
      have hcells := congrArg (List.map ((a.dimension, v) :: ·)) (ih (p.given (a.dimension, v)))
      rwa [p.nodeCount_given, List.map_map, List.map_map] at hcells
    calc (loops p.nodeCount (a :: as)).map Prod.snd
        = (a.valuesFor p.nodeCount).zipIdx.flatMap fun x => inner x.1 := by
          simp only [loops, inner, List.map_flatMap, List.map_map, Function.comp_def]
      _ = (a.valuesFor p.nodeCount).flatMap inner := by
          rw [← List.flatMap_map Prod.fst inner, List.zipIdx_map_fst]
      _ = (Cell.along (a :: as) p).map Cell.entries := by
          rw [List.flatMap_congr hinner]
          simp only [Cell.along, List.map_flatMap, List.map_map, Function.comp_def]

/-- A loop goes through the places of its axis in order, and all that is inside it for each. -/
theorem sorted_loops (nodes : Nat) (as : List Axis) :
    ((loops nodes as).map Prod.fst).Pairwise (· < ·) := by
  induction as generalizing nodes with
  | nil => exact List.pairwise_singleton _ _
  | cons a as ih =>
    have houter : (a.valuesFor nodes).zipIdx.Pairwise fun x y => x.2 < y.2 := by
      rw [← List.pairwise_map (f := Prod.snd) (R := (· < ·)), List.zipIdx_map_snd]
      exact List.pairwise_lt_range' 1
    simp only [loops, List.map_flatMap, List.map_map, Function.comp_def]
    refine List.pairwise_flatMap.2 ⟨fun x _ => ?_, houter.imp fun {x y} hxy => ?_⟩
    · have hinner := List.pairwise_map.1 (ih (nodesOf nodes [(a.dimension, x.1)]))
      exact List.pairwise_map.2 (hinner.imp fun h => List.cons_lt_cons_iff.2 (.inr ⟨rfl, h⟩))
    · intro is his js hjs
      obtain ⟨c, -, rfl⟩ := List.mem_map.1 his
      obtain ⟨d, -, rfl⟩ := List.mem_map.1 hjs
      exact List.cons_lt_cons_iff.2 (.inl hxy)

/-- Entries that are chosen along axes, at the given places. An axis is asked for the number of
nodes that the entries before give. -/
structure Chosen (nodes : Nat) (as : List Axis) (is : List Nat) (es : List Entry) : Prop where
  axes : es.map Prod.fst = as.map Axis.dimension
  places : is.length = as.length
  offered : ∀ (m : Nat) (a : Axis) (i : Nat) (e : Entry), as[m]? = some a → is[m]? = some i →
    es[m]? = some e → a.Offers (nodesOf nodes (es.take m)) i e.2

theorem chosen_nil {nodes : Nat} {is : List Nat} {es : List Entry} :
    Chosen nodes [] is es ↔ is = [] ∧ es = [] := by
  constructor
  · exact fun h => ⟨List.length_eq_zero_iff.1 h.places, List.map_eq_nil_iff.1 h.axes⟩
  · rintro ⟨rfl, rfl⟩
    exact ⟨rfl, rfl, by simp⟩

theorem chosen_cons {nodes i : Nat} {a : Axis} {as : List Axis} {is : List Nat} {e : Entry}
    {es : List Entry} (hdistinct : ((a :: as).map Axis.dimension).Nodup) :
    Chosen nodes (a :: as) (i :: is) (e :: es) ↔
      e.1 = a.dimension ∧ a.Offers nodes i e.2 ∧ Chosen (nodesOf nodes [e]) as is es := by
  have hnodes : e.1 = a.dimension → es.map Prod.fst = as.map Axis.dimension → ∀ m,
      nodesOf nodes ((e :: es).take (m + 1)) = nodesOf (nodesOf nodes [e]) (es.take m) := by
    intro he hes m
    refine nodesOf_cons nodes fun hmem => (List.nodup_cons.1 hdistinct).1 ?_
    rw [← he, ← hes]
    exact ((List.take_sublist m es).map Prod.fst).subset hmem
  constructor
  · intro h
    obtain ⟨he, hes⟩ := List.cons.inj h.axes
    refine ⟨he, h.offered 0 a i e rfl rfl rfl, hes, Nat.succ.inj h.places, ?_⟩
    intro m a' i' e' ha hi he'
    rw [← hnodes he hes m]
    exact h.offered (m + 1) a' i' e' ha hi he'
  · rintro ⟨he, hoffers, hes, hplaces, hoffered⟩
    refine ⟨congrArg₂ List.cons he hes, congrArg Nat.succ hplaces, ?_⟩
    intro m a' i' e' ha hi he'
    cases m with
    | zero =>
      cases ha
      cases hi
      cases he'
      exact hoffers
    | succ m =>
      rw [hnodes he hes m]
      exact hoffered m a' i' e' ha hi he'

/-- The loops go through all choices. -/
theorem mem_loops {nodes : Nat} {as : List Axis} (has : ∀ a ∈ as, a.Sound)
    (hdistinct : (as.map Axis.dimension).Nodup) {is : List Nat} {es : List Entry} :
    (is, es) ∈ loops nodes as ↔ Chosen nodes as is es := by
  induction as generalizing nodes is es with
  | nil => simp [loops, chosen_nil]
  | cons a as ih =>
    obtain ⟨ha, hrest⟩ := List.forall_mem_cons.1 has
    have hdistinct' := (List.nodup_cons.1 hdistinct).2
    constructor
    · intro h
      obtain ⟨⟨v, i⟩, hv, hmem⟩ := List.mem_flatMap.1 h
      obtain ⟨⟨js, fs⟩, hc, heq⟩ := List.mem_map.1 hmem
      cases heq
      refine (chosen_cons hdistinct).2 ⟨rfl, ?_, (ih hrest hdistinct').1 hc⟩
      exact ha.getElem?_valuesFor.1 (List.mem_zipIdx_iff_getElem?.1 hv)
    · intro h
      obtain ⟨i, js, rfl⟩ := List.exists_cons_of_length_eq_add_one h.places
      obtain ⟨⟨d, v⟩, fs, rfl⟩ : ∃ e fs, es = e :: fs := by
        refine List.exists_cons_of_length_eq_add_one (n := as.length) ?_
        simpa using congrArg List.length h.axes
      obtain ⟨rfl, hoffers, hchosen⟩ := (chosen_cons hdistinct).1 h
      refine List.mem_flatMap.2
        ⟨(v, i), ?_, List.mem_map.2 ⟨(js, fs), (ih hrest hdistinct').2 hchosen, rfl⟩⟩
      exact List.mem_zipIdx_iff_getElem?.2 (ha.getElem?_valuesFor.2 hoffers)

/-! ### The cells of a plan -/

/-- The cells along axes, each with the places its values stand at. -/
def Cell.placed (as : List Axis) (p : TrialParameters) : List (List Nat × Cell) :=
  ((loops p.nodeCount as).map Prod.fst).zip (Cell.along as p)

theorem Cell.length_places (as : List Axis) (p : TrialParameters) :
    ((loops p.nodeCount as).map Prod.fst).length = (along as p).length := by
  simpa using congrArg List.length (entries_loops as p)

theorem Cell.cells_placed (as : List Axis) (p : TrialParameters) :
    (placed as p).map Prod.snd = along as p :=
  List.map_snd_zip (length_places as p).ge

theorem Cell.places_placed (as : List Axis) (p : TrialParameters) :
    (placed as p).map Prod.fst = (loops p.nodeCount as).map Prod.fst :=
  List.map_fst_zip (length_places as p).le

/-- The loops go through the cells at their places. -/
theorem Cell.loops_eq (as : List Axis) (p : TrialParameters) :
    loops p.nodeCount as = (placed as p).map fun x => (x.1, x.2.entries) := by
  calc loops p.nodeCount as
      = ((loops p.nodeCount as).map Prod.fst).zip ((loops p.nodeCount as).map Prod.snd) :=
        List.zip_of_prod rfl rfl
    _ = ((loops p.nodeCount as).map Prod.fst).zip ((along as p).map entries) := by
        rw [entries_loops]
    _ = (placed as p).map fun x => (x.1, x.2.entries) := List.zip_map_right ..

namespace SweepPlan

/-- A cell of a plan: what is chosen along its axes at some places, and the parameters with these
choices, which are the defaults of the plan where no axis chooses. -/
structure Picks (p : SweepPlan) (is : List Nat) (es : List Entry) (q : TrialParameters) : Prop where
  chosen : Chosen p.defaults.nodeCount p.grid is es
  params : ∀ d, q.value d = (lastValue? d es).getD (p.defaults.value d)

variable {p : SweepPlan} {is : List Nat} {es : List Entry} {q : TrialParameters}

/-- The places and the cells of the grid. -/
def placed (p : SweepPlan) : List (List Nat × Cell) := Cell.placed p.grid p.defaults

theorem cells_placed (p : SweepPlan) : p.placed.map Prod.snd = p.cells :=
  Cell.cells_placed p.grid p.defaults

/-- No two cells are at the same places. -/
theorem nodup_places (p : SweepPlan) : (p.placed.map Prod.fst).Nodup := by
  rw [placed, Cell.places_placed]
  exact (sorted_loops _ _).imp ne_of_lt

/-- What is picked is what the grid expands to. -/
theorem picks_iff (haxes : ∀ a ∈ p.grid, a.Sound) (hdistinct : (p.grid.map Axis.dimension).Nodup) :
    p.Picks is es q ↔ (is, ⟨es, q⟩) ∈ p.placed := by
  have hfits : ∀ a ∈ p.grid, a.Fits := fun a ha => (haxes a ha).fits
  have hvalues : ∀ x ∈ p.placed, ∀ d,
      x.2.parameters.value d = (lastValue? d x.2.entries).getD (p.defaults.value d) := by
    intro x hx
    have hx : x.2 ∈ Cell.along p.grid p.defaults := List.of_mem_zip hx |>.2
    exact (TrialParameters.overlay_eq_ok_iff.1 (Cell.resolves_along hfits p.defaults _ hx)).2
  have hmem : Chosen p.defaults.nodeCount p.grid is es ↔
      ∃ x ∈ p.placed, (x.1, x.2.entries) = (is, es) := by
    rw [← mem_loops haxes hdistinct, Cell.loops_eq, List.mem_map]
    rfl
  constructor
  · rintro ⟨hchosen, hparams⟩
    obtain ⟨⟨js, fs, r⟩, hx, hsame⟩ := hmem.1 hchosen
    cases hsame
    have hr : r = q := TrialParameters.value_injective
      (funext fun d => (hvalues _ hx d).trans (hparams d).symm)
    exact hr ▸ hx
  · exact fun hx => ⟨hmem.2 ⟨_, hx, rfl⟩, hvalues _ hx⟩

/-- Every cell of the grid is picked at some places. -/
theorem exists_picks (haxes : ∀ a ∈ p.grid, a.Sound)
    (hdistinct : (p.grid.map Axis.dimension).Nodup) {c : Cell} (hc : c ∈ p.cells) :
    ∃ is, p.Picks is c.entries c.parameters := by
  rw [← cells_placed] at hc
  obtain ⟨⟨is, d⟩, hx, rfl⟩ := List.mem_map.1 hc
  exact ⟨is, (picks_iff haxes hdistinct).2 hx⟩

end SweepPlan

end FaultSweep
