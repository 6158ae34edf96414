import FaultSweep.Proofs.Plan.Words

/-!
# The loops of a grid

Which cells a grid has, and in which order, is said without any loop: they are the choices along its
axes, and they come in the order of the places they are chosen at. Together these determine the list
of keys.
-/

namespace FaultSweep

theorem axes_loops (nodes : Nat) (as : List Axis) :
    ∀ c ∈ loops nodes as, c.2.map Prod.fst = as.map Axis.dimension := by
  induction as generalizing nodes with
  | nil => simp [loops]
  | cons a as ih =>
    intro c hc
    obtain ⟨x, -, hc⟩ := List.mem_flatMap.1 hc
    obtain ⟨d, hd, rfl⟩ := List.mem_map.1 hc
    exact congrArg (List.cons a.dimension) (ih _ d hd)

/-- To loop over axes and then over more of them is to do so inside of each choice along the
first. -/
theorem loops_append (nodes : Nat) {as : List Axis} (bs : List Axis)
    (hdistinct : (as.map Axis.dimension).Nodup) :
    loops nodes (as ++ bs) = (loops nodes as).flatMap fun c =>
      (loops (nodesOf nodes c.2) bs).map fun d => (c.1 ++ d.1, c.2 ++ d.2) := by
  induction as generalizing nodes with
  | nil => simp [loops, nodesOf]
  | cons a as ih =>
    obtain ⟨ha, hdistinct'⟩ := List.nodup_cons.1 hdistinct
    simp only [loops, List.cons_append, ih _ hdistinct', List.flatMap_assoc, List.flatMap_map,
      List.map_flatMap, List.map_map, Function.comp_def]
    refine List.flatMap_congr fun x _ => List.flatMap_congr fun c hc => ?_
    have hnew : (a.dimension, x.1).1 ∉ c.2.map Prod.fst := by
      rwa [axes_loops _ _ c hc]
    rw [nodesOf_cons nodes hnew]

/-! ### Words -/

theorem Axis.Offers.isWord {a : Axis} {nodes j : Nat} {v : DimensionValue}
    (h : a.Offers nodes j v) (ha : a.Sound) (hwords : a.Words) (hnodes : nodes < countBound) :
    v.IsWord := by
  cases h with
  | listed _ hj => exact hwords.values _ (List.mem_of_getElem? hj)
  | counted hr hk =>
    rintro n ⟨⟩
    cases hstop : a.stop with
    | some m => exact (hk.stop m hstop).trans (hwords.stop m hstop)
    | none =>
      obtain ⟨m, hm⟩ : ∃ m, a.stopBelowNodes = some m :=
        Option.ne_none_iff_exists'.1 fun hnone => (ha.one_end hr).2 hnone hstop
      exact ((hk.below m hm).trans_le (Nat.sub_le nodes m)).trans hnodes

theorem nodesOf_lt {nodes : Nat} {d : Dimension} {v : DimensionValue} (hnodes : nodes < countBound)
    (hv : v.IsWord) : nodesOf nodes [(d, v)] < countBound := by
  cases v with
  | count n =>
    have hn := hv n rfl
    cases d <;> assumption
  | label s => cases d <;> exact hnodes

/-- Loops over words go through words. -/
theorem isWord_loops {nodes : Nat} {as : List Axis} (has : ∀ a ∈ as, a.Sound)
    (hwords : ∀ a ∈ as, a.Words) (hnodes : nodes < countBound) :
    ∀ c ∈ loops nodes as, ∀ e ∈ c.2, e.2.IsWord := by
  induction as generalizing nodes with
  | nil => simp [loops]
  | cons a as ih =>
    obtain ⟨ha, hrest⟩ := List.forall_mem_cons.1 has
    obtain ⟨hword, hwords⟩ := List.forall_mem_cons.1 hwords
    intro c hc
    obtain ⟨⟨v, i⟩, hv, hc⟩ := List.mem_flatMap.1 hc
    obtain ⟨d, hd, rfl⟩ := List.mem_map.1 hc
    have hoffers := ha.getElem?_valuesFor.1 (List.mem_zipIdx_iff_getElem?.1 hv)
    have hv := hoffers.isWord ha hword hnodes
    exact List.forall_mem_cons.2 ⟨hv, ih hrest hwords (nodesOf_lt hnodes hv) d hd⟩

/-! ### The keys of a plan -/

namespace SweepPlan

variable {p : SweepPlan}

theorem keys_eq_loops (h : ∀ a ∈ p.grid, a.Fits) :
    p.keys = .ok ((loops p.defaults.nodeCount p.grid).map fun c => ⟨c.2⟩) := by
  have hcells := congrArg (List.map ConfigurationKey.mk) (entries_loops p.grid p.defaults)
  rw [List.map_map, List.map_map] at hcells
  rw [keys_eq h]
  exact congrArg Except.ok hcells.symm

/-- What a cell along the first axes goes on to along the others. -/
def onwardKeys (p : SweepPlan) (bs : List Axis) (k : ConfigurationKey) : List ConfigurationKey :=
  (loops (nodesOf p.defaults.nodeCount k.entries) bs).map fun d => ⟨k.entries ++ d.2⟩

theorem keys_eq_flatMap (h : ∀ a ∈ p.grid, a.Fits) (hdistinct : (p.grid.map Axis.dimension).Nodup)
    {as bs : List Axis} (hgrid : p.grid = as ++ bs) : p.keys =
      .ok (((loops p.defaults.nodeCount as).map fun c => ⟨c.2⟩).flatMap (p.onwardKeys bs)) := by
  rw [hgrid, List.map_append] at hdistinct
  rw [keys_eq_loops h, hgrid, loops_append _ bs hdistinct.of_append_left]
  simp only [onwardKeys, List.map_flatMap, List.flatMap_map, List.map_map, Function.comp_def]

theorem onwardKeys_eq_nil {a : Axis} (ha : a.Sound) (bs : List Axis) {k : ConfigurationKey}
    (h : ∀ j v, ¬a.Offers (nodesOf p.defaults.nodeCount k.entries) j v) :
    p.onwardKeys (a :: bs) k = [] := by
  have hnone : a.valuesFor (nodesOf p.defaults.nodeCount k.entries) = [] := by
    refine List.eq_nil_iff_forall_not_mem.2 fun v hv => ?_
    obtain ⟨j, hj⟩ := List.mem_iff_getElem?.1 hv
    exact h j v (ha.getElem?_valuesFor.1 hj)
  rw [onwardKeys, loops, hnone]
  rfl

/-- The keys of a plan that is accepted are those of nested loops, with the first axis outermost:
they come in the order of the places on the axes, and they are all lists of entries that are chosen
along the axes, every count a word of 32 bits. Between two axes, each cell along the first of them
goes on by itself, and one for which the next axis offers nothing does not go on. -/
theorem keys_are_nested_loops {text dir : String} (h : ofText text dir = .ok p) :
    (∃ cs : List (List Nat × List Entry), p.keys = .ok (cs.map fun c => ⟨c.2⟩) ∧
      (cs.map Prod.fst).Pairwise (· < ·) ∧
      (∀ is es, (is, es) ∈ cs ↔ Chosen p.defaults.nodeCount p.grid is es) ∧
      ∀ c ∈ cs, ∀ e ∈ c.2, e.2.IsWord) ∧
    ∀ as a bs, p.grid = as ++ a :: bs → ∃ outer inner,
      keys { p with grid := as } = .ok outer ∧ p.keys = .ok (outer.flatMap inner) ∧
      ∀ k ∈ outer, (∀ k' ∈ inner k, k.entries <+: k'.entries) ∧
        ((∀ j v, ¬a.Offers (nodesOf p.defaults.nodeCount k.entries) j v) → inner k = []) := by
  have hsound := sound_of_ofText h
  have hwords := words_of_ofText h
  have hfits : ∀ a ∈ p.grid, a.Fits := fun a ha => (hsound.axes a ha).fits
  refine ⟨⟨_, keys_eq_loops hfits, sorted_loops _ _,
    fun is es => mem_loops hsound.axes hsound.distinct,
    isWord_loops hsound.axes hwords.axes hwords.nodes⟩, ?_⟩
  intro as a bs hgrid
  have hsub : ∀ b ∈ as, b ∈ p.grid := fun b hb => hgrid ▸ List.mem_append_left _ hb
  have ha : a.Sound := hsound.axes a (hgrid ▸ by simp)
  refine ⟨_, p.onwardKeys (a :: bs), keys_eq_loops fun b hb => hfits b (hsub b hb),
    keys_eq_flatMap hfits hsound.distinct hgrid, fun k _ => ⟨?_, onwardKeys_eq_nil ha bs⟩⟩
  intro k' hk'
  obtain ⟨d, -, rfl⟩ := List.mem_map.1 hk'
  exact List.prefix_append _ _

/-- A plan over three numbers of nodes, with every other number of faults from one on. The second
number of nodes leaves no room for a fault. -/
def everyOtherFault : String :=
  "family: reliability\ngrid: [\x7bdimension: node_count, values: [5, 2, 4]\x7d, " ++
    "\x7bdimension: fault_count, start: 1, end_below_nodes: 1, step: 2\x7d]\n" ++
    "payloads: \x7b25MB: \x7bpath: f, file_cid: F, meta_cid: M\x7d\x7d\n"

theorem every_other_fault_in_nested_loops :
    ∃ p, ∃ cs : List (List Nat × List Entry), ofText everyOtherFault "/srv" = .ok p ∧
      p.keys = .ok (cs.map fun c => ⟨c.2⟩) ∧
      cs.map Prod.snd = [[(.nodeCount, .count 5), (.faultCount, .count 1)],
        [(.nodeCount, .count 5), (.faultCount, .count 3)],
        [(.nodeCount, .count 4), (.faultCount, .count 1)]] ∧
      (cs.map Prod.fst).Pairwise (· < ·) ∧
      ∀ is es, (is, es) ∈ cs ↔ Chosen p.defaults.nodeCount p.grid is es := by
  have heval : (ofText everyOtherFault "/srv").toOption.bind (fun p =>
      p.keys.toOption.map fun ks => ks.map ConfigurationKey.entries) = some
      [[(.nodeCount, .count 5), (.faultCount, .count 1)],
        [(.nodeCount, .count 5), (.faultCount, .count 3)],
        [(.nodeCount, .count 4), (.faultCount, .count 1)]] := by
    decide +kernel
  obtain ⟨p, hp, hkeys⟩ := Option.bind_eq_some_iff.1 heval
  obtain ⟨ks, hks, hentries⟩ := Option.map_eq_some_iff.1 hkeys
  obtain ⟨⟨cs, hall, hsorted, hchosen, -⟩, -⟩ := keys_are_nested_loops (ok_of_toOption hp)
  cases (ok_of_toOption hks).symm.trans hall
  rw [List.map_map] at hentries
  exact ⟨p, cs, ok_of_toOption hp, hall, hentries, hsorted, hchosen⟩

end SweepPlan

end FaultSweep
