import Mathlib
import FaultSweep.Plan.Soundness

/-!
# The cells of a grid

A grid is expanded axis by axis, each time over all the cells so far, and what a cell gives to the
parameters is found again for each axis. Where all values are of the right kind this is a loop for
each axis, the first outermost, with the parameters carried along.
-/

namespace FaultSweep

namespace TrialParameters

/-- The parameters with an entry laid over them. An entry of the wrong kind changes nothing. -/
def given (p : TrialParameters) (e : Entry) : TrialParameters := (p.set e).toOption.getD p

theorem set_of_suits (p : TrialParameters) {e : Entry} (h : Axis.suits e.1 e.2 = true) :
    p.set e = .ok (p.given e) := by
  obtain ⟨d, v⟩ := e
  cases v with
  | count n =>
    cases d with
    | payloadSize => simp [Axis.suits] at h
    | _ => rfl
  | label s =>
    cases d with
    | payloadSize => rfl
    | _ => simp [Axis.suits] at h

theorem overlay_append (p : TrialParameters) (es fs : List Entry) :
    p.overlay (es ++ fs) = (p.overlay es).bind (·.overlay fs) := by
  induction es generalizing p with
  | nil => rfl
  | cons e es ih =>
    simp only [List.cons_append, overlay]
    cases p.set e with
    | error x => rfl
    | ok q => exact ih q

theorem overlay_concat {p q : TrialParameters} {es : List Entry} {e : Entry}
    (hq : p.overlay es = .ok q) (he : Axis.suits e.1 e.2 = true) :
    p.overlay (es ++ [e]) = .ok (q.given e) := by
  rw [overlay_append, hq]
  simp only [Except.bind, overlay, q.set_of_suits he]

end TrialParameters

/-- What is chosen along axes, and the parameters it leads to. -/
structure Cell where
  entries : List Entry
  parameters : TrialParameters
  deriving DecidableEq

namespace Cell

def key (c : Cell) : ConfigurationKey := ⟨c.entries⟩

/-- The cells that axes lead to, with a loop for each axis. The number of nodes that an axis sees is
the one that the loops around it have set. -/
def along : List Axis → TrialParameters → List Cell
  | [], p => [⟨[], p⟩]
  | a :: as, p => (a.valuesFor p.nodeCount).flatMap fun v =>
    (along as (p.given (a.dimension, v))).map fun c => ⟨(a.dimension, v) :: c.entries, c.parameters⟩

/-- Every cell of a list, continued along one more axis. -/
def onward (a : Axis) (cs : List Cell) : List Cell :=
  cs.flatMap fun c => (a.valuesFor c.parameters.nodeCount).map fun v =>
    ⟨c.entries ++ [(a.dimension, v)], c.parameters.given (a.dimension, v)⟩

/-- The parameters of a cell are those that its entries give. -/
def Resolves (p : TrialParameters) (c : Cell) : Prop := p.overlay c.entries = .ok c.parameters

end Cell

/-- Whatever the number of nodes is, the values are of the kind of the dimension. -/
def Axis.Fits (a : Axis) : Prop := ∀ n, ∀ v ∈ a.valuesFor n, Axis.suits a.dimension v = true

namespace Cell

variable {p : TrialParameters} {cs : List Cell}

theorem resolves_onward {a : Axis} (ha : a.Fits) (hcs : ∀ c ∈ cs, c.Resolves p) :
    ∀ c ∈ onward a cs, c.Resolves p := by
  intro c hc
  obtain ⟨b, hb, hc⟩ := List.mem_flatMap.1 hc
  obtain ⟨v, hv, rfl⟩ := List.mem_map.1 hc
  exact TrialParameters.overlay_concat (hcs b hb) (ha _ v hv)

theorem extendAll_eq {a : Axis} (hcs : ∀ c ∈ cs, c.Resolves p) :
    SweepPlan.extendAll p a (cs.map entries) = .ok ((onward a cs).map entries) := by
  induction cs with
  | nil => rfl
  | cons c cs ih =>
    obtain ⟨hc, hrest⟩ := List.forall_mem_cons.1 hcs
    have hfirst : SweepPlan.extend p a c.entries =
        .ok ((a.valuesFor c.parameters.nodeCount).map
          fun v => c.entries ++ [(a.dimension, v)]) := by
      rw [SweepPlan.extend, hc]
    simp only [List.map_cons, SweepPlan.extendAll, hfirst, ih hrest, onward, List.flatMap_cons,
      List.map_append, List.map_map, Function.comp_def]

/-- The entries of the cells that continue a list of cells along axes. -/
def entriesAlong (as : List Axis) (cs : List Cell) : List (List Entry) :=
  cs.flatMap fun c => (along as c.parameters).map fun d => c.entries ++ d.entries

/-- To continue along an axis and then along the others is to continue along all. -/
theorem entriesAlong_onward (a : Axis) (as : List Axis) (cs : List Cell) :
    entriesAlong as (onward a cs) = entriesAlong (a :: as) cs := by
  simp only [entriesAlong, onward, along, List.flatMap_assoc, List.flatMap_map, List.map_flatMap,
    List.map_map, Function.comp_def, List.append_assoc, List.singleton_append]

theorem expand_eq {as : List Axis} (has : ∀ a ∈ as, a.Fits) (hcs : ∀ c ∈ cs, c.Resolves p) :
    SweepPlan.expand p as (cs.map entries) = .ok (entriesAlong as cs) := by
  induction as generalizing cs with
  | nil => simp [SweepPlan.expand, entriesAlong, along, List.map_eq_flatMap]
  | cons a as ih =>
    obtain ⟨ha, hrest⟩ := List.forall_mem_cons.1 has
    rw [SweepPlan.expand, extendAll_eq hcs, ← entriesAlong_onward]
    exact ih hrest (resolves_onward ha hcs)

theorem resolves_root (p : TrialParameters) : ∀ c ∈ [Cell.mk [] p], c.Resolves p := by
  intro c hc
  rw [List.mem_singleton.1 hc]
  rfl

theorem resolves_along {as : List Axis} (has : ∀ a ∈ as, a.Fits) (p : TrialParameters) :
    ∀ c ∈ along as p, c.Resolves p := by
  induction as generalizing p with
  | nil => exact resolves_root p
  | cons a as ih =>
    obtain ⟨ha, hrest⟩ := List.forall_mem_cons.1 has
    intro c hc
    obtain ⟨v, hv, hc⟩ := List.mem_flatMap.1 hc
    obtain ⟨d, hd, rfl⟩ := List.mem_map.1 hc
    rw [Resolves, TrialParameters.overlay, p.set_of_suits (ha _ v hv)]
    exact ih hrest _ d hd

end Cell

/-! ### Cells that are listed once -/

theorem Axis.stride_pos (a : Axis) : 0 < a.stride := lt_max_of_lt_right Nat.one_pos

/-- An axis gives a value twice only if it lists it twice. -/
theorem Axis.nodup_valuesFor {a : Axis} (h : a.values.Nodup) (n : Nat) :
    (a.valuesFor n).Nodup := by
  have hcounts : (List.range' a.first (a.length n) a.stride).Nodup :=
    List.nodup_range' a.stride a.stride_pos
  unfold valuesFor
  split
  · exact hcounts.map fun j k => DimensionValue.count.inj
  · exact h

theorem Cell.nodup_along {as : List Axis} (h : ∀ a ∈ as, a.values.Nodup) (p : TrialParameters) :
    ((along as p).map entries).Nodup := by
  induction as generalizing p with
  | nil => exact List.nodup_singleton _
  | cons a as ih =>
    obtain ⟨ha, hrest⟩ := List.forall_mem_cons.1 h
    simp only [along, List.map_flatMap, List.map_map, Function.comp_def]
    refine List.nodup_flatMap.2 ⟨fun v _ => ?_, (a.nodup_valuesFor ha _).imp ?_⟩
    · have hinner := (ih hrest (p.given (a.dimension, v))).map
        (List.cons_injective (a := (a.dimension, v)))
      rwa [List.map_map] at hinner
    · -- the cells of two values differ in their first entries
      intro u v huv es hes hes'
      obtain ⟨c, -, rfl⟩ := List.mem_map.1 hes
      obtain ⟨d, -, heq⟩ := List.mem_map.1 hes'
      obtain ⟨hentry, -⟩ := List.cons.inj heq
      exact huv (congrArg Prod.snd hentry).symm

namespace SweepPlan

def cells (p : SweepPlan) : List Cell := Cell.along p.grid p.defaults

variable {p : SweepPlan}

/-- The keys of a plan are those of its cells. -/
theorem keys_eq (h : ∀ a ∈ p.grid, a.Fits) : p.keys = .ok (p.cells.map Cell.key) := by
  have hcells : Cell.entriesAlong p.grid [⟨[], p.defaults⟩] = p.cells.map Cell.entries := by
    simp [Cell.entriesAlong, cells]
  have hexpand : expand p.defaults p.grid [[]] = .ok (p.cells.map Cell.entries) :=
    hcells ▸ Cell.expand_eq h (Cell.resolves_root p.defaults)
  rw [keys, hexpand]
  simp only [List.map_map]
  rfl

/-- The keys of a plan are all different if no axis lists a value twice. -/
theorem nodup_keys (hvalues : ∀ a ∈ p.grid, a.values.Nodup) :
    (p.cells.map Cell.key).Nodup := by
  have hkey : Function.Injective ConfigurationKey.mk := fun es fs => ConfigurationKey.mk.inj
  have hentries := (Cell.nodup_along hvalues p.defaults).map hkey
  rwa [List.map_map] at hentries

theorem parametersFor_eq (h : ∀ a ∈ p.grid, a.Fits) :
    ∀ c ∈ p.cells, p.parametersFor c.key = .ok c.parameters :=
  Cell.resolves_along h p.defaults

end SweepPlan

end FaultSweep
