import FaultSweep.Proofs.Plan.Acceptance
import FaultSweep.Proofs.Trial.Stops

/-!
# The nodes that outlive the faults

A plan that is accepted leaves more nodes than it disables in every cell of its grid, and so each
trial that injects its faults leaves node 1 and as many others as it counts on.
-/

namespace FaultSweep

/-- The nodes `targets` are disabled by stopping the containers `names`, which are stems followed by
the number of the node, and node 1 is left with as many others as are expected. If the names of
containers can be told apart, no container is stopped twice, and none of a node that is left. -/
structure Spares (naming : NodeNaming) (mode : FaultMode) (q : TrialParameters)
    (targets : List Nat) (names : List String) : Prop where
  stopped : names = targets.flatMap fun i => (naming.stems mode).map (· ++ Decimal.text i)
  distinct : targets.Nodup
  length : targets.length = q.faultCount
  nodes : ∀ i ∈ targets, i < q.nodeCount ∧ i ≠ 1
  untouched : (Finset.range q.nodeCount \ targets.toFinset).card = q.survivors
  survivors : q.survivors = q.nodeCount - q.faultCount ∧ 1 ≤ q.survivors
  once : naming.Apart → names.Nodup
  left : naming.Apart → ∀ i ∉ targets, ∀ stem ∈ [naming.storage, naming.overlay, naming.cluster],
    stem ++ Decimal.text i ∉ names

theorem spares_faultTargets {q : TrialParameters} (hnodes : 2 ≤ q.nodeCount)
    (hfaults : q.faultCount ≤ maxFaults q.nodeCount) (naming : NodeNaming) (mode : FaultMode) :
    Spares naming mode q (faultTargets q.faultCount)
      (naming.containersOf mode (faultTargets q.faultCount)) where
  stopped := by simp only [NodeNaming.containersOf, NodeNaming.containersFor_eq]
  distinct := nodup_faultTargets _
  length := length_faultTargets _
  nodes := by
    intro i hi
    obtain ⟨hone, hle, -⟩ := mem_faultTargets.1 hi
    rw [maxFaults] at hfaults
    exact ⟨by omega, hone⟩
  untouched := card_untouched hfaults
  survivors := by
    rw [maxFaults] at hfaults
    rw [TrialParameters.survivors]
    exact ⟨rfl, by omega⟩
  once h := h.nodup_containersOf mode (nodup_faultTargets _)
  left h i hi stem hstem := by
    have hname : stem ++ Decimal.text i ∈ naming.containersFor i .communityAware := by
      rw [NodeNaming.containersFor_eq]
      exact List.mem_map_of_mem hstem
    exact h.not_mem_containersOf hi _ hname

/-- A cast that agrees to everything at once. -/
def Cast.obliging : Cast Unit where
  provision _ s := (⟨0, .ok ()⟩, s)
  stopContainers _ s := (⟨0, .ok ()⟩, s)
  upload _ _ s := (⟨0, .ok ()⟩, s)
  pinStatus _ s := (⟨0, .ok true⟩, s)
  downloadCount _ _ _ _ s := (⟨0, .ok (.count 0)⟩, s)
  triggerRepair _ s := (⟨0, .ok ()⟩, s)
  repairDone s := (⟨0, .ok true⟩, s)
  fetchMetrics s := (⟨0, .ok .null⟩, s)
  countActivePeers s := (⟨0, .ok 0⟩, s)

namespace SweepPlan

variable {text dir : String} {p : SweepPlan}

/-- Of every cell of a plan that is accepted: a trial of any family that injects its faults, whoever
answers its calls, stops the containers of as many nodes as there are faults. These are different
nodes of the topology, and node 1 is not one of them. -/
theorem trial_spares_first_node (h : ofText text dir = .ok p) (f : TrialFamily) {τ : Type}
    (cast : Cast τ) (fuel : Nat) (payload : PayloadSpec) (w : Stage τ) :
    ∃ ks, p.keys = .ok ks ∧ ∀ k ∈ ks, ∃ q, p.parametersFor k = .ok q ∧
      ∀ l, Trial.perform fuel (Stage.bench cast) { p.settings with family := f } q payload w = l →
        l.phase.pastFaults = true → ∃ targets names, l.world.stopped = w.stopped ++ names ∧
          Spares p.topology.naming f.faultMode q targets names := by
  have hsound := sound_of_ofText h
  have hfits : ∀ a ∈ p.grid, a.Fits := fun a ha => (hsound.axes a ha).fits
  refine ⟨_, keys_eq hfits, ?_⟩
  intro k hk
  obtain ⟨c, hc, rfl⟩ := List.mem_map.1 hk
  obtain ⟨is, hpick⟩ := exists_picks hsound.axes hsound.distinct hc
  refine ⟨c.parameters, parametersFor_eq hfits c hc, ?_⟩
  rintro l rfl hphase
  exact ⟨_, _, Trial.stopped_perform hphase,
    spares_faultTargets (hsound.nodes hpick) (hsound.faults hpick) _ _⟩

/-- A trial of a cell that is accepted, with a cast that agrees to everything at once. -/
def obliged (p : SweepPlan) (q : TrialParameters) : Leg (Stage Unit) (TrialStatus × Json) :=
  Trial.perform 1 (Stage.bench .obliging) { p.settings with family := .reliability } q
    ⟨"f", "F", "M", none⟩ (Stage.start ())

theorem two_cells_spare_first_node :
    ∃ p ks, ofText twoCells "/srv" = .ok p ∧ p.keys = .ok ks ∧ ks.length = 2 ∧
      ∀ k ∈ ks, ∃ q targets names, p.parametersFor k = .ok q ∧
        (p.obliged q).phase = .completed ∧ (p.obliged q).world.stopped = names ∧
        Spares p.topology.naming .uniform q targets names := by
  have heval : (ofText twoCells "/srv").toOption.map (fun p =>
      p.keys.toOption.map fun ks => (ks.length, ks.all fun k =>
        (p.parametersFor k).toOption.any fun q => (p.obliged q).phase = .completed)) =
      some (some (2, true)) := by
    decide +kernel
  obtain ⟨p, hp, hkeys⟩ := Option.map_eq_some_iff.1 heval
  have hplan := ok_of_toOption hp
  obtain ⟨ks, hks, hspares⟩ := trial_spares_first_node hplan .reliability .obliging 1
    ⟨"f", "F", "M", none⟩ (Stage.start ())
  rw [hks] at hkeys
  obtain ⟨hlength, hphases⟩ := Prod.mk.inj (Option.some.inj hkeys)
  refine ⟨p, ks, hplan, hks, hlength, ?_⟩
  intro k hk
  obtain ⟨q, hq, htrial⟩ := hspares k hk
  have hphase : (p.obliged q).phase = .completed := by
    have hcell := List.all_eq_true.1 hphases k hk
    rw [hq] at hcell
    simpa [Except.toOption] using hcell
  have hpast : (p.obliged q).phase.pastFaults = true := by
    rw [hphase]
    rfl
  obtain ⟨targets, names, hnames, hspared⟩ := htrial _ rfl hpast
  exact ⟨q, targets, names, hq, hphase, hnames, hspared⟩

end SweepPlan

end FaultSweep
