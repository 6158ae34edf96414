import Mathlib.Data.List.Basic
import FaultSweep.Proofs.Faults
import FaultSweep.Proofs.Trial.Exchanges

/-!
# Injecting faults

The nodes for a number of faults are in order, and one fault more adds one node at the end. The
containers of one node after the other are stopped, by one call for each node. Whoever answers, no
call is made after the first that fails, and its error is the error that is given.
-/

namespace FaultSweep

/-! ### The order of the targets -/

theorem sorted_faultTargets (count : Nat) : (faultTargets count).Pairwise (· < ·) := by
  cases count with
  | zero => exact .nil
  | succ n =>
    rw [faultTargets_succ, List.pairwise_cons]
    refine ⟨fun i hi => ?_, List.pairwise_lt_range'⟩
    rw [List.mem_range'_1] at hi
    omega

theorem zero_mem_faultTargets {count : Nat} : 0 ∈ faultTargets count ↔ 0 < count := by
  rw [mem_faultTargets]
  omega

/-- One fault more disables the same nodes and then one more. -/
theorem faultTargets_prefix (count : Nat) : faultTargets count <+: faultTargets (count + 1) := by
  cases count with
  | zero => exact List.nil_prefix
  | succ n =>
    rw [faultTargets_succ, faultTargets_succ, List.range'_1_concat]
    exact (List.prefix_cons_inj 0).2 (List.prefix_append _ _)

/-! ### The calls that are made -/

/-- The exchange over the containers of one node. -/
def NodeNaming.stopping (n : NodeNaming) (mode : FaultMode) (i : Nat)
    (a : Except CommandError Unit) : Exchange :=
  ⟨.stopContainers ((n.stems mode).map (· ++ Decimal.text i)), a⟩

/-- The exchanges over some nodes, and what comes of them. The first failure is the last. -/
inductive Stopping (stopping : Nat → Except CommandError Unit → Exchange) :
    List Nat → Except CommandError Unit → List Exchange → Prop
  | done : Stopping stopping [] (.ok ()) []
  | fails (i : Nat) (is : List Nat) (e : CommandError) :
      Stopping stopping (i :: is) (.error e) [stopping i (.error e)]
  | next (i : Nat) {is : List Nat} {r : Except CommandError Unit} {fs : List Exchange}
      (h : Stopping stopping is r fs) : Stopping stopping (i :: is) r (stopping i (.ok ()) :: fs)

namespace Stopping

variable {stopping : Nat → Except CommandError Unit → Exchange} {is : List Nat}
  {fs : List Exchange} {e : CommandError}

theorem of_ok (h : Stopping stopping is (.ok ()) fs) : fs = is.map (stopping · (.ok ())) := by
  generalize hr : Except.ok () = r at h
  induction h with
  | done => rfl
  | fails => cases hr
  | next i _ ih =>
    cases hr
    rw [ih rfl, List.map_cons]

theorem of_error (h : Stopping stopping is (.error e) fs) : ∃ before i after,
    is = before ++ i :: after ∧
      fs = before.map (stopping · (.ok ())) ++ [stopping i (.error e)] := by
  generalize hr : Except.error e = r at h
  induction h with
  | done => cases hr
  | fails i is =>
    cases hr
    exact ⟨[], i, is, rfl, rfl⟩
  | next i _ ih =>
    obtain ⟨before, j, after, rfl, rfl⟩ := ih hr
    exact ⟨i :: before, j, after, rfl, rfl⟩

end Stopping

namespace Environment

variable {W : Type} (env : Environment W) (naming : NodeNaming) (mode : FaultMode)

/-- With the exchanges noted, the same containers are stopped. -/
theorem stopNodes_noted (is : List Nat) (w : W) (old : List Exchange) :
    ∃ fs, (Noted.environment env).stopNodes naming mode is ⟨w, old⟩ =
        ((env.stopNodes naming mode is w).1, ⟨(env.stopNodes naming mode is w).2, old ++ fs⟩) ∧
      Stopping (naming.stopping mode) is (env.stopNodes naming mode is w).1 fs := by
  induction is generalizing w old with
  | nil => exact ⟨[], by simp [stopNodes], .done⟩
  | cons i is ih =>
    have hask : (Noted.environment env).stopContainers (naming.containersFor i mode) ⟨w, old⟩ =
        ((env.stopContainers (naming.containersFor i mode) w).1,
          ⟨(env.stopContainers (naming.containersFor i mode) w).2, old ++ [naming.stopping mode i
            (env.stopContainers (naming.containersFor i mode) w).1]⟩) := by
      rw [NodeNaming.stopping, ← NodeNaming.containersFor_eq]
      rfl
    rw [stopNodes, stopNodes, hask]
    rcases env.stopContainers (naming.containersFor i mode) w with ⟨e | u, w₁⟩
    · exact ⟨_, rfl, .fails i is e⟩
    · obtain ⟨fs, hrest, hfs⟩ := ih w₁ (old ++ [naming.stopping mode i (.ok ())])
      refine ⟨naming.stopping mode i (.ok ()) :: fs, ?_, .next i hfs⟩
      dsimp only
      rw [hrest, List.append_assoc]
      rfl

theorem injectFaults_eq (count : Nat) (w : W) : env.injectFaults naming count mode w =
    ((env.stopNodes naming mode (faultTargets count) w).1.map fun _ => faultTargets count,
      (env.stopNodes naming mode (faultTargets count) w).2) := by
  unfold injectFaults
  rcases env.stopNodes naming mode (faultTargets count) w with ⟨_ | _, w'⟩ <;> rfl

/-- The targets of a number of faults are that many nodes in order, node 0 first and node 1 left
out, and those of one fault more go on from them. Injecting the faults makes one call for each
target in this order, with the names of its containers. Either none fails, and the targets are
given, or one fails and is the last, and its error is given. Noting the calls makes no difference.
-/
theorem faults_injected_in_order (count : Nat) (w : W) :
    (faultTargets count).Pairwise (· < ·) ∧
    (faultTargets count).length = count ∧
    1 ∉ faultTargets count ∧
    (0 ∈ faultTargets count ↔ 0 < count) ∧
    (∀ i ∈ faultTargets count, i ≤ count) ∧
    faultTargets count <+: faultTargets (count + 1) ∧
    ∃ fs, (Noted.environment env).injectFaults naming count mode ⟨w, []⟩ =
        ((env.injectFaults naming count mode w).1,
          ⟨(env.injectFaults naming count mode w).2, fs⟩) ∧
      ((env.injectFaults naming count mode w).1 = .ok (faultTargets count) ∧
          fs = (faultTargets count).map (naming.stopping mode · (.ok ())) ∨
        ∃ before i after e, faultTargets count = before ++ i :: after ∧
          (env.injectFaults naming count mode w).1 = .error e ∧
          fs = before.map (naming.stopping mode · (.ok ())) ++
            [naming.stopping mode i (.error e)]) := by
  refine ⟨sorted_faultTargets count, length_faultTargets count,
    fun h => (mem_faultTargets.1 h).1 rfl, zero_mem_faultTargets,
    fun i hi => (mem_faultTargets.1 hi).2.1, faultTargets_prefix count, ?_⟩
  obtain ⟨fs, hnoted, hfs⟩ := env.stopNodes_noted naming mode (faultTargets count) w []
  refine ⟨fs, ?_, ?_⟩
  · rw [injectFaults_eq, injectFaults_eq, hnoted, List.nil_append]
  · rw [injectFaults_eq]
    rcases hreply : env.stopNodes naming mode (faultTargets count) w with ⟨e | u, w'⟩
    · rw [hreply] at hfs
      obtain ⟨before, i, after, htargets, hcalls⟩ := hfs.of_error
      exact .inr ⟨before, i, after, e, htargets, rfl, hcalls⟩
    · rw [hreply] at hfs
      exact .inl ⟨rfl, hfs.of_ok⟩

/-- An environment that counts the calls to stop containers and cannot answer the third. -/
def brittle : Environment Nat where
  provision _ calls := (.ok (), calls)
  teardown := id
  stopContainers _ calls := (if calls = 2 then .error .emptyArgv else .ok (), calls + 1)

/-- Of five nodes that are to be disabled, the third cannot be, and the last two are left alone. -/
theorem third_node_withstands : 3 ∈ faultTargets 5 ∧ 3 ≤ 5 ∧
    ∃ fs, (Noted.environment brittle).injectFaults .standard 5 .communityAware ⟨0, []⟩ =
        (.error .emptyArgv, ⟨3, fs⟩) ∧
      fs.map Exchange.call = [.stopContainers ["storage0", "overlay0", "cluster0"],
        .stopContainers ["storage2", "overlay2", "cluster2"],
        .stopContainers ["storage3", "overlay3", "cluster3"]] := by
  have hthree : 3 ∈ faultTargets 5 := by decide
  have hcalls : ((Noted.environment brittle).injectFaults .standard 5 .communityAware
      ⟨0, []⟩).2.exchanges.map Exchange.call =
        [.stopContainers ["storage0", "overlay0", "cluster0"],
        .stopContainers ["storage2", "overlay2", "cluster2"],
        .stopContainers ["storage3", "overlay3", "cluster3"]] := by
    decide +kernel
  obtain ⟨-, -, -, -, hbound, -, fs, hnoted, -⟩ :=
    brittle.faults_injected_in_order .standard .communityAware 5 0
  refine ⟨hthree, hbound 3 hthree, fs, hnoted, ?_⟩
  rwa [hnoted] at hcalls

end Environment

end FaultSweep
