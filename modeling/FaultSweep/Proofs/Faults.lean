import FaultSweep.Faults
import FaultSweep.Proofs.Text.Decimal

/-!
# The nodes that are disabled

The targets of a number of faults are that many nodes, none of them node 1 and none above the
number. Their containers are told apart by name, if no stem of a name ends where the index could
begin.
-/

namespace FaultSweep

theorem mem_faultTargets {i count : Nat} :
    i ∈ faultTargets count ↔ i ≠ 1 ∧ i ≤ count ∧ 0 < count := by
  cases count with
  | zero => simp
  | succ n =>
    rw [faultTargets_succ, List.mem_cons, List.mem_range'_1]
    omega

theorem nodup_faultTargets (count : Nat) : (faultTargets count).Nodup := by
  cases count with
  | zero => simp
  | succ n =>
    rw [faultTargets_succ, List.nodup_cons, List.mem_range'_1]
    exact ⟨by omega, List.nodup_range'⟩

/-- As many nodes are left as there are more nodes than faults, if node 1 is to be left. -/
theorem card_untouched {nodes count : Nat} (h : count ≤ maxFaults nodes) :
    (Finset.range nodes \ (faultTargets count).toFinset).card = nodes - count := by
  have hsubset : (faultTargets count).toFinset ⊆ Finset.range nodes := by
    intro i hi
    obtain ⟨-, hle, hpos⟩ := mem_faultTargets.1 (List.mem_toFinset.1 hi)
    rw [maxFaults] at h
    exact Finset.mem_range.2 (by omega)
  rw [Finset.card_sdiff_of_subset hsubset, Finset.card_range,
    List.toFinset_card_of_nodup (nodup_faultTargets count), length_faultTargets]

/-- The index at the end of a name can be taken off. -/
theorem rdropWhile_digits {cs ds : List Char} (hds : ∀ d ∈ ds, d.isDigit = true)
    (hcs : ∀ c, cs.getLast? = some c → c.isDigit = false) :
    (cs ++ ds).rdropWhile Char.isDigit = cs := by
  induction ds using List.reverseRecOn with
  | nil =>
    rw [List.append_nil, List.rdropWhile_eq_self_iff]
    intro hne
    simp [hcs _ (List.getLast?_eq_getLast_of_ne_nil hne)]
  | append_singleton ds d ih =>
    rw [← List.append_assoc, List.rdropWhile_concat_pos _ _ _ (hds d (by simp))]
    exact ih fun c hc => hds c (by simp [hc])

namespace NodeNaming

/-- A stem that does not end in a digit. -/
def Blunt (stem : String) : Prop := ∀ c, stem.toList.getLast? = some c → c.isDigit = false

theorem named_inj {stem stem' : String} (h : Blunt stem) (h' : Blunt stem') {i j : Nat}
    (hname : stem ++ Decimal.text i = stem' ++ Decimal.text j) : stem = stem' ∧ i = j := by
  have hchars : stem.toList ++ Decimal.digits i = stem'.toList ++ Decimal.digits j := by
    simpa [Decimal.text] using congrArg String.toList hname
  have hstem : stem.toList = stem'.toList := by
    have hdrop := congrArg (List.rdropWhile Char.isDigit) hchars
    rwa [rdropWhile_digits (fun _ => Decimal.isDigit_of_mem_digits) h,
      rdropWhile_digits (fun _ => Decimal.isDigit_of_mem_digits) h'] at hdrop
  rw [hstem, List.append_cancel_left_eq] at hchars
  exact ⟨String.toList_inj.1 hstem, Decimal.digits_injective hchars⟩

def stems (n : NodeNaming) : FaultMode → List String
  | .uniform => [n.storage, n.cluster]
  | .communityAware => [n.storage, n.overlay, n.cluster]

theorem containersFor_eq (n : NodeNaming) (i : Nat) (mode : FaultMode) :
    n.containersFor i mode = (n.stems mode).map (· ++ Decimal.text i) := by
  cases mode <;> rfl

/-- The stems of the three kinds of containers are different, and none ends in a digit. -/
structure Apart (n : NodeNaming) : Prop where
  nodup : [n.storage, n.overlay, n.cluster].Nodup
  blunt : ∀ stem ∈ [n.storage, n.overlay, n.cluster], Blunt stem

variable {n : NodeNaming}

theorem stems_sublist (n : NodeNaming) (mode : FaultMode) :
    (n.stems mode).Sublist [n.storage, n.overlay, n.cluster] := by
  cases mode <;> simp [stems]

theorem Apart.blunt_of_mem (h : n.Apart) {mode : FaultMode} {stem : String}
    (hstem : stem ∈ n.stems mode) : Blunt stem := h.blunt stem ((n.stems_sublist mode).subset hstem)

/-- Containers of different nodes have different names. -/
theorem Apart.disjoint (h : n.Apart) {i j : Nat} (hij : i ≠ j) (mode mode' : FaultMode) :
    (n.containersFor i mode).Disjoint (n.containersFor j mode') := by
  intro name hi hj
  rw [containersFor_eq] at hi hj
  obtain ⟨stem, hstem, rfl⟩ := List.mem_map.1 hi
  obtain ⟨stem', hstem', hname⟩ := List.mem_map.1 hj
  exact hij (named_inj (h.blunt_of_mem hstem') (h.blunt_of_mem hstem) hname).2.symm

theorem Apart.nodup_containersFor (h : n.Apart) (i : Nat) (mode : FaultMode) :
    (n.containersFor i mode).Nodup := by
  rw [containersFor_eq]
  refine List.Nodup.map_on ?_ (h.nodup.sublist (n.stems_sublist mode))
  intro stem hstem stem' hstem' hname
  exact (named_inj (h.blunt_of_mem hstem) (h.blunt_of_mem hstem') hname).1

/-- The names of all containers of some nodes. -/
def containersOf (n : NodeNaming) (mode : FaultMode) (is : List Nat) : List String :=
  is.flatMap (n.containersFor · mode)

theorem Apart.nodup_containersOf (h : n.Apart) (mode : FaultMode) {is : List Nat} (his : is.Nodup) :
    (n.containersOf mode is).Nodup := by
  refine List.nodup_flatMap.2 ⟨fun i _ => h.nodup_containersFor i mode, ?_⟩
  exact his.imp fun hij => h.disjoint hij mode mode

theorem Apart.not_mem_containersOf (h : n.Apart) {mode mode' : FaultMode} {is : List Nat} {j : Nat}
    (hj : j ∉ is) : ∀ name ∈ n.containersFor j mode', name ∉ n.containersOf mode is := by
  intro name hname hstopped
  obtain ⟨i, hi, hname'⟩ := List.mem_flatMap.1 hstopped
  have hij : i ≠ j := by
    rintro rfl
    exact hj hi
  exact h.disjoint hij mode mode' hname' hname

end NodeNaming

end FaultSweep
