import FaultSweep.Proofs.Json.Documents
import FaultSweep.Proofs.SortedMap

/-!
# Values read from written texts

A written value can be read if and only if it does not nest more levels than are allowed and none of
its numbers is lost. A value of 64-bit whole numbers is then read as itself.
-/

namespace FaultSweep.Json

mutual
/-- The numbers in a value. -/
def numbers : Json → List Number
  | .num n => [n]
  | .arr items => itemNumbers items
  | .obj fields => fieldNumbers fields
  | _ => []
def itemNumbers : List Json → List Number
  | [] => []
  | v :: vs => numbers v ++ itemNumbers vs
def fieldNumbers : List (String × Json) → List Number
  | [] => []
  | (_, v) :: fs => numbers v ++ fieldNumbers fs
end

/-- Every number in the value is whole and fits a word. -/
def Whole (v : Json) : Prop := ∀ n ∈ v.numbers, n.Fits

/-- The text of every number in the value is read as a number again. -/
def Legible (v : Json) : Prop := ∀ n ∈ v.numbers, n.reread.isSome = true

namespace Document

mutual
/-- What a reader needs of a written value: levels enough, and every number. -/
theorem value?_written (v : Json) (levels : Nat) :
    (value? levels (written v)).isSome = true ↔
      v.depth ≤ levels ∧ ∀ n ∈ v.numbers, n.reread.isSome = true := by
  cases v with
  | null => simp [written, value?, depth, numbers]
  | bool b => simp [written, value?, depth, numbers]
  | num n => simp [written, value?, depth, numbers]
  | str s => simp [written, value?, depth, numbers]
  | arr items =>
    cases levels with
    | zero => simp [written, value?]
    | succ levels => simp [written, value?, numbers, values?_written items levels]
  | obj fields =>
    cases levels with
    | zero => simp [written, value?]
    | succ levels => simp [written, value?, numbers, entries?_written fields levels]
theorem values?_written (vs : List Json) (levels : Nat) :
    (values? levels (writtenItems vs)).isSome = true ↔
      depthItems vs ≤ levels ∧ ∀ n ∈ itemNumbers vs, n.reread.isSome = true := by
  match vs with
  | [] => simp [writtenItems, values?, depthItems, itemNumbers]
  | v :: vs =>
    have hv := value?_written v levels
    have hvs := values?_written vs levels
    have hboth : (values? levels (writtenItems (v :: vs))).isSome =
        ((value? levels (written v)).isSome && (values? levels (writtenItems vs)).isSome) := by
      rw [writtenItems, values?]
      cases value? levels (written v) <;> cases values? levels (writtenItems vs) <;> rfl
    rw [hboth, Bool.and_eq_true, hv, hvs, depthItems, itemNumbers, Nat.max_le]
    simp only [List.mem_append, or_imp, forall_and]
    tauto
theorem entries?_written (fs : List (String × Json)) (levels : Nat) :
    (entries? levels (writtenFields fs)).isSome = true ↔
      depthFields fs ≤ levels ∧ ∀ n ∈ fieldNumbers fs, n.reread.isSome = true := by
  match fs with
  | [] => simp [writtenFields, entries?, depthFields, fieldNumbers]
  | (k, v) :: fs =>
    have hv := value?_written v levels
    have hfs := entries?_written fs levels
    have hboth : (entries? levels (writtenFields ((k, v) :: fs))).isSome =
        ((value? levels (written v)).isSome && (entries? levels (writtenFields fs)).isSome) := by
      rw [writtenFields, entries?]
      cases value? levels (written v) <;> cases entries? levels (writtenFields fs) <;> rfl
    rw [hboth, Bool.and_eq_true, hv, hfs, depthFields, fieldNumbers, Nat.max_le]
    simp only [List.mem_append, or_imp, forall_and]
    tauto
end

mutual
/-- Whole numbers of 64 bits and sorted objects are read as they were. -/
theorem value?_regular (v : Json) (h : v.Regular) (levels : Nat) (hd : v.depth ≤ levels) :
    value? levels (written v) = some v := by
  cases v with
  | null => simp [written, value?]
  | bool b => simp [written, value?]
  | num n =>
    rw [Regular] at h
    simp [written, value?, Number.reread_of_fits h]
  | str s => simp [written, value?]
  | arr items =>
    rw [Regular] at h
    rw [depth_arr] at hd
    cases levels with
    | zero => omega
    | succ levels =>
      have hitems := values?_regular items h levels (by omega)
      simp [written, value?, hitems]
  | obj fields =>
    rw [Regular] at h
    rw [depth_obj] at hd
    cases levels with
    | zero => omega
    | succ levels =>
      have hfields := entries?_regular fields h.2 levels (by omega)
      simp [written, value?, hfields, SortedMap.entries_ofList h.1]
theorem values?_regular (vs : List Json) (h : RegularItems vs) (levels : Nat)
    (hd : depthItems vs ≤ levels) : values? levels (writtenItems vs) = some vs := by
  match vs with
  | [] => simp [writtenItems, values?]
  | v :: vs =>
    rw [RegularItems] at h
    rw [depthItems] at hd
    have hv := value?_regular v h.1 levels (by omega)
    have hvs := values?_regular vs h.2 levels (by omega)
    simp [writtenItems, values?, hv, hvs]
theorem entries?_regular (fs : List (String × Json)) (h : RegularFields fs) (levels : Nat)
    (hd : depthFields fs ≤ levels) : entries? levels (writtenFields fs) = some fs := by
  match fs with
  | [] => simp [writtenFields, entries?]
  | (k, v) :: fs =>
    rw [RegularFields] at h
    rw [depthFields] at hd
    have hv := value?_regular v h.1 levels (by omega)
    have hfs := entries?_regular fs h.2 levels (by omega)
    simp [writtenFields, entries?, hv, hfs]
end

end Document

end FaultSweep.Json
