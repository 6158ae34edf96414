import FaultSweep.Json.Value
import FaultSweep.Reader
import FaultSweep.Text.Decimal
import FaultSweep.Word

/-!
# Configuration keys

A cell of the grid is named by the values it gives to dimensions, in the order of the axes. Its
ledger key is the text under which its trials are kept.
-/

namespace FaultSweep

inductive Dimension where
  | nodeCount
  | faultCount
  | repairDepth
  | repairPeers
  | replicationFactor
  | payloadSize
  deriving DecidableEq

namespace Dimension

def name : Dimension → String
  | nodeCount => "node_count"
  | faultCount => "fault_count"
  | repairDepth => "repair_depth"
  | repairPeers => "repair_peers"
  | replicationFactor => "replication_factor"
  | payloadSize => "payload_size"

def all : List Dimension :=
  [nodeCount, faultCount, repairDepth, repairPeers, replicationFactor, payloadSize]

/-- Its place in the order of dimensions. -/
def rank : Dimension → Nat
  | nodeCount => 0
  | faultCount => 1
  | repairDepth => 2
  | repairPeers => 3
  | replicationFactor => 4
  | payloadSize => 5

theorem rank_inj {d e : Dimension} (h : d.rank = e.rank) : d = e := by
  cases d <;> cases e <;> first | rfl | cases h

def toJson (d : Dimension) : Json := .str d.name

def read {ν : Type} (r : Reader ν) : ν → Option Dimension :=
  r.enum (all.map fun d => (d.name, d))

end Dimension

/-- A count, or the label of a payload size. -/
inductive DimensionValue where
  | count (n : Nat)
  | label (s : String)
  deriving DecidableEq

namespace DimensionValue

def text : DimensionValue → String
  | count n => Decimal.text n
  | label s => s

def toJson : DimensionValue → Json
  | count n => .nat n
  | label s => .str s

def read {ν : Type} (r : Reader ν) (n : ν) : Option DimensionValue :=
  match r.natOrText? n with
  | some (.inl k) => if k < countBound then some (count k) else none
  | some (.inr s) => some (label s)
  | none => none

/-- Counts come before labels. -/
def order : DimensionValue → DimensionValue → Ordering
  | count m, count n => compare m n
  | count _, label _ => .lt
  | label _, count _ => .gt
  | label s, label t => compare s t

instance : Std.TransCmp order where
  eq_swap {u v} := by cases u <;> cases v <;> first | rfl | exact Std.OrientedOrd.eq_swap
  isLE_trans {u v w} := by
    cases u <;> cases v <;> cases w <;> simp only [order] <;>
      first | exact Std.TransOrd.isLE_trans | simp

instance : Std.LawfulEqCmp order where
  compare_self {v} := by cases v <;> exact Std.ReflOrd.compare_self
  eq_of_compare {u v} := by cases u <;> cases v <;> simp [order]

end DimensionValue

abbrev Entry := Dimension × DimensionValue

namespace Entry

/-- Entries are ordered by their dimensions, and those of one dimension by their values. -/
def order (a b : Entry) : Ordering :=
  (compare a.1.rank b.1.rank).then (a.2.order b.2)

instance : Std.TransCmp order where
  eq_swap {a b} := by
    have hvalue : a.2.order b.2 = (b.2.order a.2).swap := Std.OrientedCmp.eq_swap
    rw [order, order, Ordering.swap_then, ← Std.OrientedOrd.eq_swap, ← hvalue]
  isLE_trans {a b c} hab hbc := by
    simp only [order, Ordering.isLE_then_iff_and] at hab hbc ⊢
    refine ⟨Std.TransOrd.isLE_trans hab.1 hbc.1, ?_⟩
    rcases hab.2 with hab' | hab'
    · exact .inl (Std.TransCmp.lt_of_lt_of_isLE hab' hbc.1)
    · rcases hbc.2 with hbc' | hbc'
      · exact .inl (Std.TransCmp.lt_of_isLE_of_lt hab.1 hbc')
      · exact .inr (Std.TransCmp.isLE_trans hab' hbc')

instance : Std.LawfulEqCmp order where
  compare_self {a} := by simp [order, Std.ReflCmp.compare_self]
  eq_of_compare {a b} h := by
    obtain ⟨hdimension, hvalue⟩ := Ordering.then_eq_eq.1 h
    exact Prod.ext (Dimension.rank_inj (Std.LawfulEqOrd.eq_of_compare hdimension))
      (Std.LawfulEqCmp.eq_of_compare hvalue)

def toJson (e : Entry) : Json := .arr [e.1.toJson, e.2.toJson]

/-- An entry is a list of two: the dimension and the value. -/
def read {ν : Type} (r : Reader ν) (n : ν) : Option Entry := do
  match ← r.items? n with
  | [d, v] => return (← Dimension.read r d, ← DimensionValue.read r v)
  | _ => none

end Entry

structure ConfigurationKey where
  entries : List Entry
  deriving DecidableEq

namespace ConfigurationKey

def ledgerKey (k : ConfigurationKey) : String :=
  "/".intercalate (k.entries.map fun e => e.1.name ++ "=" ++ e.2.text)

/-- How a key is shown to people. -/
def shown (k : ConfigurationKey) : String :=
  "(" ++ ", ".intercalate (k.entries.map fun e => e.1.name ++ ": " ++ e.2.text) ++ ")"

/-- Keys are ordered entry by entry, and a key before its continuations. -/
def order (j k : ConfigurationKey) : Ordering := List.compareLex Entry.order j.entries k.entries

instance : Ord ConfigurationKey := ⟨order⟩

instance : LT ConfigurationKey := ltOfOrd

instance : LE ConfigurationKey := leOfOrd

instance : Std.TransOrd ConfigurationKey where
  eq_swap := (inferInstance : Std.TransCmp (List.compareLex Entry.order)).eq_swap
  isLE_trans := (inferInstance : Std.TransCmp (List.compareLex Entry.order)).isLE_trans

instance : Std.LawfulEqOrd ConfigurationKey where
  compare_self := (inferInstance : Std.LawfulEqCmp (List.compareLex Entry.order)).compare_self
  eq_of_compare {j k} h := by
    have hentries : j.entries = k.entries :=
      (inferInstance : Std.LawfulEqCmp (List.compareLex Entry.order)).eq_of_compare h
    cases j
    cases k
    exact congrArg mk hentries

instance : Std.IsLinearOrder ConfigurationKey := .of_ord

def toJson (k : ConfigurationKey) : Json := .arr (k.entries.map Entry.toJson)

def read {ν : Type} (r : Reader ν) (n : ν) : Option ConfigurationKey :=
  (r.list (Entry.read r) n).map (⟨·⟩)

end ConfigurationKey

end FaultSweep
