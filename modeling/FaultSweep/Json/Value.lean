import FaultSweep.SortedMap

/-!
# JSON values

Numbers are whole, within 64 bits, or binary fractions given by their bits. The fields of an object
keep the order they are written in; `ordered` puts them in key order, the form of a value that was
read from a text.
-/

namespace FaultSweep

inductive Number where
  | int (i : Int)
  | real (bits : UInt64)
  deriving DecidableEq

/-- A whole number that a 64-bit word holds, with or without sign. -/
def Number.Fits : Number → Prop
  | .int i => -9223372036854775808 ≤ i ∧ i < 18446744073709551616
  | .real _ => False

inductive Json where
  | null
  | bool (b : Bool)
  | num (n : Number)
  | str (s : String)
  | arr (items : List Json)
  | obj (fields : List (String × Json))

namespace Json

def nat (n : Nat) : Json := .num (.int n)

def ofOption {α : Type} (f : α → Json) : Option α → Json
  | none => .null
  | some a => f a

def ofStrings (xs : List String) : Json := .arr (xs.map .str)

def ofMap {α : Type} (f : α → Json) (m : SortedMap α) : Json :=
  .obj (m.entries.map fun e => (e.1, f e.2))

mutual
/-- How many arrays and objects stand inside one another. -/
def depth : Json → Nat
  | .arr items => depthItems items + 1
  | .obj fields => depthFields fields + 1
  | _ => 0
def depthItems : List Json → Nat
  | [] => 0
  | v :: vs => max (depth v) (depthItems vs)
def depthFields : List (String × Json) → Nat
  | [] => 0
  | (_, v) :: fs => max (depth v) (depthFields fs)
end

mutual
/-- Every number is whole and fits a word, and every object is in strict key order. -/
def Regular : Json → Prop
  | .num n => n.Fits
  | .arr items => RegularItems items
  | .obj fields => fields.Pairwise (fun a b => a.1 < b.1) ∧ RegularFields fields
  | _ => True
def RegularItems : List Json → Prop
  | [] => True
  | v :: vs => Regular v ∧ RegularItems vs
def RegularFields : List (String × Json) → Prop
  | [] => True
  | (_, v) :: fs => Regular v ∧ RegularFields fs
end

@[simp] theorem depth_arr (items : List Json) : (arr items).depth = depthItems items + 1 := by
  rw [depth]
@[simp] theorem depth_obj (fields : List (String × Json)) :
    (obj fields).depth = depthFields fields + 1 := by rw [depth]

end Json

end FaultSweep
