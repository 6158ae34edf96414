import FaultSweep.Json.Document
import FaultSweep.Proofs.Json.Scan

/-!
# Documents of written values

The parser builds from the tokens of a value its document, in which each number is the one that its
text is read as. So every text that was written is a document; what can be read from it depends on
its numbers and on its depth.
-/

namespace FaultSweep.Json

namespace Document

mutual
/-- The document of a written value. -/
def written : Json → Document
  | .null => .null
  | .bool b => .bool b
  | .num n => .num n.reread
  | .str s => .str (some s)
  | .arr items => .arr (writtenItems items)
  | .obj fields => .obj (writtenFields fields)
def writtenItems : List Json → List Document
  | [] => []
  | v :: vs => written v :: writtenItems vs
def writtenFields : List (String × Json) → List (Option String × Document)
  | [] => []
  | (k, v) :: fs => (some k, written v) :: writtenFields fs
end

end Document

namespace Parse

open Document (written writtenItems writtenFields)

theorem run_cons (p : Parse) (t : Token) (ts : List Token) :
    p.run (t :: ts) = (p.step t).bind (·.run ts) := by
  rw [run]
  cases p.step t <;> rfl

theorem run_first (v : Json) (stack : List Frame) (rest : List Token) :
    run ⟨.firstItem, stack⟩ (tokens v ++ rest) = run ⟨.value, stack⟩ (tokens v ++ rest) := by
  cases v <;> simp [tokens, run_cons, step]

/-- The first item of an array is a value like any other. -/
theorem run_firstItem (v : Json) (vs : List Json) (stack : List Frame) (rest : List Token) :
    run ⟨.firstItem, stack⟩ (itemTokens (v :: vs) ++ rest) =
      run ⟨.value, stack⟩ (itemTokens (v :: vs) ++ rest) := by
  cases vs with
  | nil => rw [itemTokens, run_first]
  | cons w vs =>
    rw [itemTokens, List.append_assoc, run_first]
    simp

/-- The first key of an object is a key like any other. -/
theorem run_firstKey (f : String × Json) (fs : List (String × Json))
    (acc : List (Option String × Document)) (stack : List Frame) (rest : List Token) :
    run ⟨.firstKey, .obj acc :: stack⟩ (fieldTokens (f :: fs) ++ rest) =
      run ⟨.key, .obj acc :: stack⟩ (fieldTokens (f :: fs) ++ rest) := by
  cases fs <;> simp [fieldTokens, run_cons, step]

mutual
/-- The tokens of a value leave its document, whatever is still open around it. -/
theorem run_tokens (v : Json) (stack : List Frame) (rest : List Token) :
    run ⟨.value, stack⟩ (tokens v ++ rest) = (complete (written v) stack).bind (·.run rest) := by
  cases v with
  | null => simp [tokens, written, run_cons, step, value]
  | bool b => simp [tokens, written, run_cons, step, value]
  | num n => simp [tokens, written, run_cons, step, value]
  | str s => simp [tokens, written, run_cons, step, value]
  | arr items =>
    rw [tokens, written, List.cons_append, run_cons]
    cases items with
    | nil => simp [itemTokens, writtenItems, step, value, run_cons]
    | cons v vs =>
      have hitems := run_itemTokens (v :: vs) (by simp) [] stack rest
      simp only [step, value, Option.bind_some, List.append_assoc]
      rw [run_firstItem]
      simpa using hitems
  | obj fields =>
    rw [tokens, written, List.cons_append, run_cons]
    cases fields with
    | nil => simp [fieldTokens, writtenFields, step, value, run_cons]
    | cons f fs =>
      have hfields := run_fieldTokens (f :: fs) (by simp) [] stack rest
      simp only [step, value, Option.bind_some, List.append_assoc]
      rw [run_firstKey]
      simpa using hfields
theorem run_itemTokens (vs : List Json) (hne : vs ≠ []) (acc : List Document)
    (stack : List Frame) (rest : List Token) :
    run ⟨.value, .arr acc :: stack⟩ (itemTokens vs ++ .closeArr :: rest) =
      (complete (.arr (acc.reverse ++ writtenItems vs)) stack).bind (·.run rest) := by
  match vs with
  | [] => exact absurd rfl hne
  | [v] =>
    rw [itemTokens, run_tokens v]
    simp [complete, run_cons, step, writtenItems]
  | v :: w :: vs =>
    have hitems := run_itemTokens (w :: vs) (by simp) (written v :: acc) stack rest
    rw [itemTokens, List.append_assoc, run_tokens v]
    · simp [complete, run_cons, step, hitems, writtenItems]
    · simp
theorem run_fieldTokens (fs : List (String × Json)) (hne : fs ≠ [])
    (acc : List (Option String × Document)) (stack : List Frame) (rest : List Token) :
    run ⟨.key, .obj acc :: stack⟩ (fieldTokens fs ++ .closeObj :: rest) =
      (complete (.obj (acc.reverse ++ writtenFields fs)) stack).bind (·.run rest) := by
  match fs with
  | [] => exact absurd rfl hne
  | [(k, v)] =>
    have hvalue := run_tokens v (.field acc (some k) :: stack) (.closeObj :: rest)
    rw [fieldTokens, List.cons_append, run_cons]
    simp [complete, run_cons, hvalue, step, writtenFields]
  | (k, v) :: g :: fs =>
    have hfields := run_fieldTokens (g :: fs) (by simp) ((some k, written v) :: acc) stack rest
    have hvalue := run_tokens v (.field acc (some k) :: stack)
      (.comma :: (fieldTokens (g :: fs) ++ .closeObj :: rest))
    rw [fieldTokens, List.cons_append, run_cons]
    · simp [complete, run_cons, hvalue, step, hfields, writtenFields]
    · simp
end

end Parse

namespace Document

theorem ofTokens?_tokens (v : Json) : ofTokens? (tokens v) = some (written v) := by
  have h := Parse.run_tokens v [] []
  rw [List.append_nil] at h
  simp [ofTokens?, h, Parse.complete]

/-- Every written text is a document. -/
theorem parse?_pretty (v : Json) : parse? v.pretty = some (written v) := by
  simp [parse?, ofPieces?, tokens?_pretty, ofTokens?_tokens]

end Document

end FaultSweep.Json
