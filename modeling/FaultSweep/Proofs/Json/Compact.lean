import FaultSweep.Proofs.Json.Documents

/-!
# Documents of compact texts

The two layouts of a value differ in blanks only. So a value that is written in one line has the
tokens it has in any other layout, and the same document.
-/

namespace FaultSweep.Json

namespace Scan

mutual
/-- The text of a value in one line is scanned as the tokens of the value. -/
theorem emits_compact (v : Json) : Emits (compactChars v) (tokens v) := by
  cases v with
  | null => rw [compactChars, tokens]; exact emits_null
  | bool b => rw [tokens]; exact emits_bool b
  | num n => rw [compactChars, tokens]; exact emits_number n
  | str s => rw [compactChars, tokens]; exact emits_quoted s
  | arr items =>
    rw [compactChars, tokens]
    have hclose := emits_nil.cons ']' [.closeArr] rfl
    exact ((emits_compactItems items).append rfl hclose).cons '[' [.openArr] rfl
  | obj fields =>
    rw [compactChars, tokens]
    have hclose := emits_nil.cons '\x7d' [.closeObj] rfl
    exact ((emits_compactFields fields).append rfl hclose).cons '\x7b' [.openObj] rfl
theorem emits_compactItems (vs : List Json) : Emits (compactItems vs) (itemTokens vs) := by
  match vs with
  | [] => rw [compactItems, itemTokens]; exact emits_nil
  | [v] => rw [compactItems, itemTokens]; exact emits_compact v
  | v :: w :: vs =>
    rw [compactItems, itemTokens]
    · have hrest := (emits_compactItems (w :: vs)).cons ',' [.comma] rfl
      exact (emits_compact v).append rfl hrest
    · simp
    · simp
theorem emits_compactFields (fs : List (String × Json)) :
    Emits (compactFields fs) (fieldTokens fs) := by
  match fs with
  | [] => rw [compactFields, fieldTokens]; exact emits_nil
  | [(k, v)] =>
    rw [compactFields, fieldTokens]
    exact (emits_quoted k).append rfl ((emits_compact v).cons ':' [.colon] rfl)
  | (k, v) :: g :: fs =>
    rw [compactFields, fieldTokens]
    · have hrest := (emits_compactFields (g :: fs)).cons ',' [.comma] rfl
      have hvalue := (emits_compact v).append rfl hrest
      exact (emits_quoted k).append rfl (hvalue.cons ':' [.colon] rfl)
    · simp
    · simp
end

end Scan

theorem tokens?_compact (v : Json) : tokens? (Utf8.ofText v.compact) = some (tokens v) := by
  have hbound : Scan.Boundary [] := by
    intro p hp
    cases hp
  have h := Scan.emits_compact v [] hbound
  simpa [tokens?, Utf8.ofText, compact, Scan.run, Scan.finish] using h

theorem Document.parse?_compact (v : Json) : parse? v.compact = some (written v) := by
  simp [parse?, ofPieces?, tokens?_compact, ofTokens?_tokens]

end FaultSweep.Json
