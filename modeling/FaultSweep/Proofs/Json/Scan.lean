import FaultSweep.Json.Printer
import FaultSweep.Json.Token
import FaultSweep.Proofs.Json.Numerals

/-!
# The scanner on text that was written

The tokens of a value are a second view of what the printer writes. The scanner finds them in the
text one after the other; only a numeral needs a character behind it to end.
-/

namespace FaultSweep.Json

mutual
/-- The tokens of a written value; a number is the one that its text is read as. -/
def tokens : Json → List Token
  | .null => [.null]
  | .bool b => [.bool b]
  | .num n => [.num n.reread]
  | .str s => [.str (some s)]
  | .arr items => .openArr :: (itemTokens items ++ [.closeArr])
  | .obj fields => .openObj :: (fieldTokens fields ++ [.closeObj])
def itemTokens : List Json → List Token
  | [] => []
  | [v] => tokens v
  | v :: vs => tokens v ++ .comma :: itemTokens vs
def fieldTokens : List (String × Json) → List Token
  | [] => []
  | [(k, v)] => .str (some k) :: .colon :: tokens v
  | (k, v) :: fs => .str (some k) :: .colon :: (tokens v ++ .comma :: fieldTokens fs)
end

namespace Scan

theorem run_step {s s' : Scan} {c : Char} {ts : List Token} (h : s.step c = some (ts, s'))
    (ps : List Utf8.Piece) : run s (some c :: ps) = (run s' ps).map (ts ++ ·) := by
  simp [run, stepPiece, h]

/-- A step that finishes no token. -/
theorem run_silent {s : Scan} {c : Char} (s' : Scan) (h : s.step c = some ([], s'))
    (ps : List Utf8.Piece) : run s (some c :: ps) = run s' ps := by
  rw [run_step h]
  simp

/-- Nothing follows, or a character that is not part of a numeral. -/
def Boundary (rest : List Utf8.Piece) : Prop :=
  ∀ p ∈ rest.head?, ∃ c, p = some c ∧ isNumeral c = false

/-- Where a token may begin, characters are scanned as tokens, whatever comes after them. -/
def Emits (cs : List Char) (ts : List Token) : Prop :=
  ∀ rest, Boundary rest → run .between (cs.map some ++ rest) = (run .between rest).map (ts ++ ·)

theorem emits_nil : Emits [] [] := by
  intro rest _
  simp

theorem Emits.cons {cs : List Char} {us : List Token} (h : Emits cs us) (c : Char)
    (ts : List Token) (hc : start c = some (ts, .between)) : Emits (c :: cs) (ts ++ us) := by
  intro rest hrest
  have hstep : Scan.between.step c = some (ts, .between) := hc
  rw [List.map_cons, List.cons_append, run_step hstep, h rest hrest]
  simp [Function.comp_def]

theorem Emits.append {d : Char} {cs ds : List Char} {ts us : List Token} (hcs : Emits cs ts)
    (hd : isNumeral d = false) (h : Emits (d :: ds) us) : Emits (cs ++ d :: ds) (ts ++ us) := by
  intro rest hrest
  have hbound : Boundary ((d :: ds).map some ++ rest) := by
    intro p hp
    obtain rfl : some d = p := by simpa using hp
    exact ⟨d, rfl, hd⟩
  rw [List.map_append, List.append_assoc, hcs _ hbound, h rest hrest]
  simp [Function.comp_def]

theorem Emits.blanks {cs : List Char} {ts : List Token} (n : Nat) (h : Emits cs ts) :
    Emits (List.replicate n ' ' ++ cs) ts := by
  induction n with
  | zero => exact h
  | succ n ih => exact ih.cons ' ' [] rfl

theorem Emits.line {cs : List Char} {ts : List Token} (level : Nat) (h : Emits cs ts) :
    Emits (newline level ++ cs) ts :=
  (h.blanks (2 * level)).cons '\n' [] rfl

theorem emits_null : Emits ['n', 'u', 'l', 'l'] [.null] := by
  intro rest _
  simp [run, stepPiece, step, start, Function.comp_def]

theorem emits_bool (b : Bool) : Emits (compactChars (.bool b)) [.bool b] := by
  intro rest _
  cases b <;> simp [compactChars, run, stepPiece, step, start, Function.comp_def]

theorem isNumeral_of_isDigit {c : Char} (h : c.isDigit = true) : isNumeral c = true := by
  simp [isNumeral, h]

/-- A numeral goes on until it meets a boundary. -/
theorem run_numeral {seen cs : List Char} {t : Token} {rest : List Utf8.Piece}
    (hcs : ∀ c ∈ cs, isNumeral c = true) (ht : numeralToken? (cs.reverse ++ seen) = some t)
    (hrest : Boundary rest) :
    run (.numeral seen) (cs.map some ++ rest) = (run .between rest).map (t :: ·) := by
  induction cs generalizing seen with
  | nil =>
    cases rest with
    | nil =>
      have ht' : numeralToken? seen = some t := by simpa using ht
      simp [run, finish, ht']
    | cons p ps =>
      obtain ⟨c, rfl, hc⟩ := hrest p rfl
      have ht' : numeralToken? seen = some t := by simpa using ht
      cases hs : start c with
      | none => simp [run, stepPiece, step, hc, ht', hs]
      | some r =>
        obtain ⟨ts, s⟩ := r
        simp [run, stepPiece, step, hc, ht', hs, Function.comp_def]
  | cons c cs ih =>
    have hc := hcs c (by simp)
    have hstep : (Scan.numeral seen).step c = some ([], .numeral (c :: seen)) := by
      simp [step, hc]
    rw [List.map_cons, List.cons_append, run_silent _ hstep]
    exact ih (fun d hd => hcs d (by simp [hd])) (by simpa using ht)

theorem isNumeral_of_mem_exponentChars {e : Option (Bool × List Char)}
    (h : ∀ x ∈ e, ∀ c ∈ x.2, c.isDigit = true) :
    ∀ c ∈ Numeral.exponentChars e, isNumeral c = true := by
  cases e with
  | none => simp [Numeral.exponentChars]
  | some x =>
    intro c hc
    simp only [Numeral.exponentChars, List.mem_cons] at hc
    rcases hc with rfl | rfl | hc
    · rfl
    · split <;> rfl
    · exact isNumeral_of_isDigit (h x rfl c hc)

theorem isNumeral_of_mem_magnitude {n : Numeral} (h : n.Proper) :
    ∀ c ∈ n.magnitude, isNumeral c = true := by
  intro c hc
  rcases List.mem_append.1 hc with hc | hc
  · exact isNumeral_of_isDigit (h.whole c hc)
  · rcases List.mem_append.1 hc with hc | hc
    · unfold Numeral.fractionChars at hc
      split at hc
      · cases hc
      · rcases List.mem_cons.1 hc with rfl | hc
        · rfl
        · exact isNumeral_of_isDigit (h.fraction c hc)
    · exact isNumeral_of_mem_exponentChars (fun x hx => (h.exponent x hx).2) c hc

/-- The characters that begin a numeral. -/
theorem start_numeral {c : Char} (h : c.isDigit = true ∨ c = '-') :
    start c = some ([], .numeral [c]) := by
  have hspace : isSpace c = false := by
    by_contra hs
    simp only [isSpace, Bool.not_eq_false, Bool.or_eq_true, decide_eq_true_eq] at hs
    rcases hs with ((rfl | rfl) | rfl) | rfl <;> revert h <;> decide
  unfold start
  split
  case h_11 => simp [hspace, h]
  all_goals exact absurd h (by decide)

theorem text_eq_cons (n : Number) :
    ∃ c cs, n.text = c :: cs ∧ (c.isDigit = true ∨ c = '-') ∧ ∀ d ∈ cs, isNumeral d = true := by
  have hproper := n.numeral_proper
  have hmem := isNumeral_of_mem_magnitude hproper
  obtain ⟨c, cs, hcs⟩ := List.exists_cons_of_ne_nil hproper.whole_ne_nil
  have hmag : n.numeral.magnitude = c :: (cs ++ (Numeral.fractionChars n.numeral.fraction ++
      Numeral.exponentChars n.numeral.exponent)) := by
    rw [Numeral.magnitude, hcs, List.cons_append]
  rw [n.text_eq, Numeral.chars]
  split
  · exact ⟨'-', _, rfl, .inr rfl, hmem⟩
  · refine ⟨c, _, hmag, .inl (hproper.whole c (by simp [hcs])), ?_⟩
    intro d hd
    exact hmem d (by rw [hmag]; exact List.mem_cons_of_mem c hd)

theorem emits_number (n : Number) : Emits n.text [.num n.reread] := by
  intro rest hrest
  obtain ⟨c, cs, htext, hc, hcs⟩ := text_eq_cons n
  have hstep : Scan.between.step c = some ([], .numeral [c]) := start_numeral hc
  have htoken : numeralToken? (cs.reverse ++ [c]) = some (.num n.reread) := by
    have hparse := n.parse?_text
    rw [htext] at hparse
    simp [numeralToken?, hparse, Number.reread]
  rw [htext, List.map_cons, List.cons_append, run_silent _ hstep, run_numeral hcs htoken hrest]
  rfl

/-- The value of a digit that the printer writes. -/
theorem hexValue?_hexDigit {d : Nat} (h : d < 16) : hexValue? (hexDigit d) = some d := by
  interval_cases d <;> decide

theorem run_code {seen : Option (List Char)} {high : Option Nat} {value owed d : Nat} {c : Char}
    (hc : hexValue? c = some d) (howed : 1 < owed) (rest : List Utf8.Piece) :
    run (.code seen high value owed) (some c :: rest) =
      run (.code seen high (value * 16 + d) (owed - 1)) rest := by
  apply run_silent
  simp [step, hc, Nat.not_le.2 howed]

/-- A character below U+0020 is written by its code. -/
theorem run_control (seen : List Char) {c : Char} (hc : c.toNat < 0x20)
    (rest : List Utf8.Piece) :
    run (.text (some seen) none)
      (['\x5c', 'u', '0', '0', hexDigit (c.toNat / 16), hexDigit (c.toNat % 16)].map some ++ rest) =
      run (.text (some (c :: seen)) none) rest := by
  have hzero : hexValue? '0' = some 0 := by decide
  have hhigh := hexValue?_hexDigit (d := c.toNat / 16) (by omega)
  have hlow := hexValue?_hexDigit (d := c.toNat % 16) (by omega)
  have hvalue : c.toNat / 16 * 16 + c.toNat % 16 = c.toNat := Nat.div_add_mod' _ _
  have hlast : (Scan.code (some seen) none (c.toNat / 16) 1).step (hexDigit (c.toNat % 16)) =
      some ([], .text (some (c :: seen)) none) := by
    simp only [step, hlow, hvalue, Nat.le_refl, if_true, pushCode]
    rw [if_neg (by omega), if_neg (by omega)]
    simp [Char.ofNat_toNat]
  simp only [List.map_cons, List.map_nil, List.cons_append, List.nil_append]
  rw [run_silent (.escape (some seen) none) rfl,
    run_silent (.code (some seen) none 0 4) rfl, run_code hzero (by decide),
    run_code hzero (by decide), run_code hhigh (by decide)]
  simpa using run_silent _ hlast rest

/-- An escape names the character it is written for. -/
theorem run_escaped (seen : List Char) (c : Char) (rest : List Utf8.Piece) :
    run (.text (some seen) none) ((escaped c).map some ++ rest) =
      run (.text (some (c :: seen)) none) rest := by
  unfold escaped
  split
  case h_8 hquote hslash _ _ _ _ _ =>
    split
    · next hcontrol => exact run_control seen hcontrol rest
    · next hcontrol =>
      have hquote' : c ≠ '\x22' := hquote
      have hslash' : c ≠ '\x5c' := hslash
      apply run_silent
      simp [step, hquote', hslash', hcontrol, push]
  all_goals simp [run, stepPiece, step, push]

theorem run_text (seen cs : List Char) (rest : List Utf8.Piece) :
    run (.text (some seen) none) ((cs.flatMap escaped ++ ['\x22']).map some ++ rest) =
      (run .between rest).map (.str (some (String.ofList (seen.reverse ++ cs))) :: ·) := by
  induction cs generalizing seen with
  | nil =>
    have hstep : (Scan.text (some seen) none).step '\x22' =
        some ([.str (some (String.ofList seen.reverse))], .between) := by
      simp [step]
    simpa using run_step hstep rest
  | cons c cs ih =>
    rw [List.flatMap_cons, List.append_assoc, List.map_append, List.append_assoc,
      run_escaped, ih (c :: seen)]
    simp

theorem emits_quoted (s : String) : Emits (quoted s) [.str (some s)] := by
  intro rest _
  have hstep : Scan.between.step '\x22' = some ([], .text (some []) none) := rfl
  rw [quoted, List.map_cons, List.cons_append, run_silent _ hstep, run_text]
  simp

/-- A value in its line, then the bracket that closes what it stands in. -/
theorem Emits.closed {cs : List Char} {ts us : List Token} {c : Char} (h : Emits cs ts)
    (level : Nat) (hc : start c = some (us, .between)) :
    Emits (cs ++ Json.newline level ++ [c]) (ts ++ us) := by
  have hclose : Emits (Json.newline level ++ [c]) us := by
    simpa using (emits_nil.cons c us hc).line level
  rw [List.append_assoc]
  exact h.append rfl hclose

mutual
/-- The text of a value is scanned as the tokens of the value. -/
theorem emits_pretty (v : Json) (level : Nat) : Emits (prettyChars level v) (tokens v) := by
  cases v with
  | null => rw [prettyChars, tokens]; exact emits_null
  | bool b =>
    have hb := emits_bool b
    cases b <;> simpa [prettyChars, compactChars, tokens] using hb
  | num n => rw [prettyChars, tokens]; exact emits_number n
  | str s => rw [prettyChars, tokens]; exact emits_quoted s
  | arr items =>
    cases items with
    | nil =>
      rw [prettyChars, tokens]
      exact (emits_nil.cons ']' [.closeArr] rfl).cons '[' [.openArr] rfl
    | cons v vs =>
      rw [prettyChars, tokens]
      have hitems := emits_items (v :: vs) (level + 1)
      exact (Emits.closed hitems level rfl).cons '[' [.openArr] rfl
  | obj fields =>
    cases fields with
    | nil =>
      rw [prettyChars, tokens]
      exact (emits_nil.cons '\x7d' [.closeObj] rfl).cons '\x7b' [.openObj] rfl
    | cons f fs =>
      rw [prettyChars, tokens]
      have hfields := emits_fields (f :: fs) (level + 1)
      exact (Emits.closed hfields level rfl).cons '\x7b' [.openObj] rfl
theorem emits_items (vs : List Json) (level : Nat) :
    Emits (prettyItems level vs) (itemTokens vs) := by
  match vs with
  | [] => rw [prettyItems, itemTokens]; exact emits_nil
  | [v] => rw [prettyItems, itemTokens]; exact (emits_pretty v level).line level
  | v :: w :: vs =>
    rw [prettyItems, itemTokens]
    · exact ((emits_pretty v level).line level).append rfl
        ((emits_items (w :: vs) level).cons ',' [.comma] rfl)
    · simp
    · simp
theorem emits_fields (fs : List (String × Json)) (level : Nat) :
    Emits (prettyFields level fs) (fieldTokens fs) := by
  match fs with
  | [] => rw [prettyFields, fieldTokens]; exact emits_nil
  | [(k, v)] =>
    rw [prettyFields, fieldTokens]
    exact ((emits_quoted k).line level).append rfl
      (((emits_pretty v level).cons ' ' [] rfl).cons ':' [.colon] rfl)
  | (k, v) :: g :: fs =>
    rw [prettyFields, fieldTokens]
    · have hrest := (emits_fields (g :: fs) level).cons ',' [.comma] rfl
      have hvalue := ((emits_pretty v level).append rfl hrest).cons ' ' [] rfl
      exact ((emits_quoted k).line level).append rfl (hvalue.cons ':' [.colon] rfl)
    · simp
    · simp
end

end Scan

/-- Every text that was written has the tokens of its value. -/
theorem tokens?_pretty (v : Json) : tokens? (Utf8.ofText v.pretty) = some (tokens v) := by
  have hbound : Scan.Boundary [] := by
    intro p hp
    cases hp
  have h := Scan.emits_pretty v 0 [] hbound
  simpa [tokens?, Utf8.ofText, pretty, Scan.run, Scan.finish] using h

end FaultSweep.Json
