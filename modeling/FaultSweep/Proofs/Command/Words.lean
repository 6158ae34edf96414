import Mathlib
import FaultSweep.Command

/-!
# The words of a command line

A shell cuts a command line into words at the blanks. A backslash, single quotes and double quotes
make characters stand for themselves, blanks and quotes among them, and what follows one another
without a blank is one word. A line that is joined from words has these words, and no other.
-/

namespace FaultSweep.Shell

/-- How the next character is taken: outside of quotes, within single quotes, within double quotes,
or behind a backslash outside of quotes or within double quotes. -/
inductive Quoting where
  | bare
  | single
  | double
  | bareEscape
  | doubleEscape

/-- A command line that is read up to some place. -/
structure Reading where
  quoting : Quoting
  /-- The words that have ended. -/
  words : List (List Char)
  /-- What there is of the next word; between words, none. -/
  word : Option (List Char)

def isBlank (c : Char) : Bool := c = ' ' || c = '\t'

/-- What begins something other than a word, or is replaced before words are told apart: operators,
the end of the line, comments, patterns, expansions and the home directory. -/
def active : List Char :=
  ['|', '&', ';', '<', '>', '(', ')', '\n', '#', '*', '?', '[', '$', '\x60', '~']

/-- What a backslash is needed for within double quotes. -/
def doubleActive : List Char := ['$', '\x60', '\x22', '\x5c']

namespace Reading

def start : Reading := ⟨.bare, [], none⟩

/-- The character stands for itself. -/
def add (r : Reading) (quoting : Quoting) (c : Char) : Reading :=
  ⟨quoting, r.words, some (r.word.getD [] ++ [c])⟩

/-- A quote begins a word even if nothing stands between it and the next. -/
def opened (r : Reading) (quoting : Quoting) : Reading :=
  ⟨quoting, r.words, some (r.word.getD [])⟩

/-- A character is read; none where it does not stand for itself. -/
def step (r : Reading) (c : Char) : Option Reading :=
  match r.quoting with
  | .bare =>
    if isBlank c then some ⟨.bare, r.words ++ r.word.toList, none⟩
    else if c = '\x27' then some (r.opened .single)
    else if c = '\x22' then some (r.opened .double)
    else if c = '\x5c' then some { r with quoting := .bareEscape }
    else if c ∈ active then none
    else some (r.add .bare c)
  | .single =>
    if c = '\x27' then some { r with quoting := .bare } else some (r.add .single c)
  | .double =>
    if c = '\x22' then some { r with quoting := .bare }
    else if c = '\x5c' then some { r with quoting := .doubleEscape }
    else if c ∈ doubleActive then none
    else some (r.add .double c)
  | .bareEscape =>
    -- a line that is broken goes on as if it were not
    if c = '\n' then some { r with quoting := .bare } else some (r.add .bare c)
  | .doubleEscape =>
    if c = '\n' then some { r with quoting := .double }
    else if c ∈ doubleActive then some (r.add .double c)
    else some ((r.add .double '\x5c').add .double c)

def run (r : Reading) (cs : List Char) : Option Reading := cs.foldlM step r

/-- The words of a line that ends here; none within quotes or behind a backslash. -/
def finish? (r : Reading) : Option (List (List Char)) :=
  match r.quoting with
  | .bare => some (r.words ++ r.word.toList)
  | _ => none

@[simp] theorem run_nil (r : Reading) : r.run [] = some r := rfl

@[simp] theorem run_cons (r : Reading) (c : Char) (cs : List Char) :
    r.run (c :: cs) = (r.step c).bind (·.run cs) := rfl

theorem run_append (r : Reading) (cs ds : List Char) :
    r.run (cs ++ ds) = (r.run cs).bind (·.run ds) := List.foldlM_append

end Reading

/-- The words that a shell cuts a command line into, if all that is in it stands for itself. -/
def words? (line : String) : Option (List String) :=
  ((Reading.start.run line.toList).bind Reading.finish?).map (·.map String.ofList)

/-- Where no quotes are open, the characters add a piece to the word. -/
def Spells (cs piece : List Char) : Prop :=
  ∀ words word, (Reading.mk .bare words word).run cs =
    some ⟨.bare, words, some (word.getD [] ++ piece)⟩

/-- Pieces that follow one another are one word. -/
theorem Spells.append {cs ds u v : List Char} (hcs : Spells cs u) (hds : Spells ds v) :
    Spells (cs ++ ds) (u ++ v) := by
  intro words word
  rw [Reading.run_append, hcs, Option.bind_some, hds, Option.getD_some, List.append_assoc]

theorem not_isPlain : ∀ c ∈ ' ' :: '\t' :: '\x27' :: '\x22' :: '\x5c' :: active,
    isPlain c = false := by
  simp [active, isPlain]

/-- A plain character stands for itself without quotes. -/
theorem spells_plain {c : Char} (h : isPlain c = true) : Spells [c] [c] := by
  have hc : c ∉ ' ' :: '\t' :: '\x27' :: '\x22' :: '\x5c' :: active := by
    intro hmem
    rw [not_isPlain c hmem] at h
    cases h
  simp only [List.mem_cons, not_or] at hc
  obtain ⟨hspace, htab, hsingle, hdouble, hbackslash, hactive⟩ := hc
  intro words word
  simp [Reading.step, Reading.add, isBlank, hspace, htab, hsingle, hdouble, hbackslash, hactive]

theorem spells_plainChars {cs : List Char} (hne : cs ≠ []) (h : ∀ c ∈ cs, isPlain c = true) :
    Spells cs cs := by
  induction cs with
  | nil => exact absurd rfl hne
  | cons c cs ih =>
    obtain ⟨hc, hcs⟩ := List.forall_mem_cons.1 h
    rcases eq_or_ne cs [] with rfl | hne
    · exact spells_plain hc
    · exact (spells_plain hc).append (ih hne hcs)

/-- Within single quotes every character is read as itself. A single quote is read in double quotes,
between which and the next single quotes there is no blank. -/
theorem run_quotedChars (cs : List Char) (words : List (List Char)) (u : List Char) :
    (Reading.mk .single words (some u)).run (quotedChars cs ++ ['\x27']) =
      some ⟨.bare, words, some (u ++ cs)⟩ := by
  induction cs generalizing u with
  | nil => simp [quotedChars, Reading.step]
  | cons c cs ih =>
    have hrest := ih (u ++ [c])
    rw [List.append_assoc, List.singleton_append] at hrest
    by_cases hc : c = '\x27'
    · subst hc
      simpa [quotedChars, Reading.step, Reading.add, Reading.opened, isBlank, doubleActive]
        using hrest
    · simpa [quotedChars, Reading.step, Reading.add, hc] using hrest

/-- A word is read from what is written for it. -/
theorem spells_quoteChars (w : List Char) : Spells (quoteChars w) w := by
  unfold quoteChars
  split
  · next h => exact spells_plainChars h.1 (List.all_eq_true.1 h.2)
  · intro words word
    simpa [Reading.step, Reading.opened, isBlank] using
      run_quotedChars w words (word.getD [])

/-- The words are read one after the other, each up to the blank behind it. -/
theorem finish_run_joinChars (words ws : List (List Char)) :
    ((Reading.mk .bare words none).run (joinChars ws)).bind Reading.finish? =
      some (words ++ ws) := by
  fun_induction joinChars ws generalizing words with
  | case1 => simp [Reading.finish?]
  | case2 w => simp [spells_quoteChars w words none, Reading.finish?]
  | case3 w ws _ ih =>
    have hblank : (Reading.mk .bare words (some w)).step ' ' =
        some ⟨.bare, words ++ [w], none⟩ := rfl
    rw [Reading.run_append, spells_quoteChars w words none, Option.getD_none, List.nil_append,
      Option.bind_some, Reading.run_cons, hblank, Option.bind_some, ih (words ++ [w])]
    simp

/-- A command line that is joined from words, whatever they are, has just these words. So different
lists of words are joined to different lines. -/
theorem words_of_join :
    (∀ parts : List String, words? (join parts) = some parts) ∧ Function.Injective join := by
  have hwords : ∀ parts : List String, words? (join parts) = some parts := by
    intro parts
    have hread := finish_run_joinChars [] (parts.map String.toList)
    rw [List.nil_append] at hread
    simp [words?, join, Reading.start, hread, Function.comp_def]
  refine ⟨hwords, fun ps qs h => ?_⟩
  exact Option.some.inj ((hwords ps).symm.trans (h ▸ hwords qs))

/-- Quotes and backslashes in one word, an empty word, and what no word is. -/
example : words? "kill 'a b'\x22'\x22c \\$d ''" = some ["kill", "a b'c", "$d", ""] ∧
    words? "kill 'a" = none ∧ words? "kill $a" = none := by
  decide +kernel

end FaultSweep.Shell
