import FaultSweep.Proofs.Ledger.Persistence
import FaultSweep.Proofs.Ledger.Storable
import FaultSweep.Proofs.Plan.Acceptance
import FaultSweep.Proofs.Text.Delimiters

/-!
# Cells are told apart by their ledger keys

A ledger key has a segment for each entry, and neither delimiter can stand in a value that a sound
axis gives: so the key can be taken apart again at its delimiters. Different cells of a plan that is
accepted have different ledger keys, and what is kept for one of them leaves the others alone.
-/

namespace FaultSweep

namespace Dimension

theorem not_mem_name {c : Char} (hc : c = '/' ∨ c = '=') (d : Dimension) : c ∉ d.name.toList := by
  rcases hc with rfl | rfl <;> cases d <;> decide

theorem name_injective {d e : Dimension} (h : d.name = e.name) : d = e := by
  cases d <;> cases e <;> simp [name] at h ⊢

end Dimension

namespace Entry

/-- What stands in a ledger key for an entry. -/
def segment (e : Entry) : List Char := e.1.name.toList ++ '=' :: e.2.text.toList

theorem segment_ne_nil (e : Entry) : e.segment ≠ [] := by
  simp [segment]

/-- The number or the label of an entry has none of the characters that divide a ledger key. -/
theorem not_mem_text {c : Char} (hc : c = '/' ∨ c = '=') {d : Dimension} {v : DimensionValue}
    (h : Axis.Allows d v) : c ∉ v.text.toList := by
  cases v with
  | count n =>
    intro hmem
    have hdigit : c.isDigit = true :=
      Decimal.isDigit_of_mem_digits (by simpa [DimensionValue.text, Decimal.text] using hmem)
    rcases hc with rfl | rfl <;> simp at hdigit
  | label s =>
    obtain ⟨-, hslash, hequals⟩ := h
    rcases hc with rfl | rfl
    · exact hslash
    · exact hequals

theorem slash_not_mem_segment {e : Entry} (h : Axis.Allows e.1 e.2) : '/' ∉ e.segment := by
  have hname := e.1.not_mem_name (.inl rfl)
  have htext := not_mem_text (.inl rfl) h
  simp [segment, hname, htext]

/-- Of a dimension, the text tells the value. -/
theorem text_inj {d : Dimension} {v u : DimensionValue} (hv : Axis.Allows d v)
    (hu : Axis.Allows d u) (h : v.text = u.text) : v = u := by
  cases v with
  | count m =>
    cases u with
    | count n =>
      have hdigits : Decimal.digits m = Decimal.digits n := by
        simpa [DimensionValue.text, Decimal.text] using congrArg String.toList h
      rw [Decimal.digits_injective hdigits]
    | label t => exact absurd hu.1 hv
  | label s =>
    cases u with
    | count n => exact absurd hv.1 hu
    | label t => exact congrArg _ h

theorem segment_inj {e f : Entry} (he : Axis.Allows e.1 e.2) (hf : Axis.Allows f.1 f.2)
    (h : e.segment = f.segment) : e = f := by
  obtain ⟨d, v⟩ := e
  obtain ⟨d', u⟩ := f
  obtain ⟨hname, htext⟩ := append_delimiter_inj (d.not_mem_name (.inr rfl))
    (d'.not_mem_name (.inr rfl)) h
  obtain rfl := Dimension.name_injective (String.toList_inj.1 hname)
  exact congrArg (Prod.mk d) (text_inj he hf (String.toList_inj.1 htext))

/-- Entries with values that are allowed are told by their segments. -/
theorem map_segment_inj {es fs : List Entry} (he : ∀ e ∈ es, Axis.Allows e.1 e.2)
    (hf : ∀ f ∈ fs, Axis.Allows f.1 f.2) (h : es.map segment = fs.map segment) : es = fs := by
  induction es generalizing fs with
  | nil => exact (List.map_eq_nil_iff.1 h.symm).symm
  | cons e es ih =>
    obtain ⟨f, fs, rfl, hfirst, hrest⟩ := List.map_eq_cons_iff.1 h.symm
    obtain ⟨he, hes⟩ := List.forall_mem_cons.1 he
    obtain ⟨hf, hfs⟩ := List.forall_mem_cons.1 hf
    rw [segment_inj he hf hfirst.symm, ih hes hfs hrest.symm]

end Entry

namespace ConfigurationKey

/-- The values of a key are of the right kind, and its labels have no delimiters. -/
def Allowed (k : ConfigurationKey) : Prop := ∀ e ∈ k.entries, Axis.Allows e.1 e.2

theorem toList_ledgerKey (k : ConfigurationKey) :
    k.ledgerKey.toList = ['/'].intercalate (k.entries.map Entry.segment) := by
  simp [ledgerKey, Function.comp_def]
  rfl

/-- A ledger key tells the entries it was made of. -/
theorem ledgerKey_inj {j k : ConfigurationKey} (hj : j.Allowed) (hk : k.Allowed)
    (h : j.ledgerKey = k.ledgerKey) : j = k := by
  have hpieces : ∀ {i : ConfigurationKey}, i.Allowed →
      ∀ l ∈ i.entries.map Entry.segment, l ≠ [] ∧ '/' ∉ l := by
    intro i hi l hl
    obtain ⟨e, he, rfl⟩ := List.mem_map.1 hl
    exact ⟨e.segment_ne_nil, Entry.slash_not_mem_segment (hi e he)⟩
  have hsegments : j.entries.map Entry.segment = k.entries.map Entry.segment := by
    refine intercalate_delimiter_inj (hpieces hj) (hpieces hk) ?_
    rw [← toList_ledgerKey, ← toList_ledgerKey, h]
  have hentries : j.entries = k.entries := Entry.map_segment_inj hj hk hsegments
  cases j
  exact congrArg _ hentries

end ConfigurationKey

/-! ### The keys of a plan -/

/-- A sound axis gives allowed values only, whatever the number of nodes is. -/
theorem Axis.Sound.allows {a : Axis} (h : a.Sound) (n : Nat) :
    ∀ v ∈ a.valuesFor n, Allows a.dimension v := by
  intro v hv
  unfold valuesFor at hv
  split at hv
  · next hr =>
    obtain ⟨k, -, rfl⟩ := List.mem_map.1 hv
    exact h.counts (isRange_iff.1 hr)
  · exact h.allowed v hv

theorem Cell.allowed_along {as : List Axis} (has : ∀ a ∈ as, a.Sound) (p : TrialParameters) :
    ∀ c ∈ along as p, c.key.Allowed := by
  induction as generalizing p with
  | nil =>
    intro c hc
    rw [List.mem_singleton.1 hc]
    exact List.forall_mem_nil _
  | cons a as ih =>
    obtain ⟨ha, hrest⟩ := List.forall_mem_cons.1 has
    intro c hc
    obtain ⟨v, hv, hc⟩ := List.mem_flatMap.1 hc
    obtain ⟨d, hd, rfl⟩ := List.mem_map.1 hc
    exact List.forall_mem_cons.2 ⟨ha.allows _ v hv, ih hrest _ d hd⟩

/-! ### What is kept for other cells -/

namespace Ledger

variable {W : Type}

/-- The ledger that an append leaves: the one with the record, or the old one where it failed. -/
def afterAppend (b : Backend W) (l : Ledger) (k : ConfigurationKey) (r : TrialRecord) (w : W) :
    Ledger :=
  match (append b l k r w).1 with
  | .ok l' => l'
  | .error _ => l

/-- `l'` has for a cell what `l` has. -/
structure SameFor (k : ConfigurationKey) (l l' : Ledger) : Prop where
  records : l'.records k = l.records k
  completed : l'.completed k = l.completed k
  remaining : ∀ target, l'.remaining k target = l.remaining k target

theorem SameFor.of_records {k : ConfigurationKey} {l l' : Ledger}
    (h : l'.records k = l.records k) : SameFor k l l' := by
  have hcompleted : l'.completed k = l.completed k := congrArg List.length h
  exact ⟨h, hcompleted, fun target => congrArg (target - ·) hcompleted⟩

theorem sameFor_afterAppend {j k : ConfigurationKey} (h : j.ledgerKey ≠ k.ledgerKey)
    (b : Backend W) (l : Ledger) (r : TrialRecord) (w : W) :
    SameFor j l (l.afterAppend b k r w) := by
  unfold afterAppend
  split
  · next l' happend =>
    obtain ⟨rfl, -⟩ := append_ok (Prod.ext happend rfl)
    exact .of_records (recordsAt_push_of_ne l r h)
  · exact .of_records rfl

end Ledger

namespace SweepPlan

/-- Lists of entries that can be cells have different ledger keys if they are different. All cells
of a plan that is accepted can be, so whatever is appended for one of them, and whether or not it
is, the ledger has for each other what it had. -/
theorem cells_kept_apart :
    (∀ j k : ConfigurationKey, j.Allowed → k.Allowed → j.ledgerKey = k.ledgerKey → j = k) ∧
    ∀ (text dir : String) (p : SweepPlan), ofText text dir = .ok p →
      ∃ ks, p.keys = .ok ks ∧ (∀ k ∈ ks, k.Allowed) ∧
        ∀ {W : Type} (b : Backend W) (l : Ledger) (r : TrialRecord) (w : W), ∀ j ∈ ks, ∀ k ∈ ks,
          j ≠ k → Ledger.SameFor j l (l.afterAppend b k r w) := by
  refine ⟨fun j k => ConfigurationKey.ledgerKey_inj, ?_⟩
  intro text dir p h
  have hsound := sound_of_ofText h
  have hallowed : ∀ k ∈ p.cells.map Cell.key, k.Allowed := by
    intro k hk
    obtain ⟨c, hc, rfl⟩ := List.mem_map.1 hk
    exact Cell.allowed_along hsound.axes p.defaults c hc
  refine ⟨_, keys_eq fun a ha => (hsound.axes a ha).fits, hallowed, ?_⟩
  intro W b l r w j hj k hk hne
  have hkeys : j.ledgerKey ≠ k.ledgerKey :=
    mt (ConfigurationKey.ledgerKey_inj (hallowed j hj) (hallowed k hk)) hne
  exact Ledger.sameFor_afterAppend hkeys b l r w

/-- A plan of two cells. The label of one is the beginning of that of the other. -/
def twoLabels : String :=
  "family: replication\ngrid: [\x7bdimension: payload_size, values: [M, MB]\x7d]\n" ++
    "payloads: \x7bM: \x7bpath: f, file_cid: F, meta_cid: M\x7d, " ++
    "MB: \x7bpath: g, file_cid: G, meta_cid: N\x7d\x7d\n"

theorem two_labels_kept_apart :
    ∃ p j k l, ofText twoLabels "/srv" = .ok p ∧ p.keys = .ok [j, k] ∧
      j.ledgerKey = "payload_size=M" ∧ k.ledgerKey = "payload_size=MB" ∧
      Ledger.append MemoryFile.backend SortedMap.empty k .atEpoch ⟨none, false, 0⟩ =
        (.ok l, ⟨some l.encode, false, 1⟩) ∧
      l.completed k = 1 ∧ Ledger.SameFor j SortedMap.empty l := by
  have heval : (ofText twoLabels "/srv").toOption.bind (fun p =>
      p.keys.toOption.map fun ks => ks.map (·.ledgerKey)) = some
      ["payload_size=M", "payload_size=MB"] := by
    decide +kernel
  obtain ⟨p, hp, hkeys⟩ := Option.bind_eq_some_iff.1 heval
  obtain ⟨ks, hks, hshown⟩ := Option.map_eq_some_iff.1 hkeys
  obtain ⟨j, ks, rfl, hj, hrest⟩ := List.map_eq_cons_iff.1 hshown
  obtain ⟨k, ks, rfl, hk, hnil⟩ := List.map_eq_cons_iff.1 hrest
  obtain rfl := List.map_eq_nil_iff.1 hnil
  have hplan := ok_of_toOption hp
  have happend : Ledger.append MemoryFile.backend SortedMap.empty k .atEpoch ⟨none, false, 0⟩ =
      (.ok (Ledger.push SortedMap.empty k .atEpoch),
        ⟨some (Ledger.push SortedMap.empty k .atEpoch).encode, false, 1⟩) := rfl
  have hne : j ≠ k := by
    rintro rfl
    exact absurd (hj.symm.trans hk) (by decide)
  obtain ⟨_, hall, -, hapart⟩ := cells_kept_apart.2 twoLabels "/srv" p hplan
  cases (ok_of_toOption hks).symm.trans hall
  have hsame := hapart MemoryFile.backend SortedMap.empty .atEpoch ⟨none, false, 0⟩ j (by simp) k
    (by simp) hne
  refine ⟨p, j, k, _, hplan, ok_of_toOption hks, hj, hk, happend, ?_, ?_⟩
  · rw [Ledger.completed, Ledger.records_push_self]
    rfl
  · simpa [Ledger.afterAppend, happend] using hsame

end SweepPlan

end FaultSweep
