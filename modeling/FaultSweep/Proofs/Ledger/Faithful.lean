import FaultSweep.Proofs.Ledger.Storable

/-!
# The text of a ledger is faithful

A ledger has one text, and the text has one ledger. Reading gives a ledger back exactly if its text
nests no more levels than a text may; that two ledgers differ shows in their texts however deep they
are.
-/

namespace FaultSweep

open Json (Document)

namespace Instant

/-- An instant that some text stands for. -/
def Readable (t : Instant) : Prop := ∃ s, ofText? s = some t

theorem readable_iff_valid {t : Instant} : t.Readable ↔ t.Valid := by
  constructor
  · rintro ⟨s, hs⟩
    exact valid_of_ofText? hs
  · intro h
    exact ⟨t.text, ofText?_text h⟩

end Instant

namespace Ledger

/-- Every instant is one that some text stands for, and every number of a measurement is whole and
fits a word. -/
def Plain (l : Ledger) : Prop :=
  ∀ e ∈ l.entries, ∀ r ∈ e.2, r.startedAt.Readable ∧ r.finishedAt.Readable ∧ r.metrics.Regular

theorem Plain.timed {l : Ledger} (h : l.Plain) : l.Timed := by
  intro e he r hr
  obtain ⟨hstart, hfinish, -⟩ := h e he r hr
  exact ⟨Instant.readable_iff_valid.1 hstart, Instant.readable_iff_valid.1 hfinish⟩

theorem Plain.regular {l : Ledger} (h : l.Plain) :
    ∀ e ∈ l.entries, ∀ r ∈ e.2, r.metrics.Regular := fun e he r hr => (h e he r hr).2.2

/-- Of a plain ledger only the depth is left to ask for. -/
theorem Plain.storable_iff {l : Ledger} (h : l.Plain) :
    l.Storable ↔ l.toJson.depth ≤ Json.maxLevels := by
  have hdepth : l.toJson.depth ≤ Json.maxLevels ↔
      ∀ e ∈ l.entries, ∀ r ∈ e.2, r.metrics.depth ≤ 124 := depth_toJson_le
  rw [hdepth]
  constructor
  · intro hs e he r hr
    exact (hs e he r hr).depth
  · intro hd e he r hr
    obtain ⟨hstart, hfinish⟩ := h.timed e he r hr
    exact ⟨hstart, hfinish, h.regular e he r hr, hd e he r hr⟩

theorem Plain.decode?_encode_iff {l : Ledger} (h : l.Plain) :
    decode? l.encode = some l ↔ l.toJson.depth ≤ Json.maxLevels := by
  rw [← h.storable_iff]
  constructor
  · intro hread e he r hr
    have hsome : (decode? l.encode).isSome = true := by rw [hread]; rfl
    obtain ⟨hstart, hfinish⟩ := h.timed e he r hr
    have hdepth := ((isSome_decode?_encode h.timed).1 hsome e he r hr).1
    exact ⟨hstart, hfinish, h.regular e he r hr, hdepth⟩
  · exact decode?_encode_storable

/-- The document of a text knows no bound on its levels, so that it tells ledgers apart which are
too deep to be read. -/
theorem Plain.encode_inj {l l' : Ledger} (h : l.Plain) (h' : l'.Plain)
    (he : l.encode = l'.encode) : l = l' := by
  have hdocument : Document.written l.toJson = Document.written l'.toJson := by
    have hbytes := congrArg Document.ofBytes? he
    rw [encode, encode, Document.ofBytes?_pretty, Document.ofBytes?_pretty] at hbytes
    exact Option.some.inj hbytes
  have hread : ∀ {k : Ledger}, k.Plain → k.toJson.depth ≤ max l.toJson.depth l'.toJson.depth + 3 →
      Ledger.read ⟨max l.toJson.depth l'.toJson.depth + 3, Document.written k.toJson⟩ = some k := by
    intro k hk hd
    exact read_regular hk.timed hk.regular _ (depth_toJson_le.1 hd)
  have hl := hread h (by omega)
  have hl' := hread h' (by omega)
  rw [hdocument, hl'] at hl
  exact (Option.some.inj hl).symm

/-- Reading the text of a ledger gives the ledger back if it nests at most as many levels as a text
may, and only then. No other ledger has the same text. -/
theorem text_faithful {l : Ledger} (h : l.Plain) :
    (decode? l.encode = some l ↔ l.toJson.depth ≤ Json.maxLevels) ∧
      ∀ l' : Ledger, l'.Plain → l'.encode = l.encode → l' = l :=
  ⟨h.decode?_encode_iff, fun _ h' he => h'.encode_inj h he⟩

/-- A leap second in the year before the first, the last day of all years, and a measurement whose
names and numbers are at their limits. -/
def rareRecord : TrialRecord :=
  ⟨.timedOut, ⟨⟨-1, 2, 28⟩, 23, 59, 60, 1⟩, ⟨⟨262142, 12, 31⟩, 0, 0, 0, 120000000⟩, .pinConverged,
    .obj [("", .arr []), ("\u0000", .num (.int (-9223372036854775808))),
      ("\x22\x5c", .arr [.obj [], .num (.int 18446744073709551615)])],
    some "\n\x22é😀"⟩

/-- The record under a key of marks, and a key without records if there is to be one. -/
def rareLedger (withEmpty : Bool) : Ledger :=
  SortedMap.ofList ((if withEmpty then [("", [])] else []) ++ [("a\x22\x5c\t", [rareRecord])])

theorem rare_ledger_faithful :
    (rareLedger true).Plain ∧ decode? (rareLedger true).encode = some (rareLedger true) ∧
      (rareLedger false).encode ≠ (rareLedger true).encode := by
  have hrecord : rareRecord.startedAt.Readable ∧ rareRecord.finishedAt.Readable ∧
      rareRecord.metrics.Regular := by
    refine ⟨Instant.readable_iff_valid.2 (by decide), Instant.readable_iff_valid.2 (by decide), ?_⟩
    simp only [rareRecord, Json.Regular, Json.RegularItems, Json.RegularFields, Number.Fits]
    decide +kernel
  have hplain : ∀ withEmpty, (rareLedger withEmpty).Plain := by
    intro withEmpty e he r hr
    have hmem := SortedMap.mem_ofList he
    have hrare : r ∈ [rareRecord] := by
      rcases List.mem_append.1 hmem with hempty | hlast
      · cases withEmpty
        · cases hempty
        · rw [List.mem_singleton.1 hempty] at hr
          cases hr
      · rw [List.mem_singleton.1 hlast] at hr
        exact hr
    rw [List.mem_singleton.1 hrare]
    exact hrecord
  have hfull := text_faithful (hplain true)
  refine ⟨hplain true, hfull.1.2 (by decide +kernel), ?_⟩
  intro he
  have hsame := congrArg (fun l : Ledger => l.entries.length) (hfull.2 _ (hplain false) he)
  revert hsame
  decide +kernel

end Ledger

end FaultSweep
