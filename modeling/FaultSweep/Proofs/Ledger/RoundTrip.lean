import FaultSweep.Ledger.Text
import FaultSweep.Proofs.Json.Values
import FaultSweep.Proofs.Time.Text

/-!
# Ledgers that are read back

The bytes of a ledger are a document whatever its records measured. It is read as a ledger exactly
if every measurement can be read three levels down, where a record stands in a list and the list in
the ledger.
-/

namespace FaultSweep

open Json (Document)

theorem Utf8.decode?_encode (s : String) : Utf8.decode? (Utf8.encode s) = some s := by
  rw [Utf8.decode?, Utf8.encode, String.fromUTF8?, String.toUTF8_eq_toByteArray,
    dif_pos s.isValidUTF8]
  rfl

theorem Utf8.pieces_encode (s : String) : Utf8.pieces (Utf8.encode s) = Utf8.ofText s := by
  rw [Utf8.pieces, Utf8.decode?_encode]

namespace Json.Document

theorem ofBytes?_pretty (v : Json) : ofBytes? (Utf8.encode v.pretty) = some (written v) := by
  rw [ofBytes?, Utf8.pieces_encode]
  exact parse?_pretty v

theorem writtenItems_eq (vs : List Json) : writtenItems vs = vs.map written := by
  induction vs with
  | nil => rfl
  | cons v vs ih => rw [writtenItems, ih, List.map_cons]

theorem writtenFields_eq (fs : List (String × Json)) :
    writtenFields fs = fs.map fun f => (some f.1, written f.2) := by
  induction fs with
  | nil => rfl
  | cons f fs ih => rw [writtenFields, ih, List.map_cons]

end Json.Document

theorem mapM_congr {α β : Type} {f g : α → Option β} {xs : List α}
    (h : ∀ x ∈ xs, f x = g x) : xs.mapM f = xs.mapM g := by
  induction xs with
  | nil => rfl
  | cons x xs ih =>
    rw [List.mapM_cons, List.mapM_cons, h x (by simp), ih (fun y hy => h y (by simp [hy]))]

theorem mapM_eq_some_self {α : Type} {f : α → Option α} {xs : List α}
    (h : ∀ x ∈ xs, f x = some x) : xs.mapM f = some xs := by
  rw [mapM_congr h]
  exact List.mapM_pure.trans (by rw [List.map_id']; rfl)

theorem isSome_mapM {α β : Type} (f : α → Option β) (xs : List α) :
    (xs.mapM f).isSome = true ↔ ∀ x ∈ xs, (f x).isSome = true := by
  induction xs with
  | nil => simp
  | cons x xs ih =>
    rw [List.forall_mem_cons, ← ih, List.mapM_cons]
    cases f x <;> cases xs.mapM f <;> simp

namespace TrialRecord

theorem read_status (s : TrialStatus) (levels : Nat) :
    TrialStatus.read Json.reader ⟨levels, .str (some s.name)⟩ = some s := by
  cases s <;> rfl

theorem read_phase (p : TrialPhase) (levels : Nat) :
    TrialPhase.read Json.reader ⟨levels, .str (some p.name)⟩ = some p := by
  cases p <;> rfl

theorem readInstant_text {t : Instant} (h : t.Valid) (levels : Nat) :
    readInstant Json.reader ⟨levels, .str (some t.text)⟩ = some t := by
  simp [readInstant, Json.reader, Instant.ofText?_text h]

/-- The fields of a written record, as its reader finds them. -/
def nodes (levels : Nat) (r : TrialRecord) : List (String × Json.Node) :=
  r.fields.map fun f => (f.1, ⟨levels, Document.written f.2⟩)

theorem fields?_written (r : TrialRecord) (levels : Nat) :
    Json.reader.fields? ["status", "started_at", "finished_at", "phase", "metrics", "detail"]
      ⟨levels + 1, Document.written r.toJson⟩ = some (r.nodes levels) := by
  obtain ⟨status, startedAt, finishedAt, phase, metrics, detail⟩ := r
  cases detail <;>
    simp [toJson, fields, nodes, Document.written, Document.writtenFields, Json.reader,
      Json.Node.fields?, Json.Node.entries?, Reader.select]

/-- What is read of a written record: the measurement as far as its text can be read. -/
def reread (levels : Nat) (r : TrialRecord) : Option TrialRecord :=
  (Document.value? levels (Document.written r.metrics)).map fun m => { r with metrics := m }

theorem read_written {r : TrialRecord} (hstart : r.startedAt.Valid) (hfinish : r.finishedAt.Valid)
    (levels : Nat) :
    TrialRecord.read ⟨levels + 1, Document.written r.toJson⟩ = r.reread levels := by
  rw [TrialRecord.read]
  simp only [fields?_written]
  obtain ⟨status, startedAt, finishedAt, phase, metrics, detail⟩ := r
  have hs := read_status status levels
  have hp := read_phase phase levels
  have hbegin := readInstant_text hstart levels
  have hend := readInstant_text hfinish levels
  have hdetail : ∀ d, Json.reader.option Json.reader.text? ⟨levels, .str (some d)⟩ =
      some (some d) := fun d => rfl
  cases detail <;>
    cases hm : Document.value? levels (Document.written metrics) <;>
    simp [nodes, fields, reread, Reader.field, Document.written, TrialStatus.toJson,
      TrialPhase.toJson, hs, hp, hbegin, hend, hdetail, hm]

theorem isSome_reread (levels : Nat) (r : TrialRecord) :
    (r.reread levels).isSome = true ↔ r.metrics.depth ≤ levels ∧ r.metrics.Legible := by
  rw [reread, Option.isSome_map]
  exact Document.value?_written r.metrics levels

theorem reread_regular {r : TrialRecord} {levels : Nat} (h : r.metrics.Regular)
    (hd : r.metrics.depth ≤ levels) : r.reread levels = some r := by
  rw [reread, Document.value?_regular r.metrics h levels hd]
  rfl

end TrialRecord

namespace Ledger

theorem list_written {rs : List TrialRecord}
    (h : ∀ r ∈ rs, r.startedAt.Valid ∧ r.finishedAt.Valid) (levels : Nat) :
    Json.reader.list TrialRecord.read
        ⟨levels + 2, Document.written (.arr (rs.map TrialRecord.toJson))⟩ =
      rs.mapM (TrialRecord.reread levels) := by
  have hitems : Json.reader.items?
      ⟨levels + 2, Document.written (.arr (rs.map TrialRecord.toJson))⟩ =
      some (rs.map fun r => ⟨levels + 1, Document.written r.toJson⟩) := by
    simp [Json.reader, Json.Node.items?, Document.written, Document.writtenItems_eq,
      Function.comp_def]
  rw [Reader.list, hitems, Option.bind_some, List.mapM_map]
  exact mapM_congr fun r hr => TrialRecord.read_written (h r hr).1 (h r hr).2 levels

/-- Every instant in the ledger is one that there is. -/
def Timed (l : Ledger) : Prop :=
  ∀ e ∈ l.entries, ∀ r ∈ e.2, r.startedAt.Valid ∧ r.finishedAt.Valid

/-- What is read of the list under a key. -/
def rereadEntry (levels : Nat) (e : String × List TrialRecord) :
    Option (String × List TrialRecord) :=
  (e.2.mapM (TrialRecord.reread levels)).map (e.1, ·)

theorem read_written {l : Ledger} (h : l.Timed) (levels : Nat) :
    Ledger.read ⟨levels + 3, Document.written l.toJson⟩ =
      (l.entries.mapM (rereadEntry levels)).map SortedMap.ofList := by
  have hentries : Json.reader.entries? ⟨levels + 3, Document.written l.toJson⟩ =
      some (l.entries.map fun e =>
        (e.1, ⟨levels + 2, Document.written (.arr (e.2.map TrialRecord.toJson))⟩)) := by
    have hmap : l.toJson =
        .obj (l.entries.map fun e => (e.1, .arr (e.2.map TrialRecord.toJson))) := rfl
    rw [hmap]
    simp only [Json.reader, Json.Node.entries?, Document.written, Document.writtenFields_eq,
      List.map_map, List.mapM_map]
    exact List.mapM_pure
  have hread : ∀ e ∈ l.entries, (Json.reader.list TrialRecord.read
      ⟨levels + 2, Document.written (.arr (e.2.map TrialRecord.toJson))⟩).map (e.1, ·) =
      rereadEntry levels e := by
    intro e he
    rw [list_written (h e he), rereadEntry]
  rw [Ledger.read]
  simp only [hentries, Option.bind_eq_bind, Option.bind_some, List.mapM_map, Function.comp_def]
  rw [mapM_congr hread]
  cases l.entries.mapM (rereadEntry levels) <;> rfl

/-- The bytes of a ledger are a ledger again exactly if each measurement nests at most 124 levels
and has no number that is lost. -/
theorem isSome_decode?_encode {l : Ledger} (h : l.Timed) :
    (decode? l.encode).isSome = true ↔
      ∀ e ∈ l.entries, ∀ r ∈ e.2, r.metrics.depth ≤ 124 ∧ r.metrics.Legible := by
  have hread : Ledger.read (.top (Document.written l.toJson)) =
      (l.entries.mapM (rereadEntry 124)).map SortedMap.ofList := read_written h 124
  rw [decode?, encode, Document.ofBytes?_pretty, Option.bind_some, hread, Option.isSome_map,
    isSome_mapM]
  refine forall₂_congr fun e _ => ?_
  rw [rereadEntry, Option.isSome_map, isSome_mapM]
  exact forall₂_congr fun r _ => TrialRecord.isSome_reread 124 r

/-- Where there are levels enough for its measurements, a ledger of whole numbers is read as it
was. -/
theorem read_regular {l : Ledger} (h : l.Timed)
    (hm : ∀ e ∈ l.entries, ∀ r ∈ e.2, r.metrics.Regular) (levels : Nat)
    (hd : ∀ e ∈ l.entries, ∀ r ∈ e.2, r.metrics.depth ≤ levels) :
    Ledger.read ⟨levels + 3, Document.written l.toJson⟩ = some l := by
  have hsame : ∀ e ∈ l.entries, rereadEntry levels e = some e := by
    intro e he
    have hrecords := mapM_eq_some_self (f := TrialRecord.reread levels) fun r hr =>
      TrialRecord.reread_regular (hm e he r hr) (hd e he r hr)
    rw [rereadEntry, hrecords]
    rfl
  rw [read_written h, mapM_eq_some_self hsame, Option.map_some, SortedMap.ofList_entries]

/-- A ledger whose measurements are whole numbers, texts and not too deep is read back as it was. -/
theorem decode?_encode {l : Ledger} (h : l.Timed)
    (hm : ∀ e ∈ l.entries, ∀ r ∈ e.2, r.metrics.Regular ∧ r.metrics.depth ≤ 124) :
    decode? l.encode = some l := by
  have hread : Ledger.read (.top (Document.written l.toJson)) = some l :=
    read_regular h (fun e he r hr => (hm e he r hr).1) 124 fun e he r hr => (hm e he r hr).2
  rw [decode?, encode, Document.ofBytes?_pretty, Option.bind_some, hread]

end Ledger

end FaultSweep
