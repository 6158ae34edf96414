import FaultSweep.Proofs.Ledger.Storable
import FaultSweep.Proofs.Files.Replacing

/-!
# Stores as append-only logs

A store is two copies of one ledger, in memory and in a file, with writes that may be made to fail.
A journal has one copy, a list of records for each ledger key, and each record that is taken goes to
the end of its list. One step of a store does what one step of its journal does, so that whatever is
done with a store, it shows what its journal shows.
-/

namespace FaultSweep

/-- What may be done with a store. -/
inductive StoreAction where
  | load
  | append (k : ConfigurationKey) (r : TrialRecord)
  | failWrites (failing : Bool)

/-- A ledger that was loaded, and the file it was loaded from. -/
structure Store where
  ledger : Ledger
  file : MemoryFile

namespace Store

def load (m : MemoryFile) : Except Fatal Store :=
  (Ledger.load MemoryFile.backend m).map fun l => ⟨l, m⟩

def append (s : Store) (k : ConfigurationKey) (r : TrialRecord) : Except Fatal Unit × Store :=
  match Ledger.append MemoryFile.backend s.ledger k r s.file with
  | (.error e, m) => (.error e, ⟨s.ledger, m⟩)
  | (.ok l, m) => (.ok (), ⟨l, m⟩)

def step (s : Store) : StoreAction → Except Fatal Unit × Store
  | .load =>
    match load s.file with
    | .error e => (.error e, s)
    | .ok t => (.ok (), t)
  | .append k r => s.append k r
  | .failWrites failing => (.ok (), ⟨s.ledger, { s.file with failing := failing }⟩)

/-- The replies to a series of actions, and the store after them. -/
def run (s : Store) : List StoreAction → List (Except Fatal Unit) × Store
  | [] => ([], s)
  | a :: as => ((s.step a).1 :: ((s.step a).2.run as).1, ((s.step a).2.run as).2)

theorem load_eq (m : MemoryFile) : load m = .ok ⟨Ledger.ofStored m.bytes, m⟩ := rfl

/-- All an append can do: refuse the record, fail to write, or take the record. -/
theorem append_cases (s : Store) (k : ConfigurationKey) (r : TrialRecord) :
    (r.status.isRecordable = false ∧
      s.append k r = (.error (Fatal.of (.unrecordable r.status.name k.shown)), s)) ∨
    (r.status.isRecordable = true ∧ s.file.failing = true ∧
      s.append k r = (.error ((Fatal.of (.io (.other "injected write failure"))).within
        "writing ledger memory"), s)) ∨
    (r.status.isRecordable = true ∧ s.file.failing = false ∧
      s.append k r = (.ok (), ⟨s.ledger.push k r,
        ⟨some (s.ledger.push k r).encode, false, s.file.writes + 1⟩⟩)) := by
  obtain ⟨l, b, failing, writes⟩ := s
  cases hr : r.status.isRecordable with
  | false => simp [append, Ledger.append, hr]
  | true => cases failing <;> simp [append, Ledger.append, hr, MemoryFile.backend]

end Store

/-- A list of records for each ledger key that is known. -/
abbrev Log := String → Option (List TrialRecord)

namespace Log

/-- What bytes hold, if they hold a ledger. -/
def ofBytes (stored : Option Utf8.Bytes) : Log :=
  fun k => (stored.bind Ledger.decode?).bind (·.get? k)

def records (g : Log) (k : ConfigurationKey) : List TrialRecord := (g k.ledgerKey).getD []

/-- One more record at the end of the list of its ledger key. -/
def extend (g : Log) (k : ConfigurationKey) (r : TrialRecord) : Log :=
  Function.update g k.ledgerKey (some (g.records k ++ [r]))

theorem ofBytes_eq (stored : Option Utf8.Bytes) (k : String) :
    ofBytes stored k = (Ledger.ofStored stored).get? k := by
  cases stored with
  | none => rfl
  | some b =>
    simp only [ofBytes, Ledger.ofStored, Option.bind_some]
    cases Ledger.decode? b <;> rfl

theorem extend_eq {g : Log} {l : Ledger} (h : ∀ j, l.get? j = g j) (k : ConfigurationKey)
    (r : TrialRecord) (j : String) : (l.push k r).get? j = g.extend k r j := by
  have hrecords : l.records k = g.records k := by
    rw [Ledger.records, Ledger.recordsAt, h, records]
  by_cases hj : j = k.ledgerKey
  · subst hj
    rw [Ledger.push, SortedMap.get?_insert_self, extend, Function.update_self, hrecords]
  · rw [Ledger.get?_push_of_ne l r hj, extend, Function.update_of_ne hj, h]

end Log

/-- A log, whether writes fail, and how many records were taken. -/
structure Journal where
  log : Log
  failing : Bool
  taken : Nat

namespace Journal

def start (m : MemoryFile) : Journal := ⟨.ofBytes m.bytes, m.failing, 0⟩

/-- Whether a record is taken. -/
def takes (j : Journal) (r : TrialRecord) : Bool :=
  (r.status = .success ∨ r.status = .shortfall) && !j.failing

/-- Whether an action succeeds, and the journal after it. -/
def step (j : Journal) : StoreAction → Bool × Journal
  | .load => (true, j)
  | .append k r =>
    if j.takes r then (true, ⟨j.log.extend k r, j.failing, j.taken + 1⟩) else (false, j)
  | .failWrites failing => (true, ⟨j.log, failing, j.taken⟩)

def run (j : Journal) : List StoreAction → List Bool × Journal
  | [] => ([], j)
  | a :: as => ((j.step a).1 :: ((j.step a).2.run as).1, ((j.step a).2.run as).2)

end Journal

theorem TrialStatus.isRecordable_iff (s : TrialStatus) :
    s.isRecordable = true ↔ s = .success ∨ s = .shortfall := by
  cases s <;> decide

/-- What a store that began with the file `m` shows at some point, and what its journal has then. -/
structure Store.Mirrors (m : MemoryFile) (j : Journal) (s : Store) : Prop where
  lookup : ∀ k, s.ledger.get? k = j.log k
  stored : Ledger.ofStored s.file.bytes = s.ledger
  storable : s.ledger.Storable
  failing : s.file.failing = j.failing
  bytes : s.file.bytes = if j.taken = 0 then m.bytes else some s.ledger.encode
  writes : s.file.writes = m.writes + j.taken

namespace Store.Mirrors

variable {m : MemoryFile} {j : Journal} {s : Store}

theorem start (h : (Ledger.ofStored m.bytes).Storable) :
    Mirrors m (.start m) ⟨Ledger.ofStored m.bytes, m⟩ :=
  ⟨fun k => (Log.ofBytes_eq m.bytes k).symm, rfl, h, rfl, rfl, rfl⟩

theorem records (h : Mirrors m j s) (k : ConfigurationKey) :
    s.ledger.records k = j.log.records k := by
  rw [Ledger.records, Ledger.recordsAt, h.lookup, Log.records]

/-- Loading finds the ledger that is in memory. -/
theorem load_file (h : Mirrors m j s) : load s.file = .ok s := by
  rw [load_eq, h.stored]

theorem takes_iff (h : Mirrors m j s) (r : TrialRecord) :
    j.takes r = true ↔ r.status.isRecordable = true ∧ s.file.failing = false := by
  simp [Journal.takes, TrialStatus.isRecordable_iff, h.failing]

/-- A record that is not taken leaves everything as it was, and one that is taken goes to the end
of its list, in memory and in the file. -/
theorem append (h : Mirrors m j s) (k : ConfigurationKey) (r : TrialRecord) :
    (j.takes r = false ∧ ∃ e, s.append k r = (.error e, s)) ∨
    (j.takes r = true ∧ s.append k r = (.ok (), ⟨s.ledger.push k r,
      ⟨some (s.ledger.push k r).encode, false, s.file.writes + 1⟩⟩)) := by
  have htakes := h.takes_iff r
  rcases s.append_cases k r with ⟨hr, he⟩ | ⟨hr, hf, he⟩ | ⟨hr, hf, he⟩
  · exact .inl ⟨by simpa [hr] using htakes, _, he⟩
  · exact .inl ⟨by simpa [hf] using htakes, _, he⟩
  · exact .inr ⟨htakes.2 ⟨hr, hf⟩, he⟩

theorem push (h : Mirrors m j s) {r : TrialRecord} (hr : r.Storable) (hj : j.failing = false)
    (k : ConfigurationKey) :
    Mirrors m ⟨j.log.extend k r, j.failing, j.taken + 1⟩ ⟨s.ledger.push k r,
      ⟨some (s.ledger.push k r).encode, false, s.file.writes + 1⟩⟩ := by
  have hone : ∀ e ∈ [(k, r)], e.2.Storable := by simpa using hr
  have hstorable : (s.ledger.push k r).Storable := Ledger.storable_pushAll h.storable hone
  exact {
    lookup := Log.extend_eq h.lookup k r
    stored := by simp [Ledger.ofStored, Ledger.decode?_encode_storable hstorable]
    storable := hstorable
    failing := hj.symm
    bytes := by simp
    writes := by simp only [h.writes, Nat.add_assoc] }

/-- One action succeeds for the store exactly if it does for the journal, and the store shows what
the journal has after it too. -/
theorem step (h : Mirrors m j s) {a : StoreAction} (ha : ∀ k r, a = .append k r → r.Storable) :
    (s.step a).1.isOk = (j.step a).1 ∧ Mirrors m (j.step a).2 (s.step a).2 := by
  cases a with
  | load =>
    simp only [Store.step, h.load_file]
    exact ⟨rfl, h⟩
  | append k r =>
    rcases h.append k r with ⟨htakes, e, he⟩ | ⟨htakes, he⟩
    · simp only [Store.step, Journal.step, he, htakes]
      exact ⟨rfl, h⟩
    · have hfailing : j.failing = false := by
        rw [← h.failing]
        exact ((h.takes_iff r).1 htakes).2
      simp only [Store.step, Journal.step, he, htakes]
      exact ⟨rfl, h.push (ha k r rfl) hfailing k⟩
  | failWrites failing =>
    exact ⟨rfl, h.lookup, h.stored, h.storable, rfl, h.bytes, h.writes⟩

theorem run (h : Mirrors m j s) {as : List StoreAction}
    (has : ∀ k r, .append k r ∈ as → r.Storable) :
    (s.run as).1.map Except.isOk = (j.run as).1 ∧ Mirrors m (j.run as).2 (s.run as).2 := by
  induction as generalizing j s with
  | nil => exact ⟨rfl, h⟩
  | cons a as ih =>
    obtain ⟨hreply, hnext⟩ := h.step (a := a) fun k r he => has k r (by simp [he])
    obtain ⟨hreplies, hlast⟩ := ih hnext fun k r hmem => has k r (List.mem_cons_of_mem a hmem)
    exact ⟨by simp only [Store.run, Journal.run, List.map_cons, hreply, hreplies], hlast⟩

end Store.Mirrors

/-- All that can be seen of a store is what its journal has. The bytes it began with, whatever they
are, stay until a record is taken. -/
structure Store.Shows (m : MemoryFile) (j : Journal) (s : Store) : Prop where
  ledger : ∀ l : Ledger, (∀ k, l.get? k = j.log k) ↔ l = s.ledger
  records : ∀ k, s.ledger.records k = j.log.records k
  completed : ∀ k, s.ledger.completed k = (j.log.records k).length
  remaining : ∀ k target, s.ledger.remaining k target = target - (j.log.records k).length
  bytes : s.file.bytes = if j.taken = 0 then m.bytes else some s.ledger.encode
  writes : s.file.writes = m.writes + j.taken
  load : Store.load s.file = .ok s

theorem Store.Mirrors.shows {m : MemoryFile} {j : Journal} {s : Store} (h : s.Mirrors m j) :
    s.Shows m j where
  ledger l := by
    constructor
    · intro hl
      exact SortedMap.ext_get? fun k => (hl k).trans (h.lookup k).symm
    · rintro rfl
      exact h.lookup
  records := h.records
  completed k := by rw [Ledger.completed, h.records]
  remaining k target := by rw [Ledger.remaining, Ledger.completed, h.records]
  bytes := h.bytes
  writes := h.writes
  load := h.load_file

namespace Store

/-- An append succeeds exactly if the record is one to keep and the write succeeds. If it fails, the
store is as it was. -/
theorem append_outcome (s : Store) (k : ConfigurationKey) (r : TrialRecord) :
    ((s.append k r).1 = .ok () ↔ (r.status = .success ∨ r.status = .shortfall) ∧
      (MemoryFile.backend.replace (s.ledger.push k r).encode s.file).1 = .ok ()) ∧
    ((s.append k r).1 ≠ .ok () → (s.append k r).2 = s) := by
  have hwrite : (MemoryFile.backend.replace (s.ledger.push k r).encode s.file).1 = .ok () ↔
      s.file.failing = false := by
    cases hf : s.file.failing <;> simp [MemoryFile.backend, hf]
  rw [hwrite, ← TrialStatus.isRecordable_iff]
  rcases s.append_cases k r with ⟨hr, he⟩ | ⟨hr, hf, he⟩ | ⟨hr, hf, he⟩
  · simp [he, hr]
  · simp [he, hf]
  · simp [he, hr, hf]

/-- Whatever is done with a store that was loaded from any bytes, each action succeeds as it does
for an append-only log that began with the ledger in these bytes, if they hold one, and afterwards
the store shows what the log has. -/
theorem run_refines_log (m : MemoryFile) (as : List StoreAction)
    (hinit : ∀ e ∈ (Ledger.ofStored m.bytes).entries, ∀ r ∈ e.2, r.metrics.Regular)
    (has : ∀ k r, .append k r ∈ as → r.Storable) :
    ∃ s, load m = .ok s ∧
      (s.run as).1.map Except.isOk = ((Journal.start m).run as).1 ∧
      (s.run as).2.Shows m ((Journal.start m).run as).2 ∧
      ∀ k r, (((s.run as).2.append k r).1 = .ok () ↔
          (r.status = .success ∨ r.status = .shortfall) ∧
            (MemoryFile.backend.replace ((s.run as).2.ledger.push k r).encode
              (s.run as).2.file).1 = .ok ()) ∧
        (((s.run as).2.append k r).1 ≠ .ok () → ((s.run as).2.append k r).2 = (s.run as).2) := by
  obtain ⟨hreplies, hlast⟩ := (Mirrors.start (Ledger.storable_loaded hinit)).run has
  exact ⟨_, load_eq m, hreplies, hlast.shows, fun k r => append_outcome _ k r⟩

/-- Three tries to add a record: one of a trial that failed, one while writes fail, and one that
succeeds. -/
def thirdTry (k : ConfigurationKey) : List StoreAction :=
  [.append k { TrialRecord.atEpoch with status := .failed }, .failWrites true, .append k .atEpoch,
    .failWrites false, .append k .atEpoch, .load]

theorem thirdTry_storable (k : ConfigurationKey) :
    ∀ j r, .append j r ∈ thirdTry k → r.Storable := by
  intro j r h
  have hr : r = .atEpoch ∨ r = { TrialRecord.atEpoch with status := .failed } := by
    simp [thirdTry] at h
    tauto
  rcases hr with rfl | rfl
  · exact TrialRecord.storable_atEpoch
  · obtain ⟨hstart, hfinish, hregular, hdepth⟩ := TrialRecord.storable_atEpoch
    exact ⟨hstart, hfinish, hregular, hdepth⟩

/-- A file that is cut off counts as empty, and the third try replaces it. -/
theorem torn_file_refines_log :
    ∃ s, load ⟨some (Utf8.encode "\x7b\x22depth_5\x22: ["), false, 0⟩ = .ok s ∧
      (s.run (thirdTry ⟨[]⟩)).1.map Except.isOk = [false, true, false, true, true, true] ∧
      (s.run (thirdTry ⟨[]⟩)).2.ledger.completed ⟨[]⟩ = 1 ∧
      (s.run (thirdTry ⟨[]⟩)).2.file.writes = 1 := by
  have hempty : (Ledger.ofStored (some (Utf8.encode "\x7b\x22depth_5\x22: ["))).entries = [] := by
    have hnone : (Ledger.decode? (Utf8.encode "\x7b\x22depth_5\x22: [")).isNone = true := by
      decide +kernel
    rw [Ledger.ofStored, Option.isNone_iff_eq_none.1 hnone]
    rfl
  obtain ⟨s, hs, hreplies, hshows, -⟩ := run_refines_log
    ⟨some (Utf8.encode "\x7b\x22depth_5\x22: ["), false, 0⟩ (thirdTry ⟨[]⟩)
    (by simp [hempty]) (thirdTry_storable ⟨[]⟩)
  refine ⟨s, hs, hreplies, ?_, hshows.writes⟩
  rw [hshows.completed]
  decide +kernel

end Store

end FaultSweep
