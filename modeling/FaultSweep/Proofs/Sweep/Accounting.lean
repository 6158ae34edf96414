import FaultSweep.Proofs.Ledger.Growth
import FaultSweep.Proofs.Sweep.Course

/-!
# What a sweep leaves behind

A sweep over a ledger in memory whose trials are written down as they are made. The trials may give
any records in any order and may make writes fail or work again; at the end the ledger, the stored
bytes and the totals are what the list of trials says they have to be.
-/

namespace FaultSweep

/-- A trial that was made. -/
structure Tried where
  key : ConfigurationKey
  record : TrialRecord
  /-- Whether writes failed when it was over. -/
  failing : Bool

namespace Tried

/-- The record is one that is kept. -/
def kept (t : Tried) : Bool := t.record.status.isRecordable

/-- The record was kept and could be written. -/
def written (t : Tried) : Bool := t.kept && !t.failing

def entered (t : Tried) : Entered := (t.key, t.record)

/-- The records that are kept, in the order of their trials. -/
def keeps (ts : List Tried) : List Entered := (ts.filter kept).map entered

/-- The records that were written, in the order of their trials. -/
def writes (ts : List Tried) : List Entered := (ts.filter written).map entered

@[simp] theorem keeps_nil : keeps [] = [] := rfl
@[simp] theorem writes_nil : writes [] = [] := rfl

theorem keeps_concat_of_kept {t : Tried} (h : t.kept = true) (ts : List Tried) :
    keeps (ts ++ [t]) = keeps ts ++ [t.entered] := by
  simp [keeps, h]

theorem keeps_concat_of_dropped {t : Tried} (h : t.kept = false) (ts : List Tried) :
    keeps (ts ++ [t]) = keeps ts := by
  simp [keeps, h]

/-- A record that could not be written leaves nothing. -/
theorem writes_concat_of_failing {t : Tried} (h : t.failing = true) (ts : List Tried) :
    writes (ts ++ [t]) = writes ts := by
  simp [writes, written, h]

/-- Where no write failed, what is kept was written. -/
theorem writes_eq_keeps {ts : List Tried} (h : ∀ t ∈ ts, t.kept = true → t.failing = false) :
    writes ts = keeps ts := by
  unfold writes keeps
  congr 1
  apply List.filter_congr
  intro t ht
  cases hk : t.kept with
  | false => simp [written, hk]
  | true => simp [written, hk, h t ht hk]

end Tried

/-- A ledger file with the trials made so far, and what the trials themselves remember. -/
structure Logbook (σ : Type) where
  file : MemoryFile
  trials : List Tried
  memory : σ

namespace Logbook

open Sweep

variable {α σ : Type}

def backend : Backend (Logbook σ) :=
  MemoryFile.backend.within (·.file) fun f w => { w with file := f }

/-- Writes a trial down, and lets writes fail after it or not. -/
def trial (key : α → ConfigurationKey) (act : Trial α σ) (failing : σ → Bool) :
    Trial α (Logbook σ) :=
  fun c w => match act c w.memory with
  | (none, x) => (none, { w with memory := x })
  | (some r, x) =>
    (some r, ⟨{ w.file with failing := failing x }, w.trials ++ [⟨key c, r, failing x⟩], x⟩)

/-- What a file says that takes no writes. -/
def refused : IoError := .other "injected write failure"

/-- The logbook after a trial. -/
def note (w : Logbook σ) (t : Tried) (x : σ) : Logbook σ :=
  ⟨{ w.file with failing := t.failing }, w.trials ++ [t], x⟩

/-- The logbook after a ledger was written. -/
def store (w : Logbook σ) (l : Ledger) : Logbook σ :=
  { w with file := { w.file with bytes := some l.encode, writes := w.file.writes + 1 } }

@[simp] theorem trials_note (w : Logbook σ) (t : Tried) (x : σ) :
    (w.note t x).trials = w.trials ++ [t] := rfl
@[simp] theorem bytes_note (w : Logbook σ) (t : Tried) (x : σ) :
    (w.note t x).file.bytes = w.file.bytes := rfl
@[simp] theorem writes_note (w : Logbook σ) (t : Tried) (x : σ) :
    (w.note t x).file.writes = w.file.writes := rfl
@[simp] theorem memory_note (w : Logbook σ) (t : Tried) (x : σ) : (w.note t x).memory = x := rfl
@[simp] theorem trials_store (w : Logbook σ) (l : Ledger) : (w.store l).trials = w.trials := rfl
@[simp] theorem bytes_store (w : Logbook σ) (l : Ledger) :
    (w.store l).file.bytes = some l.encode := rfl
@[simp] theorem writes_store (w : Logbook σ) (l : Ledger) :
    (w.store l).file.writes = w.file.writes + 1 := rfl
@[simp] theorem memory_store (w : Logbook σ) (l : Ledger) : (w.store l).memory = w.memory := rfl

theorem replace_failing (b : Utf8.Bytes) {w : Logbook σ} (h : w.file.failing = true) :
    backend.replace b w = (.error refused, w) := by
  simp [backend, Backend.within, MemoryFile.backend, h, refused]

theorem replace_working (l : Ledger) {w : Logbook σ} (h : w.file.failing = false) :
    backend.replace l.encode w = (.ok (), w.store l) := by
  simp [backend, Backend.within, MemoryFile.backend, h, store]

/-- All that one trial over a logbook can come to. -/
inductive Step (s : Sweep α) (act : Trial α σ) (failing : σ → Bool) (c : α)
    (p : Progress (Logbook σ)) : Option Halt × Progress (Logbook σ) → Prop
  | hangs {x : σ} (hact : act c p.world.memory = (none, x)) :
      Step s act failing c p (some .unfinished, p.tried { p.world with memory := x })
  | records {r : TrialRecord} {x : σ} (hact : act c p.world.memory = (some r, x))
      (hkeep : r.status.isRecordable = true) (hworks : failing x = false) :
      Step s act failing c p (none, p.recorded (p.ledger.push (s.key c) r)
        ((p.world.note ⟨s.key c, r, false⟩ x).store (p.ledger.push (s.key c) r)))
  | fails {r : TrialRecord} {x : σ} (hact : act c p.world.memory = (some r, x))
      (hkeep : r.status.isRecordable = true) (hfails : failing x = true) :
      Step s act failing c p (some (.failed ((backend (σ := σ)).refusal refused)),
        p.tried (p.world.note ⟨s.key c, r, true⟩ x))
  | discards {r : TrialRecord} {x : σ} (hact : act c p.world.memory = (some r, x))
      (hkeep : r.status.isRecordable = false) :
      Step s act failing c p (none, p.discarded (p.world.note ⟨s.key c, r, failing x⟩ x))

theorem attempt_step (s : Sweep α) (act : Trial α σ) (failing : σ → Bool) (c : α)
    (p : Progress (Logbook σ)) :
    Step s act failing c p (s.attempt backend (trial s.key act failing) c p) := by
  cases hact : act c p.world.memory with
  | mk o x =>
    cases o with
    | none =>
      have htrial : trial s.key act failing c p.world = (none, { p.world with memory := x }) := by
        simp [trial, hact]
      rw [attempt_of_hangs s backend htrial]
      exact .hangs hact
    | some r =>
      have htrial : trial s.key act failing c p.world =
          (some r, p.world.note ⟨s.key c, r, failing x⟩ x) := by
        simp [trial, hact, note]
      cases hkeep : r.status.isRecordable with
      | false =>
        rw [attempt_of_discards s backend htrial hkeep]
        exact .discards hact hkeep
      | true =>
        cases hfails : failing x with
        | false =>
          rw [attempt_of_records htrial hkeep (replace_working _ hfails), hfails]
          exact .records hact hkeep hfails
        | true =>
          rw [attempt_of_fails htrial hkeep (replace_failing _ hfails), hfails]
          exact .fails hact hkeep hfails

/-- What holds of a run over a logbook as long as no write has failed: the ledger, the file and the
totals are those of the trials made so far. -/
structure Balanced (l : Ledger) (m : MemoryFile) (p : Progress (Logbook σ)) : Prop where
  ledger : p.ledger = l.pushAll (Tried.keeps p.world.trials)
  working : ∀ t ∈ p.world.trials, t.kept = true → t.failing = false
  bytes : p.world.file.bytes =
    if Tried.keeps p.world.trials = [] then m.bytes else some p.ledger.encode
  writes : p.world.file.writes = m.writes + (Tried.keeps p.world.trials).length
  attempts : p.summary.attempts = p.world.trials.length
  recorded : p.summary.recorded = (Tried.keeps p.world.trials).length
  discarded : p.summary.discarded = p.world.trials.countP fun t => !t.kept

theorem balanced_start (l : Ledger) (m : MemoryFile) (x : σ) :
    Balanced l m ⟨l, (⟨m, [], x⟩ : Logbook σ), .start⟩ where
  ledger := rfl
  working := by simp
  bytes := rfl
  writes := rfl
  attempts := rfl
  recorded := rfl
  discarded := rfl

theorem balanced_nextPass {l : Ledger} {m : MemoryFile} {p : Progress (Logbook σ)}
    (h : Balanced l m p) : Balanced l m p.nextPass :=
  ⟨h.ledger, h.working, h.bytes, h.writes, h.attempts, h.recorded, h.discarded⟩

theorem balanced_attempt {s : Sweep α} {act : Trial α σ} {failing : σ → Bool} {c : α}
    {l : Ledger} {m : MemoryFile} {p q : Progress (Logbook σ)} (h : Balanced l m p)
    (hstep : s.attempt backend (trial s.key act failing) c p = (none, q)) : Balanced l m q := by
  have hs := attempt_step s act failing c p
  rw [hstep] at hs
  cases hs with
  | records hact hkeep hworks =>
    rename_i r x
    have hk : Tried.keeps (p.world.trials ++ [⟨s.key c, r, false⟩]) =
        Tried.keeps p.world.trials ++ [(s.key c, r)] :=
      Tried.keeps_concat_of_kept (t := ⟨s.key c, r, false⟩) hkeep _
    constructor
    · simp [hk, Ledger.pushAll_concat, ← h.ledger]
    · intro t ht hkept
      simp only [Progress.world_recorded, trials_store, trials_note, List.mem_append,
        List.mem_singleton] at ht
      rcases ht with ht | rfl
      · exact h.working t ht hkept
      · rfl
    · simp [hk]
    · simp [hk, h.writes, Nat.add_assoc]
    · simp [Progress.recorded, Progress.tried, h.attempts]
    · simp [Progress.recorded, Progress.tried, hk, h.recorded]
    · simp [Progress.recorded, Progress.tried, Tried.kept, hkeep, h.discarded]
  | discards hact hkeep =>
    rename_i r x
    have hk : Tried.keeps (p.world.trials ++ [⟨s.key c, r, failing x⟩]) =
        Tried.keeps p.world.trials :=
      Tried.keeps_concat_of_dropped (t := ⟨s.key c, r, failing x⟩) hkeep _
    constructor
    · simp [hk, h.ledger]
    · intro t ht hkept
      simp only [Progress.world_discarded, trials_note, List.mem_append,
        List.mem_singleton] at ht
      rcases ht with ht | rfl
      · exact h.working t ht hkept
      · simp [Tried.kept, hkeep] at hkept
    · simp [hk, h.bytes]
    · simp [hk, h.writes]
    · simp [Progress.discarded, Progress.tried, h.attempts]
    · simp [Progress.discarded, Progress.tried, hk, h.recorded]
    · simp [Progress.discarded, Progress.tried, Tried.kept, hkeep, h.discarded]

theorem balanced_reaches {s : Sweep α} {act : Trial α σ} {failing : σ → Bool}
    {l : Ledger} {m : MemoryFile} {p q : Progress (Logbook σ)} (h : Balanced l m p)
    (hr : s.Reaches backend (trial s.key act failing) p q) : Balanced l m q := by
  induction hr with
  | refl => exact h
  | pass _ _ _ ih => exact balanced_nextPass ih
  | trial _ _ hstep ih => exact balanced_attempt ih hstep

/-- The file holds the ledger if any record was written to it, and what it held at first if none
was. -/
structure Persists (m : MemoryFile) (p : Progress (Logbook σ)) : Prop where
  bytes : p.world.file.bytes =
    if Tried.writes p.world.trials = [] then m.bytes else some p.ledger.encode
  writes : p.world.file.writes = m.writes + (Tried.writes p.world.trials).length

theorem Balanced.persists {l : Ledger} {m : MemoryFile} {p : Progress (Logbook σ)}
    (h : Balanced l m p) : Persists m p := by
  have hw : Tried.writes p.world.trials = Tried.keeps p.world.trials :=
    Tried.writes_eq_keeps h.working
  exact ⟨by rw [hw]; exact h.bytes, by rw [hw]; exact h.writes⟩

theorem Balanced.written {l : Ledger} {m : MemoryFile} {p : Progress (Logbook σ)}
    (h : Balanced l m p) : p.ledger = l.pushAll (Tried.writes p.world.trials) := by
  rw [Tried.writes_eq_keeps h.working]
  exact h.ledger

theorem Balanced.grows {l : Ledger} {m : MemoryFile} {p : Progress (Logbook σ)}
    (h : Balanced l m p) : l.Grows (Tried.keeps p.world.trials) p.ledger := by
  rw [h.ledger]
  exact l.grows_pushAll _

/-- A trial whose record cannot be written changes neither the ledger nor the file. -/
theorem Balanced.persists_tried {l : Ledger} {m : MemoryFile} {p : Progress (Logbook σ)}
    (h : Balanced l m p) {t : Tried} (hfails : t.failing = true) (x : σ) :
    Persists m (p.tried (p.world.note t x)) := by
  have hw := Tried.writes_concat_of_failing hfails p.world.trials
  constructor
  · simpa [hw] using h.persists.bytes
  · simpa [hw] using h.persists.writes

/-- The accounts of a whole run: what its trials left is in the ledger, in the file and in the
totals, and nothing else is. A run that fails does so by its last trial, whose record was to be kept
and could not be written. -/
theorem run_accounts (s : Sweep α) (fuel : Nat) (act : Trial α σ) (failing : σ → Bool)
    (l : Ledger) (m : MemoryFile) (x : σ) :
    match s.run fuel backend (trial s.key act failing) l ⟨m, [], x⟩ with
    | (none, p) =>
      l.Grows (Tried.keeps p.world.trials) p.ledger ∧
      (∀ t ∈ p.world.trials, t.kept = true → t.failing = false) ∧
      p.summary.attempts = p.world.trials.length ∧
      p.summary.recorded = (Tried.keeps p.world.trials).length ∧
      p.summary.discarded = p.world.trials.countP (fun t => !t.kept) ∧
      Persists m p
    | (some (.failed e), p) =>
      (∃ ts t, p.world.trials = ts ++ [t] ∧ t.kept = true ∧ t.failing = true ∧
        (∀ u ∈ ts, u.kept = true → u.failing = false) ∧
        e = (backend (σ := σ)).refusal refused ∧ l.Grows (Tried.keeps ts) p.ledger) ∧
      Persists m p
    | (some .unfinished, p) | (some .overflow, p) =>
      l.Grows (Tried.keeps p.world.trials) p.ledger ∧
      (∀ t ∈ p.world.trials, t.kept = true → t.failing = false) ∧
      Persists m p := by
  have hstart := balanced_start l m x
  have hends := s.run_ends fuel backend (trial s.key act failing) l ⟨m, [], x⟩
  cases hrun : s.run fuel backend (trial s.key act failing) l ⟨m, [], x⟩ with
  | mk o p =>
    rw [hrun] at hends
    cases hends with
    | done hr =>
      have hb := balanced_reaches hstart hr
      exact ⟨hb.grows, hb.working, hb.attempts, hb.recorded, hb.discarded,
        hb.persists.bytes, hb.persists.writes⟩
    | spent hr | overflows hr =>
      have hb := balanced_reaches hstart hr
      exact ⟨hb.grows, hb.working, hb.persists⟩
    | halted hr hshort hstep =>
      rename_i q c halt
      have hb := balanced_reaches hstart hr
      have hs := attempt_step s act failing c q
      rw [hstep] at hs
      cases hs with
      | hangs => exact ⟨hb.grows, hb.working, hb.persists.bytes, hb.persists.writes⟩
      | fails hact hkeep hfails =>
        exact ⟨⟨q.world.trials, _, rfl, hkeep, rfl, hb.working, rfl, hb.grows⟩,
          hb.persists_tried rfl _⟩

end Logbook

end FaultSweep
