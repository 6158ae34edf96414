import FaultSweep.Proofs.Ledger.Storable
import FaultSweep.Proofs.Sweep.Turns

/-!
# Sweeps that are interrupted and resumed

A sweep may end at any write that fails, or hang, and be invoked again on the file it left. Each
invocation loads what the one before it stored, so that the ledger only grows from one to the next,
and the records of all of them together come in the order in which one that is not interrupted would
have made them.
-/

namespace FaultSweep

namespace Logbook

open Sweep

variable {α σ : Type} {s : Sweep α} {act : Trial α σ} {failing : σ → Bool} {l : Ledger}
  {m : MemoryFile}

/-- However a run ends, its ledger holds what was written. -/
theorem ends_written {p q : Progress (Logbook σ)} {o : Option Halt} (hb : Balanced l m p)
    (h : s.Ends backend (trial s.key act failing) p (o, q)) :
    q.ledger = l.pushAll (Tried.writes q.world.trials) ∧ Persists m q := by
  cases h with
  | done hr =>
    have hq := balanced_reaches hb hr
    have hl := hq.written
    exact ⟨hl, hq.persists.bytes, hq.persists.writes⟩
  | spent hr | overflows hr =>
    have hq := balanced_reaches hb hr
    exact ⟨hq.written, hq.persists⟩
  | halted hr hshort hstep =>
    rename_i r c halt
    have hq := balanced_reaches hb hr
    have hl := hq.written
    have hs := attempt_step s act failing c r
    rw [hstep] at hs
    cases hs with
    | hangs => exact ⟨hl, hq.persists.bytes, hq.persists.writes⟩
    | fails hact hkeep hfails =>
      refine ⟨?_, hq.persists_tried rfl _⟩
      simp only [Progress.world_tried, trials_note]
      rw [Tried.writes_concat_of_failing rfl]
      exact hl

/-- What is loaded after a run is the ledger that the run had in memory, wherever it was stopped. -/
theorem ofStored_of_persists {q : Progress (Logbook σ)} (h : Persists m q)
    (hl : q.ledger = (Ledger.ofStored m.bytes).pushAll (Tried.writes q.world.trials))
    (hq : q.ledger.Storable) : Ledger.ofStored q.world.file.bytes = q.ledger := by
  rw [h.bytes]
  split
  · next hnone => rw [hl, hnone, Ledger.pushAll_nil]
  · simp [Ledger.ofStored, Ledger.decode?_encode_storable hq]

/-- What holds of every record that a trial can give holds of those it gave. -/
theorem records_ends {P : TrialRecord → Prop} {p q : Progress (Logbook σ)} {o : Option Halt}
    (hact : ∀ c x r y, act c x = (some r, y) → P r) (hp : ∀ t ∈ p.world.trials, P t.record)
    (h : s.Ends backend (trial s.key act failing) p (o, q)) :
    ∀ t ∈ q.world.trials, P t.record := by
  have hattempt : ∀ {c : α} {a b : Progress (Logbook σ)} {o : Option Halt},
      (∀ t ∈ a.world.trials, P t.record) →
      s.attempt backend (trial s.key act failing) c a = (o, b) →
      ∀ t ∈ b.world.trials, P t.record := by
    intro c a b o ha hstep t ht
    rcases trials_attempt hstep with he | ⟨u, y, -, hu, he⟩
    · exact ha t (he ▸ ht)
    · rw [he] at ht
      rcases List.mem_append.1 ht with ht | ht
      · exact ha t ht
      · rw [List.mem_singleton.1 ht]
        exact hact _ _ _ _ hu
  have hreaches : ∀ {b : Progress (Logbook σ)},
      s.Reaches backend (trial s.key act failing) p b → ∀ t ∈ b.world.trials, P t.record := by
    intro b hr
    induction hr with
    | refl => exact hp
    | pass _ _ _ ih => exact ih
    | trial _ _ hstep ih => exact hattempt ih hstep
  cases h with
  | done hr =>
    have hq := hreaches hr
    exact hq
  | spent hr | overflows hr => exact hreaches hr
  | halted hr _ hstep => exact hattempt (hreaches hr) hstep

end Logbook

/-- One invocation of a sweep: what its trials do, and how long it may go on. -/
structure Invocation (α σ : Type) where
  act : Trial α σ
  failing : σ → Bool
  memory : σ
  fuel : Nat

/-- One pass of trials that all succeed. The write of the trial with the given number fails. -/
def Invocation.failingAt {α : Type} (n : Option Nat) : Invocation α Nat :=
  ⟨fun _ k => (some .atEpoch, k + 1), fun k => decide (n = some k), 0, 1⟩

namespace Sweep

variable {α σ : Type}

/-- Loads the ledger of a file and runs the sweep from it. -/
def invoke (s : Sweep α) (i : Invocation α σ) (m : MemoryFile) :
    Option Halt × Progress (Logbook σ) :=
  let w : Logbook σ := ⟨m, [], i.memory⟩
  match Ledger.load Logbook.backend w with
  | .error e => (some (.failed e), ⟨SortedMap.empty, w, .start⟩)
  | .ok l => s.run i.fuel Logbook.backend (Logbook.trial s.key i.act i.failing) l w

/-- Where the invocations of a series end, one after the other. -/
def history (s : Sweep α) : List (Invocation α σ) → MemoryFile → List (Progress (Logbook σ))
  | [], _ => []
  | i :: is, m => (s.invoke i m).2 :: history s is (s.invoke i m).2.world.file

/-- The file that a series of invocations leaves. -/
def fileAfter (s : Sweep α) : List (Invocation α σ) → MemoryFile → MemoryFile
  | [], m => m
  | i :: is, m => fileAfter s is (s.invoke i m).2.world.file

theorem invoke_eq (s : Sweep α) (i : Invocation α σ) (m : MemoryFile) :
    s.invoke i m = s.run i.fuel Logbook.backend (Logbook.trial s.key i.act i.failing)
      (Ledger.ofStored m.bytes) ⟨m, [], i.memory⟩ := rfl

/-- What one invocation leaves of a file whose ledger is storable. -/
structure Resumes (s : Sweep α) (m : MemoryFile) (p : Progress (Logbook σ)) : Prop where
  ledger : p.ledger = (Ledger.ofStored m.bytes).pushAll (Tried.writes p.world.trials)
  stored : Ledger.ofStored p.world.file.bytes = p.ledger
  storable : p.ledger.Storable
  completed : ∀ k, p.ledger.completed k ≤
    max s.target ((Ledger.ofStored m.bytes).completed k)

/-- The next invocation finds a storable ledger again. -/
theorem Resumes.storable_file {s : Sweep α} {m : MemoryFile} {p : Progress (Logbook σ)}
    (h : s.Resumes m p) : (Ledger.ofStored p.world.file.bytes).Storable := by
  rw [h.stored]
  exact h.storable

theorem invoke_ends (s : Sweep α) (i : Invocation α σ) (m : MemoryFile) :
    s.Ends Logbook.backend (Logbook.trial s.key i.act i.failing)
      ⟨Ledger.ofStored m.bytes, ⟨m, [], i.memory⟩, .start⟩ (s.invoke i m) :=
  s.run_ends i.fuel Logbook.backend _ _ _

theorem invoke_written (s : Sweep α) (i : Invocation α σ) (m : MemoryFile) :
    (s.invoke i m).2.ledger =
        (Ledger.ofStored m.bytes).pushAll (Tried.writes (s.invoke i m).2.world.trials) ∧
      Logbook.Persists m (s.invoke i m).2 :=
  Logbook.ends_written (o := (s.invoke i m).1)
    (Logbook.balanced_start (Ledger.ofStored m.bytes) m i.memory) (s.invoke_ends i m)

theorem invoke_completed_le (s : Sweep α) (i : Invocation α σ) (m : MemoryFile)
    (k : ConfigurationKey) : (s.invoke i m).2.ledger.completed k ≤
      max s.target ((Ledger.ofStored m.bytes).completed k) := by
  have hb := Logbook.balanced_start (Ledger.ofStored m.bytes) m i.memory
  obtain ⟨htimely, us, hus, hl⟩ := Logbook.ends_timely (o := (s.invoke i m).1)
    (q := (s.invoke i m).2) hb (Tried.timely_nil _ s.target) (s.invoke_ends i m)
  rw [hl]
  exact (htimely.of_prefix hus).completed_le k

theorem storable_of_mem_writes {ts : List Tried}
    (h : ∀ t ∈ ts, t.kept = true → t.record.Storable) : ∀ e ∈ Tried.writes ts, e.2.Storable := by
  intro e he
  obtain ⟨t, ht, rfl⟩ := List.mem_map.1 he
  obtain ⟨hmem, hwritten⟩ := List.mem_filter.1 ht
  simp only [Tried.written, Bool.and_eq_true] at hwritten
  exact h t hmem hwritten.1

theorem invoke_resumes (s : Sweep α) (i : Invocation α σ) {m : MemoryFile}
    (hm : (Ledger.ofStored m.bytes).Storable)
    (hnew : ∀ t ∈ (s.invoke i m).2.world.trials, t.kept = true → t.record.Storable) :
    Resumes s m (s.invoke i m).2 := by
  obtain ⟨hledger, hpersists⟩ := s.invoke_written i m
  have hstorable : (s.invoke i m).2.ledger.Storable := by
    rw [hledger]
    exact Ledger.storable_pushAll hm (storable_of_mem_writes hnew)
  exact ⟨hledger, Logbook.ofStored_of_persists hpersists hledger hstorable, hstorable,
    s.invoke_completed_le i m⟩

/-- All the records that a series of invocations wrote, in order. -/
def written (ps : List (Progress (Logbook σ))) : List Entered :=
  ps.flatMap fun p => Tried.writes p.world.trials

theorem invoke_inTurn (s : Sweep α) (i : Invocation α σ) (m : MemoryFile)
    (hkept : ∀ t ∈ (s.invoke i m).2.world.trials, t.kept = true) :
    s.InTurn (Ledger.ofStored m.bytes) (Tried.writes (s.invoke i m).2.world.trials) := by
  have hb := Logbook.balanced_start (Ledger.ofStored m.bytes) m i.memory
  exact Logbook.inTurn_passes (o := (s.invoke i m).1) hb (.nil _) rfl hkept

/-- A sweep that may make no pass makes no trial. -/
theorem invoke_of_no_pass {s : Sweep α} (hmax : s.maxPasses = some 0) (i : Invocation α σ)
    (m : MemoryFile) : (s.invoke i m).2.world.trials = [] ∧
      (s.lack (Ledger.ofStored m.bytes) < wordBound → (s.invoke i m).1 = none) := by
  have hdone : s.isDone ⟨Ledger.ofStored m.bytes, (⟨m, [], i.memory⟩ : Logbook σ), .start⟩ =
      true := by
    simp [isDone, hmax]
  rw [invoke_eq, run, ← outstanding_eq_lack]
  rcases Nat.lt_or_ge (s.outstanding (Ledger.ofStored m.bytes)) wordBound with hword | hover
  · rw [(Stands.done hword hdone).passes_eq]
    exact ⟨rfl, fun _ => rfl⟩
  · rw [(Stands.overflows hover).passes_eq]
    exact ⟨rfl, fun hword => absurd hover (Nat.not_le.2 hword)⟩

theorem history_of_no_pass {s : Sweep α} (hmax : s.maxPasses = some 0)
    (is : List (Invocation α σ)) (m : MemoryFile) : written (s.history is m) = [] := by
  induction is generalizing m with
  | nil => rfl
  | cons i is ih =>
    rw [history, written, List.flatMap_cons, (invoke_of_no_pass hmax i m).1]
    exact ih _

/-- The ledger of the file after a series of invocations is the one before with all records that
were written, each after those written before it. -/
theorem ofStored_fileAfter (s : Sweep α) (is : List (Invocation α σ)) {m : MemoryFile}
    (hm : (Ledger.ofStored m.bytes).Storable)
    (hnew : ∀ p ∈ s.history is m, ∀ t ∈ p.world.trials, t.kept = true → t.record.Storable) :
    Ledger.ofStored (s.fileAfter is m).bytes =
      (Ledger.ofStored m.bytes).pushAll (written (s.history is m)) := by
  induction is generalizing m with
  | nil => rfl
  | cons i is ih =>
    obtain ⟨hfirst, hrest⟩ := List.forall_mem_cons.1 hnew
    have hr := s.invoke_resumes i hm hfirst
    have hlast := ih hr.storable_file hrest
    rw [fileAfter, hlast, hr.stored, hr.ledger, ← Ledger.pushAll_append]
    rfl

theorem history_isChain (s : Sweep α) (is : List (Invocation α σ)) {m : MemoryFile}
    (hm : (Ledger.ofStored m.bytes).Storable)
    (hnew : ∀ p ∈ s.history is m, ∀ t ∈ p.world.trials, t.kept = true → t.record.Storable) :
    List.IsChain
      (fun b b' => ∀ k, (Ledger.ofStored b).recordsAt k <+: (Ledger.ofStored b').recordsAt k)
      (m.bytes :: (s.history is m).map fun p => p.world.file.bytes) := by
  induction is generalizing m with
  | nil => exact .singleton _
  | cons i is ih =>
    obtain ⟨hfirst, hrest⟩ := List.forall_mem_cons.1 hnew
    have hr := s.invoke_resumes i hm hfirst
    refine .cons_cons ?_ (ih hr.storable_file hrest)
    intro k
    rw [hr.stored, hr.ledger, Ledger.recordsAt_pushAll]
    exact List.prefix_append _ _

theorem history_completed_le (s : Sweep α) (is : List (Invocation α σ)) {m : MemoryFile}
    (hm : (Ledger.ofStored m.bytes).Storable)
    (hnew : ∀ p ∈ s.history is m, ∀ t ∈ p.world.trials, t.kept = true → t.record.Storable) :
    ∀ p ∈ s.history is m, Ledger.ofStored p.world.file.bytes = p.ledger ∧
      ∀ k, p.ledger.completed k ≤ max s.target ((Ledger.ofStored m.bytes).completed k) := by
  induction is generalizing m with
  | nil => simp [history]
  | cons i is ih =>
    obtain ⟨hfirst, hrest⟩ := List.forall_mem_cons.1 hnew
    have hr := s.invoke_resumes i hm hfirst
    refine List.forall_mem_cons.2 ⟨⟨hr.stored, hr.completed⟩, fun p hp => ?_⟩
    obtain ⟨hstored, hle⟩ := ih hr.storable_file hrest p hp
    refine ⟨hstored, fun k => ?_⟩
    have hlater := hle k
    have hearlier := hr.completed k
    rw [hr.stored] at hlater
    omega

theorem history_inTurn (s : Sweep α) (is : List (Invocation α σ)) {m : MemoryFile}
    (hm : (Ledger.ofStored m.bytes).Storable)
    (hnew : ∀ p ∈ s.history is m, ∀ t ∈ p.world.trials, t.kept = true → t.record.Storable)
    (hkept : ∀ p ∈ s.history is m, ∀ t ∈ p.world.trials, t.kept = true) :
    s.InTurn (Ledger.ofStored m.bytes) (written (s.history is m)) := by
  induction is generalizing m with
  | nil => exact .nil _
  | cons i is ih =>
    obtain ⟨hfirst, hrest⟩ := List.forall_mem_cons.1 hnew
    obtain ⟨hkeptFirst, hkeptRest⟩ := List.forall_mem_cons.1 hkept
    have hr := s.invoke_resumes i hm hfirst
    have hlater := ih hr.storable_file hrest hkeptRest
    rw [hr.stored, hr.ledger] at hlater
    exact (s.invoke_inTurn i m hkeptFirst).append hlater

/-- Resumption after any interruptions. From each invocation to the next the stored lists only grow;
in the end each holds what it held at first and then every record that was written to it, once and
in the order of their trials; and no cell passes its target. If no trial is dropped, the series
gives its records to the same keys in the same order as a run that nothing interrupts, as far as it
comes. -/
theorem history_resumes (s : Sweep α) (is : List (Invocation α σ)) (m : MemoryFile)
    (hfile : Ledger.WellStored m.bytes)
    (hinit : ∀ e ∈ (Ledger.ofStored m.bytes).entries, ∀ r ∈ e.2, r.metrics.Regular)
    (hnew : ∀ p ∈ s.history is m, ∀ t ∈ p.world.trials, t.kept = true → t.record.Storable)
    (hlack : s.lack (Ledger.ofStored m.bytes) < wordBound) :
    List.IsChain
        (fun b b' => ∀ k, (Ledger.ofStored b).recordsAt k <+: (Ledger.ofStored b').recordsAt k)
        (m.bytes :: (s.history is m).map fun p => p.world.file.bytes) ∧
      (∀ k, (Ledger.ofStored (s.fileAfter is m).bytes).recordsAt k =
        (Ledger.ofStored m.bytes).recordsAt k ++ Ledger.under k (written (s.history is m))) ∧
      (∀ p ∈ s.history is m, Ledger.ofStored p.world.file.bytes = p.ledger ∧
        ∀ k, p.ledger.completed k ≤ max s.target ((Ledger.ofStored m.bytes).completed k)) ∧
      ((∀ p ∈ s.history is m, ∀ t ∈ p.world.trials, t.kept = true) →
        ∀ u : Invocation α σ, Logbook.Steady u.act u.failing → 0 < u.fuel →
          ∃ q, s.invoke u m = (none, q) ∧
            ((written (s.history is m)).map fun e => e.1.ledgerKey) <+:
              (Tried.writes q.world.trials).map fun e => e.1.ledgerKey) := by
  have hm := Ledger.storable_ofStored hfile hinit
  refine ⟨s.history_isChain is hm hnew, ?_, s.history_completed_le is hm hnew, ?_⟩
  · intro k
    rw [s.ofStored_fileAfter is hm hnew, Ledger.recordsAt_pushAll]
  · intro hkept u hsteady hfuel
    by_cases hmax : s.maxPasses = some 0
    · rw [history_of_no_pass hmax]
      exact ⟨_, Prod.ext ((invoke_of_no_pass hmax u m).2 hlack) rfl, List.nil_prefix⟩
    · obtain ⟨q, hq, hqkept, hfull⟩ := Logbook.run_steady (m := m) hsteady hfuel hlack hmax u.memory
      rw [← invoke_eq] at hq
      have hturn := s.invoke_inTurn u m (by rw [hq]; exact hqkept)
      have hledger := (s.invoke_written u m).1
      rw [hq] at hturn hledger
      refine ⟨q, hq, (s.history_inTurn is hm hnew hkept).prefix_of_full hturn (fun _ => rfl) ?_⟩
      rw [← hledger]
      exact nextCell_eq_none.2 hfull

theorem records_history {P : TrialRecord → Prop} (s : Sweep α) {is : List (Invocation α σ)}
    (h : ∀ i ∈ is, ∀ c x r y, i.act c x = (some r, y) → P r) (m : MemoryFile) :
    ∀ p ∈ s.history is m, ∀ t ∈ p.world.trials, P t.record := by
  induction is generalizing m with
  | nil => simp [history]
  | cons i is ih =>
    obtain ⟨hi, his⟩ := List.forall_mem_cons.1 h
    refine List.forall_mem_cons.2 ⟨?_, ih his _⟩
    exact Logbook.records_ends (o := (s.invoke i m).1) hi (by simp) (s.invoke_ends i m)

theorem failed_write_resumes :
    Ledger.WellStored none ∧ (overFaults [1, 2] 2).lack SortedMap.empty < wordBound ∧
      (∀ k, (Ledger.ofStored ((overFaults [1, 2] 2).fileAfter
          [.failingAt (some 3), .failingAt none] ⟨none, false, 0⟩).bytes).recordsAt k =
        Ledger.under k (written ((overFaults [1, 2] 2).history
          [.failingAt (some 3), .failingAt none] ⟨none, false, 0⟩))) ∧
      ∃ q, (overFaults [1, 2] 2).invoke (.failingAt none) ⟨none, false, 0⟩ = (none, q) ∧
        ((written ((overFaults [1, 2] 2).history [.failingAt (some 3), .failingAt none]
            ⟨none, false, 0⟩)).map fun e => e.1.ledgerKey) <+:
          (Tried.writes q.world.trials).map fun e => e.1.ledgerKey := by
  have hfile : Ledger.WellStored none := by
    intro b hb
    cases hb
  have hlack : (overFaults [1, 2] 2).lack SortedMap.empty < wordBound := by decide
  have hevery : ∀ i ∈ ([.failingAt (some 3), .failingAt none] : List (Invocation Nat Nat)),
      ∀ c x r y, i.act c x = (some r, y) → r = TrialRecord.atEpoch := by
    intro i hi c x r y h
    simp only [List.mem_cons, List.not_mem_nil, or_false] at hi
    rcases hi with rfl | rfl
    · cases h
      rfl
    · cases h
      rfl
  have hrecords := records_history (overFaults [1, 2] 2) hevery ⟨none, false, 0⟩
  have hnew : ∀ p ∈ (overFaults [1, 2] 2).history [.failingAt (some 3), .failingAt none]
      ⟨none, false, 0⟩, ∀ t ∈ p.world.trials, t.kept = true → t.record.Storable := by
    intro p hp t ht _
    rw [hrecords p hp t ht]
    exact TrialRecord.storable_atEpoch
  have hkept : ∀ p ∈ (overFaults [1, 2] 2).history [.failingAt (some 3), .failingAt none]
      ⟨none, false, 0⟩, ∀ t ∈ p.world.trials, t.kept = true := by
    intro p hp t ht
    rw [Tried.kept, hrecords p hp t ht]
    rfl
  have hsteady : Logbook.Steady (.failingAt none : Invocation Nat Nat).act
      (.failingAt none : Invocation Nat Nat).failing := fun c x => ⟨_, _, rfl, rfl, rfl⟩
  obtain ⟨-, hlist, -, hturns⟩ := history_resumes (overFaults [1, 2] 2)
    [.failingAt (some 3), .failingAt none] ⟨none, false, 0⟩ hfile (by simp [Ledger.ofStored,
      SortedMap.empty]) hnew hlack
  refine ⟨hfile, hlack, ?_, hturns hkept (.failingAt none) hsteady (by decide)⟩
  intro k
  rw [hlist k]
  rfl

end Sweep

end FaultSweep
