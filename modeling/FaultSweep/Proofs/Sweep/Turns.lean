import FaultSweep.Proofs.Sweep.Workload

/-!
# Whose turn it is

As long as no trial is dropped, each trial is made of the first cell that is short, and which one
that is depends on the counts of records alone. So two sweeps over ledgers with the same counts give
their records to the same keys in the same order, and one that stops early is a beginning of the
other.
-/

namespace FaultSweep

namespace Sweep

variable {α W : Type}

/-- The first cell that is short. -/
def nextCell (s : Sweep α) (l : Ledger) : Option α :=
  s.cells.find? fun c => decide (0 < l.remaining (s.key c) s.target)

/-- Each record of the list is given to the cell whose turn it is. -/
inductive InTurn (s : Sweep α) : Ledger → List Entered → Prop
  | nil (l : Ledger) : InTurn s l []
  | cons {l : Ledger} {c : α} {r : TrialRecord} {es : List Entered} (hc : s.nextCell l = some c)
      (h : InTurn s (l.push (s.key c) r) es) : InTurn s l ((s.key c, r) :: es)

theorem InTurn.append {s : Sweep α} {l : Ledger} {es fs : List Entered} (h : InTurn s l es)
    (h' : InTurn s (l.pushAll es) fs) : InTurn s l (es ++ fs) := by
  induction h with
  | nil l => exact h'
  | cons hc _ ih => exact .cons hc (ih h')

theorem InTurn.concat {s : Sweep α} {l : Ledger} {es : List Entered} (h : InTurn s l es) {c : α}
    (hc : s.nextCell (l.pushAll es) = some c) (r : TrialRecord) :
    InTurn s l (es ++ [(s.key c, r)]) :=
  h.append (.cons hc (.nil _))

theorem nextCell_congr (s : Sweep α) {l l' : Ledger} (h : ∀ k, l.completed k = l'.completed k) :
    s.nextCell l = s.nextCell l' := by
  unfold nextCell
  congr 1
  funext c
  exact decide_eq_decide.2 (by simp only [Ledger.remaining, h])

theorem nextCell_of_first {s : Sweep α} {l : Ledger} {pre post : List α} {c : α}
    (hcells : s.cells = pre ++ c :: post)
    (hpre : ∀ d ∈ pre, l.remaining (s.key d) s.target = 0)
    (hc : 0 < l.remaining (s.key c) s.target) : s.nextCell l = some c := by
  have hnone : pre.find? (fun d => decide (0 < l.remaining (s.key d) s.target)) = none := by
    simpa using hpre
  rw [nextCell, hcells, List.find?_append, hnone]
  simp [hc]

theorem nextCell_eq_none {s : Sweep α} {l : Ledger} :
    s.nextCell l = none ↔ ∀ c ∈ s.cells, l.remaining (s.key c) s.target = 0 := by
  simp [nextCell]

theorem completed_push_congr {l l' : Ledger} (h : ∀ k, l.completed k = l'.completed k)
    (j : ConfigurationKey) (r r' : TrialRecord) (k : ConfigurationKey) :
    (l.push j r).completed k = (l'.push j r').completed k := by
  by_cases hkey : j.ledgerKey = k.ledgerKey
  · rw [Ledger.completed_push_of_eq l r hkey, Ledger.completed_push_of_eq l' r' hkey, h]
  · rw [Ledger.completed_push_of_ne l r hkey, Ledger.completed_push_of_ne l' r' hkey, h]

/-- Of two lists given in turn from the same counts, one that leaves no cell short goes on where the
other stops. -/
theorem InTurn.prefix_of_full {s : Sweep α} {l l' : Ledger} {es fs : List Entered}
    (he : InTurn s l es) (hf : InTurn s l' fs) (h : ∀ k, l.completed k = l'.completed k)
    (hdone : s.nextCell (l'.pushAll fs) = none) :
    (es.map fun e => e.1.ledgerKey) <+: fs.map fun e => e.1.ledgerKey := by
  induction he generalizing l' fs with
  | nil l => exact List.nil_prefix
  | cons hc _ ih =>
    rw [nextCell_congr s h] at hc
    cases hf with
    | nil =>
      rw [Ledger.pushAll_nil, hc] at hdone
      cases hdone
    | cons hc' hf =>
      cases hc.symm.trans hc'
      have hrest := ih hf (completed_push_congr h _ _ _) hdone
      simpa [List.prefix_cons_iff] using hrest

end Sweep

namespace Logbook

open Sweep

variable {α σ : Type} {s : Sweep α} {act : Trial α σ} {failing : σ → Bool} {l : Ledger}
  {m : MemoryFile}

theorem trials_prefix_attempt {c : α} {p q : Progress (Logbook σ)} {o : Option Halt}
    (h : s.attempt backend (trial s.key act failing) c p = (o, q)) :
    p.world.trials <+: q.world.trials := by
  rcases trials_attempt h with he | ⟨t, -, -, -, he⟩
  · rw [he]
  · rw [he]
    exact List.prefix_append _ _

theorem trials_prefix_reaches {p q : Progress (Logbook σ)}
    (h : s.Reaches backend (trial s.key act failing) p q) :
    p.world.trials <+: q.world.trials := by
  induction h with
  | refl => exact List.prefix_rfl
  | pass _ _ _ ih => exact ih
  | trial _ _ hstep ih => exact ih.trans (trials_prefix_attempt hstep)

/-- Trials that were made stay written down. -/
theorem trials_prefix_leads {p q : Progress (Logbook σ)} {o : Option Halt}
    (h : s.Leads backend (trial s.key act failing) p (o, q)) :
    p.world.trials <+: q.world.trials := by
  cases h with
  | on h => exact trials_prefix_reaches h
  | halted h _ hstep => exact (trials_prefix_reaches h).trans (trials_prefix_attempt hstep)

theorem trials_prefix_ends {p q : Progress (Logbook σ)} {o : Option Halt}
    (h : s.Ends backend (trial s.key act failing) p (o, q)) :
    p.world.trials <+: q.world.trials := by
  cases h with
  | done h =>
    have hprefix := trials_prefix_reaches h
    exact hprefix
  | spent h | overflows h => exact trials_prefix_reaches h
  | halted h _ hstep => exact (trials_prefix_reaches h).trans (trials_prefix_attempt hstep)

theorem kept_of_prefix {ts us : List Tried} (h : ts <+: us) (hkept : ∀ t ∈ us, t.kept = true) :
    ∀ t ∈ ts, t.kept = true := by
  intro t ht
  exact hkept t (h.subset ht)

/-- A trial of the cell whose turn it is, if its record is one that is kept. -/
theorem inTurn_attempt {c : α} {p q : Progress (Logbook σ)} {o : Option Halt}
    (hb : Balanced l m p) (h : s.InTurn l (Tried.writes p.world.trials))
    (hnext : s.nextCell p.ledger = some c)
    (hstep : s.attempt backend (trial s.key act failing) c p = (o, q))
    (hkept : ∀ t ∈ q.world.trials, t.kept = true) :
    s.InTurn l (Tried.writes q.world.trials) := by
  have hs := attempt_step s act failing c p
  rw [hstep] at hs
  cases hs with
  | hangs => exact h
  | records hact hkeep hworks =>
    rename_i r x
    have hwrites : Tried.writes (p.world.trials ++ [⟨s.key c, r, false⟩]) =
        Tried.writes p.world.trials ++ [(s.key c, r)] := by
      simp [Tried.writes, Tried.written, Tried.kept, Tried.entered, hkeep]
    have hnext' : s.nextCell (l.pushAll (Tried.writes p.world.trials)) = some c := by
      rw [Tried.writes_eq_keeps hb.working, ← hb.ledger]
      exact hnext
    simp only [Progress.world_recorded, trials_store, trials_note, hwrites]
    exact h.concat hnext' r
  | fails hact hkeep hfails =>
    rename_i r x
    simp only [Progress.world_tried, trials_note]
    rw [Tried.writes_concat_of_failing rfl]
    exact h
  | discards hact hkeep =>
    rename_i r x
    have hlast := hkept ⟨s.key c, r, failing x⟩ (by simp)
    simp [Tried.kept, hkeep] at hlast

/-- Where all records are kept, none is dropped. -/
theorem Balanced.undropped {p : Progress (Logbook σ)} (h : Balanced l m p)
    (hkept : ∀ t ∈ p.world.trials, t.kept = true) : p.summary.discarded = 0 := by
  rw [h.discarded, List.countP_eq_zero]
  intro t ht
  simp [hkept t ht]

/-- The trials of a cell, where all before it are full, fill it. -/
theorem inTurn_attempts {c : α} {pre post : List α} {n : Nat} {q r : Progress (Logbook σ)}
    {o : Option Halt} (hcells : s.cells = pre ++ c :: post) (hb : Balanced l m q)
    (h : s.InTurn l (Tried.writes q.world.trials))
    (hpre : ∀ d ∈ pre, q.ledger.remaining (s.key d) s.target = 0)
    (hn : q.ledger.remaining (s.key c) s.target = n)
    (he : s.attempts backend (trial s.key act failing) c n q = (o, r))
    (hkept : ∀ t ∈ r.world.trials, t.kept = true) :
    s.InTurn l (Tried.writes r.world.trials) ∧
      (o = none → r.ledger.remaining (s.key c) s.target = 0) := by
  induction n generalizing q with
  | zero =>
    cases he
    exact ⟨h, fun _ => hn⟩
  | succ n ih =>
    have hnext : s.nextCell q.ledger = some c := nextCell_of_first hcells hpre (by omega)
    have hmem : c ∈ s.cells := by simp [hcells]
    unfold attempts at he
    split at he
    · next halt r' hstep =>
      cases he
      exact ⟨inTurn_attempt hb h hnext hstep hkept, by simp⟩
    · next q' hstep =>
      have hreach : s.Reaches backend (trial s.key act failing) q q' :=
        .trial .refl ⟨hmem, by omega⟩ hstep
      have hleft := remaining_attempt hstep
      have hleads : s.Leads backend (trial s.key act failing) q'
          (s.attempts backend (trial s.key act failing) c n q') :=
        attempts_leads .refl hmem (by omega)
      rw [he] at hleads
      have hkept' := kept_of_prefix (trials_prefix_leads hleads) hkept
      have hb' := balanced_attempt hb hstep
      have hbefore := kept_of_prefix (trials_prefix_attempt hstep) hkept'
      have hone := remaining_attempt_undropped hstep
        ((hb'.undropped hkept').trans (hb.undropped hbefore).symm)
      exact ih hb' (inTurn_attempt hb h hnext hstep hkept')
        (fun d hd => full_reaches hreach (hpre d hd)) (by omega) he

/-- A visit of the cells that are left fills them, where the cells before them are full. -/
theorem inTurn_visit {cs pre : List α} {q r : Progress (Logbook σ)} {o : Option Halt}
    (hcells : s.cells = pre ++ cs) (hb : Balanced l m q)
    (h : s.InTurn l (Tried.writes q.world.trials))
    (hpre : ∀ d ∈ pre, q.ledger.remaining (s.key d) s.target = 0)
    (he : s.visit backend (trial s.key act failing) cs q = (o, r))
    (hkept : ∀ t ∈ r.world.trials, t.kept = true) :
    s.InTurn l (Tried.writes r.world.trials) ∧
      (o = none → ∀ d ∈ s.cells, r.ledger.remaining (s.key d) s.target = 0) := by
  induction cs generalizing pre q with
  | nil =>
    cases he
    refine ⟨h, fun _ d hd => hpre d ?_⟩
    simpa [hcells] using hd
  | cons c cs ih =>
    have hmem : c ∈ s.cells := by simp [hcells]
    have hleads : s.Leads backend (trial s.key act failing) q
        (s.attempts backend (trial s.key act failing) c
          (q.ledger.remaining (s.key c) s.target) q) :=
      attempts_leads .refl hmem (Nat.le_refl _)
    unfold visit at he
    split at he
    · next halt r' hfirst =>
      cases he
      obtain ⟨hturn, -⟩ := inTurn_attempts hcells hb h hpre rfl hfirst hkept
      exact ⟨hturn, by simp⟩
    · next q' hfirst =>
      rw [hfirst] at hleads
      cases hleads with
      | on hreach =>
      have hrest : s.Leads backend (trial s.key act failing) q'
          (s.visit backend (trial s.key act failing) cs q') :=
        visit_leads .refl cs fun d hd => by simp [hcells, hd]
      rw [he] at hrest
      have hkept' := kept_of_prefix (trials_prefix_leads hrest) hkept
      obtain ⟨hturn, hfull⟩ := inTurn_attempts hcells hb h hpre rfl hfirst hkept'
      have hpre' : ∀ d ∈ pre ++ [c], q'.ledger.remaining (s.key d) s.target = 0 := by
        intro d hd
        rcases List.mem_append.1 hd with hd | hd
        · exact full_reaches hreach (hpre d hd)
        · rw [List.mem_singleton.1 hd]
          exact hfull rfl
      exact ih (by simp [hcells]) (balanced_reaches hb hreach) hturn hpre' he

/-- All passes give their records in turn, if no trial is dropped. -/
theorem inTurn_passes {fuel : Nat} {q r : Progress (Logbook σ)} {o : Option Halt}
    (hb : Balanced l m q) (h : s.InTurn l (Tried.writes q.world.trials))
    (he : s.passes backend (trial s.key act failing) fuel q = (o, r))
    (hkept : ∀ t ∈ r.world.trials, t.kept = true) :
    s.InTurn l (Tried.writes r.world.trials) := by
  have hnil : s.cells = [] ++ s.cells := rfl
  induction fuel generalizing q with
  | zero =>
    have hstands := s.passes_stands backend (trial s.key act failing) 0 q
    rw [he] at hstands
    cases hstands <;> exact h
  | succ fuel ih =>
    have hstands := s.passes_stands backend (trial s.key act failing) (fuel + 1) q
    rw [he] at hstands
    cases hstands with
    | overflows | done => exact h
    | halted _ _ hvisit =>
      exact (inTurn_visit hnil (balanced_nextPass hb) h (by simp) hvisit hkept).1
    | @passed _ q' _ _ _ hvisit hrest =>
      have hleads : s.Leads backend (trial s.key act failing) q.nextPass
          (s.visit backend (trial s.key act failing) s.cells q.nextPass) :=
        visit_leads .refl s.cells fun c hc => hc
      rw [hvisit] at hleads
      cases hleads with
      | on hreach =>
        have hb' := balanced_reaches (balanced_nextPass hb) hreach
        have hends : s.Ends backend (trial s.key act failing) q'
            (s.passes backend (trial s.key act failing) fuel q') := passes_ends .refl fuel
        rw [hrest] at hends
        have hkept' := kept_of_prefix (trials_prefix_ends hends) hkept
        exact ih hb' (inTurn_visit hnil (balanced_nextPass hb) h (by simp) hvisit hkept').1 hrest

/-- Every trial ends with a record that is kept and can be written. -/
def Steady (act : Trial α σ) (failing : σ → Bool) : Prop :=
  ∀ c x, ∃ r y, act c x = (some r, y) ∧ r.status.isRecordable = true ∧ failing y = false

/-- On a steady run nothing is lost, and all trials that were made gave a record. -/
theorem smooth_of_steady (h : Steady act failing) :
    s.Smooth backend (trial s.key act failing) fun w => ∀ t ∈ w.trials, t.kept = true := by
  intro c _ w hw
  obtain ⟨r, y, hact, hkeep, hworks⟩ := h c w.memory
  have htrial : trial s.key act failing c w = (some r, w.note ⟨s.key c, r, false⟩ y) := by
    simp [trial, hact, hworks, note]
  have hkept : ∀ t ∈ (w.note ⟨s.key c, r, false⟩ y).trials, t.kept = true := by
    rw [trials_note]
    exact List.forall_mem_append.2 ⟨hw, List.forall_mem_singleton.2 hkeep⟩
  exact ⟨r, _, htrial, hkeep, fun l => ⟨_, replace_working l rfl, hkept⟩⟩

/-- A steady run ends well after one pass, with every cell full unless no pass is allowed. -/
theorem run_steady (h : Steady act failing) {fuel : Nat} (hfuel : 0 < fuel)
    (hlack : s.lack l < wordBound) (hmax : s.maxPasses ≠ some 0) (x : σ) :
    ∃ q, s.run fuel backend (trial s.key act failing) l ⟨m, [], x⟩ = (none, q) ∧
      (∀ t ∈ q.world.trials, t.kept = true) ∧
      ∀ c ∈ s.cells, q.ledger.remaining (s.key c) s.target = 0 := by
  obtain ⟨hkept, hlossless⟩ := run_smooth (smooth_of_steady (s := s) h) fuel l
    (w := ⟨m, [], x⟩) (List.forall_mem_nil _)
  obtain ⟨hends, hfull⟩ := run_lossless hfuel hlack hmax hlossless
  exact ⟨_, Prod.ext hends rfl, hkept, hfull⟩

end Logbook

end FaultSweep
