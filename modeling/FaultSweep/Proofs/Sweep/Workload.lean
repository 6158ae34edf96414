import FaultSweep.Proofs.Sweep.Target

/-!
# The work of a sweep

What is outstanding is summed over the cells, but records are kept by ledger key. The work of a
sweep is what is still to be recorded: what is lacking, once for each ledger key. However a run
goes, every record that it adds is one less to be made; and where every trial gives a record and
every write succeeds, one pass makes them all.
-/

namespace FaultSweep

namespace Sweep

variable {α W : Type} {s : Sweep α} {b : Backend W} {trial : Trial α W} {l : Ledger}
  {I : W → Prop} {c : α} {p q r : Progress W} {m n : Nat}

/-- What the records of the cells are kept under. -/
def ledgerKeys (s : Sweep α) : List String := s.cells.map fun c => (s.key c).ledgerKey

/-- The number of records that are still to be made. -/
def work (s : Sweep α) (l : Ledger) : Nat :=
  ∑ k ∈ s.ledgerKeys.toFinset, (s.target - (l.recordsAt k).length)

theorem work_eq_lack (h : s.ledgerKeys.Nodup) (l : Ledger) : s.work l = s.lack l := by
  rw [work, List.sum_toFinset _ h, ledgerKeys, List.map_map]
  rfl

/-- A record for a cell that is short is one less to be made, even if its key is there twice. -/
theorem work_push (hc : c ∈ s.cells) (hshort : 0 < l.remaining (s.key c) s.target)
    (r : TrialRecord) : s.work (l.push (s.key c) r) + 1 = s.work l := by
  have hmem : (s.key c).ledgerKey ∈ s.ledgerKeys.toFinset :=
    List.mem_toFinset.2 (List.mem_map.2 ⟨c, hc, rfl⟩)
  have hself : s.target - ((l.push (s.key c) r).recordsAt (s.key c).ledgerKey).length + 1 =
      s.target - (l.recordsAt (s.key c).ledgerKey).length := by
    rw [Ledger.recordsAt_push_self, List.length_append, List.length_singleton]
    simp only [Ledger.remaining, Ledger.completed, Ledger.records] at hshort
    omega
  have hothers : ∑ k ∈ s.ledgerKeys.toFinset.erase (s.key c).ledgerKey,
        (s.target - ((l.push (s.key c) r).recordsAt k).length) =
      ∑ k ∈ s.ledgerKeys.toFinset.erase (s.key c).ledgerKey,
        (s.target - (l.recordsAt k).length) := by
    refine Finset.sum_congr rfl fun k hk => ?_
    rw [Ledger.recordsAt_push_of_ne l r (Finset.ne_of_mem_erase hk)]
  have hbefore := Finset.add_sum_erase s.ledgerKeys.toFinset
    (fun k => s.target - (l.recordsAt k).length) hmem
  have hafter := Finset.add_sum_erase s.ledgerKeys.toFinset
    (fun k => s.target - ((l.push (s.key c) r).recordsAt k).length) hmem
  simp only [work]
  omega

/-! ### Records that are added -/

/-- A run that added `n` records to a ledger. -/
structure Adds (l : Ledger) (q : Progress W) (n : Nat) : Prop where
  recorded : q.summary.recorded = n
  ledger : ∃ es : List Entered, es.length = n ∧ q.ledger = l.pushAll es

/-- By a count of what is outstanding, a run added what is outstanding no more. -/
def Settles (count : Ledger → Nat) (l : Ledger) (q : Progress W) : Prop :=
  ∃ n, Adds l q n ∧ n + count q.ledger = count l

/-- What a run has settled depends on its ledger and its total alone. -/
theorem Settles.of_eq {count : Ledger → Nat} (h : Settles count l p)
    (hrecorded : q.summary.recorded = p.summary.recorded) (hledger : q.ledger = p.ledger) :
    Settles count l q := by
  obtain ⟨n, ⟨hn, hes⟩, hcount⟩ := h
  rw [← hledger] at hes hcount
  exact ⟨n, ⟨hrecorded.trans hn, hes⟩, hcount⟩

theorem settles_start (s : Sweep α) (l : Ledger) (w : W) :
    Settles s.work l ⟨l, w, .start⟩ :=
  ⟨0, ⟨rfl, [], rfl, rfl⟩, Nat.zero_add _⟩

/-- One trial settles its own record, whether or not the run goes on after it. -/
theorem settles_attempt (h : Settles s.work l p) (hshort : s.Short p c) {o : Option Halt}
    (hstep : s.attempt b trial c p = (o, q)) : Settles s.work l q := by
  have houtcome := attempt_outcome s b trial c p
  rw [hstep] at houtcome
  cases houtcome with
  | hangs => exact h.of_eq rfl rfl
  | fails => exact h.of_eq rfl rfl
  | discards => exact h.of_eq rfl rfl
  | @records r _ _ _ _ _ =>
    have hone := work_push hshort.1 hshort.2 r
    obtain ⟨n, ⟨hrecorded, es, hes, hledger⟩, hwork⟩ := h
    refine ⟨n + 1, ⟨congrArg (· + 1) hrecorded, es ++ [(s.key c, r)], ?_, ?_⟩, ?_⟩
    · rw [List.length_append, hes, List.length_singleton]
    · rw [Progress.ledger_recorded, Ledger.pushAll_concat, ← hledger]
    · rw [Progress.ledger_recorded]
      omega

theorem settles_reaches (h : Settles s.work l p) (hr : s.Reaches b trial p q) :
    Settles s.work l q := by
  induction hr with
  | refl => exact h
  | pass _ _ _ ih => exact ih.of_eq rfl rfl
  | trial _ hshort hstep ih => exact settles_attempt ih hshort hstep

/-- However a run ends, it settles what it recorded. -/
theorem settles_run (s : Sweep α) (fuel : Nat) (b : Backend W) (trial : Trial α W) (l : Ledger)
    (w : W) : Settles s.work l (s.run fuel b trial l w).2 := by
  have hends := s.run_ends fuel b trial l w
  have hstart := settles_start s l w
  generalize s.run fuel b trial l w = result at hends
  cases hends with
  | done hr => exact (settles_reaches hstart hr).of_eq rfl rfl
  | spent hr | overflows hr => exact settles_reaches hstart hr
  | halted hr hshort hstep => exact settles_attempt (settles_reaches hstart hr) hshort hstep

/-! ### Trials that are made -/

/-- A number of trials was made, and what was there before is still there. -/
structure Makes (n : Nat) (p q : Progress W) : Prop where
  passes : q.summary.passes = p.summary.passes
  attempts : q.summary.attempts = p.summary.attempts + n
  discarded : p.summary.discarded ≤ q.summary.discarded
  settled : q.summary.recorded + q.summary.discarded =
    p.summary.recorded + p.summary.discarded + n
  completed : ∀ k, p.ledger.completed k ≤ q.ledger.completed k

theorem Makes.refl (p : Progress W) : Makes 0 p p :=
  ⟨rfl, rfl, Nat.le_refl _, rfl, fun _ => Nat.le_refl _⟩

theorem Makes.trans (h : Makes m p q) (h' : Makes n q r) : Makes (m + n) p r where
  passes := h'.passes.trans h.passes
  attempts := by rw [h'.attempts, h.attempts, Nat.add_assoc]
  discarded := Nat.le_trans h.discarded h'.discarded
  settled := by rw [h'.settled, h.settled, Nat.add_assoc]
  completed k := Nat.le_trans (h.completed k) (h'.completed k)

theorem Makes.remaining_le (h : Makes n p q) (k : ConfigurationKey) (target : Nat) :
    q.ledger.remaining k target ≤ p.ledger.remaining k target :=
  Nat.sub_le_sub_left (h.completed k) target

/-- If nothing was dropped in the end, then nothing was dropped on the way. -/
theorem Makes.none_dropped (h : Makes m p q) (h' : Makes n q r)
    (hnone : r.summary.discarded = p.summary.discarded) :
    q.summary.discarded = p.summary.discarded ∧ r.summary.discarded = q.summary.discarded := by
  have hfirst := h.discarded
  have hrest := h'.discarded
  omega

theorem makes_attempt (h : s.attempt b trial c p = (none, q)) : Makes 1 p q := by
  have hpasses := passes_attempt h
  have hcompleted := completed_attempt h
  have ho := attempt_outcome s b trial c p
  rw [h] at ho
  cases ho with
  | records => exact ⟨hpasses, rfl, Nat.le_refl _, Nat.add_right_comm _ _ _, hcompleted⟩
  | discards => exact ⟨hpasses, rfl, Nat.le_succ _, rfl, hcompleted⟩

/-- A result that is not dropped is a record of its cell. -/
theorem remaining_attempt_undropped (h : s.attempt b trial c p = (none, q))
    (hnone : q.summary.discarded = p.summary.discarded) :
    q.ledger.remaining (s.key c) s.target = p.ledger.remaining (s.key c) s.target - 1 := by
  have ho := attempt_outcome s b trial c p
  rw [h] at ho
  cases ho with
  | records =>
    rw [Progress.ledger_recorded, Ledger.remaining, Ledger.completed_push_of_eq _ _ rfl,
      Ledger.remaining, Nat.sub_add_eq]
  | discards => exact absurd hnone (Nat.succ_ne_self _)

theorem makes_attempts (h : s.attempts b trial c n p = (none, q)) : Makes n p q := by
  induction n generalizing p with
  | zero =>
    cases h
    exact .refl _
  | succ n ih =>
    unfold attempts at h
    split at h
    · cases h
    · next r hstep =>
      rw [Nat.add_comm]
      exact (makes_attempt hstep).trans (ih h)

theorem remaining_attempts_undropped (h : s.attempts b trial c n p = (none, q))
    (hnone : q.summary.discarded = p.summary.discarded) :
    q.ledger.remaining (s.key c) s.target = p.ledger.remaining (s.key c) s.target - n := by
  induction n generalizing p with
  | zero =>
    cases h
    rfl
  | succ n ih =>
    unfold attempts at h
    split at h
    · cases h
    · next r hstep =>
      obtain ⟨hfirst, hrest⟩ := (makes_attempt hstep).none_dropped (makes_attempts h) hnone
      rw [ih h hrest, remaining_attempt_undropped hstep hfirst, Nat.sub_sub, Nat.add_comm]

/-- A visit that comes to its end has seen to its first cell and then to the others. -/
theorem visit_cons {cs : List α} (h : s.visit b trial (c :: cs) p = (none, q)) :
    ∃ r, s.attempts b trial c (p.ledger.remaining (s.key c) s.target) p = (none, r) ∧
      s.visit b trial cs r = (none, q) := by
  unfold visit at h
  split at h
  · cases h
  · next r hfirst => exact ⟨r, hfirst, h⟩

/-- A visit makes no more trials than its cells lack when it begins: what is lacking when a turn
comes can only be less. And it makes some, if any of them lacks a record. -/
theorem makes_visit {cs : List α} (h : s.visit b trial cs p = (none, q)) :
    ∃ n, Makes n p q ∧ n ≤ (cs.map fun c => p.ledger.remaining (s.key c) s.target).sum ∧
      ((∃ c ∈ cs, 0 < p.ledger.remaining (s.key c) s.target) → 0 < n) := by
  induction cs generalizing p with
  | nil =>
    cases h
    exact ⟨0, .refl _, Nat.le_refl _, by simp⟩
  | cons c cs ih =>
    obtain ⟨r, hfirst, hrest⟩ := visit_cons h
    obtain ⟨n, hn, hmost, hleast⟩ := ih hrest
    have hturn := makes_attempts hfirst
    refine ⟨_, hturn.trans hn, ?_, ?_⟩
    · have hless : (cs.map fun c => r.ledger.remaining (s.key c) s.target).sum ≤
          (cs.map fun c => p.ledger.remaining (s.key c) s.target).sum :=
        List.sum_le_sum fun c _ => hturn.remaining_le _ _
      rw [List.map_cons, List.sum_cons]
      omega
    · rintro ⟨d, hd, hshort⟩
      by_cases hfull : p.ledger.remaining (s.key c) s.target = 0
      -- A cell that is full has no turn, and the others come to theirs as they were.
      · rw [hfull] at hfirst
        cases hfirst
        have hother : d ∈ cs := by
          refine (List.mem_cons.1 hd).resolve_left ?_
          rintro rfl
          omega
        exact Nat.add_pos_right _ (hleast ⟨d, hother, hshort⟩)
      · exact Nat.add_pos_left (Nat.pos_of_ne_zero hfull) _

/-- A visit on which nothing is dropped fills its cells. -/
theorem full_of_undropped {cs : List α} (h : s.visit b trial cs p = (none, q))
    (hnone : q.summary.discarded = p.summary.discarded) :
    ∀ c ∈ cs, q.ledger.remaining (s.key c) s.target = 0 := by
  induction cs generalizing p with
  | nil => exact List.forall_mem_nil _
  | cons c cs ih =>
    obtain ⟨r, hfirst, hrest⟩ := visit_cons h
    obtain ⟨n, hn, -⟩ := makes_visit hrest
    obtain ⟨hturn, hothers⟩ := (makes_attempts hfirst).none_dropped hn hnone
    refine List.forall_mem_cons.2 ⟨?_, ih hrest hothers⟩
    have hfull := remaining_attempts_undropped hfirst hturn
    rw [Nat.sub_self] at hfull
    exact Nat.eq_zero_of_le_zero (hfull ▸ hn.remaining_le _ _)

/-! ### Runs on which nothing is lost -/

/-- Every trial that was made so far gave a record, and the record was written. -/
def Lossless (p : Progress W) : Prop := p.summary.recorded = p.summary.attempts

theorem lossless_start (l : Ledger) (w : W) : Lossless ⟨l, w, .start⟩ := rfl

/-- Some trial did not. -/
def Lossy (p : Progress W) : Prop := p.summary.recorded < p.summary.attempts

theorem Lossy.not_lossless (h : Lossy p) : ¬Lossless p := Nat.ne_of_lt h

/-- What was lost is not made up for. -/
theorem Lossy.attempt (h : Lossy p) {o : Option Halt} (hstep : s.attempt b trial c p = (o, q)) :
    Lossy q := by
  have houtcome := attempt_outcome s b trial c p
  rw [hstep] at houtcome
  cases houtcome with
  | hangs => exact Nat.lt_succ_of_lt h
  | records => exact Nat.succ_lt_succ h
  | fails => exact Nat.lt_succ_of_lt h
  | discards => exact Nat.lt_succ_of_lt h

theorem Lossy.reaches (h : Lossy p) (hr : s.Reaches b trial p q) : Lossy q := by
  induction hr with
  | refl => exact h
  | pass _ _ _ ih => exact ih
  | trial _ _ hstep ih => exact ih.attempt hstep

theorem Lossy.ends (h : Lossy p) {o : Option Halt} (hr : s.Ends b trial p (o, q)) : Lossy q := by
  cases hr with
  | @done r hr =>
    have hr : Lossy r := h.reaches hr
    exact hr
  | spent hr | overflows hr => exact h.reaches hr
  | halted hr _ hstep => exact (h.reaches hr).attempt hstep

theorem recorded_le_reaches (h : p.summary.recorded ≤ p.summary.attempts)
    (hr : s.Reaches b trial p q) : q.summary.recorded ≤ q.summary.attempts := by
  induction hr with
  | refl => exact h
  | pass _ _ _ ih => exact ih
  | trial _ _ hstep ih =>
    have hone := makes_attempt hstep
    have hattempts := hone.attempts
    have hsettled := hone.settled
    have hdiscarded := hone.discarded
    omega

/-- A trial that halts a run is lost. -/
theorem lossy_of_halted (h : p.summary.recorded ≤ p.summary.attempts) {halt : Halt}
    (hstep : s.attempt b trial c p = (some halt, q)) : Lossy q := by
  have houtcome := attempt_outcome s b trial c p
  rw [hstep] at houtcome
  cases houtcome with
  | hangs => exact Nat.lt_succ_of_le h
  | fails => exact Nat.lt_succ_of_le h

/-- A visit loses something, or leaves each cell that is visited full. -/
theorem visit_lossless (b : Backend W) (trial : Trial α W) {cs : List α}
    (hcs : ∀ c ∈ cs, c ∈ s.cells) (h : Lossless p) :
    Lossy (s.visit b trial cs p).2 ∨ ∃ q, s.visit b trial cs p = (none, q) ∧
      ∀ c ∈ cs, q.ledger.remaining (s.key c) s.target = 0 := by
  have hleads : s.Leads b trial p (s.visit b trial cs p) := visit_leads .refl cs hcs
  rcases hvisit : s.visit b trial cs p with ⟨_ | halt, q⟩
  · obtain ⟨n, hn, -⟩ := makes_visit hvisit
    rcases Nat.eq_or_lt_of_le hn.discarded with hnone | hsome
    · exact .inr ⟨q, rfl, full_of_undropped hvisit hnone.symm⟩
    · have hattempts := hn.attempts
      have hsettled := hn.settled
      unfold Lossless at h
      unfold Lossy
      left
      dsimp only
      omega
  · rw [hvisit] at hleads
    cases hleads with
    | halted hr _ hstep => exact .inl (lossy_of_halted (recorded_le_reaches h.le hr) hstep)

theorem lack_of_full (h : ∀ c ∈ s.cells, l.remaining (s.key c) s.target = 0) : s.lack l = 0 :=
  List.sum_eq_zero (List.forall_mem_map.2 h)

theorem isDone_of_full (h : ∀ c ∈ s.cells, p.ledger.remaining (s.key c) s.target = 0) :
    s.isDone p = true := by
  simp [isDone, outstanding_eq_lack, lack_of_full h]

/-- A sweep that is done before its first pass has no cell to fill, if it may make one. -/
theorem full_of_isDone {w : W} (hmax : s.maxPasses ≠ some 0)
    (h : s.isDone ⟨l, w, .start⟩ = true) :
    ∀ c ∈ s.cells, l.remaining (s.key c) s.target = 0 := by
  have hzero : s.outstanding l = 0 := by
    simp only [isDone, Bool.or_eq_true, decide_eq_true_eq] at h
    refine h.resolve_right ?_
    split
    · next n hn =>
      have hpos : n ≠ 0 := by
        rintro rfl
        exact hmax hn
      simpa [SweepSummary.start] using hpos
    · simp
  rw [outstanding_eq_lack] at hzero
  intro c hc
  exact Nat.sub_eq_zero_of_le (lack_eq_zero hzero hc)

/-- A run that may make a pass and loses nothing ends well, with every cell full. -/
theorem run_lossless {fuel : Nat} (hfuel : 0 < fuel) (hlack : s.lack l < wordBound)
    (hmax : s.maxPasses ≠ some 0) {w : W} (h : Lossless (s.run fuel b trial l w).2) :
    (s.run fuel b trial l w).1 = none ∧
      ∀ c ∈ s.cells, (s.run fuel b trial l w).2.ledger.remaining (s.key c) s.target = 0 := by
  obtain ⟨n, rfl⟩ := Nat.exists_eq_succ_of_ne_zero (Nat.pos_iff_ne_zero.1 hfuel)
  have hfirst := visit_lossless (p := Progress.nextPass ⟨l, w, .start⟩) b trial
    (fun c (hc : c ∈ s.cells) => hc) (lossless_start l w)
  have hstands : s.Stands b trial ⟨l, w, .start⟩ (n + 1) (s.run (n + 1) b trial l w) :=
    s.passes_stands b trial (n + 1) _
  generalize s.run (n + 1) b trial l w = result at h hstands
  cases hstands with
  | overflows hover => exact absurd hover (Nat.not_le.2 (s.outstanding_eq_lack l ▸ hlack))
  | done _ hdone => exact ⟨rfl, full_of_isDone hmax hdone⟩
  | halted _ _ hvisit =>
    rw [hvisit] at hfirst
    rcases hfirst with hlossy | ⟨q, hnone, -⟩
    · exact absurd h hlossy.not_lossless
    · cases hnone
  | @passed _ r _ _ _ hvisit hrest =>
    rw [hvisit] at hfirst
    rcases hfirst with hlossy | ⟨q, hnone, hfull⟩
    · have hends : s.Ends b trial r (s.passes b trial n r) := passes_ends .refl n
      rw [hrest] at hends
      exact absurd h (Lossy.ends hlossy hends).not_lossless
    · cases hnone
      have hword : s.outstanding r.ledger < wordBound := by
        rw [outstanding_eq_lack, lack_of_full hfull]
        decide
      rw [← hrest, (Stands.done hword (isDone_of_full hfull)).passes_eq]
      exact ⟨rfl, hfull⟩

/-- From each world that an invariant allows, a trial of any cell gives a record to keep, and
whatever ledger is then written, the write succeeds and leads to such a world again. -/
def Smooth (s : Sweep α) (b : Backend W) (trial : Trial α W) (I : W → Prop) : Prop :=
  ∀ c ∈ s.cells, ∀ w, I w → ∃ r v, trial c w = (some r, v) ∧ r.status.isRecordable = true ∧
    ∀ l : Ledger, ∃ u, b.replace l.encode v = (.ok (), u) ∧ I u

theorem attempt_smooth (h : s.Smooth b trial I) (hc : c ∈ s.cells) (hp : I p.world)
    (hlossless : Lossless p) :
    ∃ q, s.attempt b trial c p = (none, q) ∧ I q.world ∧ Lossless q := by
  obtain ⟨r, v, htrial, hkeep, hwrites⟩ := h c hc p.world hp
  obtain ⟨u, hwrite, hu⟩ := hwrites (p.ledger.push (s.key c) r)
  exact ⟨_, attempt_of_records htrial hkeep hwrite, hu, congrArg (· + 1) hlossless⟩

theorem reaches_smooth (h : s.Smooth b trial I) (hp : I p.world) (hlossless : Lossless p)
    (hr : s.Reaches b trial p q) : I q.world ∧ Lossless q := by
  induction hr with
  | refl => exact ⟨hp, hlossless⟩
  | pass _ _ _ ih => exact ih
  | trial _ hshort hstep ih =>
    obtain ⟨q', hstep', hq'⟩ := attempt_smooth h hshort.1 ih.1 ih.2
    cases hstep'.symm.trans hstep
    exact hq'

/-- However long it is, a smooth run loses nothing. -/
theorem run_smooth (h : s.Smooth b trial I) (fuel : Nat) (l : Ledger) {w : W} (hw : I w) :
    I (s.run fuel b trial l w).2.world ∧ Lossless (s.run fuel b trial l w).2 := by
  have hends := s.run_ends fuel b trial l w
  generalize s.run fuel b trial l w = result at hends
  cases hends with
  | done hr =>
    have hq := reaches_smooth h hw (lossless_start l w) hr
    exact hq
  | spent hr | overflows hr => exact reaches_smooth h hw (lossless_start l w) hr
  | halted hr hshort hstep =>
    obtain ⟨hq, hlossless⟩ := reaches_smooth h hw (lossless_start l w) hr
    obtain ⟨q', hstep', -⟩ := attempt_smooth h hshort.1 hq hlossless
    cases hstep'.symm.trans hstep

/-! ### Counts that are borne out -/

/-- A count of what is outstanding that a run bears out: what is added, with what is outstanding
afterwards, is what was outstanding before, and a run that may make a pass and loses nothing adds
all of it. -/
structure Accurate (s : Sweep α) (count : Ledger → Nat) (fuel : Nat) (b : Backend W)
    (trial : Trial α W) (l : Ledger) (w : W) : Prop where
  settled : Settles count l (s.run fuel b trial l w).2
  lossless : 0 < fuel → s.maxPasses ≠ some 0 → Lossless (s.run fuel b trial l w).2 →
    (s.run fuel b trial l w).1 = none ∧ Adds l (s.run fuel b trial l w).2 (count l)

theorem work_of_full (h : ∀ c ∈ s.cells, l.remaining (s.key c) s.target = 0) : s.work l = 0 := by
  refine Finset.sum_eq_zero fun k hk => ?_
  obtain ⟨c, hc, rfl⟩ := List.mem_map.1 (List.mem_toFinset.1 hk)
  exact h c hc

theorem accurate_work (fuel : Nat) (b : Backend W) (trial : Trial α W) (w : W)
    (hlack : s.lack l < wordBound) : s.Accurate s.work fuel b trial l w where
  settled := s.settles_run fuel b trial l w
  lossless hfuel hmax h := by
    obtain ⟨n, hadds, hwork⟩ := s.settles_run fuel b trial l w
    obtain ⟨hends, hfull⟩ := run_lossless hfuel hlack hmax h
    rw [work_of_full hfull, Nat.add_zero] at hwork
    exact ⟨hends, hwork ▸ hadds⟩

/-- Where no two cells have one ledger key, what is outstanding is the work. -/
theorem accurate_outstanding (fuel : Nat) (b : Backend W) (trial : Trial α W) (w : W)
    (hkeys : s.ledgerKeys.Nodup) (hlack : s.lack l < wordBound) :
    s.Accurate s.outstanding fuel b trial l w := by
  have haccurate := accurate_work fuel b trial w hlack
  have hbefore : s.outstanding l = s.work l := by
    rw [outstanding_eq_lack, work_eq_lack hkeys]
  have hafter : s.outstanding (s.run fuel b trial l w).2.ledger =
      s.work (s.run fuel b trial l w).2.ledger := by
    obtain ⟨n, -, hwork⟩ := haccurate.settled
    rw [work_eq_lack hkeys, work_eq_lack hkeys] at hwork
    rw [outstanding_eq_lack, work_eq_lack hkeys]
  constructor
  · obtain ⟨n, hadds, hwork⟩ := haccurate.settled
    exact ⟨n, hadds, by rw [hafter, hbefore, hwork]⟩
  · intro hfuel hmax h
    rw [hbefore]
    exact haccurate.lossless hfuel hmax h

end Sweep

end FaultSweep
