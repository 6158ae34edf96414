import FaultSweep.Proofs.Sweep.Turns

/-!
# How many passes a sweep makes

Without a limit nothing counts the passes down. But a pass is only begun while a cell is short, so
it makes a trial, and it makes no more of them than were outstanding; and a pass on which no result
is dropped fills every cell. So each pass but the last is paid for by a result that was dropped, and
a sequence of results with only so many of these runs out of passes.
-/

namespace FaultSweep

namespace Sweep

variable {α W : Type} {s : Sweep α} {b : Backend W} {trial : Trial α W} {l : Ledger}
  {p q : Progress W} {n fuel : Nat}

theorem short_of_open (hopen : s.isDone p = false) :
    0 < s.lack p.ledger ∧ ∀ n, s.maxPasses = some n → p.summary.passes < n := by
  simp only [isDone, outstanding_eq_lack, Bool.or_eq_false_iff, decide_eq_false_iff_not] at hopen
  refine ⟨Nat.pos_of_ne_zero hopen.1, fun n hmax => ?_⟩
  simpa [hmax] using hopen.2

/-- What one pass costs. -/
theorem makes_pass (hopen : s.isDone p = false)
    (h : s.pass b trial p = (none, q)) :
    ∃ n, Makes n p.nextPass q ∧ 0 < n ∧ n ≤ s.lack p.ledger ∧
      (s.isDone q = true ∨ p.summary.discarded < q.summary.discarded) := by
  have hvisit : s.visit b trial s.cells p.nextPass = (none, q) := h
  obtain ⟨n, hn, hmost, hleast⟩ := makes_visit hvisit
  refine ⟨n, hn, hleast ?_, hmost, ?_⟩
  · by_contra hfull
    push Not at hfull
    have hnone := lack_of_full fun c hc => Nat.eq_zero_of_le_zero (hfull c hc)
    exact (short_of_open hopen).1.ne' hnone
  · rcases Nat.eq_or_lt_of_le hn.discarded with hnone | hsome
    · exact .inl (isDone_of_full (full_of_undropped hvisit hnone.symm))
    · exact .inr hsome

/-! ### Passes one after another -/

/-- Every trial comes to an end, and what it gives can be written. -/
def Unbroken (s : Sweep α) (b : Backend W) (trial : Trial α W) : Prop :=
  ∀ c p, ∃ q, s.attempt b trial c p = (none, q)

theorem pass_unbroken (h : s.Unbroken b trial) (p : Progress W) :
    ∃ q, s.pass b trial p = (none, q) ∧ s.Reaches b trial p.nextPass q := by
  have hleads : s.Leads b trial p.nextPass (s.visit b trial s.cells p.nextPass) :=
    visit_leads .refl s.cells fun c hc => hc
  have hpass : s.pass b trial p = s.visit b trial s.cells p.nextPass := rfl
  rw [hpass]
  generalize s.visit b trial s.cells p.nextPass = result at hleads
  cases hleads with
  | on hr => exact ⟨_, rfl, hr⟩
  | @halted q r c halt _ _ hstep =>
    obtain ⟨q', hq'⟩ := h c q
    cases hq'.symm.trans hstep

/-- How a sweep stands after a number of passes, if none of them is halted. -/
def standing (s : Sweep α) (b : Backend W) (trial : Trial α W) (p : Progress W) (n : Nat) :
    Progress W :=
  (fun q => (s.pass b trial q).2)^[n] p

theorem pass_standing (h : s.Unbroken b trial) (p : Progress W) (n : Nat) :
    s.pass b trial (s.standing b trial p n) = (none, s.standing b trial p (n + 1)) := by
  obtain ⟨q, hq, -⟩ := pass_unbroken h (s.standing b trial p n)
  rw [standing, standing, Function.iterate_succ_apply', ← standing, hq]

/-- No pass adds to what is lacking. -/
theorem lack_standing_le (h : s.Unbroken b trial) (p : Progress W) (n : Nat) :
    s.lack (s.standing b trial p n).ledger ≤ s.lack p.ledger := by
  induction n with
  | zero => exact Nat.le_refl _
  | succ n ih =>
    obtain ⟨q, hq, hr⟩ := pass_unbroken h (s.standing b trial p n)
    cases hq.symm.trans (pass_standing h p n)
    exact Nat.le_trans (lack_le (completed_reaches hr)) ih

theorem outstanding_standing_lt (h : s.Unbroken b trial) (hlack : s.lack p.ledger < wordBound)
    (n : Nat) : s.outstanding (s.standing b trial p n).ledger < wordBound := by
  rw [outstanding_eq_lack]
  exact Nat.lt_of_le_of_lt (lack_standing_le h p n) hlack

theorem reaches_standing (h : s.Unbroken b trial) (hlack : s.lack p.ledger < wordBound)
    (hopen : ∀ k < n, s.isDone (s.standing b trial p k) = false) :
    s.Reaches b trial p (s.standing b trial p n) := by
  induction n with
  | zero => exact .refl
  | succ n ih =>
    obtain ⟨q, hq, hr⟩ := pass_unbroken h (s.standing b trial p n)
    cases hq.symm.trans (pass_standing h p n)
    have hbefore := ih fun k hk => hopen k (Nat.lt_succ_of_lt hk)
    have hword := outstanding_standing_lt h hlack n
    exact (Reaches.pass hbefore hword (hopen n (Nat.lt_succ_self n))).trans hr

/-- A run makes its passes one after another, until it is done or its fuel is spent. -/
theorem passes_standing (h : s.Unbroken b trial) (fuel : Nat)
    (hlack : s.lack p.ledger < wordBound) :
    ∃ n, (∀ k < n, s.isDone (s.standing b trial p k) = false) ∧
      ((∃ m, s.passes b trial fuel p = (none, (s.standing b trial p n).closed m)) ∨
        n = fuel ∧ s.isDone (s.standing b trial p n) = false ∧
          s.passes b trial fuel p = (some .unfinished, s.standing b trial p n)) := by
  induction fuel generalizing p with
  | zero =>
    have hword := outstanding_standing_lt h hlack 0
    refine ⟨0, by simp, ?_⟩
    cases hdone : s.isDone p with
    | true => exact .inl ⟨_, (Stands.done hword hdone).passes_eq⟩
    | false => exact .inr ⟨rfl, hdone, (Stands.spent hword hdone).passes_eq⟩
  | succ fuel ih =>
    have hword := outstanding_standing_lt h hlack 0
    cases hdone : s.isDone p with
    | true => exact ⟨0, by simp, .inl ⟨_, (Stands.done hword hdone).passes_eq⟩⟩
    | false =>
      obtain ⟨q, hq, hr⟩ := pass_unbroken h p
      have hnext : ∀ k, s.standing b trial p (k + 1) = s.standing b trial q k := by
        intro k
        rw [standing, Function.iterate_succ_apply, hq, standing]
      have hrun : s.passes b trial (fuel + 1) p = s.passes b trial fuel q :=
        (Stands.passed hword hdone hq rfl).passes_eq
      obtain ⟨n, hopen, hends⟩ := ih (Nat.lt_of_le_of_lt (lack_le (completed_reaches hr)) hlack)
      refine ⟨n + 1, ?_, ?_⟩
      · rintro (_ | k) hk
        · exact hdone
        · rw [hnext]
          exact hopen k (Nat.lt_of_succ_lt_succ hk)
      · rw [hrun, hnext]
        refine hends.imp_right ?_
        rintro ⟨rfl, hlast⟩
        exact ⟨rfl, hlast⟩

/-- What some passes over a ledger come to. All but the last of them are paid for by dropped
results, and the last is as well if it was not enough. -/
structure Amounts (s : Sweep α) (l : Ledger) (n : Nat) (q : Progress W) : Prop where
  passes : q.summary.passes = n
  attempts : q.summary.attempts ≤ n * s.lack l
  lack : s.lack q.ledger ≤ s.lack l
  paid : n ≤ q.summary.discarded + 1
  short : s.isDone q = false → n ≤ q.summary.discarded

theorem Amounts.start (s : Sweep α) (l : Ledger) (w : W) : s.Amounts l 0 ⟨l, w, .start⟩ :=
  ⟨rfl, Nat.zero_le _, Nat.le_refl _, Nat.zero_le _, fun _ => Nat.zero_le _⟩

theorem Amounts.pass (h : s.Amounts l n p) (hopen : s.isDone p = false)
    (hpass : s.pass b trial p = (none, q)) : s.Amounts l (n + 1) q := by
  obtain ⟨k, hk, -, hmost, hpaid⟩ := makes_pass hopen hpass
  have hdiscarded : p.summary.discarded ≤ q.summary.discarded := hk.discarded
  have hbefore := h.short hopen
  constructor
  · rw [hk.passes]
    exact congrArg (· + 1) h.passes
  · rw [hk.attempts, Nat.succ_mul]
    exact Nat.add_le_add h.attempts (Nat.le_trans hmost h.lack)
  · exact Nat.le_trans (lack_le hk.completed) h.lack
  · omega
  · intro hshort
    have hmore := hpaid.resolve_left (Bool.eq_false_iff.1 hshort)
    omega

theorem amounts_standing (h : s.Unbroken b trial) {w : W}
    (hopen : ∀ k < n, s.isDone (s.standing b trial ⟨l, w, .start⟩ k) = false) :
    s.Amounts l n (s.standing b trial ⟨l, w, .start⟩ n) := by
  induction n with
  | zero => exact .start s l w
  | succ n ih =>
    have hbefore := ih fun k hk => hopen k (Nat.lt_succ_of_lt hk)
    exact hbefore.pass (hopen n (Nat.lt_succ_self n)) (pass_standing h _ n)

end Sweep

namespace Logbook

open Sweep

variable {α : Type} {s : Sweep α} {rs : Nat → TrialRecord} {l : Ledger} {m : MemoryFile}
  {p q : Progress (Logbook Nat)} {n : Nat}

/-- The trials of a sweep give the records of a sequence, one after another. They are written down,
and all writes go well. -/
def sequenced (s : Sweep α) (rs : Nat → TrialRecord) : Trial α (Logbook Nat) :=
  trial s.key (fun _ n => (some (rs n), n + 1)) fun _ => false

/-- How such a sweep stands after a number of passes. -/
def after (s : Sweep α) (rs : Nat → TrialRecord) (l : Ledger) (m : MemoryFile) (n : Nat) :
    Progress (Logbook Nat) :=
  s.standing backend (sequenced s rs) ⟨l, ⟨m, [], 0⟩, .start⟩ n

/-- The trials that are written down are those at the beginning of the sequence. -/
def Follows (rs : Nat → TrialRecord) (w : Logbook Nat) : Prop :=
  w.trials.map Tried.record = (List.range w.memory).map rs

/-- One trial takes the next result of the sequence, and the sweep goes on. -/
theorem attempt_sequenced (s : Sweep α) (rs : Nat → TrialRecord) (c : α)
    (p : Progress (Logbook Nat)) :
    ∃ q, s.attempt backend (sequenced s rs) c p = (none, q) ∧
      (Follows rs p.world → Follows rs q.world) := by
  have hs := attempt_step s (fun _ n => (some (rs n), n + 1)) (fun _ => false) c p
  change Step s _ _ c p (s.attempt backend (sequenced s rs) c p) at hs
  generalize s.attempt backend (sequenced s rs) c p = result at hs
  unfold Follows
  cases hs with
  | hangs hact => cases hact
  | records hact =>
    cases hact
    exact ⟨_, rfl, fun h => by simp [List.range_succ, h]⟩
  | fails _ _ hfails => cases hfails
  | discards hact =>
    cases hact
    exact ⟨_, rfl, fun h => by simp [List.range_succ, h]⟩

theorem unbroken_sequenced (s : Sweep α) (rs : Nat → TrialRecord) :
    s.Unbroken backend (sequenced s rs) := by
  intro c p
  obtain ⟨q, hstep, -⟩ := attempt_sequenced s rs c p
  exact ⟨q, hstep⟩

theorem follows_reaches (h : Follows rs p.world)
    (hr : s.Reaches backend (sequenced s rs) p q) : Follows rs q.world := by
  induction hr with
  | refl => exact h
  | pass _ _ _ ih => exact ih
  | @trial q r c _ _ hstep ih =>
    obtain ⟨r', hstep', hfollows⟩ := attempt_sequenced s rs c q
    cases hstep'.symm.trans hstep
    exact hfollows ih

/-- No more results are dropped than are not to be recorded. -/
theorem dropped_le {w : Logbook Nat} (h : Follows rs w) {bad : Finset Nat}
    (hbad : ∀ i, (rs i).status.isRecordable = false → i ∈ bad) :
    (w.trials.countP fun t => !t.kept) ≤ bad.card := by
  let drops := (List.range w.memory).filter fun i => !(rs i).status.isRecordable
  have hcount : (w.trials.countP fun t => !t.kept) = drops.length := by
    have hrecords : (w.trials.countP fun t => !t.kept) =
        (w.trials.map Tried.record).countP fun r => !r.status.isRecordable := by
      rw [List.countP_map]
      rfl
    rw [hrecords, h, List.countP_map, List.countP_eq_length_filter]
    rfl
  have hnodup : drops.Nodup := List.nodup_range.filter _
  rw [hcount, ← List.toFinset_card_of_nodup hnodup]
  refine Finset.card_le_card fun i hi => hbad i ?_
  simpa using List.of_mem_filter (List.mem_toFinset.1 hi)

/-- A run stands as it does after some passes, and is done or out of fuel. -/
theorem run_after (s : Sweep α) (rs : Nat → TrialRecord) (l : Ledger) (m : MemoryFile)
    (fuel : Nat) (hlack : s.lack l < wordBound) :
    ∃ n, (∀ k < n, s.isDone (after s rs l m k) = false) ∧
      ((∃ k, s.run fuel backend (sequenced s rs) l ⟨m, [], 0⟩ =
        (none, (after s rs l m n).closed k)) ∨
      n = fuel ∧ s.isDone (after s rs l m n) = false ∧
        s.run fuel backend (sequenced s rs) l ⟨m, [], 0⟩ =
          (some .unfinished, after s rs l m n)) :=
  passes_standing (unbroken_sequenced s rs) fuel hlack

/-- What is known of a sweep that has come so far. -/
theorem reaches_after (hlack : s.lack l < wordBound)
    (hopen : ∀ k < n, s.isDone (after s rs l m k) = false) :
    Balanced l m (after s rs l m n) ∧ Follows rs (after s rs l m n).world := by
  have hr : s.Reaches backend (sequenced s rs) ⟨l, ⟨m, [], 0⟩, .start⟩ (after s rs l m n) :=
    reaches_standing (unbroken_sequenced s rs) hlack hopen
  have hnone : Follows rs (Progress.world ⟨l, ⟨m, [], 0⟩, .start⟩) := rfl
  exact ⟨balanced_reaches (balanced_start l m 0) hr, follows_reaches hnone hr⟩

theorem amounts_after (hopen : ∀ k < n, s.isDone (after s rs l m k) = false) :
    s.Amounts l n (after s rs l m n) :=
  amounts_standing (unbroken_sequenced s rs) hopen

/-- The trials of one pass. -/
theorem trials_of_pass (hlack : s.lack l < wordBound)
    (hopen : ∀ k ≤ n, s.isDone (after s rs l m k) = false) :
    ∃ ts, (after s rs l m (n + 1)).world.trials = (after s rs l m n).world.trials ++ ts ∧
      0 < ts.length ∧ ts.length ≤ s.outstanding (after s rs l m n).ledger := by
  have hbefore : ∀ k < n, s.isDone (after s rs l m k) = false := fun k hk =>
    hopen k (Nat.le_of_lt hk)
  have hpass : s.pass backend (sequenced s rs) (after s rs l m n) =
      (none, after s rs l m (n + 1)) := pass_standing (unbroken_sequenced s rs) _ n
  obtain ⟨q, hq, hr⟩ := pass_unbroken (unbroken_sequenced s rs) (after s rs l m n)
  cases hq.symm.trans hpass
  obtain ⟨k, hk, hpos, hmost, -⟩ := makes_pass (hopen n (Nat.le_refl n)) hpass
  have hopened := balanced_nextPass (reaches_after hlack hbefore).1
  have hcount := (balanced_reaches hopened hr).attempts
  obtain ⟨ts, hts⟩ := trials_prefix_reaches hr
  have hlength : ts.length = k := by
    rw [hk.attempts, hopened.attempts, ← hts, List.length_append] at hcount
    omega
  rw [outstanding_eq_lack]
  exact ⟨ts, hts.symm, hlength ▸ hpos, hlength ▸ hmost⟩

/-- What a sweep has cost at the end of some of its passes. Each of them was begun with something
outstanding, and made at least one trial and no more than were outstanding then. -/
structure Priced (s : Sweep α) (rs : Nat → TrialRecord) (l : Ledger) (m : MemoryFile)
    (q : Progress (Logbook Nat)) : Prop where
  world : q.world = (after s rs l m q.summary.passes).world
  pass : ∀ n < q.summary.passes, s.isDone (after s rs l m n) = false ∧
    s.pass backend (sequenced s rs) (after s rs l m n) = (none, after s rs l m (n + 1)) ∧
    ∃ ts, (after s rs l m (n + 1)).world.trials = (after s rs l m n).world.trials ++ ts ∧
      0 < ts.length ∧ ts.length ≤ s.outstanding (after s rs l m n).ledger
  attempts : q.summary.attempts = q.world.trials.length
  passes_le : q.summary.passes ≤ q.summary.discarded + 1
  attempts_le : q.summary.attempts ≤ q.summary.passes * s.outstanding l

theorem priced_after (hlack : s.lack l < wordBound)
    (hopen : ∀ k < n, s.isDone (after s rs l m k) = false) :
    Priced s rs l m (after s rs l m n) := by
  have hamounts := amounts_after hopen
  have hpasses := hamounts.passes
  constructor
  · rw [hpasses]
  · rw [hpasses]
    intro k hk
    exact ⟨hopen k hk, pass_standing (unbroken_sequenced s rs) _ k,
      trials_of_pass hlack fun i hi => hopen i (Nat.lt_of_le_of_lt hi hk)⟩
  · exact (reaches_after hlack hopen).1.attempts
  · rw [hpasses]
    exact hamounts.paid
  · rw [hpasses, outstanding_eq_lack]
    exact hamounts.attempts

/-- Sweeps end, and what they cost is bounded. There is at most one pass more than there are dropped
results, and for each pass there are at most as many trials as were outstanding at first. A run that
has not ended has used up its fuel: one whose passes are limited ends by its limit, and one whose
results are all to be recorded but for some ends after at most one pass more than there are of
those. -/
theorem run_is_paid_for (s : Sweep α) (rs : Nat → TrialRecord) (l : Ledger) (m : MemoryFile)
    (hlack : s.lack l < wordBound) :
    (∀ fuel, ∃ o q, s.run fuel backend (sequenced s rs) l ⟨m, [], 0⟩ = (o, q) ∧
      (o = none ∨ o = some .unfinished ∧ q.summary.passes = fuel) ∧ Priced s rs l m q) ∧
    (∀ limit, s.maxPasses = some limit → ∀ fuel, limit ≤ fuel →
      ∃ q, s.run fuel backend (sequenced s rs) l ⟨m, [], 0⟩ = (none, q)) ∧
    ∀ bad : Finset Nat, (∀ i, (rs i).status.isRecordable = false → i ∈ bad) →
      ∀ fuel, bad.card < fuel →
        ∃ q, s.run fuel backend (sequenced s rs) l ⟨m, [], 0⟩ = (none, q) := by
  refine ⟨fun fuel => ?_, fun limit hmax fuel hfuel => ?_, fun bad hbad fuel hfuel => ?_⟩
  all_goals obtain ⟨n, hopen, ⟨k, hends⟩ | ⟨rfl, hshort, hends⟩⟩ := run_after s rs l m fuel hlack
  · have hpriced := priced_after hlack hopen
    exact ⟨none, _, hends, .inl rfl, ⟨hpriced.world, hpriced.pass, hpriced.attempts,
      hpriced.passes_le, hpriced.attempts_le⟩⟩
  · exact ⟨_, _, hends, .inr ⟨rfl, (amounts_after hopen).passes⟩, priced_after hlack hopen⟩
  · exact ⟨_, hends⟩
  · have hamounts := amounts_after hopen
    have hallowed := (short_of_open hshort).2 _ hmax
    rw [hamounts.passes] at hallowed
    omega
  · exact ⟨_, hends⟩
  · obtain ⟨hbalanced, hfollows⟩ := reaches_after hlack hopen
    have hpaid := (amounts_after hopen).short hshort
    have hdropped := dropped_le hfollows hbad
    rw [hbalanced.discarded] at hpaid
    omega

/-- The second and the fourth trial time out, all others succeed. -/
def twoTimeouts (n : Nat) : TrialRecord :=
  ⟨if n = 1 ∨ n = 3 then .timedOut else .success, .afterEpoch n, .afterEpoch n, .completed, .null,
    none⟩

theorem two_timeouts_are_paid_for :
    (overFaults [1] 3).lack SortedMap.empty < wordBound ∧
      (∀ i, (twoTimeouts i).status.isRecordable = false → i ∈ ({1, 3} : Finset Nat)) ∧
      ∃ q, (overFaults [1] 3).run 3 backend (sequenced (overFaults [1] 3) twoTimeouts)
          SortedMap.empty ⟨⟨none, false, 0⟩, [], 0⟩ = (none, q) ∧
        Priced (overFaults [1] 3) twoTimeouts SortedMap.empty ⟨none, false, 0⟩ q ∧
        q.summary = ⟨3, 5, 3, 2, 0⟩ := by
  have hlack : (overFaults [1] 3).lack SortedMap.empty < wordBound := by decide
  have hbad : ∀ i, (twoTimeouts i).status.isRecordable = false → i ∈ ({1, 3} : Finset Nat) := by
    intro i hi
    by_contra hnone
    have hsuccess : (twoTimeouts i).status = .success := if_neg (by simpa using hnone)
    rw [hsuccess] at hi
    cases hi
  have hsummary : ((overFaults [1] 3).run 3 backend (sequenced (overFaults [1] 3) twoTimeouts)
      SortedMap.empty ⟨⟨none, false, 0⟩, [], 0⟩).2.summary = ⟨3, 5, 3, 2, 0⟩ := by
    decide +kernel
  obtain ⟨hruns, -, hends⟩ := run_is_paid_for (overFaults [1] 3) twoTimeouts SortedMap.empty
    ⟨none, false, 0⟩ hlack
  obtain ⟨q, hrun⟩ := hends {1, 3} hbad 3 (by decide)
  obtain ⟨o, q', hrun', -, hpriced⟩ := hruns 3
  cases hrun.symm.trans hrun'
  rw [hrun] at hsummary
  exact ⟨hlack, hbad, q, hrun, hpriced, hsummary⟩

end Logbook

end FaultSweep
