import FaultSweep.Proofs.Campaign.Script
import FaultSweep.Proofs.Ledger.Growth
import FaultSweep.Proofs.Sweep.Course

/-!
# The account of a campaign

A campaign first takes down what an earlier one may have left. Then it makes one trial after the
other and enters the records of those that measured something into the ledger. Its account is the
list of these trials: it tells what happened, what the ledger holds and how many trials there were.
-/

namespace FaultSweep

namespace Campaign

variable {σ : Type} {m : Machine σ} {fuel : Nat} {path : String} {o : SweepOverrides}
  {p : SweepPlan} {cs : List Cell} {l : Ledger} {w : World σ}

/-! ### The sweep inside a run -/

/-- The sweep of a run, whose cells and whose ledger were found sound. -/
def sweep (m : Machine σ) (fuel : Nat) (p : SweepPlan) (cs : List Cell) (l : Ledger)
    (w : World σ) : Option Halt × Progress (World σ) :=
  (sweepOf p cs).run (p.maxPasses.getD fuel) (backend p) (trialOf m p) l
    ((environment m p).teardown w)

/-- Where the sweep of a run starts. -/
def outset (m : Machine σ) (p : SweepPlan) (l : Ledger) (w : World σ) : Progress (World σ) :=
  ⟨l, (environment m p).teardown w, .start⟩

theorem run_of_prepare (h : prepare path o w = .ok (p, cs, l)) :
    run m fuel path o w = match sweep m fuel p cs l w with
      | (some .unfinished, last) => (.error .unfinished, last.world)
      | (some .overflow, last) => (.error .overflow, last.world)
      | (some (.failed e), last) => (.ok (.error e), last.world)
      | (none, last) =>
        (.ok (.ok ⟨p.family, p.ledger, cs.length, p.target, last.summary⟩), last.world) := by
  rw [run, h]
  rfl

/-- What is wrong from the start is all that a run says. -/
theorem run_of_prepare_error {e : Fatal} (h : prepare path o w = .error e) :
    run m fuel path o w = (.ok (.error e), w) := by
  rw [run, h]

theorem world_run (h : prepare path o w = .ok (p, cs, l)) :
    (run m fuel path o w).2 = (sweep m fuel p cs l w).2.world := by
  rw [run_of_prepare h]
  rcases sweep m fuel p cs l w with ⟨_ | _ | _ | _, last⟩ <;> rfl

/-- A run that returns was stopped before its sweep, or returns what its sweep came to. -/
theorem sweep_of_run {r : Except Fatal SweepResult} {w' : World σ}
    (h : run m fuel path o w = (.ok r, w')) :
    (∃ e, prepare path o w = .error e ∧ r = .error e ∧ w' = w) ∨
    ∃ p cs l halt last, prepare path o w = .ok (p, cs, l) ∧ sweep m fuel p cs l w = (halt, last) ∧
      w' = last.world ∧
      ((halt = none ∧ r = .ok ⟨p.family, p.ledger, cs.length, p.target, last.summary⟩) ∨
        ∃ e, halt = some (.failed e) ∧ r = .error e) := by
  cases hprepare : prepare path o w with
  | error e =>
    rw [run_of_prepare_error hprepare] at h
    cases h
    exact .inl ⟨e, rfl, rfl, rfl⟩
  | ok found =>
    obtain ⟨p, cs, l⟩ := found
    rw [run_of_prepare hprepare] at h
    rcases hsweep : sweep m fuel p cs l w with ⟨_ | _ | _ | _, last⟩
    · rw [hsweep] at h
      cases h
      exact .inr ⟨p, cs, l, _, last, rfl, hsweep, rfl, .inl ⟨rfl, rfl⟩⟩
    · rw [hsweep] at h
      cases h
      exact .inr ⟨p, cs, l, _, last, rfl, hsweep, rfl, .inr ⟨_, rfl, rfl⟩⟩
    · rw [hsweep] at h
      cases h
    · rw [hsweep] at h
      cases h

theorem sweep_of_run_ok {res : SweepResult} {w' : World σ}
    (h : run m fuel path o w = (.ok (.ok res), w')) :
    ∃ p cs l last, prepare path o w = .ok (p, cs, l) ∧ sweep m fuel p cs l w = (none, last) ∧
      w' = last.world ∧ res = ⟨p.family, p.ledger, cs.length, p.target, last.summary⟩ := by
  rcases sweep_of_run h with ⟨e, -, hr, -⟩ | ⟨p, cs, l, halt, last, hprepare, hsweep, hw, hr⟩
  · cases hr
  · rcases hr with ⟨rfl, hr⟩ | ⟨e, -, hr⟩
    · exact ⟨p, cs, l, last, hprepare, hsweep, hw, Except.ok.inj hr⟩
    · cases hr

/-- What a run returns is all there if its summary is. -/
theorem exists_of_summary {s : SweepSummary} (h : (run m fuel path o w).1.toOption.map
      (·.toOption.map SweepResult.summary) = some (some s)) :
    ∃ res w', run m fuel path o w = (.ok (.ok res), w') ∧ res.summary = s := by
  generalize run m fuel path o w = reply at h ⊢
  obtain ⟨_ | _ | res, w'⟩ := reply
  · cases h
  · cases h
  · exact ⟨res, w', rfl, Option.some.inj (Option.some.inj h)⟩

/-- The ledger is replaced on the disk, and nothing else is done to the world. -/
theorem replace_backend (p : SweepPlan) (b : Utf8.Bytes) (w : World σ) :
    (backend p).replace b w =
      ((w.disk.replace p.ledger b).1, { w with disk := (w.disk.replace p.ledger b).2 }) := rfl

/-! ### Trials in a row -/

/-- A trial that was made, with its events and its record. -/
structure Trip where
  cell : Cell
  events : List Event
  record : TrialRecord

/-- The records that are kept, each for its cell. -/
def kept (ts : List Trip) : List Entered :=
  (ts.filter (·.record.status.isRecordable)).map fun t => (t.cell.key, t.record)

theorem kept_append (ts us : List Trip) : kept (ts ++ us) = kept ts ++ kept us := by
  simp [kept]

theorem mem_kept {ts : List Trip} {e : Entered} :
    e ∈ kept ts ↔ ∃ t ∈ ts, t.record.status.isRecordable = true ∧ (t.cell.key, t.record) = e := by
  simp [kept, and_assoc]

/-- What a plan does to the disk in a campaign: it uses scratch files and replaces its ledger. -/
inductive Handles (p : SweepPlan) (d : Disk) : Disk → Prop
  | scratches {d' : Disk} (h : Scratches p d d') : Handles p d d'
  | replace (b : Utf8.Bytes) : Handles p d (d.replace p.ledger b).2

/-- A trial that a sweep made at some point on its way. -/
def Made (m : Machine σ) (p : SweepPlan) (cs : List Cell) (start : Progress (World σ))
    (t : Trip) : Prop :=
  t.cell ∈ cs ∧ ∃ q v, (sweepOf p cs).Reaches (backend p) (trialOf m p) start q ∧
    Conducted m p t.cell q.world t.events t.record v

/-- The account of the way to a progress, trial by trial. -/
structure Account (m : Machine σ) (p : SweepPlan) (cs : List Cell) (start : Progress (World σ))
    (ts : List Trip) (q : Progress (World σ)) : Prop where
  made : ∀ t ∈ ts, Made m p cs start t
  happens : World.Happens m (Handles p) start.world (ts.flatMap Trip.events) q.world
  ledger : q.ledger = start.ledger.pushAll (kept ts)
  attempts : q.summary.attempts = start.summary.attempts + ts.length

theorem happens_replace {u v : World σ} {es : List Event}
    (h : World.Happens m (Handles p) u es v) (b : Utf8.Bytes) :
    World.Happens m (Handles p) u es ((backend p).replace b v).2 :=
  h.change (.replace b)

theorem kept_singleton {t : Trip} (h : t.record.status.isRecordable = true) :
    kept [t] = [(t.cell.key, t.record)] := by
  simp [kept, h]

theorem kept_singleton_of_not {t : Trip} (h : t.record.status.isRecordable = false) :
    kept [t] = [] := by
  simp [kept, h]

/-- One more trial. -/
theorem Account.trial {start q r : Progress (World σ)} {ts : List Trip} {c : Cell}
    (h : Account m p cs start ts q)
    (hreach : (sweepOf p cs).Reaches (backend p) (trialOf m p) start q) (hc : c ∈ cs)
    (hstep : (sweepOf p cs).attempt (backend p) (trialOf m p) c q = (none, r)) :
    ∃ t, Account m p cs start (ts ++ [t]) r := by
  have houtcome := Sweep.attempt_outcome (sweepOf p cs) (backend p) (trialOf m p) c q
  rw [hstep] at houtcome
  cases houtcome with
  | @records rec v v' htrial hkeep hwrite =>
    obtain ⟨es, hconducted⟩ := conducted_of_trial htrial
    have hhappens := h.happens.trans (hconducted.happens.mono fun _ _ => .scratches)
    refine ⟨⟨c, es, rec⟩, ?_, ?_, ?_, ?_⟩
    · exact List.forall_mem_append.2
        ⟨h.made, List.forall_mem_singleton.2 ⟨hc, q, v, hreach, hconducted⟩⟩
    · have hwritten := happens_replace hhappens (q.ledger.push c.key rec).encode
      rw [show (backend p).replace (q.ledger.push c.key rec).encode v = _ from hwrite] at hwritten
      rwa [List.flatMap_append, List.flatMap_singleton]
    · rw [kept_append, kept_singleton hkeep, Ledger.pushAll_concat, ← h.ledger]
      rfl
    · show q.summary.attempts + 1 = _
      rw [h.attempts, List.length_append]
      rfl
  | @discards rec v htrial hkeep =>
    obtain ⟨es, hconducted⟩ := conducted_of_trial htrial
    have hhappens := h.happens.trans (hconducted.happens.mono fun _ _ => .scratches)
    refine ⟨⟨c, es, rec⟩, ?_, ?_, ?_, ?_⟩
    · exact List.forall_mem_append.2
        ⟨h.made, List.forall_mem_singleton.2 ⟨hc, q, v, hreach, hconducted⟩⟩
    · rwa [List.flatMap_append, List.flatMap_singleton]
    · rw [kept_append, kept_singleton_of_not hkeep, List.append_nil]
      exact h.ledger
    · show q.summary.attempts + 1 = _
      rw [h.attempts, List.length_append]
      rfl

/-- There is an account of every way. -/
theorem exists_account {start q : Progress (World σ)}
    (h : (sweepOf p cs).Reaches (backend p) (trialOf m p) start q) :
    ∃ ts, Account m p cs start ts q := by
  induction h with
  | refl => exact ⟨[], List.forall_mem_nil _, .refl, rfl, rfl⟩
  | pass _ _ _ ih =>
    obtain ⟨ts, h⟩ := ih
    exact ⟨ts, h.made, h.happens, h.ledger, h.attempts⟩
  | trial hreach hshort hstep ih =>
    obtain ⟨ts, h⟩ := ih
    obtain ⟨t, ht⟩ := h.trial hreach hshort.1 hstep
    exact ⟨ts ++ [t], ht⟩

/-! ### The cells of a plan -/

theorem needsOf_ok {k : ConfigurationKey} {found : TrialParameters × PayloadSpec}
    (h : needsOf p k = .ok found) :
    p.parametersFor k = .ok found.1 ∧ p.payloadFor found.1 = some found.2 := by
  unfold needsOf at h
  split at h
  · cases h
  · next params hparams =>
    split at h
    · cases h
    · next payload hpayload =>
      cases h
      exact ⟨hparams, hpayload⟩

/-- Every key that was entered is found with what it needs, however often it came, and what is found
for another key has not changed. -/
theorem get?_of_enter {ks : List ConfigurationKey} {needs needs' : Needs}
    (h : enter p ks needs = .ok needs') :
    (∀ k ∈ ks, ∃ found, needsOf p k = .ok found ∧ needs'.get? k = some found) ∧
      ∀ k ∉ ks, needs'.get? k = needs.get? k := by
  induction ks generalizing needs with
  | nil =>
    cases h
    exact ⟨List.forall_mem_nil _, fun _ _ => rfl⟩
  | cons k ks ih =>
    unfold enter at h
    split at h
    · cases h
    · next found hfound =>
      obtain ⟨hentered, hkept⟩ := ih h
      refine ⟨List.forall_mem_cons.2 ⟨?_, hentered⟩, fun j hj => ?_⟩
      · by_cases hagain : k ∈ ks
        · exact hentered k hagain
        · exact ⟨found, hfound, by rw [hkept k hagain, SortedMap.get?_insert_self]⟩
      · obtain ⟨hne, hj⟩ := not_or.1 (List.mem_cons.not.1 hj)
        rw [hkept j hj, SortedMap.get?_insert_of_ne _ _ hne]

/-- The cells have the keys of the plan, in their order, and each what its key needs. -/
theorem cells_ok (h : cells p = .ok cs) : p.keys = .ok (cs.map Cell.key) ∧
    ∀ c ∈ cs, p.parametersFor c.key = .ok c.params ∧ p.payloadFor c.params = some c.payload := by
  unfold cells at h
  split at h
  · cases h
  · next ks hks =>
    split at h
    · cases h
    · next needs hneeds =>
      cases h
      obtain ⟨hentered, -⟩ := get?_of_enter hneeds
      constructor
      · have hcell : ∀ k ∈ ks, (needs.cell? k).map Cell.key = some k := by
          intro k hk
          obtain ⟨found, -, hfound⟩ := hentered k hk
          rw [Needs.cell?, hfound]
          rfl
        rw [List.map_filterMap, List.filterMap_congr hcell, List.filterMap_some, hks]
      · intro c hc
        obtain ⟨k, hk, hcell⟩ := List.mem_filterMap.1 hc
        obtain ⟨found, hneeds, hfound⟩ := hentered k hk
        rw [Needs.cell?, hfound] at hcell
        cases hcell
        exact needsOf_ok hneeds

theorem prepare_ok_iff : prepare path o w = .ok (p, cs, l) ↔
    SweepPlan.loadWith w.disk path o = .ok p ∧ cells p = .ok cs ∧
      Ledger.load (backend p) w = .ok l := by
  constructor
  · intro h
    unfold prepare at h
    split at h
    · cases h
    · next p' hload =>
      split at h
      · cases h
      · next cs' hcells =>
        split at h
        · cases h
        · next l' hledger =>
          cases h
          exact ⟨hload, hcells, hledger⟩
  · rintro ⟨hload, hcells, hledger⟩
    simp only [prepare, hload, hcells, hledger]

/-- What was found before the start. -/
theorem prepare_ok (h : prepare path o w = .ok (p, cs, l)) :
    SweepPlan.loadWith w.disk path o = .ok p ∧ p.keys = .ok (cs.map Cell.key) ∧
      (∀ c ∈ cs, p.parametersFor c.key = .ok c.params ∧ p.payloadFor c.params = some c.payload) ∧
      Ledger.load (backend p) w = .ok l := by
  obtain ⟨hload, hcells, hledger⟩ := prepare_ok_iff.1 h
  obtain ⟨hkeys, hneeds⟩ := cells_ok hcells
  exact ⟨hload, hkeys, hneeds, hledger⟩

/-! ### How a sweep ends -/

/-- The error of a campaign whose ledger could not be written. -/
def unwritten (p : SweepPlan) (x : IoError) : Fatal :=
  (Fatal.of (.io x)).within ("writing ledger " ++ p.ledger)

/-- The trials of a sweep, and the failed write or the overflow that ended it if one did. -/
inductive Concludes (m : Machine σ) (p : SweepPlan) (cs : List Cell) (start : Progress (World σ)) :
    Option Halt × Progress (World σ) → Prop
  | done {q : Progress (World σ)}
      (h : (sweepOf p cs).Reaches (backend p) (trialOf m p) start q)
      (hword : (sweepOf p cs).outstanding q.ledger < wordBound)
      (hdone : (sweepOf p cs).isDone q = true) :
      Concludes m p cs start (none, q.closed ((sweepOf p cs).outstanding q.ledger))
  | failed {q : Progress (World σ)} {c : Cell} {es : List Event} {r : TrialRecord} {v : World σ}
      {x : IoError} {d : Disk}
      (h : (sweepOf p cs).Reaches (backend p) (trialOf m p) start q) (hc : c ∈ cs)
      (ht : Conducted m p c q.world es r v) (hkeep : r.status.isRecordable = true)
      (hwrite : v.disk.replace p.ledger (q.ledger.push c.key r).encode = (.error x, d)) :
      Concludes m p cs start (some (.failed (unwritten p x)), q.tried { v with disk := d })
  | overflows {q : Progress (World σ)}
      (h : (sweepOf p cs).Reaches (backend p) (trialOf m p) start q)
      (hover : wordBound ≤ (sweepOf p cs).outstanding q.ledger) :
      Concludes m p cs start (some .overflow, q)
  | unfinished {q last : Progress (World σ)}
      (h : (sweepOf p cs).Reaches (backend p) (trialOf m p) start q)
      (hlast : last.ledger = q.ledger) : Concludes m p cs start (some .unfinished, last)

theorem sweep_concludes (m : Machine σ) (fuel : Nat) (p : SweepPlan) (cs : List Cell) (l : Ledger)
    (w : World σ) : Concludes m p cs (outset m p l w) (sweep m fuel p cs l w) := by
  have hends : (sweepOf p cs).Ends (backend p) (trialOf m p) (outset m p l w)
      (sweep m fuel p cs l w) := Sweep.run_ends _ _ _ _ _ _
  rcases hsweep : sweep m fuel p cs l w with ⟨halt, last⟩
  rw [hsweep] at hends
  cases hends with
  | done h hword hdone => exact .done h hword hdone
  | overflows h hover => exact .overflows h hover
  | spent h => exact .unfinished h rfl
  | @halted q _ c halt h hshort hstep =>
    have houtcome := Sweep.attempt_outcome (sweepOf p cs) (backend p) (trialOf m p) c q
    rw [hstep] at houtcome
    cases houtcome with
    | hangs => exact .unfinished h rfl
    | @fails r v v' x htrial hkeep hwrite =>
      obtain ⟨es, hconducted⟩ := conducted_of_trial htrial
      rw [replace_backend] at hwrite
      obtain ⟨hrefused, rfl⟩ := Prod.mk.inj hwrite
      exact .failed h hshort.1 hconducted hkeep (Prod.ext hrefused rfl)

end Campaign

end FaultSweep
