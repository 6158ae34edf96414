import FaultSweep.Proofs.Campaign.Failure
import FaultSweep.Proofs.Ledger.Storable
import FaultSweep.Proofs.Time.Calendar

/-!
# What a finished run leaves behind

A run counts its records in memory, and whoever asks for the status later counts those of the file.
Both come to the same numbers, since the file that was written last is read as the ledger it was
written from. A run that left nothing outstanding leaves nothing to do for the next one.
-/

namespace FaultSweep

/-! ### The plan is read again -/

namespace SweepPlan

variable {d d' : Disk} {path : String} {o : SweepOverrides} {b : Utf8.Bytes}

/-- The directory of a file that can be read is told by its path. -/
theorem directoryOf_of_read (h : d.read path = .ok b) :
    directoryOf d path = FileTree.locationText (Path.place d.cwd (Path.above path)) := by
  obtain ⟨k, hlocate, hfile⟩ := FileTree.read_ok_iff.1 h
  obtain ⟨l, habove, hdirectory⟩ := FileTree.locate_above hlocate hfile
  have hcanonical : d.tree.canonical? d.cwd (Path.above path) =
      some (FileTree.locationText (Path.place d.cwd (Path.above path))) := by
    rw [FileTree.canonical?, habove]
    dsimp only
    rw [hdirectory, ← FileTree.locate_place habove]
    rfl
  show (d.tree.canonical? d.cwd (Path.above path)).getD "." = _
  rw [hcanonical, Option.getD_some]

/-- A plan depends on its own file only, and on where the path to it begins. -/
theorem loadWith_congr (h : d.read path = .ok b) (hcwd : d'.cwd = d.cwd)
    (hread : d'.read path = d.read path) : loadWith d' path o = loadWith d path o := by
  have hload : load d' path = load d path := by
    unfold load
    rw [hread, directoryOf_of_read h, directoryOf_of_read (hread.trans h), hcwd]
  unfold loadWith
  rw [hload]

theorem read_of_loadWith {p : SweepPlan} (h : loadWith d path o = .ok p) :
    ∃ b, d.read path = .ok b := by
  unfold loadWith load at h
  cases hread : d.read path with
  | error e =>
    rw [hread] at h
    cases h
  | ok b => exact ⟨b, rfl⟩

end SweepPlan

namespace Campaign

variable {σ : Type} {m : Machine σ} {fuel : Nat} {path : String} {o : SweepOverrides}
  {p : SweepPlan} {cs : List Cell} {l : Ledger} {w : World σ}

/-- Where plan and ledger are nobody's business but the campaign's: programs leave both files alone,
neither is a scratch file, and the plan is neither the ledger nor a new file for it. -/
structure Undisturbed (m : Machine σ) (p : SweepPlan) (cs : List Cell) (path : String)
    (cwd : Location) : Prop where
  ledger : Avoids m p cs p.ledger
  plan : Avoids m p cs path
  ledger_apart : Apart p cwd p.ledger
  plan_apart : Apart p cwd path
  distinct : Path.place cwd path ≠ Path.place cwd p.ledger
  aside : ∀ d : Disk, d.cwd = cwd → Path.place cwd path ≠ d.asidePlace p.ledger

/-- The plan can be read as at the start. -/
theorem Undisturbed.keeps_plan {start : Disk} (h : Undisturbed m p cs path start.cwd)
    {b : Utf8.Bytes} : Invariant m p cs fun _ _ d => d.cwd = start.cwd ∧ d.read path = .ok b where
  launch _ _ argv dir htried k d s := by
    rintro ⟨hcwd, hread⟩
    have hspares := h.plan argv dir htried k d s
    exact ⟨hspares.cwd.trans hcwd, hspares.read.trans hread⟩
  scratch _ _ d d' hscratch := by
    rintro ⟨hcwd, hread⟩
    have hspares := hscratch.spares (hcwd ▸ h.plan_apart) (.inl ⟨b, hread⟩)
    exact ⟨hspares.cwd.trans hcwd, hspares.read.trans hread⟩
  write _ _ _ _ d d' := by
    rintro ⟨hcwd, hread⟩ hwrite
    have halters := (Disk.alters_replace hwrite).1
    refine ⟨halters.cwd.trans hcwd, halters.read ?_ hread⟩
    rw [hcwd, List.mem_pair, not_or]
    exact ⟨h.aside d hcwd, h.distinct⟩

/-! ### The ledger is read again -/

/-- The instants of a trial are those of its clock. -/
theorem Conducted.timed {c : Cell} {u v : World σ} {es : List Event} {r : TrialRecord}
    (h : Conducted m p c u es r v) (hclock : u.clock.elapsed ≤ VirtualClock.limit) :
    r.startedAt.Valid ∧ r.finishedAt.Valid := by
  obtain ⟨hstart, hfinish⟩ := Trial.stamps_run h.ran
  rw [hstart, hfinish]
  exact ⟨Instant.valid_afterEpoch hclock, Instant.valid_afterEpoch (h.happens.clock_le hclock)⟩

/-- What a sweep adds to a ledger can be stored, if the measurements can. -/
theorem storable_reached (hload : Ledger.load (backend p) w = .ok l)
    (hclock : w.clock.elapsed ≤ VirtualClock.limit) {q : Progress (World σ)}
    (hreach : (sweepOf p cs).Reaches (backend p) (trialOf m p) (outset m p l w) q)
    (hmetrics : ∀ e ∈ q.ledger.entries, ∀ r ∈ e.2, r.metrics.Whole ∧ r.metrics.depth ≤ 124) :
    q.ledger.Storable := by
  obtain ⟨_, _, houtset⟩ := happens_outset m p l w
  obtain ⟨ts, haccount⟩ := exists_account hreach
  rw [haccount.ledger] at hmetrics ⊢
  obtain ⟨hold, hnew⟩ := Ledger.forall_pushAll.1 hmetrics
  refine Ledger.storable_pushAll ?_ ?_
  · obtain ⟨stored, rfl⟩ : ∃ stored, l = Ledger.ofStored stored := by
      unfold Ledger.load at hload
      split at hload
      · cases hload
      · next stored _ => exact ⟨stored, (Except.ok.inj hload).symm⟩
    exact Ledger.storable_loaded_of_whole fun e he r hr => (hold e he r hr).1
  · intro e he
    obtain ⟨t, ht, -, rfl⟩ := mem_kept.1 he
    obtain ⟨-, u, v, hu, hconducted⟩ := haccount.made t ht
    obtain ⟨us, hus⟩ := exists_account hu
    have huclock := hus.happens.clock_le (houtset.clock_le hclock)
    obtain ⟨hstart, hfinish⟩ := hconducted.timed huclock
    obtain ⟨hwhole, hdepth⟩ := hnew _ he
    have haccepted : t.record.metrics.Accepted :=
      Trial.accepted_run (b := bench m p) (c := client p) (m := m) rfl hconducted.ran
    exact ⟨hstart, hfinish, haccepted.whole hwhole, hdepth⟩

/-- The file of a ledger is read as the ledger that it was written from. -/
theorem LedgerFile.load {n : Nat} {l' : Ledger} {v : World σ}
    (h : LedgerFile p w.disk l n l' v.disk) (hload : Ledger.load (backend p) w = .ok l)
    (hstorable : l'.Storable) : Ledger.load (backend p) v = .ok l' := by
  by_cases hn : n = 0
  · obtain ⟨rfl, hspares⟩ := h.untouched hn
    have hread : (backend p).read v = (backend p).read w := Disk.backend_read_congr hspares.read
    rw [← hload, Ledger.load, Ledger.load, hread]
  · have hread : (backend p).read v = .ok (some l'.encode) :=
      Disk.backend_read_of_ok (h.written hn)
    rw [Ledger.load, hread]
    dsimp only
    rw [Ledger.ofStored, Ledger.decode?_encode_storable hstorable, Option.getD_some]

/-- After a run that ended well its plan is what it was, and its ledger is the one it ended with. -/
theorem prepare_after_run {last : Progress (World σ)}
    (hprepare : prepare path o w = .ok (p, cs, l)) (hsweep : sweep m fuel p cs l w = (none, last))
    (hclock : w.clock.elapsed ≤ VirtualClock.limit)
    (hundisturbed : Undisturbed m p cs path w.disk.cwd)
    (hmetrics : ∀ e ∈ last.ledger.entries, ∀ r ∈ e.2, r.metrics.Whole ∧ r.metrics.depth ≤ 124) :
    last.world.disk.cwd = w.disk.cwd ∧ prepare path o last.world = .ok (p, cs, last.ledger) ∧
      last.summary.outstanding = (sweepOf p cs).outstanding last.ledger ∧
      (sweepOf p cs).outstanding last.ledger < wordBound := by
  obtain ⟨hplan, hcells, hload⟩ := prepare_ok_iff.1 hprepare
  have hconcludes := sweep_concludes m fuel p cs l w
  rw [hsweep] at hconcludes
  cases hconcludes with
  | @done q hreach hword =>
    have hfile :=
      LedgerFile.reached hload hundisturbed.ledger hundisturbed.ledger_apart hreach
    obtain ⟨b, hread⟩ := SweepPlan.read_of_loadWith hplan
    obtain ⟨hcwd, hread'⟩ := hundisturbed.keeps_plan.reaches hreach
      (hundisturbed.keeps_plan.outset (l := l) (n := 0) ⟨rfl, hread⟩)
    have hstorable := storable_reached hload hclock hreach hmetrics
    refine ⟨hcwd, prepare_ok_iff.2 ⟨?_, hcells, hfile.load hload hstorable⟩, rfl, hword⟩
    show SweepPlan.loadWith q.world.disk path o = _
    rw [SweepPlan.loadWith_congr hread hcwd (hread'.trans hread.symm), hplan]

/-! ### The status, and the next run -/

/-- What the status of a plan says: of each cell what the ledger holds, and what all of them lack in
sum. -/
def statusOf (p : SweepPlan) (ks : List ConfigurationKey) (l : Ledger) : SweepStatus :=
  ⟨p.family, p.ledger, p.target, ks.map (cellStatus p l),
    (ks.map fun k => l.remaining k p.target).sum⟩

/-- The status is shown if what is lacking is a word. -/
theorem status_of_load {ks : List ConfigurationKey}
    (hload : SweepPlan.loadWith w.disk path o = .ok p)
    (hledger : Ledger.load (backend p) w = .ok l) (hkeys : p.keys = .ok ks) :
    status path o w = if wordBound ≤ (statusOf p ks l).outstanding then .error .overflow
      else .ok (.ok (statusOf p ks l)) := by
  simp only [status, hload, hledger, hkeys, List.map_map, total_eq_sum]
  rfl

/-- The sum that is shown is the one that a sweep would count. -/
theorem outstanding_statusOf (p : SweepPlan) (cs : List Cell) (l : Ledger) :
    (statusOf p (cs.map Cell.key) l).outstanding = (sweepOf p cs).outstanding l := by
  rw [Sweep.outstanding, total_eq_sum]
  exact congrArg List.sum List.map_map

theorem status_of_prepare (h : prepare path o w = .ok (p, cs, l))
    (hword : (sweepOf p cs).outstanding l < wordBound) :
    status path o w = .ok (.ok (statusOf p (cs.map Cell.key) l)) := by
  obtain ⟨hplan, hkeys, -, hload⟩ := prepare_ok h
  rw [status_of_load hplan hload hkeys, outstanding_statusOf, if_neg (Nat.not_le.2 hword)]

/-- A run that finds nothing outstanding takes down what may have been left, and that is all. -/
theorem run_of_done (h : prepare path o w = .ok (p, cs, l))
    (hdone : (sweepOf p cs).outstanding l = 0) :
    run m fuel path o w = (.ok (.ok ⟨p.family, p.ledger, cs.length, p.target, .start⟩),
      (environment m p).teardown w) := by
  have hisDone : (sweepOf p cs).isDone (outset m p l w) = true := by
    have houtset : (outset m p l w).ledger = l := rfl
    rw [Sweep.isDone, houtset, hdone]
    rfl
  have hsweep : sweep m fuel p cs l w = (none, (outset m p l w).closed 0) := by
    have hword : (sweepOf p cs).outstanding (outset m p l w).ledger < wordBound :=
      lt_of_eq_of_lt hdone (by decide)
    have hstands : (sweepOf p cs).Stands (backend p) (trialOf m p) (outset m p l w)
        (p.maxPasses.getD fuel) (none, _) := .done hword hisDone
    have hpasses := hstands.passes_eq
    rwa [show (outset m p l w).ledger = l from rfl, hdone] at hpasses
  rw [run_of_prepare h, hsweep]
  rfl

/-- A run that did no more than to take down what may have been left. -/
structure Idle (p : SweepPlan) (w : World σ) (res : SweepResult) (w' : World σ) : Prop where
  summary : res.summary = ⟨0, 0, 0, 0, 0⟩
  trace : ∃ effects, w'.trace = w.trace ++ effects ∧ effects.map Effect.deed = takedown p
  ledger : w.disk.Spares p.ledger w'.disk

theorem idle_of_done (h : prepare path o w = .ok (p, cs, l))
    (hdone : (sweepOf p cs).outstanding l = 0) (hprograms : Avoids m p cs p.ledger)
    (happart : Apart p w.disk.cwd p.ledger) :
    ∃ res w', run m fuel path o w = (.ok (.ok res), w') ∧ Idle p w res w' := by
  obtain ⟨-, -, -, hload⟩ := prepare_ok h
  have hfile := LedgerFile.reached hload hprograms happart .refl
  obtain ⟨es, hfall, hhappens⟩ := happens_outset m p l w
  obtain ⟨effects, htrace, hdeeds⟩ := hhappens.traced
  exact ⟨_, _, run_of_done h hdone, rfl, ⟨effects, htrace, hdeeds.trans hfall⟩,
    (hfile.untouched rfl).2⟩

/-- What the status after a run says, told by what the run returned and by the ledger it ended with:
the file gives this ledger back, the cells are those of the run in the order of the grid, each with
as many records as the ledger holds for it, and in sum as much is outstanding. -/
structure Reflects (p : SweepPlan) (cs : List Cell) (last : Ledger) (res : SweepResult)
    (w' : World σ) (st : SweepStatus) : Prop where
  header : st.family = res.family ∧ st.ledger = res.ledger ∧ st.target = res.target
  count : st.cells.length = res.cells
  keys : st.cells.map CellStatus.key = cs.map fun c => c.key.ledgerKey
  stored : Ledger.load (backend p) w' = .ok last
  completed : st.cells.map CellStatus.completed =
    cs.map fun c => (last.recordsAt c.key.ledgerKey).length
  outstanding : st.outstanding = res.summary.outstanding

/-- The status directly after a run that ended well agrees with the run. If nothing is outstanding,
another run returns a summary of nothing but zeros, tries the commands of a takedown only, sends no
request and leaves the ledger file as it is. -/
theorem status_agrees_with_run {res : SweepResult} {w' : World σ}
    (hprepare : prepare path o w = .ok (p, cs, l))
    (h : run m fuel path o w = (.ok (.ok res), w'))
    (hclock : w.clock.elapsed ≤ VirtualClock.limit)
    (hundisturbed : Undisturbed m p cs path w.disk.cwd)
    (hmetrics : ∀ e ∈ (sweep m fuel p cs l w).2.ledger.entries, ∀ r ∈ e.2,
      r.metrics.Whole ∧ r.metrics.depth ≤ 124) :
    p.keys = .ok (cs.map Cell.key) ∧
      (∃ st, status path o w' = .ok (.ok st) ∧
        Reflects p cs (sweep m fuel p cs l w).2.ledger res w' st) ∧
      (res.summary.outstanding = 0 → ∀ fuel', ∃ res' w'',
        run m fuel' path o w' = (.ok (.ok res'), w'') ∧ Idle p w' res' w'') := by
  obtain ⟨p', cs', l', last, hprepare', hsweep, rfl, rfl⟩ := sweep_of_run_ok h
  obtain ⟨rfl, rfl, rfl⟩ : p = p' ∧ cs = cs' ∧ l = l' := by
    rw [hprepare] at hprepare'
    simpa using hprepare'
  rw [hsweep] at hmetrics ⊢
  obtain ⟨hcwd, hafter, houtstanding, hword⟩ :=
    prepare_after_run hprepare hsweep hclock hundisturbed hmetrics
  obtain ⟨-, hkeys, -, hload⟩ := prepare_ok hafter
  refine ⟨hkeys, ⟨_, status_of_prepare hafter hword, ⟨rfl, rfl, rfl⟩, ?_, ?_, hload, ?_, ?_⟩,
    fun hdone fuel' => ?_⟩
  · rw [statusOf, List.length_map, List.length_map]
  · rw [statusOf, List.map_map, List.map_map]
    rfl
  · rw [statusOf, List.map_map, List.map_map]
    rfl
  · rw [outstanding_statusOf, houtstanding]
  · have hnone : (sweepOf p cs).outstanding last.ledger = 0 := houtstanding.symm.trans hdone
    exact idle_of_done hafter hnone hundisturbed.ledger (hcwd ▸ hundisturbed.ledger_apart)

/-- Plan and ledger of the small campaign are two files with names that no other file gets. -/
theorem undisturbed_small {p : SweepPlan} (h : Path.fileName? p.ledger = some "results.json")
    (cs : List Cell) (cwd : Location) : Undisturbed smallMachine p cs "plan.yaml" cwd where
  ledger _ _ _ _ d _ := .refl _ d
  plan _ _ _ _ d _ := .refl _ d
  ledger_apart := apart_of_head h (by decide) cwd
  plan_apart := apart_of_head rfl (by decide) cwd
  distinct := Path.place_ne_of_fileName? cwd rfl h (by decide)
  aside d hd := hd ▸ Disk.ne_asidePlace_of_head d p.ledger rfl (by decide)

/-- Both cells have their record, the status says so, and the next run has nothing to do. -/
theorem status_agrees_with_small_run : ∃ p cs last res w',
    run smallMachine 1 "plan.yaml" .unchanged (smallWorld fun _ => none) = (.ok (.ok res), w') ∧
    res.summary = ⟨1, 2, 2, 0, 0⟩ ∧
    (∃ st, status "plan.yaml" .unchanged w' = .ok (.ok st) ∧ Reflects p cs last res w' st) ∧
    ∀ fuel, ∃ res' w'', run smallMachine fuel "plan.yaml" .unchanged w' = (.ok (.ok res'), w'') ∧
      Idle p w' res' w'' := by
  have hfound : (prepare "plan.yaml" .unchanged (smallWorld fun _ => none)).toOption.map
      (fun found => (Path.fileName? found.1.ledger,
        (sweep smallMachine 1 found.1 found.2.1 found.2.2
          (smallWorld fun _ => none)).2.ledger.entries.flatMap fun e =>
            e.2.map fun r => (r.metrics.numbers, r.metrics.depth))) =
      some (some "results.json", [([.int 7], 0), ([.int 7], 0)]) := by
    decide +kernel
  obtain ⟨res, w', hrun, hsummary, -⟩ := small_run
  obtain ⟨p, cs, l, last, hprepare, -⟩ := sweep_of_run_ok hrun
  rw [hprepare] at hfound
  obtain ⟨hname, hmeasured⟩ := Prod.mk.inj (Option.some.inj hfound)
  have hmetrics : ∀ e ∈ (sweep smallMachine 1 p cs l (smallWorld fun _ => none)).2.ledger.entries,
      ∀ r ∈ e.2, r.metrics.Whole ∧ r.metrics.depth ≤ 124 := by
    intro e he r hr
    have hmem : (r.metrics.numbers, r.metrics.depth) ∈ [([Number.int 7], 0), ([.int 7], 0)] := by
      rw [← hmeasured]
      exact List.mem_flatMap.2 ⟨e, he, List.mem_map_of_mem hr⟩
    obtain ⟨hnumbers, hdepth⟩ : r.metrics.numbers = [.int 7] ∧ r.metrics.depth = 0 := by
      simpa using hmem
    rw [Json.Whole, hnumbers, hdepth]
    exact ⟨List.forall_mem_singleton.2 ⟨by decide, by decide⟩, Nat.zero_le 124⟩
  obtain ⟨-, hstatus, hidle⟩ := status_agrees_with_run hprepare hrun (Nat.zero_le _)
    (undisturbed_small hname cs _) hmetrics
  exact ⟨p, cs, _, res, w', hrun, hsummary, hstatus, hidle (by rw [hsummary])⟩

end Campaign

end FaultSweep
