import FaultSweep.Proofs.Campaign.Status
import FaultSweep.Proofs.Plan.Separation
import FaultSweep.Proofs.Sweep.Turns

/-!
# What is announced as outstanding

The status of a plan announces what its cells lack in sum, and so does the sweep of the plan before
each of its passes. As long as the cells are different this is the number of records that are still
to be made, since different cells have different ledger keys. A value that an axis lists twice makes
a cell that is there twice, and announced twice; but one record serves both.
-/

namespace FaultSweep

/-! ### The keys of a sweep -/

namespace SweepPlan

variable {p : SweepPlan}

theorem allowed_keys (h : p.Sound) : ∀ k ∈ p.cells.map Cell.key, k.Allowed := by
  intro k hk
  obtain ⟨c, hc, rfl⟩ := List.mem_map.1 hk
  exact Cell.allowed_along h.axes p.defaults c hc

/-- Cells that are different are recorded under different ledger keys. -/
theorem nodup_ledgerKeys (h : p.Sound) (hkeys : (p.cells.map Cell.key).Nodup) :
    ((p.cells.map Cell.key).map ConfigurationKey.ledgerKey).Nodup := by
  refine List.Nodup.map_on (fun j hj k hk => ?_) hkeys
  exact ConfigurationKey.ledgerKey_inj (allowed_keys h j hj) (allowed_keys h k hk)

end SweepPlan

namespace Sweep

variable {α : Type} {s : Sweep α} {ks : List ConfigurationKey} {l : Ledger}

theorem ledgerKeys_eq (h : s.cells.map s.key = ks) :
    s.ledgerKeys = ks.map ConfigurationKey.ledgerKey := by
  rw [← h, List.map_map]
  rfl

/-- What is outstanding is told by the keys and the target. -/
theorem outstanding_eq (h : s.cells.map s.key = ks) :
    s.outstanding l = total (ks.map fun k => l.remaining k s.target) := by
  rw [← h, List.map_map]
  rfl

end Sweep

namespace Campaign

variable {σ : Type} {m : Machine σ} {fuel : Nat} {path : String} {o : SweepOverrides}
  {p : SweepPlan} {cs : List Cell} {l : Ledger} {w : World σ}

theorem eq_withOverrides {d : Disk} {p' : SweepPlan} (h : SweepPlan.load d path = .ok p)
    (h' : SweepPlan.loadWith d path o = .ok p') : p' = p.withOverrides o := by
  simp only [SweepPlan.loadWith, h] at h'
  split at h'
  · cases h'
  · exact (Except.ok.inj h').symm

/-- What is found before a run comes from the text of the plan file. -/
theorem ofText_of_prepare {text : String} (h : prepare path o w = .ok (p, cs, l))
    (hread : w.disk.read path = .ok (Utf8.encode text)) :
    ∃ p₀, SweepPlan.ofText text (SweepPlan.directoryOf w.disk path) = .ok p₀ ∧
      SweepPlan.load w.disk path = .ok p₀ ∧ p = p₀.withOverrides o := by
  obtain ⟨hplan, -, -, -⟩ := prepare_ok h
  cases hload : SweepPlan.load w.disk path with
  | error e =>
    rw [SweepPlan.loadWith, hload] at hplan
    cases hplan
  | ok p₀ =>
    refine ⟨p₀, ?_, rfl, eq_withOverrides hload hplan⟩
    simp only [SweepPlan.load, hread, Utf8.decode?_encode] at hload
    split at hload
    · cases hload
    · next hofText => rwa [Except.ok.inj hload] at hofText

/-- A target that is not zero stays so, unless it is overridden by zero. -/
theorem target_withOverrides (h : p.Sound) (ho : o.target ≠ some 0) :
    (p.withOverrides o).target ≠ 0 := by
  cases htarget : o.target with
  | none =>
    have hp : p.target ≠ 0 := Nat.one_le_iff_ne_zero.1 h.target
    simpa [SweepPlan.withOverrides, htarget] using hp
  | some n =>
    have hn : n ≠ 0 := fun hzero => ho (hzero ▸ htarget)
    simpa [SweepPlan.withOverrides, htarget] using hn

theorem loadWith_of_load {d : Disk} (h : SweepPlan.load d path = .ok p)
    (htarget : (p.withOverrides o).target ≠ 0) :
    SweepPlan.loadWith d path o = .ok (p.withOverrides o) := by
  simp only [SweepPlan.loadWith, h]
  exact if_neg htarget

/-- A run that ends well tells what is outstanding after it. -/
theorem outstanding_of_sweep {last : Progress (World σ)}
    (h : sweep m fuel p cs l w = (none, last)) :
    last.summary.outstanding = (sweepOf p cs).outstanding last.ledger := by
  have hconcludes := sweep_concludes m fuel p cs l w
  rw [h] at hconcludes
  cases hconcludes
  rfl

/-- A status that is shown is that of the cells, and what these lack is a word. -/
theorem announced_of_status (h : prepare path o w = .ok (p, cs, l)) {st : SweepStatus}
    (hst : status path o w = .ok (.ok st)) :
    (sweepOf p cs).lack l < wordBound ∧ statusOf p (cs.map Cell.key) l = st := by
  obtain ⟨hplan, hkeys, -, hload⟩ := prepare_ok h
  rw [status_of_load hplan hload hkeys, outstanding_statusOf, Sweep.outstanding_eq_lack] at hst
  split_ifs at hst with hover
  exact ⟨Nat.not_le.1 hover, Except.ok.inj (Except.ok.inj hst)⟩

/-- What a run recorded and what it left outstanding is together what the status announced. -/
theorem announced_of_run (hsound : p.Sound) (hload : SweepPlan.load w.disk path = .ok p)
    (hkeys : (p.cells.map FaultSweep.Cell.key).Nodup) {st : SweepStatus}
    (h : status path o w = .ok (.ok st)) {res : SweepResult} {w' : World σ}
    (hrun : run m fuel path o w = (.ok (.ok res), w')) :
    res.summary.recorded + res.summary.outstanding = st.outstanding := by
  obtain ⟨p', cs, l, last, hprepare, hsweep, -, rfl⟩ := sweep_of_run_ok hrun
  obtain ⟨hplan, hcells, -, -⟩ := prepare_ok hprepare
  obtain rfl := eq_withOverrides hload hplan
  have hgrid : p.keys = .ok (cs.map Cell.key) := hcells
  rw [SweepPlan.keys_eq fun a ha => (hsound.axes a ha).fits] at hgrid
  have hks := Except.ok.inj hgrid
  obtain ⟨hlack, rfl⟩ := announced_of_status hprepare h
  have hnodup : (sweepOf (p.withOverrides o) cs).ledgerKeys.Nodup := by
    rw [Sweep.ledgerKeys_eq hks.symm]
    exact SweepPlan.nodup_ledgerKeys hsound hkeys
  have hsettled : Sweep.Settles (sweepOf (p.withOverrides o) cs).outstanding l
      (sweep m fuel (p.withOverrides o) cs l w).2 :=
    (Sweep.accurate_outstanding _ _ _ _ hnodup hlack).settled
  rw [hsweep] at hsettled
  obtain ⟨n, hadds, hcount⟩ := hsettled
  rw [hadds.recorded, outstanding_of_sweep hsweep, outstanding_statusOf]
  exact hcount

/-- Of a plan that is accepted the cells are different if no axis lists a value twice. For any sweep
over its cells, the work is what is recorded and what is left, whatever the trials give, whichever
writes fail and however few passes are allowed; and all of it is recorded if a pass is allowed and
nothing is lost, as where every trial gives a record that can be written. If the cells are
different, the same is true of what is outstanding, and this is what the status announces before a
run. No total is counted that is no word. -/
theorem announced_is_recorded {text dir : String} (h : SweepPlan.ofText text dir = .ok p) :
    ∃ ks, p.keys = .ok ks ∧ ((∀ a ∈ p.grid, a.values.Nodup) → ks.Nodup) ∧
      (∀ {α W : Type} (s : Sweep α) (fuel : Nat) (b : Backend W) (trial : Trial α W) (l : Ledger)
        (w : W), s.cells.map s.key = ks → s.lack l < wordBound →
        s.Accurate s.work fuel b trial l w ∧
          (ks.Nodup → s.Accurate s.outstanding fuel b trial l w) ∧
          ∀ I, s.Smooth b trial I → I w → Sweep.Lossless (s.run fuel b trial l w).2) ∧
      ∀ {σ : Type} (path : String) (o : SweepOverrides) (w : World σ) (l : Ledger),
        SweepPlan.load w.disk path = .ok p → o.target ≠ some 0 →
        Ledger.load (backend (p.withOverrides o)) w = .ok l →
        (ks.map fun k => l.remaining k (p.withOverrides o).target).sum < wordBound →
        ∃ st, status path o w = .ok (.ok st) ∧
          (∀ {α : Type} (s : Sweep α), s.cells.map s.key = ks → s.target = st.target →
            s.outstanding l = st.outstanding) ∧
          (ks.Nodup →
            ∀ (m : Machine σ) fuel res w', run m fuel path o w = (.ok (.ok res), w') →
              res.summary.recorded + res.summary.outstanding = st.outstanding) := by
  have hsound := SweepPlan.sound_of_ofText h
  have hkeys := SweepPlan.keys_eq fun a ha => (hsound.axes a ha).fits
  refine ⟨_, hkeys, SweepPlan.nodup_keys, ?_, ?_⟩
  · intro α W s fuel b trial l w hs hlack
    refine ⟨Sweep.accurate_work fuel b trial w hlack, fun hnodup => ?_,
      fun I h hw => (Sweep.run_smooth h fuel l hw).2⟩
    have hledgerKeys : s.ledgerKeys.Nodup := by
      rw [Sweep.ledgerKeys_eq hs]
      exact SweepPlan.nodup_ledgerKeys hsound hnodup
    exact Sweep.accurate_outstanding fuel b trial w hledgerKeys hlack
  · intro σ path o w l hload ho hledger hword
    have hplan := loadWith_of_load hload (target_withOverrides hsound ho)
    have hstatus := (status_of_load hplan hledger hkeys).trans (if_neg (Nat.not_le.2 hword))
    refine ⟨_, hstatus, fun s hs htarget => ?_, fun hnodup m fuel res w' hrun => ?_⟩
    · rw [Sweep.outstanding_eq hs, total_eq_sum, htarget]
      rfl
    · exact announced_of_run hsound hload hnodup hstatus hrun

/-! ### Two depths, and one depth twice -/

/-- The cells of the small plan. -/
def smallKeys : List ConfigurationKey :=
  [⟨[(.repairDepth, .count 1)]⟩, ⟨[(.repairDepth, .count 2)]⟩]

/-- What is found of the small plan before a run: two cells, one record asked for of each, and none
there yet. -/
theorem small_found : ∃ p cs, SweepPlan.ofText smallPlan "/srv" = .ok p ∧
    SweepPlan.load (smallDisk fun _ => none) "plan.yaml" = .ok p ∧
    prepare "plan.yaml" .unchanged (smallWorld fun _ => none) =
      .ok (p.withOverrides .unchanged, cs, SortedMap.empty) ∧
    cs.map Cell.key = smallKeys ∧ p.grid.map Axis.values = [[.count 1, .count 2]] ∧
    p.target = 1 := by
  have hfound : (prepare "plan.yaml" .unchanged (smallWorld fun _ => none)).toOption.map
      (fun found => (found.2.1.map Cell.key, found.1.grid.map Axis.values, found.1.target,
        found.2.2.entries.length)) = some (smallKeys, [[.count 1, .count 2]], 1, 0) := by
    decide +kernel
  obtain ⟨⟨p', cs, l⟩, hprepare, hshown⟩ := Option.map_eq_some_iff.1 hfound
  have hprepare := SweepPlan.ok_of_toOption hprepare
  simp only [Prod.mk.injEq] at hshown
  obtain ⟨hcells, hgrid, htarget, hempty⟩ := hshown
  obtain rfl : l = SortedMap.empty := SortedMap.ext (List.eq_nil_of_length_eq_zero hempty)
  have hread : (smallDisk fun _ => none).read "plan.yaml" = .ok (Utf8.encode smallPlan) := by
    decide +kernel
  have hdir : SweepPlan.directoryOf (smallDisk fun _ => none) "plan.yaml" = "/srv" := by
    decide +kernel
  obtain ⟨p, hp, hload, rfl⟩ := ofText_of_prepare hprepare hread
  rw [show (smallWorld fun _ => none).disk = smallDisk fun _ => none from rfl, hdir] at hp
  exact ⟨p, cs, hp, hload, hprepare, hcells, hgrid, htarget⟩

/-- A sweep that asks for one record of each of them. -/
def smallSweep (maxPasses : Option Nat) : Sweep ConfigurationKey := ⟨smallKeys, id, 1, maxPasses⟩

/-- A trial that gives a record whatever it is of. -/
def succeeding : Trial ConfigurationKey Unit := fun _ u => (some .atEpoch, u)

/-- Two records are announced for the small plan. A run of it gives account of two, and a sweep of
its cells whose trials all give a record, all written, adds two. -/
theorem two_records_announced_and_recorded : ∃ p st,
    SweepPlan.ofText smallPlan "/srv" = .ok p ∧ p.keys = .ok smallKeys ∧ smallKeys.Nodup ∧
    status "plan.yaml" .unchanged (smallWorld fun _ => none) = .ok (.ok st) ∧ st.outstanding = 2 ∧
    (∃ res w', run smallMachine 1 "plan.yaml" .unchanged (smallWorld fun _ => none) =
      (.ok (.ok res), w') ∧ res.summary.recorded + res.summary.outstanding = 2) ∧
    ∃ q, (smallSweep none).run 1 Logbook.backend
        (Logbook.trial id succeeding fun _ => false) SortedMap.empty
        ⟨⟨none, false, 0⟩, [], ()⟩ = (none, q) ∧
      Sweep.Adds SortedMap.empty q 2 := by
  obtain ⟨p, cs, hp, hload, hprepare, hcells, hgrid, htarget⟩ := small_found
  obtain ⟨-, hkeys, -, hledger⟩ := prepare_ok hprepare
  have hkeys : p.keys = .ok smallKeys := hkeys.trans (congrArg _ hcells)
  have hvalues : ∀ a ∈ p.grid, a.values.Nodup := by
    intro a ha
    have hmem : a.values ∈ [[DimensionValue.count 1, .count 2]] :=
      hgrid ▸ List.mem_map_of_mem ha
    rw [List.mem_singleton.1 hmem]
    decide
  obtain ⟨ks, hks, hnodup, hsweeps, hannounced⟩ := announced_is_recorded hp
  obtain rfl := Except.ok.inj (hkeys.symm.trans hks)
  have hnodup := hnodup hvalues
  have hsum : (smallKeys.map fun k => Ledger.remaining SortedMap.empty k
      (p.withOverrides .unchanged).target).sum = 2 := by
    rw [show (p.withOverrides .unchanged).target = 1 from htarget]
    decide
  obtain ⟨st, hst, -, hsettled⟩ := hannounced "plan.yaml" .unchanged (smallWorld fun _ => none)
    SortedMap.empty hload nofun hledger (hsum ▸ by decide)
  have houtstanding : st.outstanding = 2 := by
    obtain ⟨-, rfl⟩ := announced_of_status hprepare hst
    rw [hcells]
    exact hsum
  obtain ⟨res, w', hrun, -, -⟩ := small_run
  have hsettled := hsettled hnodup smallMachine 1 res w' hrun
  obtain ⟨-, haccurate, hlossless⟩ := hsweeps (smallSweep none) 1 Logbook.backend
    (Logbook.trial id succeeding fun _ => false) SortedMap.empty ⟨⟨none, false, 0⟩, [], ()⟩
    (List.map_id _) (by decide)
  have hsteady : Logbook.Steady succeeding fun _ => false := fun c u => ⟨_, _, rfl, rfl, rfl⟩
  have hsmooth := Logbook.smooth_of_steady (s := smallSweep none) hsteady
  obtain ⟨hends, hadds⟩ := (haccurate hnodup).lossless Nat.one_pos nofun
    (hlossless _ hsmooth (List.forall_mem_nil _))
  exact ⟨p, _, hp, hkeys, hnodup, hst, houtstanding, ⟨res, w', hrun, hsettled.trans houtstanding⟩,
    _, Prod.ext hends rfl, hadds⟩

/-- The small plan, with the first of its depths in the place of the second. -/
def oneDepthTwice : String :=
  "family: collab_repair\ntarget: 1\ngrid: [\x7bdimension: repair_depth, values: [1, 1]\x7d]\n" ++
  "payloads: \x7b25MB: \x7bpath: f, file_cid: F, meta_cid: M\x7d\x7d\n"

def oneDepthTwiceWorld : World Unit :=
  ⟨(), { smallDisk (fun _ => none) with tree :=
    ⟨[(["srv"], .directory), (["srv", "plan.yaml"], .file (Utf8.encode oneDepthTwice))]⟩ },
    .start, []⟩

/-- A cell that is there twice is announced twice, and one record that is written serves both. And
of two different cells that are announced no record is made if no pass is allowed. -/
theorem repeated_cell_announced_twice :
    (∃ p k st res w', SweepPlan.ofText oneDepthTwice "/srv" = .ok p ∧ p.keys = .ok [k, k] ∧
      status "plan.yaml" .unchanged oneDepthTwiceWorld = .ok (.ok st) ∧ st.outstanding = 2 ∧
      run smallMachine 1 "plan.yaml" .unchanged oneDepthTwiceWorld = (.ok (.ok res), w') ∧
      res.summary = ⟨1, 1, 1, 0, 0⟩) ∧
    (smallSweep (some 0)).outstanding SortedMap.empty = 2 ∧
    ∃ q, (smallSweep (some 0)).run 1 Logbook.backend
        (Logbook.trial id succeeding fun _ => false) SortedMap.empty
        ⟨⟨none, false, 0⟩, [], ()⟩ = (none, q) ∧
      Sweep.Adds SortedMap.empty q 0 := by
  have hfound : (prepare "plan.yaml" .unchanged oneDepthTwiceWorld).toOption.map
      (fun found => (found.2.1.map Cell.key, (sweepOf found.1 found.2.1).outstanding found.2.2,
        (sweep smallMachine 1 found.1 found.2.1 found.2.2 oneDepthTwiceWorld).1.isNone,
        (sweep smallMachine 1 found.1 found.2.1 found.2.2 oneDepthTwiceWorld).2.summary)) =
      some ([⟨[(.repairDepth, .count 1)]⟩, ⟨[(.repairDepth, .count 1)]⟩], 2, true,
        ⟨1, 1, 1, 0, 0⟩) := by
    decide +kernel
  refine ⟨?_, by decide, _, rfl, rfl, [], rfl, rfl⟩
  obtain ⟨⟨p', cs, l⟩, hprepare, hshown⟩ := Option.map_eq_some_iff.1 hfound
  have hprepare := SweepPlan.ok_of_toOption hprepare
  simp only [Prod.mk.injEq] at hshown
  obtain ⟨hcells, houtstanding, hends, hsummary⟩ := hshown
  obtain ⟨-, hkeys, -, -⟩ := prepare_ok hprepare
  have hread : oneDepthTwiceWorld.disk.read "plan.yaml" = .ok (Utf8.encode oneDepthTwice) := by
    decide +kernel
  have hdir : SweepPlan.directoryOf oneDepthTwiceWorld.disk "plan.yaml" = "/srv" := by
    decide +kernel
  obtain ⟨p, hp, -, rfl⟩ := ofText_of_prepare hprepare hread
  rw [hdir] at hp
  obtain ⟨res, w', hrun, hsummary⟩ : ∃ res w', run smallMachine 1 "plan.yaml" .unchanged
      oneDepthTwiceWorld = (.ok (.ok res), w') ∧ res.summary = ⟨1, 1, 1, 0, 0⟩ := by
    apply exists_of_summary
    rw [run_of_prepare hprepare]
    rcases hsweep : sweep smallMachine 1 (p.withOverrides .unchanged) cs l oneDepthTwiceWorld with
      ⟨_ | halt, last⟩
    · rw [hsweep] at hsummary
      exact congrArg (some <| some ·) hsummary
    · rw [hsweep] at hends
      cases hends
  have hword : (sweepOf (p.withOverrides .unchanged) cs).outstanding l < wordBound :=
    lt_of_eq_of_lt houtstanding (by decide)
  exact ⟨p, _, _, res, w', hp, hkeys.trans (congrArg _ hcells), status_of_prepare hprepare hword,
    (outstanding_statusOf _ _ _).trans houtstanding, hrun, hsummary⟩

end Campaign

end FaultSweep
