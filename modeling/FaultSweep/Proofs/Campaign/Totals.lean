import FaultSweep.Proofs.Campaign.Outstanding
import FaultSweep.Proofs.Sweep.Totals

/-!
# Totals of a plan

A plan says how many cells there are and how many records each of them is to hold, and neither has a
bound. What the cells lack is a word for every ledger exactly if the product of the two is one. As
long as it is a word the totals of a sweep and of a status are right; otherwise the status is not
shown, and a run is stopped before its first trial.
-/

namespace FaultSweep

namespace Campaign

variable {σ : Type} {m : Machine σ} {fuel : Nat} {path : String} {o : SweepOverrides}
  {p : SweepPlan} {cs : List Cell} {ks : List ConfigurationKey} {l : Ledger} {w : World σ}

/-! ### What is found before a run -/

theorem exists_enter (h : ∀ k ∈ ks, ∃ found, needsOf p k = .ok found) (needs : Needs) :
    ∃ needs', enter p ks needs = .ok needs' := by
  induction ks generalizing needs with
  | nil => exact ⟨needs, rfl⟩
  | cons k ks ih =>
    obtain ⟨⟨found, hfound⟩, hrest⟩ := List.forall_mem_cons.1 h
    simp only [enter, hfound]
    exact ih hrest _

/-- The cells of a plan that is sound have all they need. -/
theorem needsOf_of_sound (h : p.Sound) {k : ConfigurationKey}
    (hk : k ∈ p.cells.map FaultSweep.Cell.key) : ∃ found, needsOf p k = .ok found := by
  obtain ⟨c, hc, rfl⟩ := List.mem_map.1 hk
  obtain ⟨is, hpick⟩ := SweepPlan.exists_picks h.axes h.distinct hc
  have hparams := SweepPlan.parametersFor_eq h.clean.fits c hc
  obtain ⟨payload, hpayload⟩ := Option.isSome_iff_exists.1 (h.payloads hpick)
  exact ⟨(c.parameters, payload), by simp only [needsOf, hparams, SweepPlan.payloadFor, hpayload]⟩

/-- All that is looked at before a run is found sound, since overrides do not change the cells. -/
theorem exists_prepare (h : p.Sound) (hload : SweepPlan.load w.disk path = .ok p)
    (ho : o.target ≠ some 0) (hledger : Ledger.load (backend (p.withOverrides o)) w = .ok l) :
    ∃ cs, prepare path o w = .ok (p.withOverrides o, cs, l) := by
  have hkeys : (p.withOverrides o).keys = .ok (p.cells.map FaultSweep.Cell.key) :=
    SweepPlan.keys_eq h.clean.fits
  have hneeds : ∀ k ∈ p.cells.map FaultSweep.Cell.key,
      ∃ found, needsOf (p.withOverrides o) k = .ok found := fun k hk => needsOf_of_sound h hk
  obtain ⟨needs, hneeds⟩ := exists_enter hneeds .empty
  have hcells : cells (p.withOverrides o) =
      .ok ((p.cells.map FaultSweep.Cell.key).filterMap needs.cell?) := by
    simp only [cells, hkeys, hneeds]
  have hplan := loadWith_of_load hload (target_withOverrides h ho)
  exact ⟨_, prepare_ok_iff.2 ⟨hplan, hcells, hledger⟩⟩

/-! ### What is lacking -/

/-- What cells of these keys lack together. -/
def lackOf (ks : List ConfigurationKey) (target : Nat) (l : Ledger) : Nat :=
  (ks.map fun k => target - l.completed k).sum

theorem lack_eq_lackOf {α : Type} {s : Sweep α} (h : s.cells.map s.key = ks) (l : Ledger) :
    s.lack l = lackOf ks s.target l := by
  rw [← h, lackOf, List.map_map]
  rfl

/-- The sweep over keys that are their own cells, with as many passes as it takes. -/
def keySweep (ks : List ConfigurationKey) (target : Nat) : Sweep ConfigurationKey :=
  ⟨ks, id, target, none⟩

theorem lackOf_words_iff (ks : List ConfigurationKey) (target : Nat) :
    (∀ l, lackOf ks target l < wordBound) ↔ ks.length * target < wordBound :=
  (keySweep ks target).lack_words_iff

theorem run_ne_overflow (h : prepare path o w = .ok (p, cs, l))
    (hlack : (sweepOf p cs).lack l < wordBound) : (run m fuel path o w).1 ≠ .error .overflow := by
  have hgoes : (sweep m fuel p cs l w).1 ≠ some .overflow :=
    (Sweep.counts_of_lack hlack).goes _ _ _ _
  rw [run_of_prepare h]
  generalize sweep m fuel p cs l w = ended at hgoes ⊢
  obtain ⟨_ | _ | _ | _, last⟩ := ended
  · exact nofun
  · exact nofun
  · exact absurd rfl hgoes
  · exact nofun

theorem run_of_overflow (h : prepare path o w = .ok (p, cs, l))
    (hover : wordBound ≤ (sweepOf p cs).lack l) :
    run m fuel path o w = (.error .overflow, (environment m p).teardown w) := by
  have hstops : sweep m fuel p cs l w = (some .overflow, outset m p l w) :=
    (Sweep.stuck_of_lack hover).stops _ _ _ _
  rw [run_of_prepare h, hstops]
  rfl

/-- For every plan that is accepted and every target: what the cells lack is a word for all ledgers
exactly if the target as many times as there are cells is one. With a ledger for which it is a word,
the totals of sweeps and of the status are what is lacking, a total of zero means that every cell
has met the target, and no run is stopped by a total. With any other ledger there is no status, and
every sweep is stopped before its first pass, a run after it has taken down what may have been
left. -/
theorem totals_fit_iff {text dir : String} (h : SweepPlan.ofText text dir = .ok p) :
    ∃ ks, p.keys = .ok ks ∧
      (∀ target, (∀ l, lackOf ks target l < wordBound) ↔ ks.length * target < wordBound) ∧
      (∀ {α : Type} (s : Sweep α) (l : Ledger), s.cells.map s.key = ks →
        (lackOf ks s.target l < wordBound → s.Counts l) ∧
        (wordBound ≤ lackOf ks s.target l → s.Stuck l)) ∧
      ∀ {σ : Type} (m : Machine σ) (fuel : Nat) (path : String) (o : SweepOverrides) (w : World σ)
        (l : Ledger), SweepPlan.load w.disk path = .ok p → o.target ≠ some 0 →
        Ledger.load (backend (p.withOverrides o)) w = .ok l →
        (lackOf ks (p.withOverrides o).target l < wordBound →
          (∃ st, status path o w = .ok (.ok st) ∧
            st.outstanding = lackOf ks (p.withOverrides o).target l ∧
            (st.outstanding = 0 ↔ ∀ k ∈ ks, (p.withOverrides o).target ≤ l.completed k)) ∧
          (run m fuel path o w).1 ≠ .error .overflow) ∧
        (wordBound ≤ lackOf ks (p.withOverrides o).target l →
          status path o w = .error .overflow ∧
          run m fuel path o w =
            (.error .overflow, (environment m (p.withOverrides o)).teardown w)) := by
  have hsound := SweepPlan.sound_of_ofText h
  refine ⟨_, SweepPlan.keys_eq hsound.clean.fits, lackOf_words_iff _, ?_, ?_⟩
  · intro α s l hs
    rw [← lack_eq_lackOf hs]
    exact ⟨Sweep.counts_of_lack, Sweep.stuck_of_lack⟩
  · intro σ m fuel path o w l hload ho hledger
    obtain ⟨cs, hprepare⟩ := exists_prepare hsound hload ho hledger
    obtain ⟨hplan, hcells, -, -⟩ := prepare_ok hprepare
    have hkeys : cs.map Cell.key = p.cells.map FaultSweep.Cell.key :=
      Except.ok.inj (hcells.symm.trans (SweepPlan.keys_eq hsound.clean.fits))
    rw [← hkeys]
    have hlack : (sweepOf (p.withOverrides o) cs).lack l =
        lackOf (cs.map Cell.key) (p.withOverrides o).target l := lack_eq_lackOf rfl l
    have hstatus := status_of_load hplan hledger hcells
    have houtstanding : (statusOf (p.withOverrides o) (cs.map Cell.key) l).outstanding =
        lackOf (cs.map Cell.key) (p.withOverrides o).target l := rfl
    constructor
    · intro hword
      have hmet := lack_eq_lackOf (s := keySweep (cs.map Cell.key) (p.withOverrides o).target)
        (List.map_id _) l ▸ Sweep.lack_eq_zero_iff
      refine ⟨⟨_, hstatus.trans (if_neg (Nat.not_le.2 hword)), houtstanding, hmet⟩, ?_⟩
      exact run_ne_overflow hprepare (hlack ▸ hword)
    · intro hover
      exact ⟨hstatus.trans (if_pos hover), run_of_overflow hprepare (hlack ▸ hover)⟩

/-! ### A target of half a turn -/

/-- Twice this is one more than the greatest word. -/
def halfTurn : Nat := 9223372036854775808

def halfTurnOverride : SweepOverrides := ⟨none, some halfTurn, none⟩

def oneOverride : SweepOverrides := ⟨none, some 1, none⟩

/-- Two cells that lack half a turn each lack more than a word. There is no status of them, and a
run goes no further than to take down what may have been left. With one record for each of the two
there is nothing of this. -/
theorem two_halves_overflow : ∃ p st,
    SweepPlan.ofText smallPlan "/srv" = .ok p ∧ p.keys = .ok smallKeys ∧
    (¬∀ l, lackOf smallKeys halfTurn l < wordBound) ∧
    (keySweep smallKeys halfTurn).Stuck SortedMap.empty ∧
    status "plan.yaml" halfTurnOverride (smallWorld fun _ => none) = .error .overflow ∧
    run smallMachine 1 "plan.yaml" halfTurnOverride (smallWorld fun _ => none) =
      (.error .overflow, (environment smallMachine (p.withOverrides halfTurnOverride)).teardown
        (smallWorld fun _ => none)) ∧
    (keySweep smallKeys 1).Counts SortedMap.empty ∧
    status "plan.yaml" oneOverride (smallWorld fun _ => none) = .ok (.ok st) ∧
    st.outstanding = 2 ∧
    (run smallMachine 1 "plan.yaml" oneOverride (smallWorld fun _ => none)).1 ≠
      .error .overflow := by
  obtain ⟨p, cs, hp, hload, hprepare, hcells, -, -⟩ := small_found
  obtain ⟨-, hkeys, -, hledger⟩ := prepare_ok hprepare
  have hkeys : p.keys = .ok smallKeys := hkeys.trans (congrArg _ hcells)
  obtain ⟨ks, hks, hwords, hsweeps, hruns⟩ := totals_fit_iff hp
  obtain rfl := Except.ok.inj (hkeys.symm.trans hks)
  have hover : wordBound ≤ lackOf smallKeys halfTurn SortedMap.empty := by decide
  have htwo : lackOf smallKeys 1 SortedMap.empty = 2 := by decide
  have hword : lackOf smallKeys 1 SortedMap.empty < wordBound := htwo ▸ by decide
  obtain ⟨-, hstops⟩ := hruns smallMachine 1 "plan.yaml" halfTurnOverride
    (smallWorld fun _ => none) SortedMap.empty hload nofun hledger
  obtain ⟨hgoes, -⟩ := hruns smallMachine 1 "plan.yaml" oneOverride
    (smallWorld fun _ => none) SortedMap.empty hload nofun hledger
  obtain ⟨hstatus, hrun⟩ := hstops hover
  obtain ⟨⟨st, hst, houtstanding, -⟩, hgoes⟩ := hgoes hword
  exact ⟨p, st, hp, hkeys, mt (hwords halfTurn).1 (by decide),
    (hsweeps (keySweep smallKeys halfTurn) _ (List.map_id _)).2 hover, hstatus, hrun,
    (hsweeps (keySweep smallKeys 1) _ (List.map_id _)).1 hword, hst,
    houtstanding.trans htwo, hgoes⟩

end Campaign

end FaultSweep
