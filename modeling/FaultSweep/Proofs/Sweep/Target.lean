import FaultSweep.Proofs.Sweep.Accounting

/-!
# Targets are met and not passed

A trial is called only while its cell is short, although a cell's need is read once before its
trials and keys may repeat. So no cell passes its target, and a run that ends by itself has met all
of them, unless it was cut off by its number of passes.
-/

namespace FaultSweep

namespace Sweep

variable {α W : Type}

/-- A sweep over numbers of faults that makes as many passes as it takes. -/
def overFaults (counts : List Nat) (target : Nat) : Sweep Nat :=
  ⟨counts, fun n => ⟨[(.faultCount, .count n)]⟩, target, none⟩

/-- The sum of what the cells lack. -/
def lack (s : Sweep α) (l : Ledger) : Nat :=
  (s.cells.map fun c => l.remaining (s.key c) s.target).sum

theorem outstanding_eq_lack (s : Sweep α) (l : Ledger) : s.outstanding l = s.lack l :=
  total_eq_sum _

theorem lack_eq_zero {s : Sweep α} {l : Ledger} (h : s.lack l = 0) {c : α} (hc : c ∈ s.cells) :
    s.target ≤ l.completed (s.key c) := by
  have hz : l.remaining (s.key c) s.target = 0 :=
    List.sum_eq_zero_iff.1 h _ (List.mem_map.2 ⟨c, hc, rfl⟩)
  simp only [Ledger.remaining] at hz
  omega

/-- A ledger that only gains records lacks no more than before. -/
theorem lack_le {s : Sweep α} {l l' : Ledger} (h : ∀ k, l.completed k ≤ l'.completed k) :
    s.lack l' ≤ s.lack l := by
  apply List.sum_le_sum
  intro c _
  have hc := h (s.key c)
  simp only [Ledger.remaining]
  omega

theorem passes_attempt {s : Sweep α} {b : Backend W} {trial : Trial α W} {c : α}
    {p q : Progress W} (h : s.attempt b trial c p = (none, q)) :
    q.summary.passes = p.summary.passes := by
  have ho := attempt_outcome s b trial c p
  rw [h] at ho
  cases ho <;> rfl

/-- No pass begins once as many were made as are allowed. -/
theorem passes_le {s : Sweep α} {b : Backend W} {trial : Trial α W} {p q : Progress W} {n : Nat}
    (hmax : s.maxPasses = some n) (hp : p.summary.passes ≤ n) (h : Reaches s b trial p q) :
    q.summary.passes ≤ n := by
  induction h with
  | refl => exact hp
  | pass _ _ hopen ih =>
    simp only [isDone, hmax, Bool.or_eq_false_iff, decide_eq_false_iff_not, Nat.not_le] at hopen
    exact hopen.2
  | trial _ _ hstep ih => rw [passes_attempt hstep]; exact ih

end Sweep

namespace Ledger

theorem completed_le_pushAll (l : Ledger) (es : List Entered) (k : ConfigurationKey) :
    l.completed k ≤ (l.pushAll es).completed k := by
  rw [completed_pushAll]
  omega

theorem completed_push_of_eq (l : Ledger) {j k : ConfigurationKey} (r : TrialRecord)
    (h : j.ledgerKey = k.ledgerKey) : (l.push j r).completed k = l.completed j + 1 := by
  simp [completed, records, ← h, recordsAt_push_self]

theorem completed_push_of_ne (l : Ledger) {j k : ConfigurationKey} (r : TrialRecord)
    (h : j.ledgerKey ≠ k.ledgerKey) : (l.push j r).completed k = l.completed k := by
  simp [completed, records, recordsAt_push_of_ne l r (Ne.symm h)]

end Ledger

namespace Sweep

variable {α W : Type} {s : Sweep α} {b : Backend W} {trial : Trial α W} {p q : Progress W}

theorem completed_attempt {c : α} (h : s.attempt b trial c p = (none, q))
    (k : ConfigurationKey) : p.ledger.completed k ≤ q.ledger.completed k := by
  have ho := attempt_outcome s b trial c p
  rw [h] at ho
  cases ho with
  | discards => exact Nat.le_refl _
  | @records r _ _ _ _ _ => exact p.ledger.completed_le_pushAll [(s.key c, r)] k

theorem completed_reaches (h : Reaches s b trial p q) (k : ConfigurationKey) :
    p.ledger.completed k ≤ q.ledger.completed k := by
  induction h with
  | refl => exact Nat.le_refl _
  | pass _ _ _ ih => exact ih
  | trial _ _ hstep ih => exact Nat.le_trans ih (completed_attempt hstep k)

/-- A cell that was full stays full. -/
theorem full_reaches {c : α} (h : Reaches s b trial p q)
    (hfull : p.ledger.remaining (s.key c) s.target = 0) :
    q.ledger.remaining (s.key c) s.target = 0 := by
  have hle := completed_reaches h (s.key c)
  simp only [Ledger.remaining] at hfull ⊢
  omega

end Sweep

namespace Tried

/-- Each of the trials was called at a moment when its key was short of the target. -/
def Timely (l : Ledger) (target : Nat) (ts : List Tried) : Prop :=
  ∀ us t vs, ts = us ++ t :: vs → (l.pushAll (keeps us)).completed t.key < target

theorem timely_nil (l : Ledger) (target : Nat) : Timely l target [] := by
  intro us t vs h
  simp at h

theorem timely_concat {l : Ledger} {target : Nat} {ts : List Tried} {t : Tried}
    (h : Timely l target ts) (ht : (l.pushAll (keeps ts)).completed t.key < target) :
    Timely l target (ts ++ [t]) := by
  intro us u vs he
  rcases List.eq_nil_or_concat vs with rfl | ⟨ws, v, rfl⟩
  · obtain ⟨rfl, hu⟩ := List.append_inj' he rfl
    cases hu
    exact ht
  · have he' : ts ++ [t] = (us ++ u :: ws) ++ [v] := by simpa using he
    obtain ⟨rfl, -⟩ := List.append_inj' he' rfl
    exact h us u ws rfl

theorem Timely.of_prefix {l : Ledger} {target : Nat} {ts us : List Tried} (h : Timely l target ts)
    (hp : us <+: ts) : Timely l target us := by
  obtain ⟨vs, rfl⟩ := hp
  intro xs t ys he
  exact h xs t (ys ++ vs) (by simp [he])

/-- A key that is only given trials while it is short does not pass its target. -/
theorem Timely.completed_le {l : Ledger} {target : Nat} {ts : List Tried}
    (h : Timely l target ts) (k : ConfigurationKey) :
    (l.pushAll (keeps ts)).completed k ≤ max target (l.completed k) := by
  induction ts using List.reverseRecOn with
  | nil => exact Nat.le_max_right _ _
  | append_singleton ts t ih =>
    have hle := ih (h.of_prefix (List.prefix_append ts [t]))
    cases hkept : t.kept with
    | false => rwa [keeps_concat_of_dropped hkept]
    | true =>
      rw [keeps_concat_of_kept hkept, entered, Ledger.pushAll_concat]
      by_cases hkey : t.key.ledgerKey = k.ledgerKey
      · have hshort := h ts t [] rfl
        rw [Ledger.completed_push_of_eq _ _ hkey]
        omega
      · rwa [Ledger.completed_push_of_ne _ _ hkey]

end Tried

namespace Logbook

open Sweep

variable {α σ : Type}

/-- A trial that comes to an end is written down under the key of its cell. -/
theorem trials_attempt {s : Sweep α} {act : Trial α σ} {failing : σ → Bool} {c : α}
    {p q : Progress (Logbook σ)} {o : Option Halt}
    (h : s.attempt backend (trial s.key act failing) c p = (o, q)) :
    q.world.trials = p.world.trials ∨
      ∃ (t : Tried) (y : σ), t.key = s.key c ∧ act c p.world.memory = (some t.record, y) ∧
        q.world.trials = p.world.trials ++ [t] := by
  have hs := attempt_step s act failing c p
  rw [h] at hs
  cases hs with
  | hangs => exact .inl rfl
  | records hact => exact .inr ⟨_, _, rfl, hact, rfl⟩
  | fails hact => exact .inr ⟨_, _, rfl, hact, rfl⟩
  | discards hact => exact .inr ⟨_, _, rfl, hact, rfl⟩

theorem timely_attempt {s : Sweep α} {act : Trial α σ} {failing : σ → Bool} {c : α}
    {l : Ledger} {m : MemoryFile} {p q : Progress (Logbook σ)} {o : Option Halt}
    (hb : Balanced l m p) (h : Tried.Timely l s.target p.world.trials) (hshort : s.Short p c)
    (hstep : s.attempt backend (trial s.key act failing) c p = (o, q)) :
    Tried.Timely l s.target q.world.trials := by
  rcases trials_attempt hstep with he | ⟨t, -, hkey, -, he⟩
  · rwa [he]
  · rw [he]
    apply Tried.timely_concat h
    have hlack := hshort.2
    rw [hkey, ← hb.ledger]
    simp only [Ledger.remaining] at hlack
    omega

theorem timely_reaches {s : Sweep α} {act : Trial α σ} {failing : σ → Bool}
    {l : Ledger} {m : MemoryFile} {p q : Progress (Logbook σ)} (hb : Balanced l m p)
    (h : Tried.Timely l s.target p.world.trials)
    (hr : s.Reaches backend (trial s.key act failing) p q) :
    Tried.Timely l s.target q.world.trials := by
  induction hr with
  | refl => exact h
  | pass _ _ _ ih => exact ih
  | trial hr hshort hstep ih => exact timely_attempt (balanced_reaches hb hr) ih hshort hstep

/-- However a run ends, its trials were timely, and its ledger holds what they gave, save perhaps
the record of the last. -/
theorem ends_timely {s : Sweep α} {act : Trial α σ} {failing : σ → Bool}
    {l : Ledger} {m : MemoryFile} {p q : Progress (Logbook σ)} {o : Option Halt}
    (hb : Balanced l m p) (h : Tried.Timely l s.target p.world.trials)
    (he : s.Ends backend (trial s.key act failing) p (o, q)) :
    Tried.Timely l s.target q.world.trials ∧
      ∃ us, us <+: q.world.trials ∧ q.ledger = l.pushAll (Tried.keeps us) := by
  cases he with
  | done hr _ _ =>
    have ht := timely_reaches hb h hr
    have hl := (balanced_reaches hb hr).ledger
    exact ⟨ht, _, List.prefix_rfl, hl⟩
  | spent hr | overflows hr =>
    have ht := timely_reaches hb h hr
    have hl := (balanced_reaches hb hr).ledger
    exact ⟨ht, _, List.prefix_rfl, hl⟩
  | halted hr hshort hstep =>
    rename_i r c halt
    have hbr := balanced_reaches hb hr
    refine ⟨timely_attempt hbr (timely_reaches hb h hr) hshort hstep, r.world.trials, ?_⟩
    have hs := attempt_step s act failing c r
    rw [hstep] at hs
    cases hs with
    | hangs => exact ⟨List.prefix_rfl, hbr.ledger⟩
    | fails => exact ⟨List.prefix_append _ _, hbr.ledger⟩

/-- Targets are met and never passed. Each trial is called for a key that is short at that moment,
so no key ever holds more than the target, or than it held before. A run that ends well without a
limit on its passes has met the target of every cell; one with a limit has met them all or used up
its passes, and then it tells how many records are lacking. -/
theorem run_meets_target (s : Sweep α) (fuel : Nat) (act : Trial α σ) (failing : σ → Bool)
    (l : Ledger) (m : MemoryFile) (x : σ) :
    ∃ o p, s.run fuel backend (trial s.key act failing) l ⟨m, [], x⟩ = (o, p) ∧
      (∀ us t vs, p.world.trials = us ++ t :: vs →
        (l.pushAll (Tried.keeps us)).completed t.key < s.target) ∧
      (∀ us, us <+: p.world.trials → ∀ k,
        (l.pushAll (Tried.keeps us)).completed k ≤ max s.target (l.completed k)) ∧
      (∀ k, p.ledger.completed k ≤ max s.target (l.completed k)) ∧
      (o = none → match s.maxPasses with
        | none => ∀ c ∈ s.cells,
          p.ledger.completed (s.key c) = max s.target (l.completed (s.key c))
        | some n => (∀ c ∈ s.cells, s.target ≤ p.ledger.completed (s.key c)) ∨
          p.summary.passes = n ∧ p.summary.outstanding = s.lack p.ledger ∧
            0 < s.lack p.ledger) := by
  have hends := s.run_ends fuel backend (trial s.key act failing) l ⟨m, [], x⟩
  cases hrun : s.run fuel backend (trial s.key act failing) l ⟨m, [], x⟩ with
  | mk o p =>
  rw [hrun] at hends
  have hb := balanced_start l m x
  obtain ⟨ht, us, hus, hledger⟩ := ends_timely hb (Tried.timely_nil l s.target) hends
  have hle : ∀ k, p.ledger.completed k ≤ max s.target (l.completed k) := by
    intro k
    rw [hledger]
    exact (ht.of_prefix hus).completed_le k
  refine ⟨o, p, rfl, ht, fun us hus => (ht.of_prefix hus).completed_le, hle, ?_⟩
  rintro rfl
  cases hends with
  | @done q hr _ hdone =>
  have hgain : ∀ k, l.completed k ≤ q.ledger.completed k := by
    intro k
    rw [(balanced_reaches hb hr).ledger]
    exact l.completed_le_pushAll _ k
  simp only [isDone, outstanding_eq_lack, Bool.or_eq_true, decide_eq_true_eq] at hdone
  cases hmax : s.maxPasses with
  | none =>
    rw [hmax] at hdone
    intro c hc
    have hmet := lack_eq_zero (hdone.resolve_right (by simp)) hc
    have hover := hle (s.key c)
    have hkept := hgain (s.key c)
    simp only [Progress.ledger_closed] at hover ⊢
    omega
  | some n =>
    rw [hmax] at hdone
    by_cases hzero : s.lack q.ledger = 0
    · exact .inl fun c hc => lack_eq_zero hzero hc
    · have hspent : n ≤ q.summary.passes := by simpa [hzero] using hdone
      have hallowed := passes_le hmax (Nat.zero_le n) hr
      exact .inr ⟨Nat.le_antisymm hallowed hspent, s.outstanding_eq_lack q.ledger,
        Nat.pos_of_ne_zero hzero⟩

/-- A trial times out if fewer trials were made before it than its cell has faults. -/
def unready : Trial Nat Nat := fun c n =>
  (some ⟨if n < c then .timedOut else .success, .afterEpoch 0, .afterEpoch 0, .completed, .null,
    none⟩, n + 1)

theorem repeated_cell_meets_target :
    ∃ p, (overFaults [1, 3, 1] 2).run 5 backend
        (trial (overFaults [1, 3, 1] 2).key unready fun _ => false) SortedMap.empty
        ⟨⟨none, false, 0⟩, [], 0⟩ = (none, p) ∧
      (∀ k, p.ledger.completed k ≤ 2) ∧
      ∀ c ∈ [1, 3, 1], p.ledger.completed ⟨[(.faultCount, .count c)]⟩ = 2 := by
  have hends : ((overFaults [1, 3, 1] 2).run 5 backend
      (trial (overFaults [1, 3, 1] 2).key unready fun _ => false) SortedMap.empty
      ⟨⟨none, false, 0⟩, [], 0⟩).1.isNone = true := by decide +kernel
  obtain ⟨o, p, hrun, -, -, hle, hmet⟩ := run_meets_target (overFaults [1, 3, 1] 2) 5 unready
    (fun _ => false) SortedMap.empty ⟨none, false, 0⟩ 0
  rw [hrun] at hends
  obtain rfl := Option.isNone_iff_eq_none.1 hends
  exact ⟨p, hrun, hle, hmet rfl⟩

end Logbook

end FaultSweep
