import FaultSweep.Proofs.Sweep.Target

/-!
# When the total is a word

What the cells lack is counted before each pass, and the program stops where the count is no word.
Records are only added, so this is found out before the first pass or never. What the cells lack is
most when nothing is recorded: then it is the target as many times as there are cells, and if this
product is a word no ledger makes a sweep stop.
-/

namespace FaultSweep.Sweep

variable {α W : Type} {s : Sweep α} {l : Ledger}

theorem lack_empty (s : Sweep α) : s.lack SortedMap.empty = s.cells.length * s.target := by
  have hnone : ∀ c, Ledger.remaining SortedMap.empty (s.key c) s.target = s.target := fun c => rfl
  simp only [lack, hnone, List.map_const', List.sum_replicate, smul_eq_mul]

/-- No ledger lacks more than the empty one. -/
theorem lack_le_product (s : Sweep α) (l : Ledger) : s.lack l ≤ s.cells.length * s.target :=
  s.lack_empty ▸ lack_le fun k => Nat.zero_le (l.completed k)

theorem lack_words_iff (s : Sweep α) :
    (∀ l, s.lack l < wordBound) ↔ s.cells.length * s.target < wordBound :=
  ⟨fun h => s.lack_empty ▸ h SortedMap.empty, fun h l => (s.lack_le_product l).trans_lt h⟩

/-- Nothing is lacking exactly if every cell has met its target. -/
theorem lack_eq_zero_iff : s.lack l = 0 ↔ ∀ c ∈ s.cells, s.target ≤ l.completed (s.key c) := by
  refine ⟨fun h c hc => lack_eq_zero h hc, fun h => ?_⟩
  exact List.sum_eq_zero (List.forall_mem_map.2 fun c hc => Nat.sub_eq_zero_of_le (h c hc))

/-- With this ledger the total is what is lacking, so that a total of zero means that every cell has
met its target. No run is stopped by a total, and one that ends by itself has met all targets, or it
has made all the passes that it may. -/
structure Counts (s : Sweep α) (l : Ledger) : Prop where
  total : s.outstanding l = (s.cells.map fun c => s.target - l.completed (s.key c)).sum
  met : s.outstanding l = 0 ↔ ∀ c ∈ s.cells, s.target ≤ l.completed (s.key c)
  goes : ∀ {W : Type} (fuel : Nat) (b : Backend W) (trial : Trial α W) (w : W),
    (s.run fuel b trial l w).1 ≠ some .overflow
  ends : ∀ {W : Type} (fuel : Nat) (b : Backend W) (trial : Trial α W) (w : W) (p : Progress W),
    s.run fuel b trial l w = (none, p) →
      (∀ c ∈ s.cells, s.target ≤ p.ledger.completed (s.key c)) ∨
        s.maxPasses = some p.summary.passes

/-- With this ledger some cell is short, and every run is stopped before its first pass. -/
structure Stuck (s : Sweep α) (l : Ledger) : Prop where
  short : ∃ c ∈ s.cells, l.completed (s.key c) < s.target
  stops : ∀ {W : Type} (fuel : Nat) (b : Backend W) (trial : Trial α W) (w : W),
    s.run fuel b trial l w = (some .overflow, ⟨l, w, .start⟩)

/-- Where a run is done it has met all targets, or it has made all the passes that it may. -/
theorem met_of_isDone {b : Backend W} {trial : Trial α W} {w : W} {q : Progress W}
    (hr : s.Reaches b trial ⟨l, w, .start⟩ q) (hdone : s.isDone q = true) :
    (∀ c ∈ s.cells, s.target ≤ q.ledger.completed (s.key c)) ∨
      s.maxPasses = some q.summary.passes := by
  simp only [isDone, outstanding_eq_lack, Bool.or_eq_true, decide_eq_true_eq] at hdone
  rcases hdone with hzero | hspent
  · exact .inl (lack_eq_zero_iff.1 hzero)
  · cases hmax : s.maxPasses with
    | none =>
      rw [hmax] at hspent
      cases hspent
    | some n =>
      have hmost := passes_le hmax (Nat.zero_le n) hr
      have hleast : n ≤ q.summary.passes := by simpa [hmax] using hspent
      exact .inr (congrArg some (Nat.le_antisymm hleast hmost))

theorem counts_of_lack (h : s.lack l < wordBound) : s.Counts l where
  total := s.outstanding_eq_lack l
  met := by rw [outstanding_eq_lack, lack_eq_zero_iff]
  goes fuel b trial w hover := by
    have hends := s.run_ends fuel b trial l w
    rcases hrun : s.run fuel b trial l w with ⟨o, p⟩
    rw [hrun] at hends hover
    obtain rfl : o = some .overflow := hover
    cases hends with
    | @overflows q hr hbound =>
      -- The way to the stop has only added records to the ledger.
      have hle : s.lack p.ledger ≤ s.lack l := lack_le (completed_reaches hr)
      rw [outstanding_eq_lack] at hbound
      omega
    | @halted q _ c _ _ _ hstep =>
      have houtcome := attempt_outcome s b trial c q
      rw [hstep] at houtcome
      cases houtcome
  ends fuel b trial w p hrun := by
    have hends := s.run_ends fuel b trial l w
    rw [hrun] at hends
    cases hends with
    | @done q hr _ hdone => exact met_of_isDone (q := q) hr hdone

theorem stuck_of_lack (h : wordBound ≤ s.lack l) : s.Stuck l where
  short := by
    by_contra hnone
    push Not at hnone
    rw [lack_eq_zero_iff.2 hnone] at h
    exact absurd h (by decide)
  stops fuel b trial w := by
    have hover : wordBound ≤ s.outstanding (Progress.ledger ⟨l, w, .start⟩) :=
      (s.outstanding_eq_lack l).symm ▸ h
    exact (Stands.overflows hover).passes_eq

end FaultSweep.Sweep
