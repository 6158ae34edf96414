import FaultSweep.Proofs.Sweep.Target

/-!
# Cells do not influence each other

Cells share a ledger and the decision whether there is another pass, and nothing else. If their keys
are different and the results of trials are laid down for each key, then a pass gives each cell the
turn it would have alone, and a cell that is full has no turn at all. So it makes no difference to a
cell how many passes the others need, what they are given, or where it stands among them.
-/

namespace FaultSweep

/-- What the trials of each key give, one after another. -/
abbrev Streams := ConfigurationKey → Nat → TrialRecord

/-- How many trials of each key were made. -/
abbrev Counts := ConfigurationKey → Nat

/-- What a sweep has of one key: its records, and the number of its trials. -/
structure Share where
  records : List TrialRecord
  made : Nat

namespace Share

variable (stream : Nat → TrialRecord) (target : Nat)

/-- One more trial. -/
def next (a : Share) : Share :=
  ⟨if (stream a.made).status.isRecordable then a.records ++ [stream a.made] else a.records,
    a.made + 1⟩

/-- As many trials as there are records lacking. -/
def turn (a : Share) : Share := (next stream)^[target - a.records.length] a

/-- The records are those that there were, and then the recordable ones of the trials made. -/
def Follows (old : List TrialRecord) (a : Share) : Prop :=
  a.records = old ++ ((List.range a.made).map stream).filter (·.status.isRecordable)

variable {stream target}

theorem follows_next {old : List TrialRecord} {a : Share} (h : a.Follows stream old) :
    (a.next stream).Follows stream old := by
  unfold Follows at h ⊢
  simp only [next, List.range_succ, List.map_append, List.filter_append, ← List.append_assoc, ← h]
  cases hkeep : (stream a.made).status.isRecordable <;> simp [hkeep]

theorem follows_iterate {old : List TrialRecord} {a : Share} (h : a.Follows stream old)
    {f : Share → Share} (hf : ∀ b : Share, b.Follows stream old → (f b).Follows stream old)
    (n : Nat) : (f^[n] a).Follows stream old := by
  induction n generalizing a with
  | zero => exact h
  | succ n ih => exact ih (hf a h)

theorem follows_turn {old : List TrialRecord} {a : Share} (h : a.Follows stream old) :
    (a.turn stream target).Follows stream old :=
  follows_iterate h (fun _ => follows_next) _

theorem turn_of_full {a : Share} (h : target ≤ a.records.length) : a.turn stream target = a := by
  rw [turn, Nat.sub_eq_zero_of_le h]
  rfl

/-- A full share is left as it is by all turns after. -/
theorem iterate_turn_of_full {a : Share} {m n : Nat} (hmn : m ≤ n)
    (h : target ≤ ((turn stream target)^[m] a).records.length) :
    (turn stream target)^[n] a = (turn stream target)^[m] a := by
  obtain ⟨k, rfl⟩ := Nat.exists_eq_add_of_le' hmn
  rw [Function.iterate_add_apply]
  exact Function.iterate_fixed (turn_of_full h) k

/-- It does not matter how often there is a turn, once the share is full. -/
theorem iterate_turn_eq {a : Share} {m n : Nat}
    (hm : m < n → target ≤ ((turn stream target)^[m] a).records.length)
    (hn : n < m → target ≤ ((turn stream target)^[n] a).records.length) :
    (turn stream target)^[m] a = (turn stream target)^[n] a := by
  rcases Nat.lt_trichotomy m n with hlt | rfl | hgt
  · exact (iterate_turn_of_full hlt.le (hm hlt)).symm
  · rfl
  · exact iterate_turn_of_full hgt.le (hn hgt)

theorem length_iterate_next (a : Share) (n : Nat) :
    ((next stream)^[n] a).records.length ≤ a.records.length + n := by
  induction n generalizing a with
  | zero => exact Nat.le_refl _
  | succ n ih =>
    have hone : (a.next stream).records.length ≤ a.records.length + 1 := by
      unfold next
      split_ifs <;> simp
    have hrest := ih (a.next stream)
    rw [Function.iterate_succ_apply]
    omega

/-- No turn takes a share past the target. -/
theorem length_iterate_turn (a : Share) (n : Nat) :
    ((turn stream target)^[n] a).records.length ≤ max target a.records.length := by
  induction n generalizing a with
  | zero => exact Nat.le_max_right _ _
  | succ n ih =>
    have hone : (a.turn stream target).records.length ≤
        a.records.length + (target - a.records.length) := length_iterate_next a _
    have hrest := ih (a.turn stream target)
    rw [Function.iterate_succ_apply]
    omega

end Share

/-- What a progress has of a key. -/
def Progress.share (p : Progress (Logbook Counts)) (k : ConfigurationKey) : Share :=
  ⟨p.ledger.records k, p.world.memory k⟩

namespace Logbook

open Sweep

variable {α : Type} {s : Sweep α} {rs : Streams} {c : α} {p q r : Progress (Logbook Counts)}

/-- Each trial of a key gives what comes next in the stream of the key. -/
def nextOf (key : α → ConfigurationKey) (rs : Streams) : Trial α Counts :=
  fun c made => (some (rs (key c) (made (key c))),
    Function.update made (key c) (made (key c) + 1))

/-- A trial that is written down, with all writes going well. -/
def streamed (s : Sweep α) (rs : Streams) : Trial α (Logbook Counts) :=
  trial s.key (nextOf s.key rs) fun _ => false

/-- Something is done with the share of one key, and everything else stays. -/
structure Changes (k : ConfigurationKey) (f : Share → Share) (p q : Progress (Logbook Counts)) :
    Prop where
  passes : q.summary.passes = p.summary.passes
  own : q.share k = f (p.share k)
  made : ∀ j, j ≠ k → q.world.memory j = p.world.memory j
  ledger : ∀ j, j ≠ k.ledgerKey → q.ledger.get? j = p.ledger.get? j

theorem Changes.refl (k : ConfigurationKey) (p : Progress (Logbook Counts)) :
    Changes k id p p :=
  ⟨rfl, rfl, fun _ _ => rfl, fun _ _ => rfl⟩

theorem Changes.trans {k : ConfigurationKey} {f g : Share → Share} (h : Changes k f p q)
    (h' : Changes k g q r) : Changes k (g ∘ f) p r where
  passes := h'.passes.trans h.passes
  own := by rw [h'.own, h.own, Function.comp]
  made j hj := (h'.made j hj).trans (h.made j hj)
  ledger j hj := (h'.ledger j hj).trans (h.ledger j hj)

theorem Changes.other {k j : ConfigurationKey} {f : Share → Share} (h : Changes k f p q)
    (hj : j.ledgerKey ≠ k.ledgerKey) : q.share j = p.share j := by
  have hrecords : q.ledger.records j = p.ledger.records j := by
    simp only [Ledger.records, Ledger.recordsAt, h.ledger _ hj]
  have hmade : q.world.memory j = p.world.memory j := by
    apply h.made
    rintro rfl
    exact hj rfl
  rw [Progress.share, hrecords, hmade, Progress.share]

theorem changes_attempt (s : Sweep α) (rs : Streams) (c : α) (p : Progress (Logbook Counts)) :
    ∃ q, s.attempt backend (streamed s rs) c p = (none, q) ∧
      Changes (s.key c) (Share.next (rs (s.key c))) p q := by
  have hs := attempt_step s (nextOf s.key rs) (fun _ => false) c p
  change Step s _ _ c p (s.attempt backend (streamed s rs) c p) at hs
  generalize s.attempt backend (streamed s rs) c p = result at hs
  cases hs with
  | hangs hact => cases hact
  | records hact hkeep _ =>
    cases hact
    refine ⟨_, rfl, rfl, ?_, ?_, ?_⟩
    · simp only [Progress.share, Share.next, hkeep, if_true, Progress.ledger_recorded,
        Ledger.records_push_self, Progress.world_recorded, memory_store, memory_note,
        Function.update_self]
    · exact fun j hj => Function.update_of_ne hj _ _
    · exact fun j hj => p.ledger.get?_push_of_ne _ hj
  | fails _ _ hfails => cases hfails
  | discards hact hkeep =>
    cases hact
    refine ⟨_, rfl, rfl, ?_, ?_, fun _ _ => rfl⟩
    · simp only [Progress.share, Share.next, hkeep, Bool.false_eq_true, if_false,
        Progress.ledger_discarded, Progress.world_discarded, memory_note, Function.update_self]
    · exact fun j hj => Function.update_of_ne hj _ _

theorem changes_attempts (s : Sweep α) (rs : Streams) (c : α) (n : Nat)
    (p : Progress (Logbook Counts)) :
    ∃ q, s.attempts backend (streamed s rs) c n p = (none, q) ∧
      Changes (s.key c) (Share.next (rs (s.key c)))^[n] p q := by
  induction n generalizing p with
  | zero => exact ⟨p, rfl, .refl _ p⟩
  | succ n ih =>
    obtain ⟨q, hfirst, hq⟩ := changes_attempt s rs c p
    obtain ⟨r, hrest, hr⟩ := ih q
    refine ⟨r, ?_, hq.trans hr⟩
    rw [attempts, hfirst]
    exact hrest

/-- Some of the cells have had their turns, a number of times each, and nothing else has changed. -/
structure Turned (s : Sweep α) (rs : Streams) (cs : List α) (n : Nat)
    (p q : Progress (Logbook Counts)) : Prop where
  own : ∀ c ∈ cs, q.share (s.key c) =
    (Share.turn (rs (s.key c)) s.target)^[n] (p.share (s.key c))
  ledger : ∀ j, (∀ c ∈ cs, j ≠ (s.key c).ledgerKey) → q.ledger.get? j = p.ledger.get? j

/-- A visit gives each cell its turn. What the visit of one cell leaves of the others is what they
had. -/
theorem turned_visit (rs : Streams) {cs : List α}
    (hcs : (cs.map fun c => (s.key c).ledgerKey).Nodup) (p : Progress (Logbook Counts)) :
    ∃ q, s.visit backend (streamed s rs) cs p = (none, q) ∧
      q.summary.passes = p.summary.passes ∧ Turned s rs cs 1 p q ∧
      ∀ k, (∀ c ∈ cs, k.ledgerKey ≠ (s.key c).ledgerKey) → q.share k = p.share k := by
  induction cs generalizing p with
  | nil => exact ⟨p, rfl, rfl, ⟨by simp, fun _ _ => rfl⟩, fun _ _ => rfl⟩
  | cons c cs ih =>
    obtain ⟨hc, hcs⟩ := List.nodup_cons.1 hcs
    have hne : ∀ d ∈ cs, (s.key c).ledgerKey ≠ (s.key d).ledgerKey := by
      intro d hd he
      exact hc (List.mem_map.2 ⟨d, hd, he.symm⟩)
    obtain ⟨q, hfirst, hq⟩ := changes_attempts s rs c
      (p.ledger.remaining (s.key c) s.target) p
    obtain ⟨r, hrest, hpasses, hturned, hothers⟩ := ih hcs q
    refine ⟨r, ?_, hpasses.trans hq.passes, ⟨?_, ?_⟩, ?_⟩
    · rw [visit, hfirst]
      exact hrest
    · refine List.forall_mem_cons.2 ⟨?_, ?_⟩
      -- `remaining` is read before the first trial, as `Share.turn` reads it.
      · rw [hothers _ hne, hq.own]
        rfl
      · intro d hd
        rw [hturned.own d hd, hq.other (hne d hd).symm]
    · intro j hj
      obtain ⟨hjc, hjs⟩ := List.forall_mem_cons.1 hj
      rw [hturned.ledger j hjs, hq.ledger j hjc]
    · intro k hk
      obtain ⟨hkc, hks⟩ := List.forall_mem_cons.1 hk
      rw [hothers k hks, hq.other hkc]

/-- The keys of the cells are kept apart in the ledger. -/
def Apart (s : Sweep α) : Prop := (s.cells.map fun c => (s.key c).ledgerKey).Nodup

theorem Turned.refl (s : Sweep α) (rs : Streams) (cs : List α) (p : Progress (Logbook Counts)) :
    Turned s rs cs 0 p p :=
  ⟨fun _ _ => rfl, fun _ _ => rfl⟩

theorem Turned.trans {cs : List α} {m n : Nat} (h : Turned s rs cs m p q)
    (h' : Turned s rs cs n q r) : Turned s rs cs (n + m) p r where
  own c hc := by rw [h'.own c hc, h.own c hc, Function.iterate_add_apply]
  ledger j hj := (h'.ledger j hj).trans (h.ledger j hj)

/-- A run that ends well has given every cell the same number of turns. -/
theorem turned_passes {fuel : Nat} (hs : Apart s)
    (h : s.passes backend (streamed s rs) fuel p = (none, q)) :
    ∃ n r, q = r.closed (s.outstanding r.ledger) ∧ s.isDone r = true ∧
      r.summary.passes = n + p.summary.passes ∧ Turned s rs s.cells n p r := by
  induction fuel generalizing p with
  | zero =>
    have hstands := s.passes_stands backend (streamed s rs) 0 p
    rw [h] at hstands
    cases hstands with
    | done _ hdone => exact ⟨0, p, rfl, hdone, (Nat.zero_add _).symm, .refl s rs s.cells p⟩
  | succ fuel ih =>
    have hstands := s.passes_stands backend (streamed s rs) (fuel + 1) p
    rw [h] at hstands
    cases hstands with
    | done _ hdone => exact ⟨0, p, rfl, hdone, (Nat.zero_add _).symm, .refl s rs s.cells p⟩
    | passed _ _ hvisit hrest =>
      obtain ⟨p', hvisit', hpasses, hturned, -⟩ := turned_visit rs hs p.nextPass
      obtain rfl := congrArg Prod.snd (hvisit'.symm.trans hvisit)
      have hfirst : Turned s rs s.cells 1 p p' := ⟨hturned.own, hturned.ledger⟩
      obtain ⟨n, r, hclosed, hover, hmade, hturns⟩ := ih hrest
      refine ⟨n + 1, r, hclosed, hover, ?_, hfirst.trans hturns⟩
      rw [hmade, hpasses, Nat.add_assoc, Nat.add_comm 1]
      rfl

/-- How a run left its cells that ended well: they have all had a number of turns, and they are full
unless no more were allowed. -/
structure Finished (s : Sweep α) (rs : Streams) (l : Ledger) (n : Nat)
    (p : Progress (Logbook Counts)) : Prop where
  own : ∀ c ∈ s.cells, p.share (s.key c) =
    (Share.turn (rs (s.key c)) s.target)^[n] ⟨l.records (s.key c), 0⟩
  ledger : ∃ es, p.ledger = l.pushAll es
  untouched : ∀ j, (∀ c ∈ s.cells, j ≠ (s.key c).ledgerKey) → p.ledger.get? j = l.get? j
  allowed : ∀ k, s.maxPasses = some k → n ≤ k
  full : s.maxPasses = some n ∨
    ∀ c ∈ s.cells, s.target ≤ (p.share (s.key c)).records.length

theorem passes_le_of_run {σ : Type} {act : Trial α σ} {failing : σ → Bool} {fuel : Nat} {l : Ledger}
    {w : Logbook σ} {p : Progress (Logbook σ)}
    (h : s.run fuel backend (trial s.key act failing) l w = (none, p)) (k : Nat)
    (hmax : s.maxPasses = some k) : p.summary.passes ≤ k := by
  have hends := s.run_ends fuel backend (trial s.key act failing) l w
  rw [h] at hends
  cases hends with
  | done hr _ _ =>
    have hle := passes_le hmax (Nat.zero_le k) hr
    exact hle

theorem finished_of_run {fuel : Nat} {l : Ledger} {m : MemoryFile} (hs : Apart s)
    (h : s.run fuel backend (streamed s rs) l ⟨m, [], fun _ => 0⟩ = (none, p)) :
    ∃ n, Finished s rs l n p := by
  have hends := s.run_ends fuel backend (streamed s rs) l ⟨m, [], fun _ => 0⟩
  rw [h] at hends
  obtain ⟨-, us, -, hledger⟩ := ends_timely (balanced_start l m fun _ => 0)
    (Tried.timely_nil l s.target) hends
  have hallowed := passes_le_of_run h
  obtain ⟨n, r, rfl, hdone, hpasses, hturned⟩ := turned_passes hs h
  have hmade : r.summary.passes = n := hpasses
  refine ⟨n, hturned.own, ⟨_, hledger⟩, hturned.ledger, hmade ▸ hallowed, ?_⟩
  simp only [isDone, outstanding_eq_lack, Bool.or_eq_true, decide_eq_true_eq] at hdone
  rcases hdone with hzero | hspent
  · exact .inr fun c hc => lack_eq_zero hzero hc
  · cases hmax : s.maxPasses with
    | none => simp [hmax] at hspent
    | some k =>
      have hle : k ≤ r.summary.passes := by simpa [hmax] using hspent
      have hge : r.summary.passes ≤ k := hallowed k hmax
      exact .inl (congrArg some (by omega))

/-! ### Two sweeps -/

variable {β : Type} {t : Sweep β} {rs' : Streams} {d : β} {l l' : Ledger} {m n : Nat}

/-- Two sweeps that have a cell in common, with the same records at first and the same stream, leave
it with the same share. -/
theorem Finished.share_eq (h : Finished s rs l m p) (h' : Finished t rs' l' n q)
    (htarget : t.target = s.target) (hmax : t.maxPasses = s.maxPasses) (hc : c ∈ s.cells)
    (hd : d ∈ t.cells) (hold : l'.records (t.key d) = l.records (s.key c))
    (hstream : rs' (t.key d) = rs (s.key c)) : q.share (t.key d) = p.share (s.key c) := by
  have hown := h.own c hc
  have hown' := h'.own d hd
  rw [htarget, hold, hstream] at hown'
  rw [hown, hown']
  -- Who had fewer turns was allowed more, and so is full.
  refine Share.iterate_turn_eq ?_ ?_
  · intro hlt
    rcases h'.full with hspent | hfull
    · exact absurd (h.allowed n (hmax ▸ hspent)) (by omega)
    · rw [← hown', ← htarget]
      exact hfull d hd
  · intro hlt
    rcases h.full with hspent | hfull
    · exact absurd (h'.allowed m (hmax ▸ hspent)) (by omega)
    · rw [← hown]
      exact hfull c hc

/-- The cells of a sweep in another order. -/
def reordered (s : Sweep α) (cs : List α) : Sweep α := { s with cells := cs }

theorem outstanding_reordered {cs : List α} (hperm : cs.Perm s.cells)
    (hshares : ∀ c ∈ s.cells, q.share (s.key c) = p.share (s.key c)) :
    (reordered s cs).outstanding q.ledger = s.outstanding p.ledger := by
  have hcounts : s.cells.map (fun c => q.ledger.remaining (s.key c) s.target) =
      s.cells.map fun c => p.ledger.remaining (s.key c) s.target := by
    refine List.map_congr_left fun c hc => ?_
    exact congrArg (fun a : Share => s.target - a.records.length) (hshares c hc)
  rw [outstanding, outstanding, total_eq_sum, total_eq_sum, ← hcounts]
  exact (hperm.map _).sum_eq

theorem isDone_reordered {cs : List α} (hperm : cs.Perm s.cells)
    (hshares : ∀ c ∈ s.cells, q.share (s.key c) = p.share (s.key c))
    (hpasses : q.summary.passes = p.summary.passes) :
    (reordered s cs).isDone q = s.isDone p := by
  rw [isDone, isDone, outstanding_reordered hperm hshares, hpasses]
  rfl

/-- A run over the cells in another order ends with the same pass. -/
theorem passes_reordered {cs : List α} (hperm : cs.Perm s.cells) (hs : Apart s) {fuel : Nat}
    (hshares : ∀ c ∈ s.cells, q.share (s.key c) = p.share (s.key c))
    (hpasses : q.summary.passes = p.summary.passes)
    (h : s.passes backend (streamed s rs) fuel p = (none, r)) :
    ∃ r', (reordered s cs).passes backend (streamed s rs) fuel q = (none, r') := by
  have happart : (cs.map fun c => (s.key c).ledgerKey).Nodup :=
    (hperm.map fun c => (s.key c).ledgerKey).nodup_iff.2 hs
  induction fuel generalizing p q with
  | zero =>
    have hword' := outstanding_reordered hperm hshares
    have hdone' := isDone_reordered hperm hshares hpasses
    have hstands := s.passes_stands backend (streamed s rs) 0 p
    rw [h] at hstands
    cases hstands with
    | done hword hdone =>
      exact ⟨_, (Stands.done (hword'.trans_lt hword) (hdone'.trans hdone)).passes_eq⟩
  | succ fuel ih =>
    have hword' := outstanding_reordered hperm hshares
    have hdone' := isDone_reordered hperm hshares hpasses
    have hstands := s.passes_stands backend (streamed s rs) (fuel + 1) p
    rw [h] at hstands
    cases hstands with
    | done hword hdone =>
      exact ⟨_, (Stands.done (hword'.trans_lt hword) (hdone'.trans hdone)).passes_eq⟩
    | passed hword hopen hvisit hrest =>
      obtain ⟨p', hvisit', hpasses', hturned, -⟩ := turned_visit rs hs p.nextPass
      obtain rfl := congrArg Prod.snd (hvisit'.symm.trans hvisit)
      obtain ⟨q', hvisit'', hpasses'', hturned', -⟩ :=
        turned_visit (s := reordered s cs) rs happart q.nextPass
      -- After a pass the cells have the same shares again, so both are over or neither is.
      obtain ⟨r', hr'⟩ : ∃ r', (reordered s cs).passes backend (streamed s rs) fuel q' =
          (none, r') := by
        refine ih ?_ ?_ hrest
        · intro c hc
          have hown := hturned.own c hc
          have hown' := hturned'.own c (hperm.mem_iff.2 hc)
          rw [hown]
          refine hown'.trans ?_
          exact congrArg _ (hshares c hc)
        · rw [hpasses', hpasses'']
          exact congrArg (· + 1) hpasses
      exact ⟨r', (Stands.passed (hword'.trans_lt hword) (hdone'.trans hopen) hvisit''
        hr').passes_eq⟩

/-- Two sweeps over the same cells, whose runs began with the same ledger, leave the same ledger. -/
theorem Finished.ledger_eq {cs : List α} (hperm : cs.Perm s.cells) (h : Finished s rs l m p)
    (h' : Finished (reordered s cs) rs l n q) : q.ledger = p.ledger := by
  obtain ⟨es, hes⟩ := h.ledger
  obtain ⟨fs, hfs⟩ := h'.ledger
  rw [hes, hfs]
  refine Ledger.pushAll_ext fun k => ?_
  rw [← hes, ← hfs]
  by_cases hk : ∃ c ∈ s.cells, k = (s.key c).ledgerKey
  · obtain ⟨c, hc, rfl⟩ := hk
    exact congrArg Share.records (h.share_eq h' rfl rfl hc (hperm.mem_iff.2 hc) rfl rfl)
  · push Not at hk
    have huntouched := h.untouched k hk
    have huntouched' := h'.untouched k fun c hc => hk c (hperm.mem_iff.1 hc)
    rw [Ledger.recordsAt, Ledger.recordsAt, huntouched, huntouched']

theorem Finished.follows (h : Finished s rs l n p) (hc : c ∈ s.cells) :
    (p.share (s.key c)).Follows (rs (s.key c)) (l.records (s.key c)) := by
  rw [h.own c hc]
  exact Share.follows_iterate (by simp [Share.Follows]) (fun _ => Share.follows_turn) n

theorem Finished.completed_eq (h : Finished s rs l n p) (hmax : s.maxPasses = none)
    (hc : c ∈ s.cells) :
    p.ledger.completed (s.key c) = max s.target (l.completed (s.key c)) := by
  have hfull := h.full.resolve_left (by simp [hmax]) c hc
  have hkept : p.ledger.records (s.key c) = _ := h.follows hc
  have hle : (p.share (s.key c)).records.length ≤ max s.target (l.completed (s.key c)) := by
    rw [h.own c hc]
    exact Share.length_iterate_turn _ n
  have hge : l.completed (s.key c) ≤ p.ledger.completed (s.key c) := by
    rw [Ledger.completed, Ledger.completed, hkept, List.length_append]
    exact Nat.le_add_right _ _
  exact Nat.le_antisymm hle (Nat.max_le.2 ⟨hfull, hge⟩)

theorem apart_reordered {cs : List α} (hperm : cs.Perm s.cells) (hs : Apart s) :
    Apart (reordered s cs) :=
  (hperm.map fun c => (s.key c).ledgerKey).nodup_iff.2 hs

/-- Cells do not influence each other, if their keys are different and the results of the trials of
each key are laid down. A run that ends well leaves a cell with the records it had and then with the
recordable ones of the first trials of its stream, which meet the target if the passes have no
limit; it leaves nothing else changed. The cells in any other order come to the same ledger, by a
run that ends as well. And any other sweep with the same target and limit leaves the same records
for a cell that had the same records and has the same stream. -/
theorem run_independent (s : Sweep α) (rs : Streams) (l : Ledger) (m : MemoryFile) (fuel : Nat)
    (p : Progress (Logbook Counts)) (hs : Apart s)
    (h : s.run fuel backend (streamed s rs) l ⟨m, [], fun _ => 0⟩ = (none, p)) :
    (∀ c ∈ s.cells,
      p.ledger.records (s.key c) = l.records (s.key c) ++
        ((List.range (p.world.memory (s.key c))).map (rs (s.key c))).filter
          (·.status.isRecordable) ∧
      (s.maxPasses = none →
        p.ledger.completed (s.key c) = max s.target (l.completed (s.key c)))) ∧
    (∀ j, (∀ c ∈ s.cells, j ≠ (s.key c).ledgerKey) → p.ledger.get? j = l.get? j) ∧
    (∀ cs : List α, cs.Perm s.cells → ∃ q, (reordered s cs).run fuel backend
      (streamed (reordered s cs) rs) l ⟨m, [], fun _ => 0⟩ = (none, q) ∧ q.ledger = p.ledger) ∧
    ∀ (β : Type) (t : Sweep β) (rs' : Streams) (l' : Ledger) (m' : MemoryFile) (fuel' : Nat)
      (q : Progress (Logbook Counts)), Apart t → t.target = s.target → t.maxPasses = s.maxPasses →
      t.run fuel' backend (streamed t rs') l' ⟨m', [], fun _ => 0⟩ = (none, q) →
      ∀ c ∈ s.cells, ∀ d ∈ t.cells, l'.records (t.key d) = l.records (s.key c) →
        rs' (t.key d) = rs (s.key c) →
        q.ledger.records (t.key d) = p.ledger.records (s.key c) := by
  obtain ⟨n, hfinished⟩ := finished_of_run hs h
  refine ⟨?_, hfinished.untouched, ?_, ?_⟩
  · exact fun c hc => ⟨hfinished.follows hc, fun hmax => hfinished.completed_eq hmax hc⟩
  · intro cs hperm
    obtain ⟨q, hq⟩ := passes_reordered (q := ⟨l, ⟨m, [], fun _ => 0⟩, .start⟩) hperm hs
      (fun _ _ => rfl) rfl h
    obtain ⟨n', hfinished'⟩ := finished_of_run (apart_reordered hperm hs) hq
    exact ⟨q, hq, hfinished.ledger_eq hperm hfinished'⟩
  · intro β t rs' l' m' fuel' q ht htarget hmax hrun c hc d hd hold hstream
    obtain ⟨n', hfinished'⟩ := finished_of_run ht hrun
    exact congrArg Share.records
      (hfinished.share_eq hfinished' htarget hmax hc hd hold hstream)

/-- The trials of three faults time out twice before they succeed, all others succeed at once. -/
def slowly : Streams := fun k n =>
  ⟨if k = ⟨[(.faultCount, .count 3)]⟩ ∧ n < 2 then .timedOut else .success, .afterEpoch n,
    .afterEpoch n, .completed, .null, none⟩

theorem exists_of_isNone {ε π : Type} {x : Option ε × π} (h : x.1.isNone = true) :
    ∃ p, x = (none, p) :=
  ⟨x.2, Prod.ext (Option.isNone_iff_eq_none.1 h) rfl⟩

theorem slow_cell_independent :
    ∃ p, (overFaults [1, 3] 2).run 4 backend (streamed (overFaults [1, 3] 2) slowly)
        SortedMap.empty ⟨⟨none, false, 0⟩, [], fun _ => 0⟩ = (none, p) ∧
      (∃ q, (overFaults [3, 1] 2).run 4 backend (streamed (overFaults [3, 1] 2) slowly)
        SortedMap.empty ⟨⟨none, false, 0⟩, [], fun _ => 0⟩ = (none, q) ∧ q.ledger = p.ledger) ∧
      ∃ q, (overFaults [1] 2).run 4 backend (streamed (overFaults [1] 2) slowly)
        SortedMap.empty ⟨⟨none, false, 0⟩, [], fun _ => 0⟩ = (none, q) ∧
        q.ledger.records ⟨[(.faultCount, .count 1)]⟩ =
          p.ledger.records ⟨[(.faultCount, .count 1)]⟩ := by
  have hapart : Apart (overFaults [1, 3] 2) := by
    unfold Apart
    decide +kernel
  have hapart' : Apart (overFaults [1] 2) := List.nodup_singleton _
  have hends : ((overFaults [1, 3] 2).run 4 backend (streamed (overFaults [1, 3] 2) slowly)
      SortedMap.empty ⟨⟨none, false, 0⟩, [], fun _ => 0⟩).1.isNone = true := by
    decide +kernel
  have hends' : ((overFaults [1] 2).run 4 backend (streamed (overFaults [1] 2) slowly)
      SortedMap.empty ⟨⟨none, false, 0⟩, [], fun _ => 0⟩).1.isNone = true := by
    decide +kernel
  obtain ⟨p, hrun⟩ := exists_of_isNone hends
  obtain ⟨q, hrun'⟩ := exists_of_isNone hends'
  obtain ⟨-, -, horder, hother⟩ := run_independent _ slowly SortedMap.empty ⟨none, false, 0⟩ 4 p
    hapart hrun
  have hrecords := hother Nat (overFaults [1] 2) slowly SortedMap.empty ⟨none, false, 0⟩ 4 q
    hapart' rfl rfl hrun' 1 (by decide) 1 (by decide) rfl rfl
  exact ⟨p, hrun, horder [3, 1] (List.Perm.swap 1 3 []), q, hrun', hrecords⟩

end Logbook

end FaultSweep
