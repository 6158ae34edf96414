import Mathlib
import FaultSweep.Grid.Parameters

/-!
# Entries laid over parameters

Parameters give a value to each dimension, and an entry that fits puts its own value in the place of
one of them. So what comes of a list of entries is told by the last entry of each dimension, and the
first entry that does not fit is the one that is complained of.
-/

namespace FaultSweep

/-- A label for the payload size, or a count for another dimension. -/
def Entry.Fits (e : Entry) : Prop := e.1 = .payloadSize ↔ ∃ s, e.2 = .label s

/-- The complaint about an entry that does not fit. -/
inductive WrongKind.Concerns : WrongKind → Entry → Prop
  | count (n : Nat) : Concerns (.countForPayload n) (.payloadSize, .count n)
  | label {d : Dimension} (s : String) (h : d ≠ .payloadSize) :
      Concerns (.labelForCount d s) (d, .label s)

/-- The value that entries give to a dimension: that of the last entry for it. -/
def lastValue? (d : Dimension) (es : List Entry) : Option DimensionValue :=
  ((es.filter fun e => e.1 = d).getLast?).map Prod.snd

theorem lastValue?_cons_self (d : Dimension) (v : DimensionValue) (es : List Entry) :
    lastValue? d ((d, v) :: es) = some ((lastValue? d es).getD v) := by
  simp only [lastValue?, List.filter_cons, decide_true, if_true, List.getLast?_cons,
    Option.map_some]
  cases (es.filter fun e => e.1 = d).getLast? <;> rfl

theorem lastValue?_cons_of_ne {d : Dimension} {e : Entry} (h : e.1 ≠ d) (es : List Entry) :
    lastValue? d (e :: es) = lastValue? d es := by
  simp [lastValue?, h]

theorem WrongKind.Concerns.not_fits {err : WrongKind} {e : Entry} (h : err.Concerns e) :
    ¬e.Fits := by
  cases h with
  | count n => simp [Entry.Fits]
  | label s h => simp [Entry.Fits, h]

/-- An entry that does not fit is complained of in one way. -/
theorem WrongKind.Concerns.unique {err err' : WrongKind} {e : Entry} (h : err.Concerns e)
    (h' : err'.Concerns e) : err = err' := by
  cases h <;> cases h' <;> rfl

/-- Where entries do not all fit, there is a first that does not. -/
theorem exists_first_misfit {es : List Entry} (h : ¬∀ e ∈ es, e.Fits) :
    ∃ us e vs, es = us ++ e :: vs ∧ (∀ u ∈ us, u.Fits) ∧ ¬e.Fits := by
  induction es with
  | nil => exact absurd (List.forall_mem_nil _) h
  | cons e es ih =>
    by_cases he : e.Fits
    · have hrest : ¬∀ e ∈ es, e.Fits := fun hes => h (List.forall_mem_cons.2 ⟨he, hes⟩)
      obtain ⟨us, f, vs, rfl, hus, hf⟩ := ih hrest
      exact ⟨e :: us, f, vs, rfl, List.forall_mem_cons.2 ⟨he, hus⟩, hf⟩
    · exact ⟨[], e, es, rfl, List.forall_mem_nil _, he⟩

namespace TrialParameters

/-- What the parameters give to each dimension. -/
def value (p : TrialParameters) : Dimension → DimensionValue
  | .nodeCount => .count p.nodeCount
  | .faultCount => .count p.faultCount
  | .repairDepth => .count p.repairDepth
  | .repairPeers => .count p.repairPeers
  | .replicationFactor => .count p.replicationFactor
  | .payloadSize => .label p.payloadSize

/-- The six values are all there is to parameters. -/
theorem value_injective : Function.Injective value := by
  intro p q h
  have hnodes := congrFun h .nodeCount
  have hfaults := congrFun h .faultCount
  have hdepth := congrFun h .repairDepth
  have hpeers := congrFun h .repairPeers
  have hfactor := congrFun h .replicationFactor
  have hsize := congrFun h .payloadSize
  cases p
  cases q
  simp_all [value]

variable {p q : TrialParameters} {es fs : List Entry} {e : Entry} {err : WrongKind}

/-- Setting a value puts it in its place and leaves the other five; what does not fit is refused. -/
theorem set_cases (p : TrialParameters) (e : Entry) :
    (e.Fits ∧ ∃ q, p.set e = .ok q ∧ q.value = Function.update p.value e.1 e.2) ∨
      ∃ err : WrongKind, err.Concerns e ∧ p.set e = .error err := by
  obtain ⟨d, v⟩ := e
  cases v with
  | count n =>
    cases d with
    | payloadSize => exact .inr ⟨_, .count n, rfl⟩
    | _ =>
      refine .inl ⟨by simp [Entry.Fits], _, rfl, ?_⟩
      funext d
      cases d <;> rfl
  | label s =>
    cases d with
    | payloadSize =>
      refine .inl ⟨by simp [Entry.Fits], _, rfl, ?_⟩
      funext d
      cases d <;> rfl
    | _ => exact .inr ⟨_, .label s nofun, rfl⟩

theorem set_eq_error_iff : p.set e = .error err ↔ err.Concerns e := by
  rcases p.set_cases e with ⟨hfits, q, hq, -⟩ | ⟨err', hconcerns, herr⟩
  · constructor
    · intro h
      rw [hq] at h
      cases h
    · exact fun h => absurd hfits h.not_fits
  · constructor
    · intro h
      rw [herr] at h
      cases h
      exact hconcerns
    · exact fun h => herr.trans (congrArg _ (hconcerns.unique h))

theorem set_of_fits (p : TrialParameters) (h : e.Fits) :
    ∃ q, p.set e = .ok q ∧ q.value = Function.update p.value e.1 e.2 := by
  rcases p.set_cases e with ⟨-, hset⟩ | ⟨err, hconcerns, -⟩
  · exact hset
  · exact absurd h hconcerns.not_fits

/-- Entries that fit can be laid over any parameters, and the last of a dimension counts. -/
theorem overlay_of_fits (p : TrialParameters) (h : ∀ e ∈ es, e.Fits) :
    ∃ q, p.overlay es = .ok q ∧ ∀ d, q.value d = (lastValue? d es).getD (p.value d) := by
  induction es generalizing p with
  | nil => exact ⟨p, rfl, fun d => rfl⟩
  | cons e es ih =>
    obtain ⟨he, hes⟩ := List.forall_mem_cons.1 h
    obtain ⟨q, hset, hvalue⟩ := p.set_of_fits he
    obtain ⟨r, hoverlay, hr⟩ := ih q hes
    refine ⟨r, by simpa only [overlay, hset] using hoverlay, fun d => ?_⟩
    obtain ⟨c, v⟩ := e
    rw [hr d, hvalue]
    rcases eq_or_ne c d with rfl | hne
    · rw [Function.update_self, lastValue?_cons_self, Option.getD_some]
    · rw [Function.update_of_ne hne.symm, lastValue?_cons_of_ne hne]

/-- What comes behind the first entry that does not fit is not looked at. -/
theorem overlay_of_misfit (p : TrialParameters) {us vs : List Entry} (hus : ∀ u ∈ us, u.Fits)
    (he : err.Concerns e) : p.overlay (us ++ e :: vs) = .error err := by
  induction us generalizing p with
  | nil =>
    have hset : p.set e = .error err := set_eq_error_iff.2 he
    simp only [List.nil_append, overlay, hset]
  | cons u us ih =>
    obtain ⟨hu, hus⟩ := List.forall_mem_cons.1 hus
    obtain ⟨q, hset, -⟩ := p.set_of_fits hu
    simpa only [List.cons_append, overlay, hset] using ih q hus

/-- Every list of entries is of the one or of the other sort. -/
theorem overlay_cases (p : TrialParameters) (es : List Entry) :
    ((∀ e ∈ es, e.Fits) ∧
        ∃ q, p.overlay es = .ok q ∧ ∀ d, q.value d = (lastValue? d es).getD (p.value d)) ∨
      ∃ us e vs err, es = us ++ e :: vs ∧ (∀ u ∈ us, u.Fits) ∧ WrongKind.Concerns err e ∧
        p.overlay es = .error err := by
  by_cases h : ∀ e ∈ es, e.Fits
  · exact .inl ⟨h, p.overlay_of_fits h⟩
  · obtain ⟨us, e, vs, rfl, hus, he⟩ := exists_first_misfit h
    rcases p.set_cases e with ⟨hfits, -⟩ | ⟨err, hconcerns, -⟩
    · exact absurd hfits he
    · exact .inr ⟨us, e, vs, err, rfl, hus, hconcerns, p.overlay_of_misfit hus hconcerns⟩

theorem overlay_eq_ok_iff :
    p.overlay es = .ok q ↔
      (∀ e ∈ es, e.Fits) ∧ ∀ d, q.value d = (lastValue? d es).getD (p.value d) := by
  constructor
  · intro h
    rcases p.overlay_cases es with ⟨hfits, r, hr, hvalue⟩ | ⟨-, -, -, err, -, -, -, herr⟩
    · rw [hr] at h
      cases h
      exact ⟨hfits, hvalue⟩
    · rw [herr] at h
      cases h
  · rintro ⟨hfits, hvalue⟩
    obtain ⟨r, hr, hr'⟩ := p.overlay_of_fits hfits
    have hsame : r = q := value_injective (funext fun d => (hr' d).trans (hvalue d).symm)
    rw [hr, hsame]

theorem overlay_eq_error_iff :
    p.overlay es = .error err ↔
      ∃ us e vs, es = us ++ e :: vs ∧ (∀ u ∈ us, Entry.Fits u) ∧ err.Concerns e := by
  constructor
  · intro h
    rcases p.overlay_cases es with ⟨-, q, hq, -⟩ | ⟨us, e, vs, err', hes, hus, he, herr⟩
    · rw [hq] at h
      cases h
    · rw [herr] at h
      cases h
      exact ⟨us, e, vs, hes, hus, he⟩
  · rintro ⟨us, e, vs, rfl, hus, he⟩
    exact p.overlay_of_misfit hus he

/-- Entries may change places if those of one dimension keep their order. -/
theorem overlay_reordered (p : TrialParameters)
    (h : ∀ d, fs.filter (fun e => e.1 = d) = es.filter fun e => e.1 = d) :
    (p.overlay fs).toOption = (p.overlay es).toOption := by
  have hmem : ∀ e : Entry, e ∈ fs ↔ e ∈ es := by
    intro e
    have he : e ∈ fs.filter (fun x => x.1 = e.1) ↔ e ∈ es.filter fun x => x.1 = e.1 := by
      rw [h e.1]
    simpa using he
  have hok : ∀ q, p.overlay fs = .ok q ↔ p.overlay es = .ok q := by
    intro q
    simp only [overlay_eq_ok_iff, hmem, lastValue?, h]
  cases hes : p.overlay es with
  | ok q => rw [(hok q).2 hes]
  | error err =>
    cases hfs : p.overlay fs with
    | ok q =>
      rw [(hok q).1 hfs] at hes
      cases hes
    | error err' => rfl

/-- Where no dimension is given twice, there is one entry of each at most. -/
theorem filter_of_perm (hperm : fs.Perm es) (hnodup : (es.map Prod.fst).Nodup) (d : Dimension) :
    fs.filter (fun e => e.1 = d) = es.filter fun e => e.1 = d := by
  have hone : (es.filter fun e => e.1 = d).length ≤ 1 := by
    have hsame : (es.filter fun e => e.1 = d).map Prod.fst =
        List.replicate (es.filter fun e => e.1 = d).length d := by
      rw [List.map_eq_replicate_iff]
      intro e he
      simpa using (List.mem_filter.1 he).2
    rw [← List.nodup_replicate (a := d), ← hsame]
    exact hnodup.sublist (List.filter_sublist.map _)
  have hfilter := hperm.filter fun e => e.1 = d
  rcases Nat.le_one_iff_eq_zero_or_eq_one.1 hone with hzero | hone
  · rw [List.length_eq_zero_iff.1 hzero] at hfilter ⊢
    exact List.perm_nil.1 hfilter
  · obtain ⟨e, he⟩ := List.length_eq_one_iff.1 hone
    rw [he] at hfilter ⊢
    exact List.perm_singleton.1 hfilter

/-! ### Setting in place -/

/-- A value is set in parameters that are there, or the entry is refused. -/
def assign : Entry → ExceptT WrongKind (StateM TrialParameters) Unit
  | (.payloadSize, .label s) => modify fun p => { p with payloadSize := s }
  | (.payloadSize, .count n) => throw (.countForPayload n)
  | (d, .label s) => throw (.labelForCount d s)
  | (.nodeCount, .count n) => modify fun p => { p with nodeCount := n }
  | (.faultCount, .count n) => modify fun p => { p with faultCount := n }
  | (.repairDepth, .count n) => modify fun p => { p with repairDepth := n }
  | (.repairPeers, .count n) => modify fun p => { p with repairPeers := n }
  | (.replicationFactor, .count n) => modify fun p => { p with replicationFactor := n }

/-- The answer to setting a value, and the parameters that are there afterwards. -/
def assigned (p : TrialParameters) (e : Entry) : Except WrongKind Unit × TrialParameters :=
  (assign e).run.run p

/-- Setting in place leaves the parameters with the value set, or as they were. -/
theorem assigned_eq (p : TrialParameters) (e : Entry) :
    p.assigned e = match p.set e with
      | .ok q => (.ok (), q)
      | .error err => (.error err, p) := by
  obtain ⟨d, v⟩ := e
  cases d <;> cases v <;> rfl

/-- The parameters of a key. They are found exactly if every entry fits, and then each of the six is
what the last entry of its dimension says, or the default where no entry does; the order of entries
is of no account as long as no dimension is given twice. Else the complaint is about the first entry
that does not fit. And to set in place what does not fit leaves all six as they were. -/
theorem resolved_by_last_entries (p : TrialParameters) (es : List Entry) :
    ((∃ q, p.resolve ⟨es⟩ = .ok q) ↔ ∀ e ∈ es, e.Fits) ∧
      (∀ q, p.resolve ⟨es⟩ = .ok q → ∀ d, q.value d = (lastValue? d es).getD (p.value d)) ∧
      ((es.map Prod.fst).Nodup → ∀ fs, fs.Perm es →
        (p.resolve ⟨fs⟩).toOption = (p.resolve ⟨es⟩).toOption) ∧
      (∀ err, p.resolve ⟨es⟩ = .error err ↔
        ∃ us e vs, es = us ++ e :: vs ∧ (∀ u ∈ us, Entry.Fits u) ∧ err.Concerns e) ∧
      ∀ e err q, p.assigned e = (.error err, q) ↔ err.Concerns e ∧ q = p := by
  refine ⟨⟨?_, ?_⟩, fun q hq => (overlay_eq_ok_iff.1 hq).2, ?_, fun err => overlay_eq_error_iff, ?_⟩
  · rintro ⟨q, hq⟩
    exact (overlay_eq_ok_iff.1 hq).1
  · intro hfits
    obtain ⟨q, hq, -⟩ := p.overlay_of_fits hfits
    exact ⟨q, hq⟩
  · intro hnodup fs hperm
    exact p.overlay_reordered (filter_of_perm hperm hnodup)
  · intro e err q
    rw [assigned_eq, ← set_eq_error_iff (p := p)]
    cases p.set e with
    | ok r => simp
    | error err' => simp [eq_comm]

/-- Of two numbers of nodes the later counts, and what is not named keeps its default. -/
theorem later_node_count_resolved : ∃ q,
    standard.resolve ⟨[(.nodeCount, .count 20), (.payloadSize, .label "5MB"),
      (.nodeCount, .count 7)]⟩ = .ok q ∧
    q.value .nodeCount = .count 7 ∧ q.value .payloadSize = .label "5MB" ∧
    q.value .repairDepth = .count 5 := by
  obtain ⟨hfound, hvalues, -⟩ := resolved_by_last_entries standard
    [(.nodeCount, .count 20), (.payloadSize, .label "5MB"), (.nodeCount, .count 7)]
  obtain ⟨q, hq⟩ := hfound.2 (by simp [Entry.Fits])
  exact ⟨q, hq, hvalues q hq _, hvalues q hq _, hvalues q hq _⟩

end TrialParameters

end FaultSweep
