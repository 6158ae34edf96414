import FaultSweep.Proofs.Trial.Itinerary

/-!
# Records tell the truth

A record is made of a phase that is moved along between steps that may fail, and of the result of
the last of these. What they say together is checked here against the exchanges of the trial: which
call ended it, if one did, and what was measured.
-/

namespace FaultSweep

variable {n : Nat}

theorem NodeNaming.containersFor_injective (naming : NodeNaming) (mode : FaultMode) {i j : Nat}
    (h : naming.containersFor i mode = naming.containersFor j mode) : i = j := by
  have hstorage : naming.storage ++ Decimal.text i = naming.storage ++ Decimal.text j := by
    cases mode <;> exact (List.cons.inj h).1
  have hdigits : Decimal.digits i = Decimal.digits j := by
    simpa [Decimal.text] using congrArg String.toList hstorage
  exact Decimal.digits_injective hdigits

/-- What a family measures with. -/
def Call.isMeasure : Call → Bool
  | .downloadCount .. => true
  | .fetchMetrics => true
  | _ => false

theorem isProbe_of_isMeasure {c : Call} (h : c.isMeasure = true) : c.isProbe = false := by
  cases c <;> first | rfl | cases h

/-- What is measured was told by a call that measures. -/
theorem measured?_cases {payload : PayloadSpec} {x : Exchange} {a : TrialStatus × Json}
    (h : x.measured? payload = some a) :
    (∃ file description depth r, x = ⟨.downloadCount file description depth true, .ok r⟩ ∧
      a = (.success, r.toJson)) ∨
    (∃ file description depth r, x = ⟨.downloadCount file description depth false, .ok r⟩ ∧
      a = (Trial.countStatus payload r, r.toJson)) ∨
    ∃ v, x = ⟨.fetchMetrics, .ok v⟩ ∧ a = (.success, v) := by
  unfold Exchange.measured? at h
  split at h
  · exact .inl ⟨_, _, _, _, rfl, (Option.some.inj h).symm⟩
  · exact .inr (.inl ⟨_, _, _, _, rfl, (Option.some.inj h).symm⟩)
  · exact .inr (.inr ⟨_, rfl, (Option.some.inj h).symm⟩)
  · cases h

theorem isMeasure_of_measured? {payload : PayloadSpec} {x : Exchange} {a : TrialStatus × Json}
    (h : x.measured? payload = some a) : x.call.isMeasure = true := by
  rcases measured?_cases h with ⟨_, _, _, _, rfl, -⟩ | ⟨_, _, _, _, rfl, -⟩ | ⟨_, rfl, -⟩ <;> rfl

namespace Trial

theorem countStatus_eq_shortfall {payload : PayloadSpec} {r : Recovery} :
    countStatus payload r = .shortfall ↔
      ∃ blocks total, r = .count blocks ∧ payload.totalBlocks = some total ∧ blocks < total := by
  cases r with
  | count blocks => cases htotal : payload.totalBlocks <;> simp [countStatus, htotal]
  | metrics v => simp [countStatus]

theorem isRecordable_countStatus (payload : PayloadSpec) (r : Recovery) :
    (countStatus payload r).isRecordable = true := by
  unfold countStatus
  split
  · split
    · split_ifs <;> rfl
    · rfl
  · rfl

end Trial

theorem isRecordable_of_measured? {payload : PayloadSpec} {x : Exchange} {status : TrialStatus}
    {v : Json} (h : x.measured? payload = some (status, v)) : status.isRecordable = true := by
  rcases measured?_cases h with ⟨_, _, _, _, -, ha⟩ | ⟨_, _, _, r, -, ha⟩ | ⟨_, -, ha⟩
  · cases ha
    rfl
  · cases ha
    exact Trial.isRecordable_countStatus payload r
  · cases ha
    rfl

/-- Its place in the order of milestones. -/
def TrialPhase.rank : TrialPhase → Nat
  | idle => 0
  | provisioned => 1
  | uploaded => 2
  | pinConverged => 3
  | faulted => 4
  | peersConverged => 5
  | operationTriggered => 6
  | completed => 7

namespace Trial

variable {s : TrialSettings} {p : TrialParameters} {payload : PayloadSpec}

theorem nodup_itinerary (s : TrialSettings) (p : TrialParameters) (payload : PayloadSpec) :
    (itinerary s p payload).Nodup := by
  have hstops : ∀ mode, ((faultTargets p.faultCount).map fun i =>
      Call.stopContainers (s.naming.containersFor i mode)).Nodup := by
    intro mode
    refine (nodup_faultTargets _).map ?_
    intro i j hij
    exact s.naming.containersFor_injective mode (Call.stopContainers.inj hij)
  cases hf : s.family <;>
    simp [itinerary, errands, stopErrands, measureErrands, hf, TrialFamily.waitsForPin,
      TrialFamily.waitsForDiscovery, List.nodup_append, Function.comp_def, hstops]

/-- The calls that are due in a phase. -/
def Due (s : TrialSettings) (p : TrialParameters) (payload : PayloadSpec) (c : Call) :
    TrialPhase → Prop
  | .idle => c = .provision ⟨p, s.family.community⟩
  | .provisioned => c = .upload payload.path (uploadMode s p)
  | .uploaded => if s.family = .replication then ⟨.uploaded, c⟩ ∈ stopErrands s p
    else c = .pinStatus payload.metaCid
  | .pinConverged => s.family ≠ .replication ∧ ⟨.pinConverged, c⟩ ∈ stopErrands s p
  | .faulted => if s.family = .collabRepair then c = .countActivePeers
    else ⟨.faulted, c⟩ ∈ measureErrands s p payload
  | .peersConverged => s.family = .collabRepair ∧
    c = .triggerRepair ⟨payload.fileCid, payload.metaCid, p.repairDepth, "", p.repairPeers⟩
  | .operationTriggered => s.family = .collabRepair ∧ (c = .repairDone ∨ c = .fetchMetrics)
  | .completed => False

theorem mem_errands {m : TrialPhase} {c : Call} :
    ⟨m, c⟩ ∈ errands s p payload ↔ Due s p payload c m := by
  cases hf : s.family <;> cases m <;>
    simp [errands, Due, stopErrands, measureErrands, settledPhase, hf, TrialFamily.waitsForPin,
      TrialFamily.waitsForDiscovery]

/-- Nothing is due when all is done. -/
theorem phase_ne_completed {m : TrialPhase} {c : Call} (h : ⟨m, c⟩ ∈ errands s p payload) :
    m ≠ .completed := by
  rintro rfl
  exact mem_errands.1 h

/-- An errand is told by its call. -/
theorem eq_of_mem_errands {e f : Errand} (he : e ∈ errands s p payload)
    (hf : f ∈ errands s p payload) (h : e.call = f.call) : e = f :=
  List.inj_on_of_nodup_map (nodup_itinerary s p payload) he hf h

/-- Whether a call that is due in a phase is a probe, if the phase tells. -/
def probesIn (f : TrialFamily) : TrialPhase → Bool
  | .uploaded => f ≠ .replication
  | .faulted => f = .collabRepair
  | _ => false

theorem isProbe_of_stop {m : TrialPhase} {c : Call} (h : ⟨m, c⟩ ∈ stopErrands s p) :
    c.isProbe = false := by
  obtain ⟨i, -, he⟩ := List.mem_map.1 h
  obtain rfl : Call.stopContainers _ = c := congrArg Errand.call he
  rfl

theorem isProbe_of_measure {c : Call} (h : ⟨.faulted, c⟩ ∈ measureErrands s p payload) :
    c.isProbe = false := by
  unfold measureErrands at h
  split at h <;> simp at h <;> rw [h] <;> rfl

theorem isProbe_of_due {c : Call} {m : TrialPhase} (h : Due s p payload c m)
    (hm : m ≠ .operationTriggered) : c.isProbe = probesIn s.family m := by
  cases m with
  | idle =>
    obtain rfl := h
    rfl
  | provisioned =>
    obtain rfl := h
    rfl
  | uploaded =>
    by_cases hf : s.family = .replication
    · rw [Due, if_pos hf] at h
      simp [isProbe_of_stop h, probesIn, hf]
    · rw [Due, if_neg hf] at h
      simp [h, Call.isProbe, probesIn, hf]
  | pinConverged => exact isProbe_of_stop h.2
  | faulted =>
    by_cases hf : s.family = .collabRepair
    · rw [Due, if_pos hf] at h
      simp [h, Call.isProbe, probesIn, hf]
    · rw [Due, if_neg hf] at h
      simp [isProbe_of_measure h, probesIn, hf]
  | peersConverged =>
    obtain ⟨-, rfl⟩ := h
    rfl
  | operationTriggered => exact absurd rfl hm
  | completed => exact h.elim

/-- The milestones are passed in order. -/
theorem sorted_errands (s : TrialSettings) (p : TrialParameters) (payload : PayloadSpec) :
    (errands s p payload).Pairwise (·.phase.rank ≤ ·.phase.rank) := by
  have hranks : ((errands s p payload).map (·.phase.rank)).Pairwise (· ≤ ·) := by
    cases hf : s.family <;>
      simp [errands, stopErrands, measureErrands, settledPhase, hf, TrialFamily.waitsForPin,
        TrialFamily.waitsForDiscovery, TrialPhase.rank, List.pairwise_append, Function.comp_def,
        or_imp, forall_and]
  exact List.pairwise_map.1 hranks

/-- A trial measures last. -/
theorem getLast?_itinerary {c : Call} (h : c ∈ itinerary s p payload) (hc : c.isMeasure = true) :
    (itinerary s p payload).getLast? = some c := by
  cases hf : s.family <;>
    simp [itinerary, errands, stopErrands, measureErrands, hf, TrialFamily.waitsForPin,
      TrialFamily.waitsForDiscovery] at h ⊢ <;> grind [Call.isMeasure]

theorem counts_of_mem_itinerary {file : String} {description : Option String} {depth : Nat}
    (h : .downloadCount file description depth false ∈ itinerary s p payload) :
    s.family = .reliability ∨ s.family = .replication := by
  cases hf : s.family <;>
    simp [itinerary, errands, stopErrands, measureErrands, hf, TrialFamily.waitsForPin,
      TrialFamily.waitsForDiscovery] at h ⊢

/-- How a trial that left a record ended: with a measurement, or with a call that was not answered
as it had to be. -/
inductive Ending (n : Nat) (es : List Errand) (payload : PayloadSpec) (fs : List Exchange)
    (r : TrialRecord) : Prop where
  | measured : r.phase = .completed → r.detail = none → Goes n (es.map Errand.call) none fs →
      Found payload (r.status, r.metrics) fs → Ending n es payload fs r
  | interrupted (c : Call) : ⟨r.phase, c⟩ ∈ es → Goes n (es.map Errand.call) (some c) fs →
      r.status = c.verdict → r.metrics = .null → r.detail.isSome = true → Ending n es payload fs r

theorem Ending.of_tells {W : Type} {es : List Errand} {startedAt finishedAt : Instant}
    {l : Leg W (TrialStatus × Json)} {fs : List Exchange} {r : TrialRecord}
    (h : l.Tells n es .completed (Found payload) fs)
    (hr : record? startedAt finishedAt l = some r) : Ending n es payload fs r := by
  rcases record?_cases hr with ⟨status, v, hresult, rfl⟩ | ⟨i, hi, hresult, rfl⟩
  · rw [Leg.Tells, hresult] at h
    obtain ⟨hphase, hgoes, hfound⟩ := h
    exact .measured hphase rfl hgoes hfound
  · rw [Leg.Tells, hresult] at h
    obtain ⟨c, hmem, hgoes, hstatus⟩ := h.resolve_left hi
    exact .interrupted c hmem hgoes hstatus rfl rfl

namespace Ending

variable {fs : List Exchange} {r : TrialRecord}

theorem completed_iff (h : Ending n (errands s p payload) payload fs r) :
    r.phase = .completed ↔ ∀ c ∈ itinerary s p payload, Met n fs c := by
  cases h with
  | measured hphase _ hgoes _ => exact iff_of_true hphase hgoes.met
  | interrupted c hmem hgoes =>
    refine iff_of_false (phase_ne_completed hmem) ?_
    intro hmet
    have hunmet := (hgoes.unmet_iff (d := c) (nodup_itinerary s p payload)).2 rfl
    exact (hmet c hgoes.mem_end).not_unmet hunmet

/-- The phase is the one in which the call was due that was not answered as it had to be. -/
theorem phase_iff (h : Ending n (errands s p payload) payload fs r) {m : TrialPhase}
    (hm : m ≠ .completed) : r.phase = m ↔ ∃ c, Due s p payload c m ∧ Unmet n fs c := by
  cases h with
  | measured hphase _ hgoes _ =>
    refine iff_of_false (hphase ▸ hm.symm) ?_
    rintro ⟨c, -, hunmet⟩
    exact hgoes.not_unmet c hunmet
  | interrupted c hmem hgoes =>
    have hunmet : ∀ d, Unmet n fs d ↔ d = c :=
      fun d => hgoes.unmet_iff (nodup_itinerary s p payload)
    constructor
    · rintro rfl
      exact ⟨c, mem_errands.1 hmem, (hunmet c).2 rfl⟩
    · rintro ⟨d, hdue, hd⟩
      obtain rfl := (hunmet d).1 hd
      exact congrArg Errand.phase (eq_of_mem_errands hmem (mem_errands.2 hdue) rfl)

theorem status_of_unmet (h : Ending n (errands s p payload) payload fs r) {c : Call}
    (hc : Unmet n fs c) : r.status = c.verdict := by
  cases h with
  | measured _ _ hgoes _ => exact absurd hc (hgoes.not_unmet c)
  | interrupted d _ hgoes hstatus =>
    rw [hstatus, (hgoes.unmet_iff (nodup_itinerary s p payload)).1 hc]

/-- What was due before the phase of the record was done, and what is due after it was not begun. -/
theorem errands_done (h : Ending n (errands s p payload) payload fs r) :
    ∀ e ∈ errands s p payload,
      (e.phase.rank < r.phase.rank → Met n fs e.call) ∧
      (r.phase.rank < e.phase.rank → ∀ x ∈ fs, x.call ≠ e.call) := by
  intro e he
  cases h with
  | measured hphase _ hgoes _ =>
    refine ⟨fun _ => hgoes.met _ (List.mem_map_of_mem he), ?_⟩
    intro hrank
    rw [hphase] at hrank
    cases hm : e.phase <;> simp [hm, TrialPhase.rank] at hrank
  | interrupted c hmem hgoes =>
    obtain ⟨ds, cs, hcalls, hmet, hlater⟩ := hgoes.split (nodup_itinerary s p payload)
    obtain ⟨before, rest, hsplit, rfl, hrest⟩ := List.map_eq_append_iff.1 hcalls
    obtain ⟨f, after, rfl, hcall, rfl⟩ := List.map_eq_cons_iff.1 hrest
    obtain rfl : f = ⟨r.phase, c⟩ := eq_of_mem_errands (by simp [hsplit]) hmem hcall
    have hsorted := sorted_errands s p payload
    rw [hsplit, List.pairwise_append, List.pairwise_cons] at hsorted
    obtain ⟨-, ⟨hafter, -⟩, hbefore⟩ := hsorted
    rw [hsplit, List.mem_append, List.mem_cons] at he
    rcases he with he | rfl | he
    · refine ⟨fun _ => hmet _ (List.mem_map_of_mem he), fun hrank => ?_⟩
      exact absurd hrank (Nat.not_lt.2 (hbefore e he _ List.mem_cons_self))
    · exact ⟨fun hrank => absurd hrank (lt_irrefl _), fun hrank => absurd hrank (lt_irrefl _)⟩
    · refine ⟨fun hrank => ?_, fun _ => hlater _ (List.mem_map_of_mem he)⟩
      exact absurd hrank (Nat.not_lt.2 (hafter e he))

theorem recordable_iff (h : Ending n (errands s p payload) payload fs r) :
    r.status.isRecordable = true ↔ r.phase = .completed := by
  cases h with
  | measured hphase _ _ hfound =>
    obtain ⟨x, -, hmeasured⟩ := hfound
    exact iff_of_true (isRecordable_of_measured? hmeasured) hphase
  | interrupted c hmem _ hstatus =>
    refine iff_of_false ?_ (phase_ne_completed hmem)
    rw [hstatus, Call.verdict]
    split_ifs <;> decide

/-- A measuring call that was answered well is what the record tells of. -/
theorem measured_of_mem (h : Ending n (errands s p payload) payload fs r) {x : Exchange}
    (hx : x ∈ fs) (hcall : x.call.isMeasure = true) (hsuits : x.suits n = true) :
    x.measured? payload = some (r.status, r.metrics) := by
  have hnodup := nodup_itinerary s p payload
  cases h with
  | measured _ _ hgoes hfound =>
    obtain ⟨y, hy, hmeasured⟩ := hfound
    have hlast := getLast?_itinerary (hgoes.call_mem x hx) hcall
    have hlast' := getLast?_itinerary (hgoes.call_mem y hy) (isMeasure_of_measured? hmeasured)
    have hcalls : x.call = y.call := Option.some.inj (hlast.symm.trans hlast')
    rwa [hgoes.eq_of_call_eq hnodup hx hy (isProbe_of_isMeasure hcall) hcalls]
  | interrupted c _ hgoes =>
    have hlast := getLast?_itinerary (hgoes.call_mem x hx) hcall
    cases hgoes.eq_none_of_met hnodup hlast ⟨x, hx, rfl, hsuits⟩

/-- The record tells of fewer blocks than there are, exactly if a family that counts blocks was told
of fewer. -/
theorem shortfall_iff (h : Ending n (errands s p payload) payload fs r) :
    r.status = .shortfall ↔ (s.family = .reliability ∨ s.family = .replication) ∧
      ∃ file description depth blocks total,
        ⟨.downloadCount file description depth false, .ok (.count blocks)⟩ ∈ fs ∧
        payload.totalBlocks = some total ∧ blocks < total := by
  constructor
  · intro hstatus
    cases h with
    | measured _ _ hgoes hfound =>
      obtain ⟨x, hx, hmeasured⟩ := hfound
      have hcall := hgoes.call_mem x hx
      rcases measured?_cases hmeasured with ⟨_, _, _, _, -, ha⟩ | ⟨_, _, _, r', rfl, ha⟩ |
        ⟨_, -, ha⟩
      · exact absurd (hstatus.symm.trans (Prod.mk.inj ha).1) (by decide)
      · obtain ⟨blocks, total, rfl, htotal, hless⟩ :=
          countStatus_eq_shortfall.1 ((Prod.mk.inj ha).1.symm.trans hstatus)
        exact ⟨counts_of_mem_itinerary hcall, _, _, _, blocks, total, hx, htotal, hless⟩
      · exact absurd (hstatus.symm.trans (Prod.mk.inj ha).1) (by decide)
    | interrupted c _ _ hverdict =>
      rw [hverdict, Call.verdict] at hstatus
      split_ifs at hstatus
  · rintro ⟨hf, file, description, depth, blocks, total, hx, htotal, hless⟩
    have hmeasured := h.measured_of_mem hx rfl rfl
    have hcount : countStatus payload (.count blocks) = r.status :=
      (Prod.mk.inj (Option.some.inj hmeasured)).1
    rw [← hcount]
    simp [countStatus, htotal, hless]

end Ending

/-- The call that stops the containers of a node. -/
def stopCall (s : TrialSettings) (i : Nat) : Call :=
  .stopContainers (s.naming.containersFor i s.family.faultMode)

/-- What a record says of a trial is so, by the exchanges the trial had. -/
structure Truthful (s : TrialSettings) (p : TrialParameters) (payload : PayloadSpec)
    (fs : List Exchange) (r : TrialRecord) : Prop where
  /-- A trial is completed if all its steps succeeded and all its waits converged. -/
  completed : r.phase = .completed ↔ ∀ c ∈ itinerary s p payload, Met p.survivors fs c
  recordable : r.status.isRecordable = true ↔ r.phase = .completed
  detail : r.detail = none ↔ r.phase = .completed
  metrics : if r.phase = .completed then Found payload (r.status, r.metrics) fs
    else r.metrics = .null
  /-- The phase is the last milestone: what is due before is done, what is due later not begun. -/
  milestones : ∀ e ∈ errands s p payload,
    (e.phase.rank < r.phase.rank → Met p.survivors fs e.call) ∧
    (r.phase.rank < e.phase.rank → ∀ x ∈ fs, x.call ≠ e.call)
  idle : r.phase = .idle ↔ Unmet p.survivors fs (.provision ⟨p, s.family.community⟩)
  provisioned : r.phase = .provisioned ↔
    Unmet p.survivors fs (.upload payload.path (uploadMode s p))
  uploaded : r.phase = .uploaded ↔ if s.family = .replication
    then ∃ i ∈ faultTargets p.faultCount, Unmet p.survivors fs (stopCall s i)
    else Unmet p.survivors fs (.pinStatus payload.metaCid)
  pinConverged : r.phase = .pinConverged ↔ s.family ≠ .replication ∧
    ∃ i ∈ faultTargets p.faultCount, Unmet p.survivors fs (stopCall s i)
  faulted : r.phase = .faulted ↔ if s.family = .collabRepair
    then Unmet p.survivors fs .countActivePeers
    else ∃ file description depth withMetrics,
      Unmet p.survivors fs (.downloadCount file description depth withMetrics)
  peersConverged : r.phase ≠ .peersConverged
  operationTriggered : r.phase = .operationTriggered ↔ s.family = .collabRepair ∧
    (Unmet p.survivors fs .repairDone ∨ Unmet p.survivors fs .fetchMetrics)
  failed : r.phase = .idle ∨ r.phase = .provisioned ∨ r.phase = .pinConverged → r.status = .failed
  pins : r.phase = .uploaded → r.status = if s.family = .replication then .failed else .timedOut
  peers : r.phase = .faulted → r.status = if s.family = .collabRepair then .timedOut else .failed
  repair : r.phase = .operationTriggered →
    (r.status = .timedOut ↔ Unmet p.survivors fs .repairDone) ∧
    (r.status = .failed ↔ Unmet p.survivors fs .fetchMetrics)
  shortfall : r.status = .shortfall ↔ (s.family = .reliability ∨ s.family = .replication) ∧
    ∃ file description depth blocks total,
      ⟨.downloadCount file description depth false, .ok (.count blocks)⟩ ∈ fs ∧
      payload.totalBlocks = some total ∧ blocks < total

namespace Ending

variable {fs : List Exchange} {r : TrialRecord}

theorem detail_iff (h : Ending n (errands s p payload) payload fs r) :
    r.detail = none ↔ r.phase = .completed := by
  cases h with
  | measured hphase hdetail => exact iff_of_true hdetail hphase
  | interrupted c hmem _ _ _ hdetail =>
    refine iff_of_false ?_ (phase_ne_completed hmem)
    intro hnone
    simp [hnone] at hdetail

theorem metrics_eq (h : Ending n (errands s p payload) payload fs r) :
    if r.phase = .completed then Found payload (r.status, r.metrics) fs
    else r.metrics = .null := by
  cases h with
  | measured hphase _ _ hfound => rwa [if_pos hphase]
  | interrupted c hmem _ _ hmetrics =>
    rw [if_neg (phase_ne_completed hmem)]
    exact hmetrics

theorem due_of_unmet (h : Ending n (errands s p payload) payload fs r) {c : Call}
    (hc : Unmet n fs c) : Due s p payload c r.phase := by
  cases h with
  | measured _ _ hgoes _ => exact absurd hc (hgoes.not_unmet c)
  | interrupted d hmem hgoes =>
    rw [(hgoes.unmet_iff (nodup_itinerary s p payload)).1 hc]
    exact mem_errands.1 hmem

theorem faulted_iff (h : Ending n (errands s p payload) payload fs r) :
    r.phase = .faulted ↔ if s.family = .collabRepair then Unmet n fs .countActivePeers
      else ∃ file description depth withMetrics,
        Unmet n fs (.downloadCount file description depth withMetrics) := by
  split_ifs with hf
  · rw [h.phase_iff (by decide)]
    simp [Due, hf]
  · constructor
    · intro hphase
      obtain ⟨c, hdue, hunmet⟩ := (h.phase_iff (by decide)).1 hphase
      rw [Due, if_neg hf, measureErrands] at hdue
      split at hdue
      · cases List.mem_singleton.1 hdue
        exact ⟨_, _, _, _, hunmet⟩
      · cases List.mem_singleton.1 hdue
        exact ⟨_, _, _, _, hunmet⟩
      · cases List.mem_singleton.1 hdue
        exact ⟨_, _, _, _, hunmet⟩
      · contradiction
    · rintro ⟨file, description, depth, withMetrics, hunmet⟩
      have hdue := h.due_of_unmet hunmet
      cases hphase : r.phase <;>
        simp [hphase, Due, stopErrands] at hdue ⊢

/-- A trial does not end where it asks for a repair. -/
theorem phase_ne_peersConverged (h : Ending n (errands s p payload) payload fs r) :
    r.phase ≠ .peersConverged := by
  intro hphase
  obtain ⟨c, ⟨-, rfl⟩, ⟨x, hx, hcall⟩, hrefused⟩ := (h.phase_iff (by decide)).1 hphase
  have hsuits := hrefused x hx hcall
  obtain ⟨c, a⟩ := x
  cases hcall
  cases hsuits

theorem operationTriggered_iff (h : Ending n (errands s p payload) payload fs r) :
    r.phase = .operationTriggered ↔ s.family = .collabRepair ∧
      (Unmet n fs .repairDone ∨ Unmet n fs .fetchMetrics) := by
  rw [h.phase_iff (by decide)]
  constructor
  · rintro ⟨c, ⟨hf, rfl | rfl⟩, hunmet⟩
    · exact ⟨hf, .inl hunmet⟩
    · exact ⟨hf, .inr hunmet⟩
  · rintro ⟨hf, hunmet | hunmet⟩
    · exact ⟨_, ⟨hf, .inl rfl⟩, hunmet⟩
    · exact ⟨_, ⟨hf, .inr rfl⟩, hunmet⟩

/-- Phase and family fix the status of a trial that was interrupted, but for the last wait. -/
theorem status_of_phase (h : Ending n (errands s p payload) payload fs r)
    (hr : r.phase ≠ .completed) (hr' : r.phase ≠ .operationTriggered) :
    r.status = if probesIn s.family r.phase then .timedOut else .failed := by
  obtain ⟨c, hdue, hunmet⟩ := (h.phase_iff hr).1 rfl
  rw [h.status_of_unmet hunmet, Call.verdict, isProbe_of_due hdue hr']

theorem repair_status (h : Ending n (errands s p payload) payload fs r)
    (hphase : r.phase = .operationTriggered) :
    (r.status = .timedOut ↔ Unmet n fs .repairDone) ∧
      (r.status = .failed ↔ Unmet n fs .fetchMetrics) := by
  have hdone : Unmet n fs .repairDone → r.status = .timedOut := h.status_of_unmet
  have hfetched : Unmet n fs .fetchMetrics → r.status = .failed := h.status_of_unmet
  rcases (h.operationTriggered_iff.1 hphase).2 with hunmet | hunmet
  · have hstatus := hdone hunmet
    refine ⟨iff_of_true hstatus hunmet, ?_, hfetched⟩
    intro hfailed
    exact absurd (hstatus.symm.trans hfailed) (by decide)
  · have hstatus := hfetched hunmet
    refine ⟨⟨?_, hdone⟩, iff_of_true hstatus hunmet⟩
    intro hover
    exact absurd (hstatus.symm.trans hover) (by decide)

theorem truthful (h : Ending p.survivors (errands s p payload) payload fs r) :
    Truthful s p payload fs r where
  completed := h.completed_iff
  recordable := h.recordable_iff
  detail := h.detail_iff
  metrics := h.metrics_eq
  milestones := h.errands_done
  idle := by simp [h.phase_iff, Due]
  provisioned := by simp [h.phase_iff, Due]
  uploaded := by
    by_cases hf : s.family = .replication <;>
      simp [h.phase_iff, Due, hf, stopErrands, settledPhase, stopCall, TrialFamily.waitsForPin]
  pinConverged := by
    by_cases hf : s.family = .replication <;>
      simp [h.phase_iff, Due, hf, stopErrands, settledPhase, stopCall, TrialFamily.waitsForPin]
  faulted := h.faulted_iff
  peersConverged := h.phase_ne_peersConverged
  operationTriggered := h.operationTriggered_iff
  failed := by
    intro hphase
    rw [h.status_of_phase (by rintro hr; simp [hr] at hphase) (by rintro hr; simp [hr] at hphase)]
    rcases hphase with hphase | hphase | hphase <;> simp [hphase, probesIn]
  pins := by
    intro hphase
    rw [h.status_of_phase (by simp [hphase]) (by simp [hphase])]
    by_cases hf : s.family = .replication <;> simp [hphase, probesIn, hf]
  peers := by
    intro hphase
    rw [h.status_of_phase (by simp [hphase]) (by simp [hphase])]
    by_cases hf : s.family = .collabRepair <;> simp [hphase, probesIn, hf]
  repair := h.repair_status
  shortfall := h.shortfall_iff

end Ending

/-- Whoever answers the calls, the record of a trial that is over says truly how far it came, how it
ended and what it measured. -/
theorem record_truthful {W : Type} {b : Bench W} {fuel : Nat} {w w' : W} {r : TrialRecord}
    (h : run fuel b s p payload w = (some r, w')) :
    ∃ fs, run fuel b.noted s p payload ⟨w, []⟩ = (some r, ⟨w', fs ++ [⟨.teardown, ()⟩]⟩) ∧
      Truthful s p payload fs r := by
  obtain ⟨fs, hrun, htells⟩ := run_noted h []
  exact ⟨fs, hrun, (Ending.of_tells htells (congrArg Prod.fst h)).truthful⟩

/-- Two blocks too few are found, and a repair is never done. -/
theorem short_and_unrepaired_truthful :
    (∃ r w' fs,
      run 1 (Stage.bench Scripts.cast) (hasty .reliability) fiveNodes ⟨"f", "F", "M", some 9⟩
        (Stage.start .agreeing) = (some r, w') ∧
      (r.status, r.phase) = (.shortfall, .completed) ∧
      Truthful (hasty .reliability) fiveNodes ⟨"f", "F", "M", some 9⟩ fs r) ∧
    ∃ r w' fs,
      run 4 (Stage.bench Scripts.cast) (hasty .collabRepair) fiveNodes ⟨"f", "F", "M", none⟩
        (Stage.start .refusing) = (some r, w') ∧
      (r.status, r.phase) = (.timedOut, .operationTriggered) ∧
      Truthful (hasty .collabRepair) fiveNodes ⟨"f", "F", "M", none⟩ fs r := by
  constructor
  · have heval : (run 1 (Stage.bench Scripts.cast) (hasty .reliability) fiveNodes
        ⟨"f", "F", "M", some 9⟩ (Stage.start .agreeing)).1.map (fun r => (r.status, r.phase)) =
          some (.shortfall, .completed) := by
      decide +kernel
    obtain ⟨r, hr, hends⟩ := Option.map_eq_some_iff.1 heval
    obtain ⟨fs, -, htruth⟩ := record_truthful (Prod.ext hr rfl)
    exact ⟨r, _, fs, Prod.ext hr rfl, hends, htruth⟩
  · have heval : (run 4 (Stage.bench Scripts.cast) (hasty .collabRepair) fiveNodes
        ⟨"f", "F", "M", none⟩ (Stage.start .refusing)).1.map (fun r => (r.status, r.phase)) =
          some (.timedOut, .operationTriggered) := by
      decide +kernel
    obtain ⟨r, hr, hends⟩ := Option.map_eq_some_iff.1 heval
    obtain ⟨fs, -, htruth⟩ := record_truthful (Prod.ext hr rfl)
    exact ⟨r, _, fs, Prod.ext hr rfl, hends, htruth⟩

end Trial

end FaultSweep
