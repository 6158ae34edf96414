import FaultSweep.Proofs.Trial.Steps

/-!
# The itinerary of a trial

Which calls a trial makes if nothing fails, and in which phase it makes each, follows from its
settings alone. A trial that is over has gone along this itinerary up to the first call that was not
answered as it had to be, and then it has torn the topology down.
-/

namespace FaultSweep

/-- A call, and the phase in which a trial makes it. -/
structure Errand where
  phase : TrialPhase
  call : Call
  deriving DecidableEq

namespace Trial

/-- The phase in which containers are stopped. -/
def settledPhase (f : TrialFamily) : TrialPhase :=
  if f.waitsForPin then .pinConverged else .uploaded

/-- The containers of the targets are stopped, one target after the other. -/
def stopErrands (s : TrialSettings) (p : TrialParameters) : List Errand :=
  (faultTargets p.faultCount).map fun i =>
    ⟨settledPhase s.family, .stopContainers (s.naming.containersFor i s.family.faultMode)⟩

def measureErrands (s : TrialSettings) (p : TrialParameters) (payload : PayloadSpec) :
    List Errand :=
  match s.family with
  | .reliability =>
    [⟨.faulted, .downloadCount payload.fileCid (some payload.metaCid) p.repairDepth false⟩]
  | .replication => [⟨.faulted, .downloadCount payload.fileCid none 1 false⟩]
  | .singleRepair =>
    [⟨.faulted, .downloadCount payload.fileCid (some payload.metaCid) p.repairDepth true⟩]
  | .collabRepair =>
    [⟨.peersConverged,
        .triggerRepair ⟨payload.fileCid, payload.metaCid, p.repairDepth, "", p.repairPeers⟩⟩,
      ⟨.operationTriggered, .repairDone⟩, ⟨.operationTriggered, .fetchMetrics⟩]

/-- What a trial has to do, from bringing the topology up to the measurement. -/
def errands (s : TrialSettings) (p : TrialParameters) (payload : PayloadSpec) : List Errand :=
  [⟨.idle, .provision ⟨p, s.family.community⟩⟩,
    ⟨.provisioned, .upload payload.path (uploadMode s p)⟩] ++
  (if s.family.waitsForPin then [⟨.uploaded, .pinStatus payload.metaCid⟩] else []) ++
  stopErrands s p ++
  (if s.family.waitsForDiscovery then [⟨.faulted, .countActivePeers⟩] else []) ++
  measureErrands s p payload

/-- The calls of a trial in which nothing fails. -/
def itinerary (s : TrialSettings) (p : TrialParameters) (payload : PayloadSpec) : List Call :=
  (errands s p payload).map Errand.call

end Trial

variable {W α β : Type} {n : Nat}

namespace Leg

/-- What exchanges tell of a leg: that it has done its errands, or which of them ended it. -/
def Tells (n : Nat) (es : List Errand) (m : TrialPhase) (Q : α → List Exchange → Prop)
    (l : Leg W α) (fs : List Exchange) : Prop :=
  match l.result with
  | .ok a => l.phase = m ∧ Goes n (es.map Errand.call) none fs ∧ Q a fs
  | .error i => i = .unfinished ∨ ∃ c, ⟨l.phase, c⟩ ∈ es ∧ Goes n (es.map Errand.call) (some c) fs ∧
    i.status = c.verdict

/-- A leg on a noted bench that is the same as another, and has exchanges that tell of it. -/
def Told (n : Nat) (old : List Exchange) (es : List Errand) (m : TrialPhase)
    (Q : α → List Exchange → Prop) (l' : Leg (Noted W) α) (l : Leg W α) : Prop :=
  ∃ fs, l' = ⟨l.phase, l.result, ⟨l.world, old ++ fs⟩⟩ ∧ l.Tells n es m Q fs

variable {old : List Exchange} {es : List Errand} {m : TrialPhase} {cs : List Call}
  {l' : Leg (Noted W) α} {l : Leg W α} {step' : Step (Noted W) β} {step : Step W β}
  {Q : β → List Exchange → Prop}

theorem Told.reach (h : Told n old es m (fun _ _ => True) l' l)
    (hstep : Notes (Settles n cs Q) step' step) (hQ : ∀ b fs gs, Q b gs → Q b (fs ++ gs))
    (phase : TrialPhase) :
    Told n old (es ++ cs.map (Errand.mk m)) phase Q (l'.reach phase step')
      (l.reach phase step) := by
  obtain ⟨fs, rfl, htells⟩ := h
  have hcalls : (es ++ cs.map (Errand.mk m)).map Errand.call = es.map Errand.call ++ cs := by
    rw [List.map_append, List.map_map]
    exact congrArg _ (List.map_id cs)
  unfold Tells at htells
  unfold Leg.reach
  cases hresult : l.result with
  | error i =>
    rw [hresult] at htells
    refine ⟨fs, rfl, htells.imp_right ?_⟩
    rintro ⟨c, hmem, hgoes, hstatus⟩
    exact ⟨c, List.mem_append_left _ hmem, hcalls ▸ hgoes.append_end cs, hstatus⟩
  | ok a =>
    rw [hresult] at htells
    obtain ⟨rfl, hgoes, -⟩ := htells
    obtain ⟨gs, hact, hgs⟩ := hstep l.world (old ++ fs)
    simp only [hact]
    rcases hlast : step l.world with ⟨i | b, w⟩
    · rw [hlast] at hgs
      refine ⟨fs ++ gs, by simp, hgs.imp_right ?_⟩
      rintro ⟨c, hends, hstatus⟩
      refine ⟨c, List.mem_append_right _ ?_, hcalls ▸ hgoes.append hends, hstatus⟩
      exact List.mem_map.2 ⟨c, hends.mem_end, rfl⟩
    · rw [hlast] at hgs
      exact ⟨fs ++ gs, by simp, rfl, hcalls ▸ hgoes.append hgs.1, hQ _ _ _ hgs.2⟩

theorem stay_eq_reach (h : ∀ a, l.result = .ok a → l.phase = m) (step : Step W β) :
    l.stay step = l.reach m step := by
  unfold stay reach
  split
  · rfl
  · next a hresult => rw [h a hresult]

theorem Told.stay (h : Told n old es m (fun _ _ => True) l' l)
    (hstep : Notes (Settles n cs Q) step' step) (hQ : ∀ b fs gs, Q b gs → Q b (fs ++ gs)) :
    Told n old (es ++ cs.map (Errand.mk m)) m Q (l'.stay step') (l.stay step) := by
  have hphase : ∀ a, l.result = .ok a → l.phase = m ∧ l'.phase = m := by
    obtain ⟨fs, rfl, htells⟩ := h
    intro a hresult
    rw [Tells, hresult] at htells
    exact ⟨htells.1, htells.1⟩
  have hresult : l'.result = l.result := by
    obtain ⟨fs, rfl, -⟩ := h
    rfl
  rw [stay_eq_reach fun a ha => (hphase a ha).1,
    stay_eq_reach fun a ha => (hphase a (hresult ▸ ha)).2]
  exact h.reach hstep hQ m

end Leg

namespace Trial

open Leg

variable {b : Bench W} {s : TrialSettings} {p : TrialParameters} {payload : PayloadSpec}
  {old : List Exchange} {es : List Errand} {l' : Leg (Noted W) Unit} {l : Leg W Unit}

theorem told_settle (fuel : Nat) (h : Told n old es .uploaded (fun _ _ => True) l' l) :
    Told n old
      (es ++ if s.family.waitsForPin then [⟨.uploaded, .pinStatus payload.metaCid⟩] else [])
      (settledPhase s.family) (fun _ _ => True) (settle fuel b.noted s payload l')
      (settle fuel b s payload l) := by
  have hsleep := notes_sleep (n := n) b.clock s.timings.settle
  unfold settle settledPhase
  split_ifs
  · have hpins := h.reach (notes_await rfl (asking_pinStatus b.gateway payload.metaCid) fuel b.clock
      .pins (s.timings.poll s.timings.pinTimeout)) (fun _ _ _ _ => trivial) .pinConverged
    have hsettled := hpins.stay hsleep fun _ _ _ _ => trivial
    rwa [List.map_nil, List.append_nil] at hsettled
  · exact h.stay hsleep fun _ _ _ _ => trivial

/-- The phase in which a trial starts to measure. -/
def noticedPhase (f : TrialFamily) : TrialPhase :=
  if f.waitsForDiscovery then .peersConverged else .faulted

theorem told_disturb (fuel : Nat)
    (h : Told p.survivors old es (settledPhase s.family) (fun _ _ => True) l' l) :
    Told p.survivors old (es ++ stopErrands s p ++
        if s.family.waitsForDiscovery then [⟨.faulted, .countActivePeers⟩] else [])
      (noticedPhase s.family) (fun _ _ => True) (disturb fuel b.noted s p l')
      (disturb fuel b s p l) := by
  have hinject := h.reach (notes_inject b.environment s p) (fun _ _ _ _ => trivial) .faulted
  rw [List.map_map] at hinject
  rw [disturb_eq, disturb_eq]
  unfold noticedPhase
  split_ifs
  · exact hinject.reach (notes_await rfl (asking_peersProbe b.gateway p.survivors) fuel b.clock
      .peers (s.timings.poll s.timings.discoveryTimeout)) (fun _ _ _ _ => trivial) .peersConverged
  · rw [List.append_nil]
    exact hinject

theorem Found.append {a : TrialStatus × Json} {fs gs : List Exchange} (h : Found payload a gs) :
    Found payload a (fs ++ gs) := by
  obtain ⟨x, hx, hmeasured⟩ := h
  exact ⟨x, List.mem_append_right fs hx, hmeasured⟩

theorem told_measure (fuel : Nat)
    (h : Told n old es (noticedPhase s.family) (fun _ _ => True) l' l) :
    Told n old (es ++ measureErrands s p payload) .completed (Found payload)
      (measure fuel b.noted s p payload l') (measure fuel b s p payload l) := by
  unfold measure measureErrands
  cases hf : s.family with
  | reliability =>
    rw [hf] at h
    exact h.reach (notes_countBlocks b.gateway payload _ _) (fun _ _ _ => .append) .completed
  | replication =>
    rw [hf] at h
    exact h.reach (notes_countBlocks b.gateway payload _ _) (fun _ _ _ => .append) .completed
  | singleRepair =>
    rw [hf] at h
    exact h.reach (notes_measureDownload b.gateway payload _) (fun _ _ _ => .append) .completed
  | collabRepair =>
    rw [hf] at h
    have htriggered := h.reach (notes_trigger b.gateway (repairRequest p payload))
      (fun _ _ _ _ => trivial) .operationTriggered
    have hrepaired := htriggered.stay (notes_await rfl (asking_repairDone b.gateway) fuel b.clock
      .repair (s.timings.poll s.timings.repairTimeout)) fun _ _ _ _ => trivial
    have hread := hrepaired.reach (notes_readMetrics b.gateway payload) (fun _ _ _ => .append)
      .completed
    rw [List.append_assoc, List.append_assoc] at hread
    exact hread

theorem told_drive (fuel : Nat) (payload : PayloadSpec) {w' : Noted W} {w : W}
    (h : Told p.survivors old es .provisioned (fun _ _ => True) ⟨.provisioned, .ok (), w'⟩
      ⟨.provisioned, .ok (), w⟩) :
    Told p.survivors old (es ++ [⟨.provisioned, .upload payload.path (uploadMode s p)⟩] ++
        (if s.family.waitsForPin then [⟨.uploaded, .pinStatus payload.metaCid⟩] else []) ++
        stopErrands s p ++
        (if s.family.waitsForDiscovery then [⟨.faulted, .countActivePeers⟩] else []) ++
        measureErrands s p payload)
      .completed (Found payload) (drive fuel b.noted s p payload w')
      (drive fuel b s p payload w) := by
  have huploaded := h.reach (notes_upload b.gateway payload.path (uploadMode s p))
    (fun _ _ _ _ => trivial) .uploaded
  exact told_measure fuel (told_disturb fuel (told_settle fuel huploaded))

/-- A trial on a noted bench is the same trial. It ends with a teardown, and the exchanges before
tell of it. -/
theorem told_perform (fuel : Nat) (b : Bench W) (s : TrialSettings) (p : TrialParameters)
    (payload : PayloadSpec) (w : W) (old : List Exchange) :
    ∃ fs, perform fuel b.noted s p payload ⟨w, old⟩ =
        ⟨(perform fuel b s p payload w).phase, (perform fuel b s p payload w).result,
          ⟨(perform fuel b s p payload w).world, old ++ fs ++ [⟨.teardown, ()⟩]⟩⟩ ∧
      (perform fuel b s p payload w).Tells p.survivors (errands s p payload) .completed
        (Found payload) fs := by
  have hasks : Asks p.survivors (.provision ⟨p, s.family.community⟩) _ _ :=
    .last (b.environment.provision ⟨p, s.family.community⟩ w).1
  obtain ⟨fs, hask, rfl⟩ := Notes.ask (.provision ⟨p, s.family.community⟩)
    (b.environment.provision ⟨p, s.family.community⟩) w old
  have hprovision : b.noted.environment.provision ⟨p, s.family.community⟩ ⟨w, old⟩ = _ := hask
  unfold perform Environment.acquire
  rw [hprovision]
  rcases hreply : b.environment.provision ⟨p, s.family.community⟩ w with ⟨e | _, w₁⟩
  · rw [hreply] at hasks
    exact ⟨_, rfl, .inr ⟨_, List.mem_cons_self, .ends hasks, rfl⟩⟩
  · rw [hreply] at hasks
    have hup : Told p.survivors old [⟨.idle, .provision ⟨p, s.family.community⟩⟩] .provisioned
        (fun _ _ => True) ⟨.provisioned, .ok (), ⟨w₁, old ++ [⟨.provision _, .ok ()⟩]⟩⟩
        (Leg.mk .provisioned (.ok ()) w₁) :=
      ⟨_, rfl, rfl, .single hasks, trivial⟩
    obtain ⟨fs, hdrive, htells⟩ := told_drive (b := b) (s := s) fuel payload hup
    refine ⟨fs, ?_, ?_⟩
    · dsimp only
      rw [hdrive]
      rfl
    · exact htells

/-- Of a leg that ended, but not for want of fuel, there is a record. -/
theorem record?_cases {startedAt finishedAt : Instant} {l : Leg W (TrialStatus × Json)}
    {r : TrialRecord} (h : record? startedAt finishedAt l = some r) :
    (∃ status v, l.result = .ok (status, v) ∧
      r = ⟨status, startedAt, finishedAt, l.phase, v, none⟩) ∨
    ∃ i, i ≠ .unfinished ∧ l.result = .error i ∧
      r = ⟨i.status, startedAt, finishedAt, l.phase, .null, some i.detail⟩ := by
  unfold record? at h
  split at h
  · next status v hresult => exact .inl ⟨status, v, hresult, (Option.some.inj h).symm⟩
  · cases h
  · next i hne hresult => exact .inr ⟨i, hne, hresult, (Option.some.inj h).symm⟩

/-- A run on a noted bench leaves the same record in the same world, and exchanges that tell of the
trial, with a teardown at the end. -/
theorem run_noted {fuel : Nat} {w w' : W} {r : TrialRecord}
    (h : run fuel b s p payload w = (some r, w')) (old : List Exchange) :
    ∃ fs, run fuel b.noted s p payload ⟨w, old⟩ =
        (some r, ⟨w', old ++ fs ++ [⟨.teardown, ()⟩]⟩) ∧
      (perform fuel b s p payload w).Tells p.survivors (errands s p payload) .completed
        (Found payload) fs := by
  obtain ⟨fs, hperform, htells⟩ := told_perform fuel b s p payload w old
  have hrecord : record? (b.stamp w) (b.stamp (perform fuel b s p payload w).world)
      (perform fuel b s p payload w) = some r := congrArg Prod.fst h
  have hworld : (perform fuel b s p payload w).world = w' := congrArg Prod.snd h
  refine ⟨fs, ?_, htells⟩
  rw [run, hperform, ← hrecord, ← hworld]
  rfl

theorem teardown_not_mem_itinerary (s : TrialSettings) (p : TrialParameters)
    (payload : PayloadSpec) : .teardown ∉ itinerary s p payload := by
  cases hf : s.family <;> simp [itinerary, errands, stopErrands, measureErrands, hf,
    TrialFamily.waitsForPin, TrialFamily.waitsForDiscovery]

/-- A trial of any family that is over has made the calls of its itinerary in order, each once, and
a probe again and again until it held or the trial gave up; it has made none after the first that
was not answered as it had to be, and whichever it was, then it has torn the topology down. Noting
the calls makes no difference to it. -/
theorem run_follows_itinerary {fuel : Nat} {w w' : W} {r : TrialRecord}
    (h : run fuel b s p payload w = (some r, w')) :
    ∃ fs end?, run fuel b.noted s p payload ⟨w, []⟩ =
        (some r, ⟨w', fs ++ [⟨.teardown, ()⟩]⟩) ∧
      Goes p.survivors (itinerary s p payload) end? fs ∧ ∀ x ∈ fs, x.call ≠ .teardown := by
  obtain ⟨fs, hrun, htells⟩ := run_noted h []
  have hgoes : ∃ end?, Goes p.survivors (itinerary s p payload) end? fs := by
    rcases record?_cases (congrArg Prod.fst h) with ⟨status, v, hresult, -⟩ | ⟨i, hi, hresult, -⟩
    · rw [Tells, hresult] at htells
      exact ⟨none, htells.2.1⟩
    · rw [Tells, hresult] at htells
      obtain ⟨c, -, hends, -⟩ := htells.resolve_left hi
      exact ⟨some c, hends⟩
  obtain ⟨end?, hgoes⟩ := hgoes
  refine ⟨fs, end?, hrun, hgoes, ?_⟩
  intro x hx hcall
  exact teardown_not_mem_itinerary s p payload (hcall ▸ hgoes.call_mem x hx)

end Trial

namespace Scripts

/-- A cast whose members agree to everything at once, with three peers and seven blocks. -/
def agreeing : Scripts where
  provision := ⟨#[], ⟨0, .ok ()⟩, ⟨0, .ok ()⟩, 0⟩
  stopContainers := ⟨#[], ⟨0, .ok ()⟩, ⟨0, .ok ()⟩, 0⟩
  upload := ⟨#[], ⟨0, .ok ()⟩, ⟨0, .ok ()⟩, 0⟩
  pinStatus := ⟨#[], ⟨0, .ok true⟩, ⟨0, .ok true⟩, 0⟩
  downloadCount := ⟨#[], ⟨0, .ok (.count 7)⟩, ⟨0, .ok (.count 7)⟩, 0⟩
  triggerRepair := ⟨#[], ⟨0, .ok ()⟩, ⟨0, .ok ()⟩, 0⟩
  repairDone := ⟨#[], ⟨0, .ok true⟩, ⟨0, .ok true⟩, 0⟩
  fetchMetrics := ⟨#[], ⟨0, .ok .null⟩, ⟨0, .ok .null⟩, 0⟩
  countActivePeers := ⟨#[], ⟨0, .ok 3⟩, ⟨0, .ok 3⟩, 0⟩

/-- The pins are there at the third probe only. A repair is refused, and it is never done. -/
def refusing : Scripts :=
  { agreeing with
    pinStatus := ⟨#[⟨0, .error (.status 500)⟩, ⟨0, .ok false⟩, ⟨0, .ok true⟩], ⟨0, .ok true⟩,
      ⟨0, .ok true⟩, 0⟩
    triggerRepair := ⟨#[⟨0, .error (.status 500)⟩], ⟨0, .ok ()⟩, ⟨0, .ok ()⟩, 0⟩
    repairDone := ⟨#[⟨0, .ok false⟩], ⟨0, .ok true⟩, ⟨0, .ok true⟩, 0⟩ }

end Scripts

namespace Trial

/-- Settings with short waits. -/
def hasty (f : TrialFamily) : TrialSettings := ⟨f, ⟨0, 3, 9, 0, 9, 3⟩, .standard, .standard⟩

/-- Five nodes, two of them faulty. -/
def fiveNodes : TrialParameters := { TrialParameters.standard with nodeCount := 5, faultCount := 2 }

theorem refused_repair_follows_itinerary :
    ∃ r w' fs end?,
      run 4 (Stage.bench Scripts.cast) (hasty .collabRepair) fiveNodes ⟨"f", "F", "M", none⟩
        (Stage.start .refusing) = (some r, w') ∧
      run 4 (Stage.bench Scripts.cast).noted (hasty .collabRepair) fiveNodes
        ⟨"f", "F", "M", none⟩ ⟨Stage.start .refusing, []⟩ =
          (some r, ⟨w', fs ++ [⟨.teardown, ()⟩]⟩) ∧
      fs.map Exchange.call = [.provision ⟨fiveNodes, true⟩, .upload "f" (.erasure 3 5 5 5),
        .pinStatus "M", .pinStatus "M", .pinStatus "M",
        .stopContainers ["storage0", "overlay0", "cluster0"],
        .stopContainers ["storage2", "overlay2", "cluster2"], .countActivePeers,
        .triggerRepair ⟨"F", "M", 5, "", 3⟩, .repairDone, .repairDone] ∧
      Goes 3 (itinerary (hasty .collabRepair) fiveNodes ⟨"f", "F", "M", none⟩) end? fs := by
  have hcalls : (run 4 (Stage.bench Scripts.cast).noted (hasty .collabRepair) fiveNodes
      ⟨"f", "F", "M", none⟩ ⟨Stage.start .refusing, []⟩).2.exchanges.map Exchange.call =
        [.provision ⟨fiveNodes, true⟩, .upload "f" (.erasure 3 5 5 5),
        .pinStatus "M", .pinStatus "M", .pinStatus "M",
        .stopContainers ["storage0", "overlay0", "cluster0"],
        .stopContainers ["storage2", "overlay2", "cluster2"], .countActivePeers,
        .triggerRepair ⟨"F", "M", 5, "", 3⟩, .repairDone, .repairDone] ++ [.teardown] := by
    decide +kernel
  have hover : (run 4 (Stage.bench Scripts.cast) (hasty .collabRepair) fiveNodes
      ⟨"f", "F", "M", none⟩ (Stage.start .refusing)).1.isSome = true := by
    decide +kernel
  obtain ⟨r, hr⟩ := Option.isSome_iff_exists.1 hover
  obtain ⟨fs, end?, hnoted, hgoes, -⟩ := run_follows_itinerary (Prod.ext hr rfl)
  refine ⟨r, _, fs, end?, Prod.ext hr rfl, hnoted, ?_, hgoes⟩
  rw [hnoted, List.map_append] at hcalls
  exact List.append_cancel_right hcalls

end Trial

end FaultSweep
