import FaultSweep.Proofs.Trial.Steps

/-!
# Trials on richer worlds

A world may carry more than a trial can see, such as an account of what the trial used. If each
operation of a bench on such worlds does to the visible part what an operation of another bench
does, then a trial on the one is a trial on the other.
-/

namespace FaultSweep

variable {V W α β : Type} {f : V → W}

/-- An act that does to the visible part of a world what another act does. -/
def Covers (f : V → W) (act' : V → α × V) (act : W → α × W) : Prop :=
  ∀ v, act (f v) = ((act' v).1, f (act' v).2)

theorem Covers.map {act' : V → α × V} {act : W → α × W} (h : Covers f act' act) (g : α → β)
    {step' : V → β × V} {step : W → β × W} (hstep' : ∀ v, step' v = (g (act' v).1, (act' v).2))
    (hstep : ∀ w, step w = (g (act w).1, (act w).2)) : Covers f step' step := by
  intro v
  rw [hstep, hstep', h v]

/-- A bench each of whose operations covers that of another bench. -/
structure Bench.Covers (f : V → W) (b' : Bench V) (b : Bench W) : Prop where
  provision : ∀ spec, FaultSweep.Covers f (b'.environment.provision spec)
    (b.environment.provision spec)
  teardown : ∀ v, b.environment.teardown (f v) = f (b'.environment.teardown v)
  stopContainers : ∀ names, FaultSweep.Covers f (b'.environment.stopContainers names)
    (b.environment.stopContainers names)
  upload : ∀ path mode, FaultSweep.Covers f (b'.gateway.upload path mode)
    (b.gateway.upload path mode)
  pinStatus : ∀ cid, FaultSweep.Covers f (b'.gateway.pinStatus cid) (b.gateway.pinStatus cid)
  downloadCount : ∀ file description depth withMetrics,
    FaultSweep.Covers f (b'.gateway.downloadCount file description depth withMetrics)
      (b.gateway.downloadCount file description depth withMetrics)
  triggerRepair : ∀ request, FaultSweep.Covers f (b'.gateway.triggerRepair request)
    (b.gateway.triggerRepair request)
  repairDone : FaultSweep.Covers f b'.gateway.repairDone b.gateway.repairDone
  fetchMetrics : FaultSweep.Covers f b'.gateway.fetchMetrics b.gateway.fetchMetrics
  countActivePeers : FaultSweep.Covers f b'.gateway.countActivePeers b.gateway.countActivePeers
  now : ∀ v, b.clock.now (f v) = b'.clock.now v
  sleep : ∀ d v, b.clock.sleep d (f v) = f (b'.clock.sleep d v)
  stamp : ∀ v, b.stamp (f v) = b'.stamp v

/-- The visible part of a leg. -/
def Leg.seen (f : V → W) (l : Leg V α) : Leg W α := ⟨l.phase, l.result, f l.world⟩

theorem Leg.seen_reach {l : Leg V α} {step' : Step V β} {step : Step W β}
    (h : Covers f step' step) (phase : TrialPhase) :
    (l.seen f).reach phase step = (l.reach phase step').seen f := by
  have hstep := h l.world
  unfold reach seen
  cases hresult : l.result with
  | error i => rfl
  | ok a =>
    rcases hact : step' l.world with ⟨_ | _, v⟩
    · simp_all
    · simp_all

namespace Trial

variable {b' : Bench V} {b : Bench W}

theorem covers_orElse {ε : Type} {act' : V → Except ε α × V} {act : W → Except ε α × W}
    (h : Covers f act' act) (cause : ε → Interruption) :
    Covers f (orElse cause act') (orElse cause act) :=
  h.map (Except.mapError cause) (orElse_apply _ _) (orElse_apply _ _)

theorem covers_pollFrom (hb : b'.Covers f b) {probe' : Probe V} {probe : Probe W}
    (h : Covers f probe' probe) (spec : PollSpec) (start fuel : Nat) (probes : UInt32) :
    Covers f (pollFrom b'.clock spec probe' start fuel probes)
      (pollFrom b.clock spec probe start fuel probes) := by
  induction fuel generalizing probes with
  | zero => exact fun _ => rfl
  | succ fuel ih =>
    intro v
    simp only [pollFrom, h v, hb.now]
    split_ifs
    · rfl
    · rfl
    · rw [hb.sleep]
      exact ih (probes + 1) _

theorem covers_await (hb : b'.Covers f b) {probe' : Probe V} {probe : Probe W}
    (h : Covers f probe' probe) (fuel : Nat) (wait : Wait) (spec : PollSpec) :
    Covers f (await fuel b'.clock wait spec probe') (await fuel b.clock wait spec probe) := by
  have hpoll : Covers f (awaitCondition fuel b'.clock spec probe')
      (awaitCondition fuel b.clock spec probe) := by
    intro v
    rw [awaitCondition, hb.now]
    exact covers_pollFrom hb h spec _ fuel 0 v
  exact hpoll.map (waited wait) (await_apply _ _ _ _ _) (await_apply _ _ _ _ _)

theorem covers_stopNodes (hb : b'.Covers f b) (naming : NodeNaming) (mode : FaultMode)
    (is : List Nat) :
    Covers f (b'.environment.stopNodes naming mode is) (b.environment.stopNodes naming mode is) := by
  induction is with
  | nil => exact fun _ => rfl
  | cons i is ih =>
    intro v
    rw [Environment.stopNodes, Environment.stopNodes, hb.stopContainers _ v]
    rcases b'.environment.stopContainers (naming.containersFor i mode) v with ⟨_ | _, v'⟩
    · rfl
    · exact ih v'

theorem covers_inject (hb : b'.Covers f b) (s : TrialSettings) (p : TrialParameters) :
    Covers f (inject b'.environment s p) (inject b.environment s p) := by
  rw [inject_eq, inject_eq]
  exact covers_orElse (covers_stopNodes hb _ _ _) _

theorem covers_peersProbe (hb : b'.Covers f b) (expected : Nat) :
    Covers f (peersProbe b'.gateway expected) (peersProbe b.gateway expected) :=
  hb.countActivePeers.map (Except.map (decide <| · = expected)) (peersProbe_apply _ _)
    (peersProbe_apply _ _)

theorem covers_countBlocks (hb : b'.Covers f b) (payload : PayloadSpec)
    (description : Option String) (depth : Nat) :
    Covers f (countBlocks b'.gateway payload description depth)
      (countBlocks b.gateway payload description depth) :=
  (hb.downloadCount _ _ _ _).map
    (fun a => (Except.map (fun r => (countStatus payload r, r.toJson)) a).mapError .count)
    (countBlocks_apply _ _ _ _) (countBlocks_apply _ _ _ _)

theorem covers_measureDownload (hb : b'.Covers f b) (payload : PayloadSpec) (depth : Nat) :
    Covers f (measureDownload b'.gateway payload depth) (measureDownload b.gateway payload depth) :=
  (hb.downloadCount _ _ _ _).map
    (fun a => (Except.map (fun r : Recovery => (.success, r.toJson)) a).mapError .download)
    (measureDownload_apply _ _ _) (measureDownload_apply _ _ _)

theorem covers_readMetrics (hb : b'.Covers f b) :
    Covers f (readMetrics b'.gateway) (readMetrics b.gateway) :=
  hb.fetchMetrics.map (fun a => (Except.map (fun v => (.success, v)) a).mapError .metrics)
    (readMetrics_apply _) (readMetrics_apply _)

theorem covers_trigger (hb : b'.Covers f b) (request : RepairRequest) :
    Covers f (trigger b'.gateway request) (trigger b.gateway request) :=
  (hb.triggerRepair request).map (fun _ => .ok ()) (fun _ => rfl) fun _ => rfl

theorem covers_sleep (hb : b'.Covers f b) (secs : Nat) :
    Covers f (sleep b'.clock secs) (sleep b.clock secs) := by
  intro v
  rw [sleep, hb.sleep]
  rfl

variable {s : TrialSettings} {p : TrialParameters} {payload : PayloadSpec}

theorem seen_settle (hb : b'.Covers f b) (fuel : Nat) (l : Leg V Unit) :
    settle fuel b s payload (l.seen f) = (settle fuel b' s payload l).seen f := by
  have hpins := covers_await hb (hb.pinStatus payload.metaCid) fuel .pins
    (s.timings.poll s.timings.pinTimeout)
  have hsleep := covers_sleep hb s.timings.settle
  unfold settle Leg.stay
  split_ifs
  · rw [Leg.seen_reach hpins]
    exact Leg.seen_reach hsleep _
  · exact Leg.seen_reach hsleep _

theorem seen_disturb (hb : b'.Covers f b) (fuel : Nat) (l : Leg V Unit) :
    disturb fuel b s p (l.seen f) = (disturb fuel b' s p l).seen f := by
  rw [disturb_eq, disturb_eq, Leg.seen_reach (covers_inject hb s p)]
  split_ifs
  · exact Leg.seen_reach (covers_await hb (covers_peersProbe hb p.survivors) fuel .peers _) _
  · rfl

theorem seen_measure (hb : b'.Covers f b) (fuel : Nat) (l : Leg V Unit) :
    measure fuel b s p payload (l.seen f) = (measure fuel b' s p payload l).seen f := by
  unfold measure Leg.stay
  split
  · exact Leg.seen_reach (covers_countBlocks hb payload _ _) _
  · exact Leg.seen_reach (covers_countBlocks hb payload _ _) _
  · exact Leg.seen_reach (covers_measureDownload hb payload _) _
  · rw [Leg.seen_reach (covers_trigger hb _)]
    have hdone := covers_await hb hb.repairDone fuel .repair
      (s.timings.poll s.timings.repairTimeout)
    exact (congrArg (fun l => Leg.reach l .completed (readMetrics b.gateway))
      (Leg.seen_reach hdone _)).trans (Leg.seen_reach (covers_readMetrics hb) _)

theorem seen_drive (hb : b'.Covers f b) (fuel : Nat) (v : V) :
    drive fuel b s p payload (f v) = (drive fuel b' s p payload v).seen f := by
  have hupload := covers_orElse (hb.upload payload.path (uploadMode s p)) .upload
  have huploaded := Leg.seen_reach (l := Leg.mk .provisioned (.ok ()) v) hupload .uploaded
  unfold drive
  dsimp only
  rw [show (Leg.mk .provisioned (.ok ()) (f v)).reach .uploaded _ = _ from huploaded,
    seen_settle hb, seen_disturb hb, seen_measure hb]

theorem seen_perform (hb : b'.Covers f b) (fuel : Nat) (v : V) :
    perform fuel b s p payload (f v) = (perform fuel b' s p payload v).seen f := by
  unfold perform Environment.acquire
  rw [hb.provision _ v]
  rcases b'.environment.provision ⟨p, s.family.community⟩ v with ⟨_ | _, v'⟩
  · exact congrArg (Leg.mk _ _) (hb.teardown v')
  · dsimp only
    rw [seen_drive hb]
    exact congrArg (Leg.mk _ _) (hb.teardown _)

/-- A trial on the richer world leaves the same record, and the same visible world. -/
theorem covers_run (hb : b'.Covers f b) (fuel : Nat) (s : TrialSettings) (p : TrialParameters)
    (payload : PayloadSpec) : Covers f (run fuel b' s p payload) (run fuel b s p payload) := by
  intro v
  unfold run
  rw [seen_perform hb]
  dsimp only [Leg.seen]
  rw [hb.stamp, hb.stamp]
  rfl

end Trial

end FaultSweep
