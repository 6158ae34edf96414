import FaultSweep.Proofs.Trial.Steps

/-!
# What a trial keeps

A trial touches its world through its bench only. So whatever every operation of the bench keeps is
kept by the whole trial, in whichever order it makes its calls and however they are answered.
-/

namespace FaultSweep

variable {W α β : Type} {I : W → Prop}

/-- An act that keeps a property of the world. -/
def Keeping (I : W → Prop) (act : W → α × W) : Prop := ∀ w, I w → I (act w).2

theorem Keeping.of_world {act : W → α × W} {act' : W → β × W} (h : Keeping I act)
    (hworld : ∀ w, (act' w).2 = (act w).2) : Keeping I act' := by
  intro w hw
  rw [hworld]
  exact h w hw

/-- A bench none of whose operations breaks a property of the world. -/
structure Bench.Keeps (b : Bench W) (I : W → Prop) : Prop where
  provision : ∀ spec, Keeping I (b.environment.provision spec)
  teardown : ∀ w, I w → I (b.environment.teardown w)
  stopContainers : ∀ names, Keeping I (b.environment.stopContainers names)
  upload : ∀ path mode, Keeping I (b.gateway.upload path mode)
  pinStatus : ∀ cid, Keeping I (b.gateway.pinStatus cid)
  downloadCount : ∀ file description depth withMetrics,
    Keeping I (b.gateway.downloadCount file description depth withMetrics)
  triggerRepair : ∀ request, Keeping I (b.gateway.triggerRepair request)
  repairDone : Keeping I b.gateway.repairDone
  fetchMetrics : Keeping I b.gateway.fetchMetrics
  countActivePeers : Keeping I b.gateway.countActivePeers
  sleep : ∀ d w, I w → I (b.clock.sleep d w)

theorem Leg.keeping_reach {l : Leg W α} {step : Step W β} (h : I l.world) (hstep : Keeping I step)
    (phase : TrialPhase) : I (l.reach phase step).world := by
  have hworld := hstep l.world h
  unfold Leg.reach
  split
  · exact h
  · split
    · next hfail => rwa [hfail] at hworld
    · next hok => rwa [hok] at hworld

namespace Trial

theorem keeping_orElse {ε : Type} {act : W → Except ε α × W} (h : Keeping I act)
    (cause : ε → Interruption) : Keeping I (orElse cause act) :=
  h.of_world fun w => by rw [orElse_apply]

theorem keeping_pollFrom {clock : Clock W} (hclock : ∀ d w, I w → I (clock.sleep d w))
    {probe : Probe W} (h : Keeping I probe) (spec : PollSpec) (start fuel : Nat) (probes : UInt32) :
    Keeping I (pollFrom clock spec probe start fuel probes) := by
  induction fuel generalizing probes with
  | zero => exact fun _ hw => hw
  | succ fuel ih =>
    intro w hw
    have hprobe := h w hw
    rw [pollFrom]
    dsimp only
    split_ifs
    · exact hprobe
    · exact hprobe
    · exact ih (probes + 1) _ (hclock _ _ hprobe)

theorem keeping_await {clock : Clock W} (hclock : ∀ d w, I w → I (clock.sleep d w))
    {probe : Probe W} (h : Keeping I probe) (fuel : Nat) (wait : Wait) (spec : PollSpec) :
    Keeping I (await fuel clock wait spec probe) := by
  have hpoll : Keeping I (awaitCondition fuel clock spec probe) :=
    fun w hw => keeping_pollFrom hclock h spec _ fuel 0 w hw
  exact hpoll.of_world fun w => by rw [await_apply]

variable {b : Bench W}

theorem keeping_stopNodes (hb : b.Keeps I) (naming : NodeNaming) (mode : FaultMode)
    (is : List Nat) : Keeping I (b.environment.stopNodes naming mode is) := by
  induction is with
  | nil => exact fun _ hw => hw
  | cons i is ih =>
    intro w hw
    have hstop := hb.stopContainers (naming.containersFor i mode) w hw
    rw [Environment.stopNodes]
    split
    · next hfail => rwa [hfail] at hstop
    · next hok =>
      rw [hok] at hstop
      exact ih _ hstop

theorem keeping_inject (hb : b.Keeps I) (s : TrialSettings) (p : TrialParameters) :
    Keeping I (inject b.environment s p) := by
  rw [inject_eq]
  exact keeping_orElse (keeping_stopNodes hb _ _ _) _

theorem keeping_peersProbe (hb : b.Keeps I) (expected : Nat) :
    Keeping I (peersProbe b.gateway expected) :=
  hb.countActivePeers.of_world fun w => by rw [peersProbe_apply]

theorem keeping_countBlocks (hb : b.Keeps I) (payload : PayloadSpec) (description : Option String)
    (depth : Nat) : Keeping I (countBlocks b.gateway payload description depth) :=
  (hb.downloadCount payload.fileCid description depth false).of_world fun w => by
    rw [countBlocks_apply]

theorem keeping_measureDownload (hb : b.Keeps I) (payload : PayloadSpec) (depth : Nat) :
    Keeping I (measureDownload b.gateway payload depth) :=
  (hb.downloadCount payload.fileCid (some payload.metaCid) depth true).of_world fun w => by
    rw [measureDownload_apply]

theorem keeping_readMetrics (hb : b.Keeps I) : Keeping I (readMetrics b.gateway) :=
  hb.fetchMetrics.of_world fun w => by rw [readMetrics_apply]

theorem keeping_acquire (hb : b.Keeps I) (spec : TopologySpec) :
    Keeping I (b.environment.acquire spec) := by
  intro w hw
  have hprovision := hb.provision spec w hw
  unfold Environment.acquire
  split
  · next hfail =>
    rw [hfail] at hprovision
    exact hb.teardown _ hprovision
  · next hok => rwa [hok] at hprovision

variable {s : TrialSettings} {p : TrialParameters} {payload : PayloadSpec} {l : Leg W Unit}

theorem keeping_settle (hb : b.Keeps I) (fuel : Nat) (h : I l.world) :
    I (settle fuel b s payload l).world := by
  have hsleep : Keeping I (sleep b.clock s.timings.settle) := fun w hw => hb.sleep _ w hw
  unfold settle
  split_ifs
  · exact Leg.keeping_reach (Leg.keeping_reach h
      (keeping_await hb.sleep (hb.pinStatus payload.metaCid) fuel .pins _) _) hsleep _
  · exact Leg.keeping_reach h hsleep _

theorem keeping_disturb (hb : b.Keeps I) (fuel : Nat) (h : I l.world) :
    I (disturb fuel b s p l).world := by
  have hfaulted := Leg.keeping_reach h (keeping_inject hb s p) .faulted
  rw [disturb_eq]
  split_ifs
  · exact Leg.keeping_reach hfaulted
      (keeping_await hb.sleep (keeping_peersProbe hb p.survivors) fuel .peers _) _
  · exact hfaulted

theorem keeping_measure (hb : b.Keeps I) (fuel : Nat) (h : I l.world) :
    I (measure fuel b s p payload l).world := by
  unfold measure
  split
  · exact Leg.keeping_reach h (keeping_countBlocks hb payload _ _) _
  · exact Leg.keeping_reach h (keeping_countBlocks hb payload _ _) _
  · exact Leg.keeping_reach h (keeping_measureDownload hb payload _) _
  · have htrigger : Keeping I (trigger b.gateway (repairRequest p payload)) :=
      (hb.triggerRepair _).of_world fun _ => rfl
    have hdone := keeping_await hb.sleep hb.repairDone fuel .repair
      (s.timings.poll s.timings.repairTimeout)
    have htriggered := Leg.keeping_reach h htrigger .operationTriggered
    exact Leg.keeping_reach (Leg.keeping_reach htriggered hdone _) (keeping_readMetrics hb) _

theorem keeping_drive (hb : b.Keeps I) (fuel : Nat) {w : W} (h : I w) :
    I (drive fuel b s p payload w).world := by
  have hupload := keeping_orElse (hb.upload payload.path (uploadMode s p)) .upload
  have huploaded := Leg.keeping_reach (l := Leg.mk .provisioned (.ok ()) w) h hupload .uploaded
  exact keeping_measure hb fuel (keeping_disturb hb fuel (keeping_settle hb fuel huploaded))

theorem keeping_perform (hb : b.Keeps I) (fuel : Nat) {w : W} (h : I w) :
    I (perform fuel b s p payload w).world := by
  have hacquire := keeping_acquire hb ⟨p, s.family.community⟩ w h
  unfold perform
  split
  · next hfail => rwa [hfail] at hacquire
  · next hok =>
    rw [hok] at hacquire
    exact hb.teardown _ (keeping_drive hb fuel hacquire)

/-- What a bench keeps is kept by every trial on it. -/
theorem keeping_run (hb : b.Keeps I) (fuel : Nat) (s : TrialSettings) (p : TrialParameters)
    (payload : PayloadSpec) : Keeping I (run fuel b s p payload) :=
  fun _ hw => keeping_perform hb fuel hw

end Trial

end FaultSweep
