import FaultSweep.Proofs.Faults
import FaultSweep.Rehearsal.Stage

/-!
# What a trial stops

A trial stops containers in one of its steps only, when it injects the faults. A trial that has gone
past this step has stopped the containers of all targets and no others, whoever answers its calls.
-/

namespace FaultSweep

/-- The containers that a call is to stop. -/
def Call.stops : Call → List String
  | .stopContainers names => names
  | _ => []

/-- Reached only when the faults have been injected. -/
def TrialPhase.pastFaults : TrialPhase → Bool
  | .faulted => true
  | .peersConverged => true
  | .operationTriggered => true
  | .completed => true
  | _ => false

variable {τ α β : Type}

namespace Stage

/-- The containers that were stopped so far, in order. -/
def stopped (s : Stage τ) : List String := s.calls.flatMap fun c => c.2.stops

theorem stopped_note (s : Stage τ) (c : Call) : (s.note c).stopped = s.stopped ++ c.stops := by
  simp [stopped, calls, note]

theorem stopped_ask (c : Call) (answer : τ → Timed α × τ) (s : Stage τ) :
    (ask c answer s).2.stopped = s.stopped ++ c.stops := stopped_note s c

theorem stopped_sleep (d : Nat) (s : Stage τ) : (clockOf.sleep d s).stopped = s.stopped := rfl

theorem stopped_teardown (cast : Cast τ) (s : Stage τ) :
    ((environment cast).teardown s).stopped = s.stopped := by
  rw [show (environment cast).teardown s = s.note .teardown from rfl, stopped_note]
  exact List.append_nil _

/-- The containers of a list of nodes are stopped, one node after the other. -/
theorem stopped_stopNodes {cast : Cast τ} {naming : NodeNaming} {mode : FaultMode} {is : List Nat}
    {s s' : Stage τ} (h : (environment cast).stopNodes naming mode is s = (.ok (), s')) :
    s'.stopped = s.stopped ++ naming.containersOf mode is := by
  induction is generalizing s with
  | nil =>
    cases h
    simp [NodeNaming.containersOf]
  | cons i is ih =>
    rw [Environment.stopNodes] at h
    split at h
    · cases h
    · next s₁ hstop =>
      have hfirst : s₁.stopped = s.stopped ++ naming.containersFor i mode := by
        have hask := stopped_ask (.stopContainers (naming.containersFor i mode))
          (cast.stopContainers (naming.containersFor i mode)) s
        rwa [show ask _ _ s = _ from hstop] at hask
      rw [ih h, hfirst, List.append_assoc]
      rfl

/-- An act after which no more containers are stopped than before. -/
def Harmless (act : Stage τ → α × Stage τ) : Prop := ∀ s, (act s).2.stopped = s.stopped

theorem harmless_ask {c : Call} (hc : c.stops = []) (answer : τ → Timed α × τ) :
    Harmless (ask c answer) := by
  intro s
  rw [stopped_ask, hc, List.append_nil]

theorem Harmless.of_world {act : Stage τ → α × Stage τ} {act' : Stage τ → β × Stage τ}
    (h : Harmless act) (hworld : ∀ s, (act' s).2 = (act s).2) : Harmless act' := by
  intro s
  rw [hworld, h]

theorem harmless_acquire (cast : Cast τ) (spec : TopologySpec) :
    Harmless ((environment cast).acquire spec) := by
  intro s
  have hask : Harmless ((environment cast).provision spec) := harmless_ask rfl _
  have hprovision := hask s
  unfold Environment.acquire
  rcases hreply : (environment cast).provision spec s with ⟨_ | _, s'⟩
  · rw [hreply] at hprovision
    exact (stopped_teardown cast s').trans hprovision
  · rw [hreply] at hprovision
    exact hprovision

theorem harmless_pollFrom {probe : Probe (Stage τ)} (h : Harmless probe) (spec : PollSpec)
    (start fuel : Nat) (probes : UInt32) :
    Harmless (pollFrom clockOf spec probe start fuel probes) := by
  induction fuel generalizing probes with
  | zero => exact fun _ => rfl
  | succ fuel ih =>
    intro s
    rcases hreply : probe s with ⟨reply, s'⟩
    have hprobe : s'.stopped = s.stopped := by simpa only [hreply] using h s
    rw [pollFrom, hreply]
    dsimp only
    split_ifs
    · exact hprobe
    · exact hprobe
    · exact (ih (probes + 1) _).trans ((stopped_sleep _ _).trans hprobe)

end Stage

namespace Trial

open Stage

theorem harmless_orElse {ε : Type} {act : Stage τ → Except ε α × Stage τ} (h : Harmless act)
    (cause : ε → Interruption) : Harmless (orElse cause act) := by
  refine h.of_world fun s => ?_
  unfold orElse
  rcases act s with ⟨_ | _, s'⟩ <;> rfl

theorem harmless_sleep (secs : Nat) : Harmless (sleep (clockOf (τ := τ)) secs) :=
  fun s => stopped_sleep (seconds secs) s

theorem harmless_await {probe : Probe (Stage τ)} (h : Harmless probe) (fuel : Nat) (wait : Wait)
    (spec : PollSpec) : Harmless (await fuel clockOf wait spec probe) := by
  have hpoll : Harmless (awaitCondition fuel clockOf spec probe) :=
    fun s => harmless_pollFrom h spec _ fuel 0 s
  refine hpoll.of_world fun s => ?_
  unfold await
  rcases awaitCondition fuel clockOf spec probe s with ⟨_ | _ | _, s'⟩ <;> rfl

theorem harmless_peersProbe (cast : Cast τ) (expected : Nat) :
    Harmless (peersProbe (gateway cast) expected) := by
  have hask : Harmless (gateway cast).countActivePeers := harmless_ask rfl _
  refine hask.of_world fun s => ?_
  unfold peersProbe
  rcases (gateway cast).countActivePeers s with ⟨_ | _, s'⟩ <;> rfl

theorem harmless_countBlocks (cast : Cast τ) (payload : PayloadSpec) (description : Option String)
    (depth : Nat) : Harmless (countBlocks (gateway cast) payload description depth) := by
  have hask : Harmless ((gateway cast).downloadCount payload.fileCid description depth false) :=
    harmless_ask rfl _
  refine hask.of_world fun s => ?_
  unfold countBlocks
  rcases (gateway cast).downloadCount payload.fileCid description depth false s with
    ⟨_ | _, s'⟩ <;> rfl

theorem harmless_measureDownload (cast : Cast τ) (payload : PayloadSpec) (depth : Nat) :
    Harmless (measureDownload (gateway cast) payload depth) := by
  have hask : Harmless
      ((gateway cast).downloadCount payload.fileCid (some payload.metaCid) depth true) :=
    harmless_ask rfl _
  refine hask.of_world fun s => ?_
  unfold measureDownload
  rcases (gateway cast).downloadCount payload.fileCid (some payload.metaCid) depth true s with
    ⟨_ | _, s'⟩ <;> rfl

theorem harmless_trigger (cast : Cast τ) (request : RepairRequest) :
    Harmless (trigger (gateway cast) request) := by
  have hask : Harmless ((gateway cast).triggerRepair request) := harmless_ask rfl _
  exact hask.of_world fun _ => rfl

theorem harmless_readMetrics (cast : Cast τ) : Harmless (readMetrics (gateway cast)) := by
  have hask : Harmless (gateway cast).fetchMetrics := harmless_ask rfl _
  refine hask.of_world fun s => ?_
  unfold readMetrics
  rcases (gateway cast).fetchMetrics s with ⟨_ | _, s'⟩ <;> rfl

end Trial

namespace Leg

open Stage

/-- Nothing has been stopped yet that had not been stopped at the start. -/
structure Before (names : List String) (l : Leg (Stage τ) α) : Prop where
  phase : l.phase.pastFaults = false
  stopped : l.world.stopped = names

/-- If the faults have been injected, these containers are stopped; and if nothing has failed, the
faults have been injected. -/
structure After (names : List String) (l : Leg (Stage τ) α) : Prop where
  stopped : l.phase.pastFaults = true → l.world.stopped = names
  phase : ∀ a, l.result = .ok a → l.phase.pastFaults = true

variable {names : List String} {l : Leg (Stage τ) α} {step : Step (Stage τ) β}

theorem Before.reach (h : l.Before names) (phase : TrialPhase) (hphase : phase.pastFaults = false)
    (hstep : Harmless step) : (l.reach phase step).Before names := by
  have hworld := hstep l.world
  rw [h.stopped] at hworld
  unfold Leg.reach
  split
  · exact ⟨h.phase, h.stopped⟩
  · split
    · next hfail =>
      rw [hfail] at hworld
      exact ⟨h.phase, hworld⟩
    · next hok =>
      rw [hok] at hworld
      exact ⟨hphase, hworld⟩

/-- A step that succeeds stops more containers. -/
theorem Before.inject (h : l.Before names) {more : List String}
    (hstep : ∀ b s s', step s = (.ok b, s') → s'.stopped = s.stopped ++ more) :
    (l.reach .faulted step).After (names ++ more) := by
  have hearly : ¬l.phase.pastFaults = true := by simp [h.phase]
  unfold Leg.reach
  split
  · exact ⟨fun hphase => absurd hphase hearly, fun b hb => by cases hb⟩
  · split
    · exact ⟨fun hphase => absurd hphase hearly, fun b hb => by cases hb⟩
    · next b s' hok =>
      refine ⟨fun _ => ?_, fun _ _ => rfl⟩
      rw [hstep b _ _ hok, h.stopped]

theorem After.reach (h : l.After names) (phase : TrialPhase)
    (hphase : ∀ a, l.result = .ok a → phase.pastFaults = true) (hstep : Harmless step) :
    (l.reach phase step).After names := by
  have hworld := hstep l.world
  unfold Leg.reach
  split
  · exact ⟨h.stopped, fun b hb => by cases hb⟩
  · next a hok =>
    rw [h.stopped (h.phase a hok)] at hworld
    split
    · next hfail =>
      rw [hfail] at hworld
      exact ⟨fun _ => hworld, fun b hb => by cases hb⟩
    · next hdone =>
      rw [hdone] at hworld
      exact ⟨fun _ => hworld, fun _ _ => hphase a hok⟩

end Leg

namespace Trial

open Stage

variable {cast : Cast τ} {s : TrialSettings} {p : TrialParameters} {payload : PayloadSpec}
  {names : List String} {l : Leg (Stage τ) Unit}

theorem before_settle (fuel : Nat) (h : l.Before names) :
    (settle fuel (bench cast) s payload l).Before names := by
  have hsleep := harmless_sleep (τ := τ) s.timings.settle
  have hpins : Harmless ((gateway cast).pinStatus payload.metaCid) := harmless_ask rfl _
  have hawait := harmless_await hpins fuel .pins (s.timings.poll s.timings.pinTimeout)
  unfold settle
  split_ifs
  · have hpinned := h.reach .pinConverged rfl hawait
    exact hpinned.reach _ hpinned.phase hsleep
  · exact h.reach _ h.phase hsleep

/-- The step that injects the faults. -/
def inject {W : Type} (env : Environment W) (s : TrialSettings) (p : TrialParameters) :
    Step W Unit :=
  orElse .faults fun w =>
    match env.injectFaults s.naming p.faultCount s.family.faultMode w with
    | (.error e, w) => (.error e, w)
    | (.ok _, w) => (.ok (), w)

theorem disturb_eq {W : Type} (fuel : Nat) (b : Bench W) (s : TrialSettings) (p : TrialParameters)
    (l : Leg W Unit) : disturb fuel b s p l =
      if s.family.waitsForDiscovery then
        (l.reach .faulted (inject b.environment s p)).reach .peersConverged
          (await fuel b.clock .peers (s.timings.poll s.timings.discoveryTimeout)
            (peersProbe b.gateway p.survivors))
      else l.reach .faulted (inject b.environment s p) := rfl

/-- The containers of one target after the other are stopped. -/
theorem inject_eq {W : Type} (env : Environment W) (s : TrialSettings) (p : TrialParameters) :
    inject env s p =
      orElse .faults (env.stopNodes s.naming s.family.faultMode (faultTargets p.faultCount)) := by
  funext w
  simp only [inject, orElse, Environment.injectFaults]
  rcases env.stopNodes s.naming s.family.faultMode (faultTargets p.faultCount) w with
    ⟨_ | _, w'⟩ <;> rfl

/-- If the faults are injected, the containers of all targets have been stopped. -/
theorem stopped_inject {b : Unit} {w w' : Stage τ}
    (h : inject (environment cast) s p w = (.ok b, w')) :
    w'.stopped = w.stopped ++
      s.naming.containersOf s.family.faultMode (faultTargets p.faultCount) := by
  rw [inject_eq, orElse] at h
  split at h
  · cases h
  · next hstop =>
    cases h
    exact stopped_stopNodes hstop

theorem after_disturb (fuel : Nat) (h : l.Before names) :
    (disturb fuel (bench cast) s p l).After
      (names ++ s.naming.containersOf s.family.faultMode (faultTargets p.faultCount)) := by
  have hinject : ∀ b w w', inject (environment cast) s p w = (.ok b, w') →
      w'.stopped = w.stopped ++
        s.naming.containersOf s.family.faultMode (faultTargets p.faultCount) :=
    fun _ _ _ => stopped_inject
  have hfaulted := h.inject hinject
  have hpeers := harmless_await (harmless_peersProbe cast p.survivors) fuel .peers
    (s.timings.poll s.timings.discoveryTimeout)
  rw [disturb_eq]
  split_ifs
  · exact hfaulted.reach _ (fun _ _ => rfl) hpeers
  · exact hfaulted

theorem after_measure (fuel : Nat) (h : l.After names) :
    (measure fuel (bench cast) s p payload l).After names := by
  unfold measure
  split
  · exact h.reach _ (fun _ _ => rfl) (harmless_countBlocks cast _ _ _)
  · exact h.reach _ (fun _ _ => rfl) (harmless_countBlocks cast _ _ _)
  · exact h.reach _ (fun _ _ => rfl) (harmless_measureDownload cast _ _)
  · have hdone : Harmless (gateway cast).repairDone := harmless_ask rfl _
    have htriggered := h.reach .operationTriggered (fun _ _ => rfl)
      (harmless_trigger cast (repairRequest p payload))
    have hrepaired := htriggered.reach _ htriggered.phase (harmless_await hdone fuel .repair
      (s.timings.poll s.timings.repairTimeout))
    exact hrepaired.reach _ (fun _ _ => rfl) (harmless_readMetrics cast)

theorem after_drive (fuel : Nat) (w : Stage τ) :
    (drive fuel (bench cast) s p payload w).After
      (w.stopped ++ s.naming.containersOf s.family.faultMode (faultTargets p.faultCount)) := by
  have hupload : Harmless ((gateway cast).upload payload.path (uploadMode s p)) :=
    harmless_ask rfl _
  have hup : (Leg.mk .provisioned (.ok ()) w).Before w.stopped := ⟨rfl, rfl⟩
  have huploaded := hup.reach .uploaded rfl (harmless_orElse hupload .upload)
  exact after_measure fuel (after_disturb fuel (before_settle fuel huploaded))

/-- A trial that has gone past the injection of the faults has stopped the containers of all
targets, and no others. -/
theorem stopped_perform {fuel : Nat} {w : Stage τ}
    (h : (perform fuel (bench cast) s p payload w).phase.pastFaults = true) :
    (perform fuel (bench cast) s p payload w).world.stopped = w.stopped ++
      s.naming.containersOf s.family.faultMode (faultTargets p.faultCount) := by
  have hacquire := harmless_acquire cast ⟨p, s.family.community⟩ w
  unfold perform at h ⊢
  rcases hreply : (bench cast).environment.acquire ⟨p, s.family.community⟩ w with ⟨_ | _, w₁⟩
  · rw [hreply] at h
    cases h
  · have hup : w₁.stopped = w.stopped := by
      rw [← hacquire]
      exact congrArg (fun r => r.2.stopped) hreply.symm
    rw [hreply] at h
    have hdriven := (after_drive fuel w₁).stopped h
    rw [hup] at hdriven
    exact (stopped_teardown cast _).trans hdriven

end Trial

end FaultSweep
