import FaultSweep.Proofs.Trial.Metered
import FaultSweep.Proofs.Trial.Truth

/-!
# The time a trial takes

A trial sleeps while it waits and while the cluster settles, and all else it does is to make calls.
What it sleeps is bounded by its settings, whatever the calls cost: a wait never sleeps beyond its
deadline. A wait that gives up has lasted until its deadline.
-/

namespace FaultSweep

namespace Timings

/-- The time that has passed at least when a wait is given up, counted from the start of the trial.
Only the wait for pins comes before the cluster settles. -/
def leastUntil (t : Timings) : Wait → Nat
  | .pins => seconds t.pinTimeout
  | .peers => seconds t.settle + seconds t.discoveryTimeout
  | .repair => seconds t.settle + seconds t.repairTimeout

end Timings

namespace TrialSettings

/-- What a trial may sleep. -/
def allowance (s : TrialSettings) : Nat :=
  seconds s.timings.settle +
    (if s.family.waitsForPin then seconds s.timings.pinTimeout else 0) +
    if s.family = .collabRepair then
      seconds s.timings.discoveryTimeout + seconds s.timings.repairTimeout
    else 0

end TrialSettings

variable {W α β : Type} {b : Bench W} {reading : W → VirtualClock} {start : Nat}

/-! ### Waits -/

section Waits

variable {spec : PollSpec} {probe : Probe (Metered W)} {since fuel rounds : Nat}
  {probes : UInt32} {w w' : Metered W} {outcome : Option PollOutcome}

theorem used_pollFrom (hb : b.OnVirtualClock reading)
    (hprobe : ∀ n, Keeping (Metered.Sound b.clock start n) probe)
    (hw : w.Sound b.clock start since) (origin : Nat)
    (hpoll : pollFrom b.metered.clock spec probe origin fuel probes w = (outcome, w')) :
    w.used ≤ w'.used := by
  have hkept := Trial.keeping_pollFrom (hb.metered start w.used).sleep (hprobe w.used) spec origin
    fuel probes w (hw.mono le_rfl)
  rw [hpoll] at hkept
  exact hkept.used

/-- A wait does not sleep beyond its deadline. It comes to an end if there is fuel for as many
intervals as there is time for; and it is given up on the deadline, and not before. -/
theorem slept_pollFrom (hb : b.OnVirtualClock reading)
    (hprobe : ∀ n, Keeping (Metered.Sound b.clock start n) probe)
    (hawake : ∀ n, Keeping (fun w => w.slept = n) probe) (hw : w.Sound b.clock start since)
    (hrounds : rounds < fuel)
    (hfuel : since + spec.timeout ≤ w.used + spec.interval * rounds)
    (hpoll : pollFrom b.metered.clock spec probe (start + since) fuel probes w = (outcome, w'))
    (hlimit : start + w'.used ≤ VirtualClock.limit) :
    w'.slept ≤ w.slept + (since + spec.timeout - w.used) ∧
      ∃ o, outcome = some o ∧ (o.isSatisfied = false → since + spec.timeout ≤ w'.used) := by
  induction fuel generalizing probes rounds w with
  | zero => omega
  | succ fuel ih =>
    let v := (probe w).2
    have hv : v.Sound b.clock start w.used := hprobe w.used w (hw.mono le_rfl)
    have hslept : v.slept = w.slept := hawake w.slept w rfl
    have hsince := hw.used
    have hused := hv.used
    rw [pollFrom] at hpoll
    dsimp only at hpoll
    split_ifs at hpoll with hyes hover
    · obtain ⟨rfl, rfl⟩ : _ ∧ v = w' := by simpa using hpoll
      exact ⟨by omega, _, rfl, fun hno => by cases hno⟩
    · obtain ⟨rfl, rfl⟩ : _ ∧ v = w' := by simpa using hpoll
      have hnow : b.metered.clock.now v = start + v.used := hv.exact hlimit
      rw [hnow] at hover
      exact ⟨by omega, _, rfl, fun _ => by omega⟩
    · let nap := min spec.interval (spec.timeout - (b.metered.clock.now v - (start + since)))
      let u := b.metered.clock.sleep nap v
      have hu : u.Sound b.clock start (v.used + nap) :=
        Metered.sound_sleep hb (hv.mono le_rfl) nap
      have hslept' : u.slept = v.slept + nap := rfl
      have hused' : u.used = v.used + nap := (Nat.add_assoc _ _ _).symm
      have hfinal := used_pollFrom hb hprobe hu _ hpoll
      have hnow : b.metered.clock.now v = start + v.used := hv.exact (by omega)
      have hnap : nap = min spec.interval (since + spec.timeout - v.used) := by
        simp only [nap, hnow]
        omega
      rw [hnow] at hover
      cases rounds with
      | zero => omega
      | succ rounds =>
        have hrest : since + spec.timeout ≤ u.used + spec.interval * rounds := by
          rw [Nat.mul_succ] at hfuel
          omega
        obtain ⟨hsum, o, rfl, ho⟩ := ih (hu.mono (by omega)) (by omega) hrest hpoll
        exact ⟨by omega, o, rfl, ho⟩

/-- There is time for no more intervals than there are probes after the first. -/
theorem PollSpec.timeout_le (spec : PollSpec) (h : 1 ≤ spec.interval) :
    spec.timeout ≤ spec.interval * (spec.maxProbes - 1) := by
  have hlast := Nat.lt_mul_div_succ (spec.timeout + (spec.interval - 1)) h
  rw [Nat.mul_succ] at hlast
  simp only [maxProbes, Nat.add_sub_cancel]
  omega

end Waits

/-! ### Steps -/

/-- Whether it is the answer to a call that interrupts the trial. -/
def Interruption.ofCall : Interruption → Bool
  | .timedOut _ => false
  | .unfinished => false
  | _ => true

theorem Interruption.ofCall_of_mapError {ε : Type} {cause : ε → Interruption}
    (hcause : ∀ e, (cause e).ofCall = true) {x : Except ε α} {i : Interruption}
    (h : x.mapError cause = .error i) : i.ofCall = true := by
  cases x with
  | error e =>
    obtain rfl : cause e = i := Except.error.inj h
    exact hcause e
  | ok a => cases h

namespace Trial

/-- What the result of a step tells of the time used by then: that it is at least `after` if the
trial goes on, and that a wait that was given up was not given up early. -/
def Reached (t : Timings) (after used : Nat) : Except Interruption α → Prop
  | .ok _ => after ≤ used
  | .error (.timedOut wait) => t.leastUntil wait ≤ used
  | .error .unfinished => False
  | .error _ => True

theorem reached_error {t : Timings} {after used : Nat} {i : Interruption} (h : i.ofCall = true) :
    Reached t after used (.error i : Except Interruption α) := by
  cases i <;> trivial

/-- What an error tells does not depend on the step. -/
theorem Reached.error {t : Timings} {before after used : Nat} {i : Interruption}
    (h : Reached t before used (.error i : Except Interruption α)) :
    Reached t after used (.error i : Except Interruption β) := by
  cases i <;> exact h

theorem Reached.mono {t : Timings} {after used more : Nat} {r : Except Interruption α}
    (h : Reached t after used r) (hmore : used ≤ more) : Reached t after more r := by
  unfold Reached at h ⊢
  split at h
  · exact h.trans hmore
  · exact h.trans hmore
  · exact h
  · exact h

/-- A step that is begun when at least `before` has been used, goes on when at least `after` has
been used, and sleeps for `nap` at most. -/
structure Takes (b : Bench W) (t : Timings) (start before after nap : Nat)
    (step : Step (Metered W) β) : Prop where
  keeps : ∀ n, Keeping (Metered.Sound b.clock start n) step
  result : ∀ w, w.Sound b.clock start before → start + (step w).2.used ≤ VirtualClock.limit →
    (step w).2.slept ≤ w.slept + nap ∧ Reached t after (step w).2.used (step w).1

variable {t : Timings} {k : Nat} {step : Step (Metered W) β}

/-- A step that makes calls and judges the answers. -/
theorem takes_calls (hkeeps : ∀ n, Keeping (Metered.Sound b.clock start n) step)
    (hawake : ∀ n, Keeping (fun w => w.slept = n) step)
    (hcalls : ∀ w i, (step w).1 = .error i → i.ofCall = true) :
    Takes b t start k k 0 step := by
  refine ⟨hkeeps, fun w hw _ => ⟨(hawake w.slept w rfl).le, ?_⟩⟩
  cases hresult : (step w).1 with
  | error i => exact reached_error (hcalls w i hresult)
  | ok _ => exact (hkeeps k w hw).used

theorem takes_await (hb : b.OnVirtualClock reading) (ht : 1 ≤ t.pollInterval) {fuel secs : Nat}
    (hfuel : (t.poll secs).maxProbes ≤ fuel) (wait : Wait)
    (hleast : t.leastUntil wait = k + seconds secs) {probe : Probe (Metered W)}
    (hprobe : ∀ n, Keeping (Metered.Sound b.clock start n) probe)
    (hawake : ∀ n, Keeping (fun w => w.slept = n) probe) :
    Takes b t start k k (seconds secs)
      (await fuel b.metered.clock wait (t.poll secs) probe) := by
  have hkeeps : ∀ n, Keeping (Metered.Sound b.clock start n)
      (await fuel b.metered.clock wait (t.poll secs) probe) :=
    fun n => keeping_await (hb.metered start n).sleep (hprobe n) fuel wait _
  refine ⟨hkeeps, fun w hw hlimit => ?_⟩
  have hused := (hkeeps w.used w (hw.mono le_rfl)).used
  have hk := hw.used
  rw [await_apply] at hlimit hused ⊢
  rcases hpoll : awaitCondition fuel b.metered.clock (t.poll secs) probe w with ⟨outcome, w'⟩
  rw [hpoll] at hlimit hused
  dsimp only at hlimit hused ⊢
  have hnow : b.metered.clock.now w = start + w.used :=
    hw.exact ((Nat.add_le_add_left hused start).trans hlimit)
  rw [awaitCondition, hnow] at hpoll
  have hinterval : 1 ≤ (t.poll secs).interval := by
    simp only [Timings.poll, seconds]
    omega
  have hrounds := PollSpec.timeout_le (t.poll secs) hinterval
  have hmost : (t.poll secs).maxProbes - 1 < fuel :=
    (Nat.sub_lt (Nat.succ_pos _) Nat.one_pos).trans_le hfuel
  obtain ⟨hslept, o, rfl, ho⟩ := slept_pollFrom hb hprobe hawake (hw.mono le_rfl) hmost
    (Nat.add_le_add_left hrounds _) hpoll hlimit
  have htimeout : (t.poll secs).timeout = seconds secs := rfl
  refine ⟨by omega, ?_⟩
  cases o with
  | satisfied => exact hk.trans hused
  | timedOut =>
    have hover := ho rfl
    show t.leastUntil wait ≤ w'.used
    omega

theorem takes_sleep (hb : b.OnVirtualClock reading) (t : Timings) (start k secs : Nat) :
    Takes b t start k (k + seconds secs) (seconds secs) (sleep b.metered.clock secs) :=
  ⟨fun n w hw => (hb.metered start n).sleep _ w hw,
    fun _ hw _ => ⟨le_rfl, (Metered.sound_sleep hb hw _).used⟩⟩

/-! ### Legs -/

/-- A leg on a metered bench that has slept for `most` at most, and has used `after` at least if it
is to go on. -/
structure Within (b : Bench W) (t : Timings) (start after most : Nat) (l : Leg (Metered W) α) :
    Prop where
  sound : l.world.Sound b.clock start 0
  account : start + l.world.used ≤ VirtualClock.limit →
    l.world.slept ≤ most ∧ Reached t after l.world.used l.result

theorem Within.reach {before after most nap : Nat} {l : Leg (Metered W) α}
    (h : Within b t start before most l) (hstep : Takes b t start before after nap step)
    (phase : TrialPhase) : Within b t start after (most + nap) (l.reach phase step) := by
  have hused := Leg.keeping_reach (h.sound.mono le_rfl) (hstep.keeps l.world.used) phase
  refine ⟨hused.mono (Nat.zero_le _), fun hlimit => ?_⟩
  obtain ⟨hslept, hreached⟩ := h.account (by have := hused.used; omega)
  unfold Leg.reach at hlimit ⊢
  cases hresult : l.result with
  | error i =>
    rw [hresult] at hreached
    exact ⟨hslept.trans (Nat.le_add_right _ _), hreached.error⟩
  | ok a =>
    rw [hresult] at hreached hlimit
    have hnext := hstep.result l.world (h.sound.mono hreached)
    rcases hact : step l.world with ⟨_ | _, w⟩
    · rw [hact] at hnext hlimit
      obtain ⟨hnap, hends⟩ := hnext hlimit
      exact ⟨by dsimp only at hnap ⊢; omega, hends.error⟩
    · rw [hact] at hnext hlimit
      obtain ⟨hnap, hgoes⟩ := hnext hlimit
      exact ⟨by dsimp only at hnap ⊢; omega, hgoes⟩

theorem Within.mono {after most more : Nat} {l : Leg (Metered W) α}
    (h : Within b t start after most l) (hmore : most ≤ more) : Within b t start after more l :=
  ⟨h.sound, fun hlimit => ⟨(h.account hlimit).1.trans hmore, (h.account hlimit).2⟩⟩

variable {s : TrialSettings} {p : TrialParameters} {payload : PayloadSpec} {fuel most : Nat}
  {l : Leg (Metered W) Unit}

theorem takes_upload (hb : b.OnVirtualClock reading) (path : String) (mode : UploadMode) :
    Takes b t start k k 0 (orElse .upload (b.metered.gateway.upload path mode)) := by
  refine takes_calls (fun n => keeping_orElse ((hb.metered start n).upload path mode) _)
    (fun n => keeping_orElse ((b.metered_awake n).upload path mode) _) fun w i hi => ?_
  rw [orElse_apply] at hi
  exact Interruption.ofCall_of_mapError (fun _ => rfl) hi

theorem takes_inject (hb : b.OnVirtualClock reading) (s : TrialSettings) (p : TrialParameters) :
    Takes b t start k k 0 (inject b.metered.environment s p) := by
  refine takes_calls (fun n => keeping_inject (hb.metered start n) s p)
    (fun n => keeping_inject (b.metered_awake n) s p) fun w i hi => ?_
  rw [inject_eq, orElse_apply] at hi
  exact Interruption.ofCall_of_mapError (fun _ => rfl) hi

theorem takes_countBlocks (hb : b.OnVirtualClock reading) (payload : PayloadSpec)
    (description : Option String) (depth : Nat) :
    Takes b t start k k 0 (countBlocks b.metered.gateway payload description depth) := by
  refine takes_calls (fun n => keeping_countBlocks (hb.metered start n) payload description depth)
    (fun n => keeping_countBlocks (b.metered_awake n) payload description depth) fun w i hi => ?_
  rw [countBlocks_apply] at hi
  exact Interruption.ofCall_of_mapError (fun _ => rfl) hi

theorem takes_measureDownload (hb : b.OnVirtualClock reading) (payload : PayloadSpec)
    (depth : Nat) :
    Takes b t start k k 0 (measureDownload b.metered.gateway payload depth) := by
  refine takes_calls (fun n => keeping_measureDownload (hb.metered start n) payload depth)
    (fun n => keeping_measureDownload (b.metered_awake n) payload depth) fun w i hi => ?_
  rw [measureDownload_apply] at hi
  exact Interruption.ofCall_of_mapError (fun _ => rfl) hi

theorem takes_trigger (hb : b.OnVirtualClock reading) (request : RepairRequest) :
    Takes b t start k k 0 (trigger b.metered.gateway request) :=
  takes_calls (fun n => ((hb.metered start n).triggerRepair request).of_world fun _ => rfl)
    (fun n => ((b.metered_awake n).triggerRepair request).of_world fun _ => rfl)
    fun _ _ hi => by cases hi

theorem takes_readMetrics (hb : b.OnVirtualClock reading) :
    Takes b t start k k 0 (readMetrics b.metered.gateway) := by
  refine takes_calls (fun n => keeping_readMetrics (hb.metered start n))
    (fun n => keeping_readMetrics (b := b.metered.awake) (b.metered_awake n)) fun w i hi => ?_
  rw [readMetrics_apply] at hi
  exact Interruption.ofCall_of_mapError (fun _ => rfl) hi

theorem within_settle (hb : b.OnVirtualClock reading) (ht : 1 ≤ s.timings.pollInterval)
    (hfuel : s.timings.maxProbes ≤ fuel) (h : Within b s.timings start 0 most l)
    (payload : PayloadSpec) :
    Within b s.timings start (seconds s.timings.settle)
      (most + (if s.family.waitsForPin then seconds s.timings.pinTimeout else 0) +
        seconds s.timings.settle) (settle fuel b.metered s payload l) := by
  have hsleep := takes_sleep hb s.timings start 0 s.timings.settle
  rw [Nat.zero_add] at hsleep
  unfold settle Leg.stay
  split_ifs
  · have hpins := takes_await hb ht ((le_max_left _ _).trans hfuel) .pins (Nat.zero_add _).symm
      (fun n => (hb.metered start n).pinStatus payload.metaCid)
      (fun n => (b.metered_awake n).pinStatus payload.metaCid)
    exact (h.reach hpins .pinConverged).reach hsleep _
  · exact h.reach hsleep _

theorem within_disturb (hb : b.OnVirtualClock reading) (ht : 1 ≤ s.timings.pollInterval)
    (hfuel : s.timings.maxProbes ≤ fuel)
    (h : Within b s.timings start (seconds s.timings.settle) most l) :
    Within b s.timings start (seconds s.timings.settle)
      (most + if s.family.waitsForDiscovery then seconds s.timings.discoveryTimeout else 0)
      (disturb fuel b.metered s p l) := by
  have hfaulted := h.reach (takes_inject hb s p) .faulted
  rw [disturb_eq]
  split_ifs
  · have hprobes : (s.timings.poll s.timings.discoveryTimeout).maxProbes ≤ fuel :=
      ((le_max_left _ _).trans (le_max_right _ _)).trans hfuel
    have hpeers := takes_await hb ht hprobes .peers rfl
      (fun n => keeping_peersProbe (hb.metered start n) p.survivors)
      (fun n => keeping_peersProbe (b.metered_awake n) p.survivors)
    exact hfaulted.reach hpeers .peersConverged
  · exact hfaulted

theorem within_measure (hb : b.OnVirtualClock reading) (ht : 1 ≤ s.timings.pollInterval)
    (hfuel : s.timings.maxProbes ≤ fuel)
    (h : Within b s.timings start (seconds s.timings.settle) most l) :
    Within b s.timings start (seconds s.timings.settle)
      (most + if s.family = .collabRepair then seconds s.timings.repairTimeout else 0)
      (measure fuel b.metered s p payload l) := by
  unfold measure Leg.stay
  cases hf : s.family with
  | reliability => exact h.reach (takes_countBlocks hb payload _ _) _
  | replication => exact h.reach (takes_countBlocks hb payload _ _) _
  | singleRepair => exact h.reach (takes_measureDownload hb payload _) _
  | collabRepair =>
    have hprobes : (s.timings.poll s.timings.repairTimeout).maxProbes ≤ fuel :=
      ((le_max_right _ _).trans (le_max_right _ _)).trans hfuel
    have hdone := takes_await hb ht hprobes .repair rfl
      (fun n => (hb.metered start n).repairDone) (fun n => (b.metered_awake n).repairDone)
    have htriggered := h.reach (takes_trigger hb (repairRequest p payload)) .operationTriggered
    exact ((htriggered.reach hdone _).reach (takes_readMetrics hb) _).mono (by simp)

/-- While the topology is up, a trial keeps within its allowance. -/
theorem within_drive (hb : b.OnVirtualClock reading) (ht : 1 ≤ s.timings.pollInterval)
    (hfuel : s.timings.maxProbes ≤ fuel) {w : Metered W} (hw : w.Sound b.clock start 0)
    (hslept : w.slept = 0) :
    Within b s.timings start (seconds s.timings.settle) s.allowance
      (drive fuel b.metered s p payload w) := by
  have hup : Within b s.timings start 0 0 (Leg.mk .provisioned (.ok ()) w) :=
    ⟨hw, fun _ => ⟨hslept.le, Nat.zero_le _⟩⟩
  have huploaded := hup.reach (takes_upload hb payload.path (uploadMode s p)) .uploaded
  have hsettled := within_settle hb ht hfuel huploaded payload
  refine (within_measure hb ht hfuel (within_disturb hb ht hfuel hsettled)).mono ?_
  unfold TrialSettings.allowance
  cases s.family <;> simp [TrialFamily.waitsForPin, TrialFamily.waitsForDiscovery] <;> omega

theorem Within.torn_down (hb : b.OnVirtualClock reading) {after : Nat} {l : Leg (Metered W) α}
    (h : Within b t start after most l) :
    Within b t start after most { l with world := b.metered.environment.teardown l.world } := by
  have hdown := (hb.metered start l.world.used).teardown l.world (h.sound.mono le_rfl)
  have hslept := (b.metered_awake l.world.slept).teardown l.world rfl
  refine ⟨hdown.mono (Nat.zero_le _), fun hlimit => ?_⟩
  obtain ⟨hmost, hreached⟩ := h.account ((Nat.add_le_add_left hdown.used _).trans hlimit)
  exact ⟨(Nat.le_of_eq hslept).trans hmost, hreached.mono hdown.used⟩

theorem within_perform (hb : b.OnVirtualClock reading) (ht : 1 ≤ s.timings.pollInterval)
    (hfuel : s.timings.maxProbes ≤ fuel) {w : Metered W} (hw : w.Sound b.clock start 0)
    (hslept : w.slept = 0) :
    Within b s.timings start (seconds s.timings.settle) s.allowance
      (perform fuel b.metered s p payload w) := by
  have hacquired := keeping_acquire (hb.metered start 0) ⟨p, s.family.community⟩ w hw
  have hawake := keeping_acquire (b.metered_awake 0) ⟨p, s.family.community⟩ w hslept
  rw [show b.metered.awake.environment = b.metered.environment from rfl] at hawake
  unfold perform
  rcases hreply : b.metered.environment.acquire ⟨p, s.family.community⟩ w with ⟨e | _, v⟩
  · rw [hreply] at hacquired hawake
    exact ⟨hacquired, fun _ => ⟨(Nat.le_of_eq hawake).trans (Nat.zero_le _), trivial⟩⟩
  · rw [hreply] at hacquired hawake
    exact (within_drive hb ht hfuel hacquired hawake).torn_down hb

/-! ### Trials that fail early -/

theorem settle_error (fuel : Nat) (b : Bench W) (payload : PayloadSpec) (phase : TrialPhase)
    (i : Interruption) (w : W) :
    settle fuel b s payload ⟨phase, .error i, w⟩ = ⟨phase, .error i, w⟩ := by
  unfold settle
  split_ifs <;> rfl

theorem disturb_error (fuel : Nat) (b : Bench W) (p : TrialParameters) (phase : TrialPhase)
    (i : Interruption) (w : W) :
    disturb fuel b s p ⟨phase, .error i, w⟩ = ⟨phase, .error i, w⟩ := by
  rw [disturb_eq]
  split_ifs <;> rfl

theorem measure_error (fuel : Nat) (b : Bench W) (p : TrialParameters) (payload : PayloadSpec)
    (phase : TrialPhase) (i : Interruption) (w : W) :
    measure fuel b s p payload ⟨phase, .error i, w⟩ = ⟨phase, .error i, w⟩ := by
  unfold measure
  split <;> rfl

theorem drive_of_failed_upload {e : CommandError} {w w' : W}
    (h : b.gateway.upload payload.path (uploadMode s p) w = (.error e, w')) :
    drive fuel b s p payload w = ⟨.provisioned, .error (.upload e), w'⟩ := by
  have huploaded : (Leg.mk .provisioned (.ok ()) w).reach .uploaded
      (orElse .upload (b.gateway.upload payload.path (uploadMode s p))) =
        ⟨.provisioned, .error (.upload e), w'⟩ := by
    simp [Leg.reach, orElse, h]
  unfold drive
  dsimp only
  rw [huploaded, settle_error, disturb_error, measure_error]

/-- Whether the topology cannot be brought up, or the payload not be uploaded. -/
def FailsEarly (b : Bench W) (s : TrialSettings) (p : TrialParameters) (payload : PayloadSpec)
    (w : W) : Prop :=
  (∃ e, (b.environment.provision ⟨p, s.family.community⟩ w).1 = .error e) ∨
    ∃ e, (b.gateway.upload payload.path (uploadMode s p)
      (b.environment.provision ⟨p, s.family.community⟩ w).2).1 = .error e

/-- A trial that fails early makes calls only. -/
theorem slept_perform_of_failsEarly (fuel : Nat) {w : W} (h : FailsEarly b s p payload w) :
    (perform fuel b.metered s p payload (.opened w)).world.slept = 0 := by
  unfold perform Environment.acquire
  rcases hreply : b.environment.provision ⟨p, s.family.community⟩ w with ⟨e | _, w₁⟩
  · have hmetered : b.metered.environment.provision ⟨p, s.family.community⟩ (.opened w) =
        (.error e, ⟨w₁, 0 + (b.clock.now w₁ - b.clock.now w), 0⟩) := by
      simp [Bench.metered, Metered.environment, Metered.charge, Metered.opened, hreply]
    rw [hmetered]
    rfl
  · have hmetered : b.metered.environment.provision ⟨p, s.family.community⟩ (.opened w) =
        (.ok (), ⟨w₁, 0 + (b.clock.now w₁ - b.clock.now w), 0⟩) := by
      simp [Bench.metered, Metered.environment, Metered.charge, Metered.opened, hreply]
    obtain ⟨e, he⟩ : ∃ e, (b.gateway.upload payload.path (uploadMode s p) w₁).1 = .error e := by
      simpa [FailsEarly, hreply] using h
    have hupload : b.metered.gateway.upload payload.path (uploadMode s p)
        ⟨w₁, 0 + (b.clock.now w₁ - b.clock.now w), 0⟩ = (.error e, _) := Prod.ext he rfl
    rw [hmetered]
    dsimp only
    rw [drive_of_failed_upload hupload]
    rfl

/-! ### Trials as a whole -/

/-- The account of a trial. -/
def account (fuel : Nat) (b : Bench W) (s : TrialSettings) (p : TrialParameters)
    (payload : PayloadSpec) (w : W) : Metered W :=
  (run fuel b.metered s p payload (.opened w)).2

theorem exists_record {V : Type} {l : Leg V (TrialStatus × Json)}
    (h : l.result ≠ .error .unfinished) (startedAt finishedAt : Instant) :
    ∃ r, record? startedAt finishedAt l = some r := by
  unfold record?
  split
  · exact ⟨_, rfl⟩
  · next hresult => exact absurd hresult h
  · exact ⟨_, rfl⟩

/-- Only a wait that was given up leaves a record that says so. -/
theorem timedOut_of_status {w w' : W} {r : TrialRecord}
    (h : run fuel b s p payload w = (some r, w')) (hr : r.status = .timedOut) :
    ∃ wait, (perform fuel b s p payload w).result = .error (.timedOut wait) ∧
      r.detail = some ("timed out waiting for " ++ wait.name) := by
  rcases record?_cases (congrArg Prod.fst h) with ⟨status, v, hresult, rfl⟩ | ⟨i, hi, hresult, rfl⟩
  · obtain ⟨fs, -, htells⟩ := run_noted h []
    rw [Leg.Tells, hresult] at htells
    obtain ⟨x, -, hmeasured⟩ := htells.2.2
    have hrecordable := isRecordable_of_measured? hmeasured
    rw [show status = .timedOut from hr] at hrecordable
    cases hrecordable
  · cases i with
    | timedOut wait => exact ⟨wait, hresult, rfl⟩
    | _ => cases hr

/-- If the clock does not come to its last reading, every trial leaves a record. What it takes
beyond the time of its calls is within its allowance, and nothing if it fails early. If it says that
a wait was given up, this wait has lasted until its deadline, after the time to settle if it comes
after that. -/
theorem run_within_budget (hb : b.OnVirtualClock reading) (s : TrialSettings) (p : TrialParameters)
    (payload : PayloadSpec) {fuel : Nat} {w : W} (hinterval : 1 ≤ s.timings.pollInterval)
    (hfuel : s.timings.maxProbes ≤ fuel)
    (hlimit : b.clock.now w + (account fuel b s p payload w).used ≤ VirtualClock.limit) :
    ∃ r w' elapsed, run fuel b s p payload w = (some r, w') ∧
      b.clock.now w' = b.clock.now w + elapsed ∧
      elapsed ≤ (account fuel b s p payload w).spent + s.allowance ∧
      (FailsEarly b s p payload w → elapsed = (account fuel b s p payload w).spent) ∧
      (r.status = .timedOut → ∃ wait : Wait,
        r.detail = some ("timed out waiting for " ++ wait.name) ∧
        s.timings.leastUntil wait ≤ elapsed) := by
  have hopened : (Metered.opened w).Sound b.clock (b.clock.now w) 0 :=
    ⟨(Nat.le_add_right _ _).trans hlimit, fun _ => rfl, le_rfl⟩
  obtain ⟨hsound, haccount⟩ : Within b s.timings (b.clock.now w) (seconds s.timings.settle)
      s.allowance (perform fuel b.metered s p payload (.opened w)) :=
    within_perform hb hinterval hfuel hopened rfl
  obtain ⟨hslept, hreached⟩ := haccount hlimit
  have hfinished : (perform fuel b.metered s p payload (.opened w)).result ≠
      .error .unfinished := by
    intro hresult
    rw [hresult] at hreached
    exact hreached
  obtain ⟨r, hr⟩ := exists_record hfinished (b.stamp w) (b.metered.stamp (account ..))
  have hmetered : run fuel b.metered s p payload (.opened w) = (some r, account ..) :=
    Prod.ext hr rfl
  have hrun := covers_run b.metered_covers fuel s p payload (.opened w)
  rw [hmetered] at hrun
  refine ⟨r, _, (account fuel b s p payload w).used, hrun, hsound.exact hlimit, ?_, ?_, ?_⟩
  · exact Nat.add_le_add_left hslept _
  · intro hfails
    have hawake : (account fuel b s p payload w).slept = 0 :=
      slept_perform_of_failsEarly fuel hfails
    rw [Metered.used, hawake, Nat.add_zero]
  · intro hstatus
    obtain ⟨wait, hresult, hdetail⟩ := timedOut_of_status hmetered hstatus
    rw [hresult] at hreached
    exact ⟨wait, hdetail, hreached⟩

end Trial

/-- Bringing the topology up takes five seconds, and every answer to a probe for a repair three. -/
def Scripts.slow : Scripts :=
  { Scripts.refusing with
    provision := ⟨#[], ⟨seconds 5, .ok ()⟩, ⟨0, .ok ()⟩, 0⟩
    repairDone := ⟨#[], ⟨seconds 3, .ok false⟩, ⟨0, .ok true⟩, 0⟩ }

namespace Trial

/-- Settings with short waits and two seconds to settle. -/
def settling : TrialSettings := ⟨.collabRepair, ⟨0, 3, 9, 2, 9, 4⟩, .standard, .standard⟩

theorem slow_repair_within_budget :
    ∃ r w' elapsed,
      run 4 (Stage.bench Scripts.cast) settling fiveNodes ⟨"f", "F", "M", none⟩
        (Stage.start .slow) = (some r, w') ∧
      w'.clock.elapsed = 0 + elapsed ∧ elapsed ≤ seconds 11 + settling.allowance ∧
      r.status = .timedOut ∧ ∃ wait : Wait, r.detail = some ("timed out waiting for " ++ wait.name) ∧
        settling.timings.leastUntil wait ≤ elapsed := by
  have hspent : (account 4 (Stage.bench Scripts.cast) settling fiveNodes ⟨"f", "F", "M", none⟩
      (Stage.start .slow)).spent = seconds 11 := by
    decide +kernel
  obtain ⟨r, w', elapsed, hrun, hclock, hmost, -, htimedOut⟩ := run_within_budget
    (Stage.onVirtualClock Scripts.cast) settling fiveNodes ⟨"f", "F", "M", none⟩
    (w := Stage.start .slow) (by decide) (show _ ≤ 4 by decide) (by decide +kernel)
  have hstatus : (run 4 (Stage.bench Scripts.cast) settling fiveNodes ⟨"f", "F", "M", none⟩
      (Stage.start .slow)).1.map TrialRecord.status = some .timedOut := by
    decide +kernel
  rw [hrun] at hstatus
  rw [hspent] at hmost
  have hr : r.status = .timedOut := by simpa using hstatus
  exact ⟨r, w', elapsed, hrun, hclock, hmost, hr, htimedOut hr⟩

end Trial

end FaultSweep
