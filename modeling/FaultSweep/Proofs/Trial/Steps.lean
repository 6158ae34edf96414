import FaultSweep.Proofs.Trial.Exchanges
import FaultSweep.Proofs.Trial.Stops

/-!
# The exchanges of the steps of a trial

Every step of a trial makes calls that are known before, and ends with the first that is not
answered as it has to be. How the step ends, and what it measures, can be told from the exchanges.
-/

namespace FaultSweep

variable {W α β : Type} {n : Nat}

/-- What the exchanges of a step over some calls tell of its result. -/
def Settles (n : Nat) (cs : List Call) (Q : α → List Exchange → Prop) :
    Except Interruption α → List Exchange → Prop
  | .ok a, fs => Goes n cs none fs ∧ Q a fs
  | .error i, fs => i = .unfinished ∨ ∃ c, Goes n cs (some c) fs ∧ i.status = c.verdict

/-- What a trial has measured if it ended with an exchange. -/
def Exchange.measured? (payload : PayloadSpec) : Exchange → Option (TrialStatus × Json)
  | ⟨.downloadCount _ _ _ true, .ok r⟩ => some (.success, r.toJson)
  | ⟨.downloadCount _ _ _ false, .ok r⟩ => some (Trial.countStatus payload r, r.toJson)
  | ⟨.fetchMetrics, .ok v⟩ => some (.success, v)
  | _ => none

namespace Trial

variable {Q : α → List Exchange → Prop}

/-! ### Steps in general -/

/-- A step that makes one call and judges the answer. -/
theorem notes_once {c : Call} (hc : c.isProbe = false) (act : W → c.Answer × W)
    (f : c.Answer → Except Interruption α) {step' : Step (Noted W) α} {step : Step W α}
    (hstep' : ∀ w, step' w = (f (Noted.ask c act w).1, (Noted.ask c act w).2))
    (hstep : ∀ w, step w = (f (act w).1, (act w).2))
    (hf : ∀ a, match f a with
      | .ok b => Exchange.suits n ⟨c, a⟩ = true ∧ Q b [⟨c, a⟩]
      | .error i => Exchange.suits n ⟨c, a⟩ = false ∧ i.status = .failed) :
    Notes (Settles n [c] Q) step' step := by
  refine (Notes.ask c act).map f hstep' hstep ?_
  rintro a _ rfl
  have hasks : Asks n c (Exchange.suits n ⟨c, a⟩) [⟨c, a⟩] := .last a
  have hjudged := hf a
  cases hresult : f a with
  | ok b =>
    rw [hresult] at hjudged
    obtain ⟨hsuits, hQ⟩ := hjudged
    rw [hsuits] at hasks
    exact ⟨.single hasks, hQ⟩
  | error i =>
    rw [hresult] at hjudged
    obtain ⟨hsuits, hstatus⟩ := hjudged
    rw [hsuits] at hasks
    refine .inr ⟨c, .single hasks, ?_⟩
    rw [hstatus, Call.verdict, hc]
    rfl

/-- One step after another, unless the first fails. -/
def seq (step : Step W α) (next : Step W β) : Step W β :=
  fun w => match step w with
    | (.error i, w) => (.error i, w)
    | (.ok _, w) => next w

theorem notes_seq {cs ds : List Call} {step' : Step (Noted W) α} {step : Step W α}
    {next' : Step (Noted W) β} {next : Step W β}
    (h : Notes (Settles n cs fun _ _ => True) step' step)
    (hnext : Notes (Settles n ds fun _ _ => True) next' next) :
    Notes (Settles n (cs ++ ds) fun _ _ => True) (seq step' next') (seq step next) := by
  intro w es
  obtain ⟨fs, hstep, hfs⟩ := h w es
  rw [seq, seq, hstep]
  rcases hresult : step w with ⟨i | a, w₁⟩
  · rw [hresult] at hfs
    refine ⟨fs, rfl, hfs.imp_right ?_⟩
    rintro ⟨c, hgoes, hstatus⟩
    exact ⟨c, hgoes.append_end ds, hstatus⟩
  · rw [hresult] at hfs
    obtain ⟨gs, hrest, hgs⟩ := hnext w₁ (es ++ fs)
    refine ⟨fs ++ gs, by simpa using hrest, ?_⟩
    dsimp only
    cases hlast : (next w₁).1 with
    | ok b =>
      rw [hlast] at hgs
      exact ⟨hfs.1.append hgs.1, trivial⟩
    | error i =>
      rw [hlast] at hgs
      refine hgs.imp_right ?_
      rintro ⟨c, hgoes, hstatus⟩
      exact ⟨c, hfs.1.append hgoes, hstatus⟩

theorem orElse_apply {ε : Type} (cause : ε → Interruption) (act : W → Except ε α × W) (w : W) :
    orElse cause act w = ((act w).1.mapError cause, (act w).2) := by
  unfold orElse
  rcases act w with ⟨_ | _, w'⟩ <;> rfl

theorem notes_sleep (clock : Clock W) (secs : Nat) :
    Notes (Settles n [] fun _ _ => True) (sleep (Noted.clock clock) secs) (sleep clock secs) := by
  intro w es
  exact ⟨[], by simp [sleep, Noted.clock], .done, trivial⟩

/-! ### Waits -/

/-- A probe makes one call, and holds if the answer suits. -/
def Asking (n : Nat) (c : Call) (reply : Except ProbeError Bool) (fs : List Exchange) : Prop :=
  ∃ a, fs = [⟨c, a⟩] ∧ Exchange.suits n ⟨c, a⟩ = Probe.holds reply

theorem asking_pinStatus (g : Gateway W) (cid : String) :
    Notes (Asking n (.pinStatus cid)) ((Noted.gateway g).pinStatus cid) (g.pinStatus cid) :=
  (Notes.ask (.pinStatus cid) (g.pinStatus cid)).mono fun a _ hfs => ⟨a, hfs, rfl⟩

theorem asking_repairDone (g : Gateway W) :
    Notes (Asking n .repairDone) (Noted.gateway g).repairDone g.repairDone :=
  (Notes.ask .repairDone g.repairDone).mono fun a _ hfs => ⟨a, hfs, rfl⟩

theorem peersProbe_apply (g : Gateway W) (expected : Nat) (w : W) : peersProbe g expected w =
    ((g.countActivePeers w).1.map (decide <| · = expected), (g.countActivePeers w).2) := by
  unfold peersProbe
  rcases g.countActivePeers w with ⟨_ | _, w'⟩ <;> rfl

theorem asking_peersProbe (g : Gateway W) (expected : Nat) :
    Notes (Asking expected .countActivePeers) (peersProbe (Noted.gateway g) expected)
      (peersProbe g expected) := by
  refine (Notes.ask .countActivePeers g.countActivePeers).map
    (Except.map (decide <| · = expected)) (peersProbe_apply _ _) (peersProbe_apply _ _) ?_
  rintro (_ | _) fs hfs
  · exact ⟨_, hfs, rfl⟩
  · exact ⟨_, hfs, rfl⟩

/-- The call is made until it is answered as it has to be, or until the time is over. -/
theorem notes_pollFrom {c : Call} (hc : c.isProbe = true) {probe' : Probe (Noted W)}
    {probe : Probe W} (h : Notes (Asking n c) probe' probe) (clock : Clock W) (spec : PollSpec)
    (start fuel : Nat) (probes : UInt32) :
    Notes (fun outcome fs => ∀ o, outcome = some o → Asks n c o.isSatisfied fs)
      (pollFrom (Noted.clock clock) spec probe' start fuel probes)
      (pollFrom clock spec probe start fuel probes) := by
  induction fuel generalizing probes with
  | zero =>
    intro w es
    refine ⟨[], by simp [pollFrom], ?_⟩
    intro o ho
    cases ho
  | succ fuel ih =>
    intro w es
    obtain ⟨fs, hprobe, a, rfl, hsuits⟩ := h w es
    have hasks : Asks n c (Exchange.suits n ⟨c, a⟩) [⟨c, a⟩] := .last a
    simp only [pollFrom, hprobe]
    by_cases hholds : Probe.holds (probe w).1 = true
    · rw [hsuits, hholds] at hasks
      refine ⟨[⟨c, a⟩], by simp [hholds, Noted.clock], ?_⟩
      intro o ho
      obtain rfl : .satisfied .. = o := by simpa [hholds] using ho
      exact hasks
    · have hrefused : Exchange.suits n ⟨c, a⟩ = false := by simp [hsuits, hholds]
      rw [hrefused] at hasks
      by_cases hover : spec.timeout ≤ clock.now (probe w).2 - start
      · refine ⟨[⟨c, a⟩], by simp [hholds, hover, Noted.clock], ?_⟩
        intro o ho
        obtain rfl : .timedOut .. = o := by simpa [hholds, hover] using ho
        exact hasks
      -- A refusal in time is noted, and the rest is a poll that has made one probe more.
      · obtain ⟨gs, hpoll, hgs⟩ := ih (probes + 1) (clock.sleep (min spec.interval
          (spec.timeout - (clock.now (probe w).2 - start))) (probe w).2) (es ++ [⟨c, a⟩])
        refine ⟨⟨c, a⟩ :: gs, ?_, ?_⟩
        · simpa [hholds, hover, Noted.clock] using hpoll
        · intro o ho
          exact .again hc hrefused (hgs o (by simpa [hholds, hover] using ho))

/-- How a wait ends a step. -/
def waited (wait : Wait) : Option PollOutcome → Except Interruption Unit
  | some (.satisfied ..) => .ok ()
  | some (.timedOut ..) => .error (.timedOut wait)
  | none => .error .unfinished

theorem await_apply (fuel : Nat) (clock : Clock W) (wait : Wait) (spec : PollSpec)
    (probe : Probe W) (w : W) : await fuel clock wait spec probe w =
      (waited wait (awaitCondition fuel clock spec probe w).1,
        (awaitCondition fuel clock spec probe w).2) := by
  unfold await
  rcases awaitCondition fuel clock spec probe w with ⟨_ | _ | _, w'⟩ <;> rfl

theorem notes_await {c : Call} (hc : c.isProbe = true) {probe' : Probe (Noted W)}
    {probe : Probe W} (h : Notes (Asking n c) probe' probe) (fuel : Nat) (clock : Clock W)
    (wait : Wait) (spec : PollSpec) :
    Notes (Settles n [c] fun _ _ => True) (await fuel (Noted.clock clock) wait spec probe')
      (await fuel clock wait spec probe) := by
  have hpoll : Notes (fun outcome fs => ∀ o, outcome = some o → Asks n c o.isSatisfied fs)
      (awaitCondition fuel (Noted.clock clock) spec probe')
      (awaitCondition fuel clock spec probe) :=
    fun w es => notes_pollFrom hc h clock spec (clock.now w) fuel 0 w es
  refine hpoll.map (waited wait) (await_apply _ _ _ _ _) (await_apply _ _ _ _ _) ?_
  rintro (_ | _ | _) fs hfs
  · exact .inl rfl
  · exact ⟨.single (hfs _ rfl), trivial⟩
  · refine .inr ⟨c, .single (hfs _ rfl), ?_⟩
    rw [Call.verdict, hc]
    rfl

/-! ### Uploads and faults -/

theorem notes_upload (g : Gateway W) (path : String) (mode : UploadMode) :
    Notes (Settles n [.upload path mode] fun _ _ => True)
      (orElse .upload ((Noted.gateway g).upload path mode))
      (orElse .upload (g.upload path mode)) := by
  refine notes_once (c := .upload path mode) rfl (g.upload path mode) (Except.mapError .upload)
    (orElse_apply _ _) (orElse_apply _ _) ?_
  rintro (_ | _)
  · exact ⟨rfl, rfl⟩
  · exact ⟨rfl, trivial⟩

theorem notes_stop (env : Environment W) (names : List String) :
    Notes (Settles n [.stopContainers names] fun _ _ => True)
      (orElse .faults ((Noted.environment env).stopContainers names))
      (orElse .faults (env.stopContainers names)) := by
  refine notes_once (c := .stopContainers names) rfl (env.stopContainers names)
    (Except.mapError .faults) (orElse_apply _ _) (orElse_apply _ _) ?_
  rintro (_ | _)
  · exact ⟨rfl, rfl⟩
  · exact ⟨rfl, trivial⟩

theorem orElse_stopNodes_cons (env : Environment W) (naming : NodeNaming) (mode : FaultMode)
    (i : Nat) (is : List Nat) : orElse .faults (env.stopNodes naming mode (i :: is)) =
      seq (orElse .faults (env.stopContainers (naming.containersFor i mode)))
        (orElse .faults (env.stopNodes naming mode is)) := by
  funext w
  rw [orElse, Environment.stopNodes, seq, orElse]
  rcases env.stopContainers (naming.containersFor i mode) w with ⟨_ | _, w'⟩ <;> rfl

/-- The containers of one node after the other are stopped, up to the first failure. -/
theorem notes_stopNodes (env : Environment W) (naming : NodeNaming) (mode : FaultMode)
    (is : List Nat) :
    Notes (Settles n (is.map fun i => .stopContainers (naming.containersFor i mode))
        fun _ _ => True)
      (orElse .faults ((Noted.environment env).stopNodes naming mode is))
      (orElse .faults (env.stopNodes naming mode is)) := by
  induction is with
  | nil => exact fun w es => ⟨[], by simp [orElse, Environment.stopNodes], .done, trivial⟩
  | cons i is ih =>
    rw [orElse_stopNodes_cons, orElse_stopNodes_cons]
    exact notes_seq (notes_stop env _) ih

theorem notes_inject (env : Environment W) (s : TrialSettings) (p : TrialParameters) :
    Notes (Settles n ((faultTargets p.faultCount).map fun i =>
        .stopContainers (s.naming.containersFor i s.family.faultMode)) fun _ _ => True)
      (inject (Noted.environment env) s p) (inject env s p) := by
  rw [inject_eq, inject_eq]
  exact notes_stopNodes env _ _ _

/-! ### Measurements -/

/-- The measurement stands in one of the exchanges. -/
def Found (payload : PayloadSpec) (a : TrialStatus × Json) (fs : List Exchange) : Prop :=
  ∃ x ∈ fs, x.measured? payload = some a

theorem countBlocks_apply (g : Gateway W) (payload : PayloadSpec) (description : Option String)
    (depth : Nat) (w : W) : countBlocks g payload description depth w =
      (((g.downloadCount payload.fileCid description depth false w).1.map
          fun r => (countStatus payload r, r.toJson)).mapError .count,
        (g.downloadCount payload.fileCid description depth false w).2) := by
  unfold countBlocks
  rcases g.downloadCount payload.fileCid description depth false w with ⟨_ | _, w'⟩ <;> rfl

theorem notes_countBlocks (g : Gateway W) (payload : PayloadSpec) (description : Option String)
    (depth : Nat) :
    Notes (Settles n [.downloadCount payload.fileCid description depth false] (Found payload))
      (countBlocks (Noted.gateway g) payload description depth)
      (countBlocks g payload description depth) := by
  refine notes_once (c := .downloadCount payload.fileCid description depth false) rfl
    (g.downloadCount payload.fileCid description depth false)
    (fun a => (Except.map (fun r => (countStatus payload r, r.toJson)) a).mapError .count)
    (countBlocks_apply _ _ _ _) (countBlocks_apply _ _ _ _) ?_
  rintro (_ | _)
  · exact ⟨rfl, rfl⟩
  · exact ⟨rfl, _, List.mem_singleton_self _, rfl⟩

theorem measureDownload_apply (g : Gateway W) (payload : PayloadSpec) (depth : Nat) (w : W) :
    measureDownload g payload depth w =
      (((g.downloadCount payload.fileCid (some payload.metaCid) depth true w).1.map
          fun r => (.success, r.toJson)).mapError .download,
        (g.downloadCount payload.fileCid (some payload.metaCid) depth true w).2) := by
  unfold measureDownload
  rcases g.downloadCount payload.fileCid (some payload.metaCid) depth true w with
    ⟨_ | _, w'⟩ <;> rfl

theorem notes_measureDownload (g : Gateway W) (payload : PayloadSpec) (depth : Nat) :
    Notes (Settles n [.downloadCount payload.fileCid (some payload.metaCid) depth true]
        (Found payload))
      (measureDownload (Noted.gateway g) payload depth) (measureDownload g payload depth) := by
  refine notes_once (c := .downloadCount payload.fileCid (some payload.metaCid) depth true) rfl
    (g.downloadCount payload.fileCid (some payload.metaCid) depth true)
    (fun a => (Except.map (fun r : Recovery => (.success, r.toJson)) a).mapError .download)
    (measureDownload_apply _ _ _) (measureDownload_apply _ _ _) ?_
  rintro (_ | _)
  · exact ⟨rfl, rfl⟩
  · exact ⟨rfl, _, List.mem_singleton_self _, rfl⟩

/-- Whatever is answered, the step goes well. -/
theorem notes_trigger (g : Gateway W) (request : RepairRequest) :
    Notes (Settles n [.triggerRepair request] fun _ _ => True)
      (trigger (Noted.gateway g) request) (trigger g request) :=
  notes_once (c := .triggerRepair request) rfl (g.triggerRepair request) (fun _ => .ok ())
    (fun _ => rfl) (fun _ => rfl) fun _ => ⟨rfl, trivial⟩

theorem readMetrics_apply (g : Gateway W) (w : W) : readMetrics g w =
    (((g.fetchMetrics w).1.map fun v => (.success, v)).mapError .metrics,
      (g.fetchMetrics w).2) := by
  unfold readMetrics
  rcases g.fetchMetrics w with ⟨_ | _, w'⟩ <;> rfl

theorem notes_readMetrics (g : Gateway W) (payload : PayloadSpec) :
    Notes (Settles n [.fetchMetrics] (Found payload)) (readMetrics (Noted.gateway g))
      (readMetrics g) := by
  refine notes_once (c := .fetchMetrics) rfl g.fetchMetrics
    (fun a => (Except.map (fun v => (.success, v)) a).mapError .metrics)
    (readMetrics_apply _) (readMetrics_apply _) ?_
  rintro (_ | _)
  · exact ⟨rfl, rfl⟩
  · exact ⟨rfl, _, List.mem_singleton_self _, rfl⟩

end Trial

end FaultSweep
