import FaultSweep.Proofs.Ledger.RoundTrip
import FaultSweep.Proofs.Trial.Measurement

/-!
# What can be measured is measured by some trial

A trial that waits for a repair records whatever document the repair leaves. So every document that
a text may hold, down to the deepest, comes into a record.
-/

namespace FaultSweep

namespace Json

/-- An empty array inside `n` others. -/
def nested : Nat → Json
  | 0 => .arr []
  | n + 1 => .arr [nested n]

theorem regular_nested (n : Nat) : (nested n).Regular := by
  induction n with
  | zero => simp [nested, Regular, RegularItems]
  | succ n ih => simp [nested, Regular, RegularItems, ih]

theorem depth_nested (n : Nat) : (nested n).depth = n + 1 := by
  induction n with
  | zero => simp [nested, depthItems]
  | succ n ih => simp [nested, depthItems, ih]

end Json

/-- A machine on which every program ends well after two seconds, and every request is answered with
a document after one. -/
def Machine.answering (reply : String → Json) : Machine Unit where
  launch _ _ d s := (.ok ⟨some 0, .empty, .empty⟩, d, s)
  launchCost _ _ _ _ := seconds 2
  fetch r s := (.answered 200 (Utf8.encode (reply r.url).pretty), s)
  fetchCost _ _ := seconds 1

namespace StorageClient

theorem jsonReply_pretty {v : Json} (h : v.Regular) (hd : v.depth ≤ Json.maxLevels) :
    jsonReply (.answered 200 (Utf8.encode v.pretty)) = .ok v := by
  have hparse : Json.parse? v.pretty = some v := by
    rw [Json.parse?, Json.Document.parse?_pretty, Option.bind_some]
    exact Json.Document.value?_regular v h Json.maxLevels hd
  have hsuccess : isSuccess 200 = true := by decide
  simp [jsonReply, hsuccess, Utf8.decode?_encode, hparse]

theorem getJson_answering {reply : String → Json} {url : String} {v : Json} (hurl : reply url = v)
    (h : v.Regular) (hd : v.depth ≤ Json.maxLevels) (w : World Unit) :
    ∃ w', getJson (.answering reply) url w = (.ok v, w') := by
  subst hurl
  have hreply := jsonReply_pretty h hd
  refine ⟨(w.fetch (.answering reply) ⟨.get, url, none⟩).2, ?_⟩
  exact congrArg (·, (w.fetch (.answering reply) ⟨.get, url, none⟩).2) hreply

/-- A client whose places are called after what they serve. -/
def plain : StorageClient :=
  ⟨⟨["storage"], none⟩, "", ⟨"control", "repair", "cluster", 1⟩⟩

end StorageClient

/-- A step that ends well from every world reaches its phase. -/
theorem Leg.reach_ok {W α β : Type} {l : Leg W α} {p : TrialPhase} {step : Step W β} {a : α}
    {b : β} (hl : l.result = .ok a) (h : ∀ w, ∃ w', step w = (.ok b, w')) :
    ∃ w', l.reach p step = ⟨p, .ok b, w'⟩ := by
  obtain ⟨w', hstep⟩ := h l.world
  refine ⟨w', ?_⟩
  rw [reach, hl]
  dsimp only
  rw [hstep]

namespace Trial

theorem await_ok {W : Type} {c : Clock W} {k : Wait} {s : PollSpec} {probe : Probe W}
    (h : ∀ w, ∃ w', probe w = (.ok true, w')) (w : W) :
    ∃ w', await 1 c k s probe w = (.ok (), w') := by
  obtain ⟨w', hprobe⟩ := h w
  refine ⟨w', ?_⟩
  simp [await, awaitCondition, pollFrom, hprobe, Probe.holds]

/-- What the services answer once a repair is done that left `v`: no peer lacks the pin, none is
expected, and the repair is done. -/
def repaired (v : Json) (url : String) : Json :=
  if url = "control/metrics" then v else if url = "control/done" then .bool true else .arr []

/-- A bench on which containers come and go as they are told, at the beginning of 1970. -/
def quiet (v : Json) : Bench (World Unit) where
  environment := ⟨fun _ w => (.ok (), w), id, fun _ w => (.ok (), w)⟩
  gateway := StorageClient.plain.gateway (.answering (repaired v))
  clock := World.clockOf
  stamp _ := .afterEpoch 0

def collaborative : TrialSettings := ⟨.collabRepair, .standard, .standard, .standard⟩

/-- No node, so that no peer is expected. -/
def nobody : TrialParameters := { TrialParameters.standard with nodeCount := 0 }

def sample : PayloadSpec := ⟨"sample", "file", "meta", none⟩

def stillness : World Unit := ⟨(), ⟨.empty, [], fun _ => none, 0⟩, .start, []⟩

theorem quiet_upload (v : Json) (w : World Unit) : ∃ w',
    orElse .upload ((quiet v).gateway.upload sample.path (uploadMode collaborative nobody)) w =
      (.ok (), w') :=
  ⟨_, rfl⟩

/-- A request that the services answer. -/
theorem quiet_get {v u : Json} {url : String} (hurl : repaired v url = u) (h : u.Regular)
    (hd : u.depth ≤ Json.maxLevels) (w : World Unit) : ∃ w',
      StorageClient.getJson (.answering (repaired v)) url w = (.ok u, w') :=
  StorageClient.getJson_answering hurl h hd w

theorem quiet_pins (v : Json) (w : World Unit) :
    ∃ w', (quiet v).gateway.pinStatus sample.metaCid w = (.ok true, w') := by
  have hurl : repaired v "cluster/pins/meta" = .arr [] := rfl
  obtain ⟨w', hget⟩ := quiet_get hurl (Json.regular_nested 0) (by decide) w
  have hstatus : (quiet v).gateway.pinStatus sample.metaCid w =
      ((StorageClient.getJson (.answering (repaired v)) "cluster/pins/meta" w).1.bind
          StorageClient.pinned,
        (StorageClient.getJson (.answering (repaired v)) "cluster/pins/meta" w).2) := rfl
  rw [hstatus, hget]
  exact ⟨w', rfl⟩

theorem quiet_peers (v : Json) (w : World Unit) :
    ∃ w', peersProbe (quiet v).gateway nobody.survivors w = (.ok true, w') := by
  have hurl : repaired v "control/peers" = .arr [] := rfl
  obtain ⟨w', hget⟩ := quiet_get hurl (Json.regular_nested 0) (by decide) w
  have hcount : (quiet v).gateway.countActivePeers w =
      ((StorageClient.getJson (.answering (repaired v)) "control/peers" w).1.bind
          StorageClient.peerCount,
        (StorageClient.getJson (.answering (repaired v)) "control/peers" w).2) := rfl
  rw [peersProbe, hcount, hget]
  exact ⟨w', rfl⟩

theorem quiet_done (v : Json) (w : World Unit) :
    ∃ w', (quiet v).gateway.repairDone w = (.ok true, w') := by
  have hurl : repaired v "control/done" = .bool true := rfl
  obtain ⟨w', hget⟩ := quiet_get hurl (by simp [Json.Regular]) (by decide) w
  have hdone : (quiet v).gateway.repairDone w =
      ((StorageClient.getJson (.answering (repaired v)) "control/done" w).1.map
          StorageClient.isTrue,
        (StorageClient.getJson (.answering (repaired v)) "control/done" w).2) := rfl
  rw [hdone, hget]
  exact ⟨w', rfl⟩

theorem quiet_metrics {v : Json} (h : v.Regular) (hd : v.depth ≤ Json.maxLevels) (w : World Unit) :
    ∃ w', readMetrics (quiet v).gateway w = (.ok (.success, v), w') := by
  have hurl : repaired v "control/metrics" = v := rfl
  obtain ⟨w', hget⟩ := quiet_get hurl h hd w
  have hfetch : (quiet v).gateway.fetchMetrics w =
      StorageClient.getJson (.answering (repaired v)) "control/metrics" w := rfl
  rw [readMetrics, hfetch, hget]
  exact ⟨w', rfl⟩

theorem quiet_settle (v : Json) (phase : TrialPhase) (w : World Unit) :
    ∃ w', settle 1 (quiet v) collaborative sample ⟨phase, .ok (), w⟩ =
      ⟨.pinConverged, .ok (), w'⟩ := by
  obtain ⟨w₁, hpins⟩ := Leg.reach_ok (l := ⟨phase, .ok (), w⟩) (p := .pinConverged) rfl
    (await_ok (c := (quiet v).clock) (k := .pins)
      (s := collaborative.timings.poll collaborative.timings.pinTimeout) (quiet_pins v))
  refine ⟨(quiet v).clock.sleep (seconds collaborative.timings.settle) w₁, ?_⟩
  have hwaits : collaborative.family.waitsForPin = true := rfl
  rw [settle, if_pos hwaits, hpins]
  rfl

theorem quiet_disturb (v : Json) (phase : TrialPhase) (w : World Unit) :
    ∃ w', disturb 1 (quiet v) collaborative nobody ⟨phase, .ok (), w⟩ =
      ⟨.peersConverged, .ok (), w'⟩ := by
  obtain ⟨w₁, hpeers⟩ := Leg.reach_ok (l := ⟨.faulted, .ok (), w⟩) (p := .peersConverged) rfl
    (await_ok (c := (quiet v).clock) (k := .peers)
      (s := collaborative.timings.poll collaborative.timings.discoveryTimeout) (quiet_peers v))
  exact ⟨w₁, hpeers⟩

theorem quiet_measure {v : Json} (h : v.Regular) (hd : v.depth ≤ Json.maxLevels)
    (phase : TrialPhase) (w : World Unit) :
    ∃ w', measure 1 (quiet v) collaborative nobody sample ⟨phase, .ok (), w⟩ =
      ⟨.completed, .ok (.success, v), w'⟩ := by
  obtain ⟨w₁, hdone⟩ := Leg.reach_ok
    (l := ⟨.operationTriggered, .ok (),
      (trigger (quiet v).gateway (repairRequest nobody sample) w).2⟩)
    (p := .operationTriggered) rfl (await_ok (c := (quiet v).clock) (k := .repair)
      (s := collaborative.timings.poll collaborative.timings.repairTimeout) (quiet_done v))
  obtain ⟨w₂, hmetrics⟩ := Leg.reach_ok (l := ⟨.operationTriggered, .ok (), w₁⟩) (p := .completed)
    rfl (quiet_metrics h hd)
  refine ⟨w₂, ?_⟩
  rw [← hmetrics, ← hdone]
  rfl

/-- A document of whole numbers that nests no deeper than a text may is measured by a trial. -/
theorem gives_of_regular {v : Json} (h : v.Regular) (hd : v.depth ≤ Json.maxLevels) :
    ∃ r, Gives r ∧ r.status = .success ∧ r.metrics = v := by
  have hdrive : ∃ w', drive 1 (quiet v) collaborative nobody sample stillness =
      ⟨.completed, .ok (.success, v), w'⟩ := by
    obtain ⟨w₁, hupload⟩ := Leg.reach_ok (l := ⟨.provisioned, .ok (), stillness⟩) (p := .uploaded)
      rfl (quiet_upload v)
    obtain ⟨w₂, hsettle⟩ := quiet_settle v .uploaded w₁
    obtain ⟨w₃, hdisturb⟩ := quiet_disturb v .pinConverged w₂
    obtain ⟨w₄, hmeasure⟩ := quiet_measure h hd .peersConverged w₃
    refine ⟨w₄, ?_⟩
    rw [drive, hupload, hsettle, hdisturb, hmeasure]
  obtain ⟨w', hdrive⟩ := hdrive
  have hrun : run 1 (quiet v) collaborative nobody sample stillness =
      (some ⟨.success, .afterEpoch 0, .afterEpoch 0, .completed, v, none⟩, w') := by
    have hacquire : (quiet v).environment.acquire ⟨nobody, collaborative.family.community⟩
        stillness = (.ok (), stillness) := rfl
    rw [run, perform, hacquire]
    dsimp only
    rw [hdrive]
    rfl
  refine ⟨_, ⟨Unit, _, StorageClient.plain, 1, quiet v, collaborative, nobody, sample, stillness,
    w', rfl, ?_, hrun⟩, rfl, rfl⟩
  intro x
  have hepoch : (Instant.afterEpoch 0).Valid := by decide
  exact hepoch

end Trial

end FaultSweep
