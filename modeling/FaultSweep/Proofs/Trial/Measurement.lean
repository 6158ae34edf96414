import FaultSweep.Gateway.Client
import FaultSweep.Proofs.Json.Finite
import FaultSweep.Proofs.Json.Reading
import FaultSweep.Trial.Run

/-!
# What a trial can measure

A measurement is a number of blocks or a document that the storage client accepted, and a trial that
ended without one measured nothing. So what is recorded nests no deeper than a text may, and its
numbers are numbers that texts stand for.
-/

namespace FaultSweep

theorem Number.given_of_fits {n : Number} (h : n.Fits) : n.Given :=
  ⟨n.numeral, reread_of_fits h⟩

namespace Json

/-- A value as texts hold it. -/
structure Accepted (v : Json) : Prop where
  depth : v.depth ≤ maxLevels
  given : ∀ n ∈ v.numbers, n.Given
  whole : v.Whole → v.Regular

theorem accepted_of_parse? {text : String} {v : Json} (h : parse? text = some v) : v.Accepted := by
  rw [parse?, Option.bind_eq_some_iff] at h
  obtain ⟨d, hd, hv⟩ := h
  obtain ⟨hdepth, hnumbers⟩ := Document.value?_within d hv
  exact ⟨hdepth, fun n hn => Document.given_ofPieces? hd n (hnumbers n hn),
    Document.regular_of_value? d hv⟩

theorem accepted_null : Json.null.Accepted := by
  refine ⟨Nat.zero_le maxLevels, ?_, ?_⟩
  · intro n hn
    cases hn
  · simp [Regular]

theorem accepted_nat {n : Nat} (h : n < wordBound) : (nat n).Accepted := by
  rw [wordBound] at h
  have hfits : (Number.int n).Fits := ⟨by omega, by omega⟩
  refine ⟨Nat.zero_le maxLevels, ?_, ?_⟩
  · intro k hk
    obtain rfl : k = .int n := by simpa [nat, numbers] using hk
    exact Number.given_of_fits hfits
  · intro _
    rw [nat, Regular]
    exact hfits

/-- Numbers that texts stand for can be written and read again. -/
theorem legible_of_given {v : Json} (h : ∀ n ∈ v.numbers, n.Given) : v.Legible := by
  intro n hn
  obtain ⟨k, hk⟩ := h n hn
  exact Number.isSome_reread_of_value? hk

end Json

namespace StorageClient

variable {σ : Type}

theorem accepted_jsonReply {f : Fetched} {v : Json} (h : jsonReply f = .ok v) : v.Accepted := by
  unfold jsonReply at h
  cases f with
  | failed text => cases h
  | broken status text => cases h
  | answered status body =>
    by_cases hs : isSuccess status = true
    · simp only [if_pos hs] at h
      cases hb : (Utf8.decode? body).bind Json.parse? with
      | none => simp [hb] at h
      | some u =>
        obtain ⟨text, -, hparse⟩ := Option.bind_eq_some_iff.1 hb
        simp only [hb, Except.ok.injEq] at h
        rw [← h]
        exact Json.accepted_of_parse? hparse
    · simp [hs] at h

theorem accepted_parseRecovery {text : String} {withMetrics : Bool} {r : Recovery}
    (h : parseRecovery text withMetrics = .ok r) : r.toJson.Accepted := by
  unfold parseRecovery at h
  cases withMetrics with
  | true =>
    cases hp : Json.parse? text with
    | none => simp [hp] at h
    | some v =>
      simp only [hp, if_true, Except.ok.injEq] at h
      rw [← h]
      exact Json.accepted_of_parse? hp
  | false =>
    cases hu : Decimal.unsigned? wordBound (Text.trim text.toList) with
    | none => simp [hu] at h
    | some n =>
      simp only [hu, Bool.false_eq_true, if_false, Except.ok.injEq] at h
      rw [← h]
      exact Json.accepted_nat (Decimal.lt_of_unsigned? hu)

/-- A download gives a number of blocks or an accepted document. -/
theorem accepted_downloadCount {m : Machine σ} {c : StorageClient} {file : String}
    {description : Option String} {depth : Nat} {withMetrics : Bool} {w w' : World σ}
    {r : Recovery} (h : c.downloadCount m file description depth withMetrics w = (.ok r, w')) :
    r.toJson.Accepted := by
  unfold downloadCount at h
  dsimp only at h
  split at h
  · cases h
  · split at h
    · cases h
    · split at h
      · cases h
      · next text _ r' hr =>
        cases h
        exact accepted_parseRecovery hr

theorem accepted_fetchMetrics {m : Machine σ} {c : StorageClient} {w w' : World σ} {v : Json}
    (h : c.fetchMetrics m w = (.ok v, w')) : v.Accepted :=
  accepted_jsonReply (congrArg Prod.fst h)

end StorageClient

namespace Leg

variable {W α β : Type}

/-- A leg that ends well ended with its last step, in some world. -/
theorem result_reach {l : Leg W α} {phase : TrialPhase} {step : Step W β} {b : β}
    (h : (l.reach phase step).result = .ok b) : ∃ w w', step w = (.ok b, w') := by
  unfold reach at h
  split at h
  · cases h
  · split at h
    · cases h
    · next b' w' hstep =>
      cases h
      exact ⟨l.world, w', hstep⟩

end Leg

namespace Trial

variable {σ : Type} {m : Machine σ} {c : StorageClient}

theorem accepted_countBlocks {payload : PayloadSpec} {description : Option String} {depth : Nat}
    {w w' : World σ} {status : TrialStatus} {v : Json}
    (h : countBlocks (c.gateway m) payload description depth w = (.ok (status, v), w')) :
    v.Accepted := by
  unfold countBlocks at h
  split at h
  · cases h
  · next r w'' hr =>
    cases h
    exact StorageClient.accepted_downloadCount hr

theorem accepted_measureDownload {payload : PayloadSpec} {depth : Nat} {w w' : World σ}
    {status : TrialStatus} {v : Json}
    (h : measureDownload (c.gateway m) payload depth w = (.ok (status, v), w')) : v.Accepted := by
  unfold measureDownload at h
  split at h
  · cases h
  · next r w'' hr =>
    cases h
    exact StorageClient.accepted_downloadCount hr

theorem accepted_readMetrics {w w' : World σ} {status : TrialStatus} {v : Json}
    (h : readMetrics (c.gateway m) w = (.ok (status, v), w')) : v.Accepted := by
  unfold readMetrics at h
  split at h
  · cases h
  · next u w'' hu =>
    cases h
    exact StorageClient.accepted_fetchMetrics hu

/-- What is measured was accepted, whatever the family. -/
theorem accepted_measure {fuel : Nat} {b : Bench (World σ)} (hb : b.gateway = c.gateway m)
    {s : TrialSettings} {p : TrialParameters} {payload : PayloadSpec} {l : Leg (World σ) Unit}
    {status : TrialStatus} {v : Json}
    (h : (measure fuel b s p payload l).result = .ok (status, v)) : v.Accepted := by
  unfold measure at h
  rw [hb] at h
  cases hf : s.family with
  | reliability =>
    simp only [hf] at h
    obtain ⟨w, w', hstep⟩ := Leg.result_reach h
    exact accepted_countBlocks hstep
  | replication =>
    simp only [hf] at h
    obtain ⟨w, w', hstep⟩ := Leg.result_reach h
    exact accepted_countBlocks hstep
  | singleRepair =>
    simp only [hf] at h
    obtain ⟨w, w', hstep⟩ := Leg.result_reach h
    exact accepted_measureDownload hstep
  | collabRepair =>
    simp only [hf] at h
    obtain ⟨w, w', hstep⟩ := Leg.result_reach h
    exact accepted_readMetrics hstep

/-- The measurement of a trial was accepted, and is null if there was none. -/
theorem accepted_run {fuel : Nat} {b : Bench (World σ)} (hb : b.gateway = c.gateway m)
    {s : TrialSettings} {p : TrialParameters} {payload : PayloadSpec} {w w' : World σ}
    {r : TrialRecord} (h : run fuel b s p payload w = (some r, w')) : r.metrics.Accepted := by
  have hrecord : record? (b.stamp w) (b.stamp (perform fuel b s p payload w).world)
      (perform fuel b s p payload w) = some r := congrArg Prod.fst h
  unfold record? at hrecord
  split at hrecord
  · next status v hresult =>
    cases hrecord
    unfold perform at hresult
    split at hresult
    · cases hresult
    · exact accepted_measure hb hresult
  · cases hrecord
  · cases hrecord
    exact Json.accepted_null

/-- The instants of a record are those the bench showed before and after the trial. -/
theorem stamps_run {W : Type} {fuel : Nat} {b : Bench W} {s : TrialSettings} {p : TrialParameters}
    {payload : PayloadSpec} {w w' : W} {r : TrialRecord}
    (h : run fuel b s p payload w = (some r, w')) :
    r.startedAt = b.stamp w ∧ r.finishedAt = b.stamp w' := by
  have hrecord : record? (b.stamp w) (b.stamp (perform fuel b s p payload w).world)
      (perform fuel b s p payload w) = some r := congrArg Prod.fst h
  have hworld : (perform fuel b s p payload w).world = w' := congrArg Prod.snd h
  rw [hworld] at hrecord
  unfold record? at hrecord
  split at hrecord
  · cases hrecord
    exact ⟨rfl, rfl⟩
  · cases hrecord
  · cases hrecord
    exact ⟨rfl, rfl⟩

/-- A record that some trial gives, on a bench whose gateway is a storage client and whose clock
shows instants that there are. -/
def Gives (r : TrialRecord) : Prop :=
  ∃ (σ : Type) (m : Machine σ) (c : StorageClient) (fuel : Nat) (b : Bench (World σ))
    (s : TrialSettings) (p : TrialParameters) (payload : PayloadSpec) (w w' : World σ),
    b.gateway = c.gateway m ∧ (∀ x, (b.stamp x).Valid) ∧ run fuel b s p payload w = (some r, w')

theorem Gives.accepted {r : TrialRecord} (h : Gives r) : r.metrics.Accepted := by
  obtain ⟨σ, m, c, fuel, b, s, p, payload, w, w', hb, -, hrun⟩ := h
  exact accepted_run hb hrun

theorem Gives.timed {r : TrialRecord} (h : Gives r) : r.startedAt.Valid ∧ r.finishedAt.Valid := by
  obtain ⟨σ, m, c, fuel, b, s, p, payload, w, w', -, hstamp, hrun⟩ := h
  obtain ⟨hstart, hfinish⟩ := stamps_run hrun
  rw [hstart, hfinish]
  exact ⟨hstamp w, hstamp w'⟩

end Trial

end FaultSweep
