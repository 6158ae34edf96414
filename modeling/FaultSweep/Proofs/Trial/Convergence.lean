import FaultSweep.Proofs.Gateway.Pins
import FaultSweep.Proofs.Polling
import FaultSweep.Proofs.Trial.Attainment
import FaultSweep.Proofs.Trial.Budget

/-!
# What a trial takes for pinned

A trial that waits for pins goes past the phase `uploaded` only when a probe was answered with yes.
The storage client says yes to a report of at least one peer, all of them with the pin, and also to
a report that names no peer at all. Nothing else takes a trial past its wait.
-/

namespace FaultSweep

variable {W : Type} {b : Bench W}

/-! ### Worlds that come one after the other -/

/-- A world that comes after another on a bench: it has whatever every operation keeps. -/
def Bench.Onward (b : Bench W) (w v : W) : Prop := ∀ I : W → Prop, b.Keeps I → I w → I v

namespace Trial

/-- A wait that is satisfied ends with a probe that was answered with yes. -/
theorem last_probe_of_satisfied {clock : Clock W} {spec : PollSpec} {probe : Probe W}
    {start fuel : Nat} {probes n : UInt32} {t : Nat} {w w' : W}
    (h : pollFrom clock spec probe start fuel probes w = (some (.satisfied n t), w')) :
    ∃ v, (∀ I : W → Prop, (∀ d w, I w → I (clock.sleep d w)) → Keeping I probe → I w → I v) ∧
      probe v = (.ok true, w') := by
  -- Every probe before the last and every sleep keeps what it may keep: `v` is said by this alone.
  induction fuel generalizing probes w with
  | zero => cases h
  | succ fuel ih =>
    rw [pollFrom] at h
    dsimp only at h
    split_ifs at h with hholds hover
    · obtain ⟨-, rfl⟩ := Prod.mk.inj h
      exact ⟨w, fun I _ _ hw => hw, Prod.ext (Probe.holds_iff.1 hholds) rfl⟩
    · cases h
    · obtain ⟨v, hv, hprobe⟩ := ih h
      exact ⟨v, fun I hsleep hkeeps hw => hv I hsleep hkeeps (hsleep _ _ (hkeeps _ hw)), hprobe⟩

theorem last_probe_of_await {clock : Clock W} {wait : Wait} {spec : PollSpec} {probe : Probe W}
    {fuel : Nat} {w w' : W} (h : await fuel clock wait spec probe w = (.ok (), w')) :
    ∃ v, (∀ I : W → Prop, (∀ d w, I w → I (clock.sleep d w)) → Keeping I probe → I w → I v) ∧
      probe v = (.ok true, w') := by
  rw [await_apply] at h
  rcases hpoll : awaitCondition fuel clock spec probe w with ⟨_ | _ | _, w₁⟩
  · rw [hpoll] at h
    cases h
  · rw [hpoll] at h
    obtain ⟨-, rfl⟩ := Prod.mk.inj h
    exact last_probe_of_satisfied hpoll
  · rw [hpoll] at h
    cases h

variable {s : TrialSettings} {p : TrialParameters} {payload : PayloadSpec} {fuel : Nat}

/-- A trial that is past its wait for pins had one of its probes answered with yes. -/
theorem drive_converges (hs : s.family.waitsForPin = true) {w : W}
    (h : TrialPhase.uploaded.rank < (drive fuel b s p payload w).phase.rank) :
    ∃ v v', b.Onward w v ∧ b.gateway.pinStatus payload.metaCid v = (.ok true, v') ∧
      b.Onward v' (drive fuel b s p payload w).world := by
  rcases hupload : b.gateway.upload payload.path (uploadMode s p) w with ⟨e | _, w₁⟩
  · rw [drive_of_failed_upload hupload] at h
    exact absurd h (Nat.not_lt_of_le (Nat.le_succ 1))
  have huploaded : (Leg.mk .provisioned (.ok ()) w).reach .uploaded
      (orElse .upload (b.gateway.upload payload.path (uploadMode s p))) =
        ⟨.uploaded, .ok (), w₁⟩ := by
    simp [Leg.reach, orElse, hupload]
  have hdrive : drive fuel b s p payload w =
      measure fuel b s p payload (disturb fuel b s p (settle fuel b s payload
        ⟨.uploaded, .ok (), w₁⟩)) := by
    rw [← huploaded]
    rfl
  rw [hdrive] at h ⊢
  rcases hawait : await fuel b.clock .pins (s.timings.poll s.timings.pinTimeout)
    (b.gateway.pinStatus payload.metaCid) w₁ with ⟨i | _, v'⟩
  -- A wait that ends otherwise leaves the trial in the phase `uploaded` for good.
  · have hsettle : settle fuel b s payload ⟨.uploaded, .ok (), w₁⟩ =
        ⟨.uploaded, .error i, v'⟩ := by
      simp [settle, hs, Leg.reach, Leg.stay, hawait]
    rw [hsettle, disturb_error, measure_error] at h
    exact absurd h (Nat.lt_irrefl _)
  · have hsettle : settle fuel b s payload ⟨.uploaded, .ok (), w₁⟩ =
        (Leg.mk .pinConverged (.ok ()) v').stay (sleep b.clock s.timings.settle) := by
      simp [settle, hs, Leg.reach, hawait]
    obtain ⟨v, hv, hprobe⟩ := last_probe_of_await hawait
    refine ⟨v, v', fun I hb hw => ?_, hprobe, fun I hb hv' => ?_⟩
    · have hw₁ := hb.upload payload.path (uploadMode s p) w hw
      rw [hupload] at hw₁
      exact hv I hb.sleep (hb.pinStatus _) hw₁
    · rw [hsettle]
      have hsleep : Keeping I (sleep b.clock s.timings.settle) := fun w hw => hb.sleep _ w hw
      exact keeping_measure hb fuel (keeping_disturb hb fuel (Leg.keeping_reach hv' hsleep _))

theorem perform_converges (hs : s.family.waitsForPin = true) {w : W}
    (h : TrialPhase.uploaded.rank < (perform fuel b s p payload w).phase.rank) :
    ∃ v v', b.Onward w v ∧ b.gateway.pinStatus payload.metaCid v = (.ok true, v') ∧
      b.Onward v' (perform fuel b s p payload w).world := by
  unfold perform at h ⊢
  rcases hacquire : b.environment.acquire ⟨p, s.family.community⟩ w with ⟨e | _, w₁⟩
  · rw [hacquire] at h
    exact absurd h (Nat.not_lt_zero _)
  · rw [hacquire] at h
    obtain ⟨v, v', hv, hprobe, hv'⟩ := drive_converges hs h
    refine ⟨v, v', fun I hb hw => ?_, hprobe, fun I hb h => hb.teardown _ (hv' I hb h)⟩
    have hw₁ := keeping_acquire hb ⟨p, s.family.community⟩ w hw
    rw [hacquire] at hw₁
    exact hv I hb hw₁

end Trial

namespace StorageClient

variable {σ : Type}

/-- The verdict on the pins of a file, for every reply. It is yes where the reply reports that at
least one peer has the file and all peers that it names do, and besides where it reports no peer; it
is no where the reply reports another state of some peer; and it is an error where the reply reports
nothing. A trial that is past its wait for pins was given one of the replies for which it is yes. -/
theorem pins_converge_on_report (m : Machine σ) (c : StorageClient) (cid : String) (w : World σ) :
    (∀ peers peers', (c.pinReply m cid w).1.Reports peers →
      (c.pinReply m cid w).1.Reports peers' → peers = peers') ∧
    ((c.pinStatus m cid w).1 = .ok true ↔
      (c.pinReply m cid w).1.Confirms ∨ (c.pinReply m cid w).1.Reports []) ∧
    ((c.pinStatus m cid w).1 = .ok false ↔
      ∃ peers, (c.pinReply m cid w).1.Reports peers ∧ ∃ p ∈ peers, p.2 ≠ "pinned") ∧
    ((∃ e, (c.pinStatus m cid w).1 = .error e) ↔
      ∀ peers, ¬(c.pinReply m cid w).1.Reports peers) ∧
    ∀ (b : Bench (World σ)) fuel (s : TrialSettings) p payload, b.gateway = c.gateway m →
      s.family.waitsForPin = true →
      TrialPhase.uploaded.rank < (Trial.perform fuel b s p payload w).phase.rank →
      ∃ v, b.Onward w v ∧
        b.Onward (c.pinReply m payload.metaCid v).2 (Trial.perform fuel b s p payload w).world ∧
        ((c.pinReply m payload.metaCid v).1.Confirms ∨
          (c.pinReply m payload.metaCid v).1.Reports []) := by
  refine ⟨fun _ _ => reports_unique, c.pinStatus_ok_true_iff m, c.pinStatus_ok_false_iff m,
    c.pinStatus_error_iff m, ?_⟩
  intro b fuel s p payload hgateway hs hphase
  obtain ⟨v, v', hv, hprobe, hv'⟩ := Trial.perform_converges hs hphase
  rw [hgateway] at hprobe
  have hyes : (c.pinStatus m payload.metaCid v).1 = .ok true := congrArg Prod.fst hprobe
  have hafter : (c.pinReply m payload.metaCid v).2 = v' := congrArg Prod.snd hprobe
  rw [← hafter] at hv'
  exact ⟨v, hv, hv', (c.pinStatus_ok_true_iff m).1 hyes⟩

open Trial

/-- A machine whose services answer whatever they are asked with an object without fields. -/
def speechless : Machine Unit := .answering fun _ => .obj []

/-- The bench with these services. -/
def blank : Bench (World Unit) := { quiet .null with gateway := plain.gateway speechless }

theorem reports_speechless (cid : String) (w : World Unit) :
    (plain.pinReply speechless cid w).1.Reports [] := by
  have hreply : (plain.pinReply speechless cid w).1 =
      .answered 200 (Utf8.encode (Json.obj []).pretty) := rfl
  have hregular : (Json.obj []).Regular := by simp [Json.Regular, Json.RegularFields]
  obtain ⟨_, _, ⟨⟩, hlow, hhigh, hbody⟩ :=
    jsonReply_eq_ok_iff.1 (jsonReply_pretty hregular (by decide))
  exact ⟨_, _, _, hreply, hlow, hhigh, hbody, .nobody (.missing (List.forall_mem_nil _))⟩

/-- Ten nodes, none of which is ever reported to have the pin: the trial goes on all the same. -/
theorem wait_ends_without_pins :
    TrialPhase.uploaded.rank <
        (perform 1 blank collaborative .standard sample stillness).phase.rank ∧
      ∃ v, blank.Onward stillness v ∧ (plain.pinReply speechless "meta" v).1.Reports [] ∧
        ¬(plain.pinReply speechless "meta" v).1.Confirms := by
  have hphase : TrialPhase.uploaded.rank <
      (perform 1 blank collaborative .standard sample stillness).phase.rank := by
    decide +kernel
  obtain ⟨-, -, -, -, hrun⟩ := pins_converge_on_report speechless plain "meta" stillness
  obtain ⟨v, hv, -, -⟩ := hrun blank 1 collaborative .standard sample rfl rfl hphase
  refine ⟨hphase, v, hv, reports_speechless "meta" v, ?_⟩
  rintro ⟨peers, hpeers, hreports, -⟩
  exact hpeers (reports_unique hreports (reports_speechless "meta" v))

end StorageClient

end FaultSweep
