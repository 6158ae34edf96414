import Mathlib.Data.List.Basic
import FaultSweep.Rehearsal.Stage

/-!
# Exchanges

A trial makes calls, and each is answered. A bench can be made to note these exchanges, and is the
same bench otherwise: whoever answers the calls, a step does on it what it does without, and adds
the exchanges it had to those that were noted.
-/

namespace FaultSweep

namespace Call

/-- What a call is answered with. -/
abbrev Answer : Call → Type
  | .provision _ => Except Fatal Unit
  | .teardown => Unit
  | .stopContainers _ => Except CommandError Unit
  | .upload .. => Except CommandError Unit
  | .pinStatus _ => Except ProbeError Bool
  | .downloadCount .. => Except CommandError Recovery
  | .triggerRepair _ => Except ProbeError Unit
  | .repairDone => Except ProbeError Bool
  | .fetchMetrics => Except ProbeError Json
  | .countActivePeers => Except ProbeError Nat

/-- Made again and again, until it is answered as it has to be or the time is over. -/
def isProbe : Call → Bool
  | .pinStatus _ => true
  | .repairDone => true
  | .countActivePeers => true
  | _ => false

/-- How a trial ends that does not get the answer it needs. -/
def verdict (c : Call) : TrialStatus := if c.isProbe then .timedOut else .failed

end Call

structure Exchange where
  call : Call
  answer : call.Answer

namespace Exchange

/-- Whether a trial goes on after an answer, if it counts on a number of survivors. It does not
matter how a request to repair is answered. -/
def suits (survivors : Nat) : Exchange → Bool
  | ⟨.provision _, a⟩ => Except.isOk a
  | ⟨.teardown, _⟩ => true
  | ⟨.stopContainers _, a⟩ => Except.isOk a
  | ⟨.upload .., a⟩ => Except.isOk a
  | ⟨.pinStatus _, a⟩ => Probe.holds a
  | ⟨.downloadCount .., a⟩ => Except.isOk a
  | ⟨.triggerRepair _, _⟩ => true
  | ⟨.repairDone, a⟩ => Probe.holds a
  | ⟨.fetchMetrics, a⟩ => Except.isOk a
  | ⟨.countActivePeers, .ok n⟩ => n = survivors
  | ⟨.countActivePeers, .error _⟩ => false

end Exchange

/-- A world and the exchanges noted in it, in order. -/
structure Noted (W : Type) where
  world : W
  exchanges : List Exchange

namespace Noted

variable {W : Type}

/-- Makes a call and notes how it was answered. -/
def ask (c : Call) (act : W → c.Answer × W) (w : Noted W) : c.Answer × Noted W :=
  ((act w.world).1, ⟨(act w.world).2, w.exchanges ++ [⟨c, (act w.world).1⟩]⟩)

def environment (env : Environment W) : Environment (Noted W) where
  provision spec := ask (.provision spec) (env.provision spec)
  teardown w := (ask .teardown (fun v => ((), env.teardown v)) w).2
  stopContainers names := ask (.stopContainers names) (env.stopContainers names)

def gateway (g : Gateway W) : Gateway (Noted W) where
  upload path mode := ask (.upload path mode) (g.upload path mode)
  pinStatus cid := ask (.pinStatus cid) (g.pinStatus cid)
  downloadCount file description depth withMetrics :=
    ask (.downloadCount file description depth withMetrics)
      (g.downloadCount file description depth withMetrics)
  triggerRepair request := ask (.triggerRepair request) (g.triggerRepair request)
  repairDone := ask .repairDone g.repairDone
  fetchMetrics := ask .fetchMetrics g.fetchMetrics
  countActivePeers := ask .countActivePeers g.countActivePeers

def clock (c : Clock W) : Clock (Noted W) where
  now w := c.now w.world
  sleep d w := { w with world := c.sleep d w.world }

end Noted

/-- The same bench, with all exchanges noted. -/
def Bench.noted {W : Type} (b : Bench W) : Bench (Noted W) where
  environment := Noted.environment b.environment
  gateway := Noted.gateway b.gateway
  clock := Noted.clock b.clock
  stamp w := b.stamp w.world

/-- The exchanges over one call: one, or for a probe as many as there are refusals, and one more.
Whether the last of them suits is said in front of them. -/
inductive Asks (survivors : Nat) (c : Call) : Bool → List Exchange → Prop where
  | last (a : c.Answer) : Asks survivors c (Exchange.suits survivors ⟨c, a⟩) [⟨c, a⟩]
  | again {a : c.Answer} {met : Bool} {es : List Exchange} : c.isProbe = true →
      Exchange.suits survivors ⟨c, a⟩ = false → Asks survivors c met es →
      Asks survivors c met (⟨c, a⟩ :: es)

/-- The exchanges over calls that are made in order, up to the first that is not answered as it has
to be. This call is said in front of them. -/
inductive Goes (survivors : Nat) : List Call → Option Call → List Exchange → Prop where
  | done : Goes survivors [] none []
  | ends {c : Call} {cs : List Call} {es : List Exchange} : Asks survivors c false es →
      Goes survivors (c :: cs) (some c) es
  | next {c : Call} {cs : List Call} {end? : Option Call} {es fs : List Exchange} :
      Asks survivors c true es → Goes survivors cs end? fs →
      Goes survivors (c :: cs) end? (es ++ fs)

variable {W α β : Type} {n : Nat}

theorem Asks.call_eq {c : Call} {met : Bool} {es : List Exchange} (h : Asks n c met es) :
    ∀ x ∈ es, x.call = c := by
  induction h with
  | last a =>
    intro x hx
    rw [List.mem_singleton.1 hx]
  | again _ _ _ ih => exact List.forall_mem_cons.2 ⟨rfl, ih⟩

namespace Goes

variable {c : Call} {cs ds : List Call} {end? : Option Call} {es fs : List Exchange}

theorem append_end (h : Goes n cs (some c) es) (ds : List Call) :
    Goes n (cs ++ ds) (some c) es := by
  generalize hend : some c = end? at h
  induction h with
  | done => cases hend
  | ends hasks =>
    exact .ends hasks
  | next hasks _ ih => exact .next hasks (ih hend)

theorem append (h : Goes n cs none es) (h' : Goes n ds end? fs) :
    Goes n (cs ++ ds) end? (es ++ fs) := by
  generalize hend : none = o at h
  induction h with
  | done => exact h'
  | ends => cases hend
  | next hasks _ ih =>
    rw [List.append_assoc]
    exact .next hasks (ih hend)

theorem mem_end (h : Goes n cs (some c) es) : c ∈ cs := by
  generalize hend : some c = end? at h
  induction h with
  | done => cases hend
  | ends => exact Option.some.inj hend ▸ List.mem_cons_self
  | next _ _ ih => exact List.mem_cons_of_mem _ (ih hend)

/-- Only calls of the list are made. -/
theorem call_mem (h : Goes n cs end? es) : ∀ x ∈ es, x.call ∈ cs := by
  induction h with
  | done => exact List.forall_mem_nil _
  | ends hasks =>
    intro x hx
    exact hasks.call_eq x hx ▸ List.mem_cons_self
  | next hasks _ ih =>
    intro x hx
    rcases List.mem_append.1 hx with hx | hx
    · exact hasks.call_eq x hx ▸ List.mem_cons_self
    · exact List.mem_cons_of_mem _ (ih x hx)

theorem single {met : Bool} (h : Asks n c met es) :
    Goes n [c] (if met then none else some c) es := by
  cases met with
  | false => exact .ends h
  | true => simpa using Goes.next h .done

end Goes

/-! ### Calls that were answered as they had to be -/

/-- A call was answered as it had to be. -/
def Met (n : Nat) (fs : List Exchange) (c : Call) : Prop := ∃ x ∈ fs, x.call = c ∧ x.suits n = true

/-- A call was made, and never answered as it had to be. -/
def Unmet (n : Nat) (fs : List Exchange) (c : Call) : Prop :=
  (∃ x ∈ fs, x.call = c) ∧ ∀ x ∈ fs, x.call = c → x.suits n = false

theorem Met.not_unmet {fs : List Exchange} {c : Call} (h : Met n fs c) : ¬Unmet n fs c := by
  obtain ⟨x, hx, hcall, hsuits⟩ := h
  rintro ⟨-, hall⟩
  exact absurd (hall x hx hcall) (by simp [hsuits])

theorem Met.append_left {es : List Exchange} {c : Call} (h : Met n es c) (fs : List Exchange) :
    Met n (es ++ fs) c := by
  obtain ⟨x, hx, hsuits⟩ := h
  exact ⟨x, List.mem_append_left fs hx, hsuits⟩

theorem Met.append_right {fs : List Exchange} {c : Call} (h : Met n fs c) (es : List Exchange) :
    Met n (es ++ fs) c := by
  obtain ⟨x, hx, hsuits⟩ := h
  exact ⟨x, List.mem_append_right es hx, hsuits⟩

theorem unmet_append {es fs : List Exchange} {c : Call} (h : ∀ x ∈ es, x.call ≠ c) :
    Unmet n (es ++ fs) c ↔ Unmet n fs c := by
  constructor
  · rintro ⟨⟨x, hx, hcall⟩, hrefused⟩
    have hx' : x ∈ fs := (List.mem_append.1 hx).resolve_left fun hx => h x hx hcall
    exact ⟨⟨x, hx', hcall⟩, fun y hy => hrefused y (List.mem_append_right _ hy)⟩
  · rintro ⟨⟨x, hx, hcall⟩, hrefused⟩
    refine ⟨⟨x, List.mem_append_right _ hx, hcall⟩, ?_⟩
    intro y hy hcall'
    rcases List.mem_append.1 hy with hy | hy
    · exact absurd hcall' (h y hy)
    · exact hrefused y hy hcall'

theorem Asks.met {c : Call} {es : List Exchange} (h : Asks n c true es) : Met n es c := by
  generalize hmet : true = met at h
  induction h with
  | last a => exact ⟨_, List.mem_singleton_self _, rfl, hmet.symm⟩
  | again _ _ _ ih =>
    obtain ⟨x, hx, hsuits⟩ := ih hmet
    exact ⟨x, List.mem_cons_of_mem _ hx, hsuits⟩

theorem Asks.refused {c : Call} {met : Bool} {es : List Exchange} (h : Asks n c met es)
    (hmet : met = false) : ∀ x ∈ es, x.suits n = false := by
  induction h with
  | last a =>
    intro x hx
    rwa [List.mem_singleton.1 hx]
  | again _ hrefused _ ih => exact List.forall_mem_cons.2 ⟨hrefused, ih hmet⟩

theorem Asks.ne_nil {c : Call} {met : Bool} {es : List Exchange} (h : Asks n c met es) :
    es ≠ [] := by
  cases h <;> simp

/-- A call that is no probe is made once. -/
theorem Asks.eq_of_mem {c : Call} {met : Bool} {es : List Exchange} (h : Asks n c met es)
    (hc : c.isProbe = false) {x y : Exchange} (hx : x ∈ es) (hy : y ∈ es) : x = y := by
  cases h with
  | last a => rw [List.mem_singleton.1 hx, List.mem_singleton.1 hy]
  | again hprobe => exact absurd hprobe (by simp [hc])

namespace Goes

variable {c d : Call} {cs : List Call} {end? : Option Call} {fs : List Exchange}

theorem met (h : Goes n cs none fs) : ∀ c ∈ cs, Met n fs c := by
  generalize hend : none = end? at h
  induction h with
  | done => exact List.forall_mem_nil _
  | ends => cases hend
  | next hasks _ ih =>
    exact List.forall_mem_cons.2
      ⟨hasks.met.append_left _, fun c hc => (ih hend c hc).append_right _⟩

theorem not_unmet (h : Goes n cs none fs) (c : Call) : ¬Unmet n fs c := by
  intro hunmet
  obtain ⟨x, hx, hcall⟩ := hunmet.1
  exact (h.met c (hcall ▸ h.call_mem x hx)).not_unmet hunmet

/-- Where no call comes twice, what comes before the one that ended it all was met, and what comes
after it was not begun. -/
theorem split (h : Goes n cs (some c) fs) (hcs : cs.Nodup) : ∃ ds es, cs = ds ++ c :: es ∧
    (∀ d ∈ ds, Met n fs d) ∧ ∀ d ∈ es, ∀ x ∈ fs, x.call ≠ d := by
  generalize hend : some c = end? at h
  induction h with
  | done => cases hend
  | ends hasks =>
    cases hend
    refine ⟨[], _, rfl, List.forall_mem_nil _, ?_⟩
    rintro d hd x hx rfl
    exact (List.nodup_cons.1 hcs).1 (hasks.call_eq x hx ▸ hd)
  | next hasks _ ih =>
    obtain ⟨hc, hcs⟩ := List.nodup_cons.1 hcs
    obtain ⟨ds, es, rfl, hmet, hlater⟩ := ih hcs hend
    refine ⟨_ :: ds, es, rfl, List.forall_mem_cons.2
      ⟨hasks.met.append_left _, fun d hd => (hmet d hd).append_right _⟩, ?_⟩
    rintro d hd x hx rfl
    rcases List.mem_append.1 hx with hx | hx
    · apply hc
      rw [← hasks.call_eq x hx]
      exact List.mem_append_right _ (List.mem_cons_of_mem _ hd)
    · exact hlater x.call hd x hx rfl

/-- Where no call comes twice, the one that ended it all is the only one that was not met. -/
theorem unmet_iff (h : Goes n cs (some c) fs) (hcs : cs.Nodup) : Unmet n fs d ↔ d = c := by
  generalize hend : some c = end? at h
  induction h with
  | done => cases hend
  | ends hasks =>
    cases hend
    constructor
    · rintro ⟨⟨x, hx, rfl⟩, -⟩
      exact hasks.call_eq x hx
    · rintro rfl
      obtain ⟨x, hx⟩ := List.exists_mem_of_ne_nil _ hasks.ne_nil
      exact ⟨⟨x, hx, hasks.call_eq x hx⟩, fun y hy _ => hasks.refused rfl y hy⟩
  | @next c' cs' _ es fs hasks hgoes ih =>
    obtain ⟨hc', hcs'⟩ := List.nodup_cons.1 hcs
    cases hend
    by_cases hd : d = c'
    -- What was met before is not asked again.
    · subst hd
      have hne : d ≠ c := by
        rintro rfl
        exact hc' hgoes.mem_end
      exact iff_of_false (hasks.met.append_left fs).not_unmet hne
    · rw [← ih hcs' rfl]
      exact unmet_append fun x hx hcall => hd (hcall ▸ hasks.call_eq x hx)

/-- Where no call comes twice, there is one exchange only over each that is no probe. -/
theorem eq_of_call_eq (h : Goes n cs end? fs) (hcs : cs.Nodup) {x y : Exchange} (hx : x ∈ fs)
    (hy : y ∈ fs) (hprobe : x.call.isProbe = false) (hcall : x.call = y.call) : x = y := by
  induction h with
  | done => cases hx
  | ends hasks => exact hasks.eq_of_mem (hasks.call_eq x hx ▸ hprobe) hx hy
  | next hasks hgoes ih =>
    obtain ⟨hc, hcs⟩ := List.nodup_cons.1 hcs
    rcases List.mem_append.1 hx with hx | hx <;> rcases List.mem_append.1 hy with hy | hy
    · exact hasks.eq_of_mem (hasks.call_eq x hx ▸ hprobe) hx hy
    · exact absurd (hasks.call_eq x hx ▸ hcall ▸ hgoes.call_mem y hy) hc
    · exact absurd (hasks.call_eq y hy ▸ hcall ▸ hgoes.call_mem x hx) hc
    · exact ih hcs hx hy

/-- If the last call was answered as it had to be, all were. -/
theorem eq_none_of_met (h : Goes n cs end? fs) (hcs : cs.Nodup) (hlast : cs.getLast? = some c)
    (hmet : Met n fs c) : end? = none := by
  cases end? with
  | none => rfl
  | some d =>
    obtain ⟨ds, es, rfl, -, hlater⟩ := h.split hcs
    rw [List.getLast?_append_cons] at hlast
    rcases List.mem_cons.1 (List.mem_of_getLast? hlast) with rfl | hc
    · exact absurd ((h.unmet_iff hcs).2 rfl) hmet.not_unmet
    · obtain ⟨x, hx, hcall, -⟩ := hmet
      exact absurd hcall (hlater c hc x hx)

end Goes

/-! ### Acts on a noted world -/

/-- An act that does on a noted world what another does on the world, and has exchanges that fit its
result. -/
def Notes (P : α → List Exchange → Prop) (act' : Noted W → α × Noted W) (act : W → α × W) : Prop :=
  ∀ w es, ∃ fs, act' ⟨w, es⟩ = ((act w).1, ⟨(act w).2, es ++ fs⟩) ∧ P (act w).1 fs

namespace Notes

variable {P Q : α → List Exchange → Prop} {act' : Noted W → α × Noted W} {act : W → α × W}

theorem mono (h : Notes P act' act) (hPQ : ∀ a fs, P a fs → Q a fs) : Notes Q act' act := by
  intro w es
  obtain ⟨fs, hact, hfs⟩ := h w es
  exact ⟨fs, hact, hPQ _ _ hfs⟩

theorem ask (c : Call) (act : W → c.Answer × W) :
    Notes (fun a fs => fs = [⟨c, a⟩]) (Noted.ask c act) act :=
  fun _ _ => ⟨_, rfl, rfl⟩

/-- An act whose result is taken for another. -/
theorem map (h : Notes P act' act) (f : α → β) {step' : Noted W → β × Noted W} {step : W → β × W}
    {R : β → List Exchange → Prop} (hstep' : ∀ w, step' w = (f (act' w).1, (act' w).2))
    (hstep : ∀ w, step w = (f (act w).1, (act w).2)) (hR : ∀ a fs, P a fs → R (f a) fs) :
    Notes R step' step := by
  intro w es
  obtain ⟨fs, hact, hfs⟩ := h w es
  refine ⟨fs, ?_, ?_⟩
  · rw [hstep', hact, hstep]
  · rw [hstep]
    exact hR _ _ hfs

end Notes

end FaultSweep
