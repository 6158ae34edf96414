import FaultSweep.Proofs.Trial.Invariants
import FaultSweep.Proofs.Trial.Projection
import FaultSweep.Rehearsal.Stage

/-!
# Metered trials

A bench can be made to keep an account of the time: of what the clock moves on in calls, and of what
is slept. Apart from this it is the same bench. As long as its clock does not come to its last
reading, it moves on by just what is in the account.
-/

namespace FaultSweep

variable {W α : Type}

/-- A world with an account of time. -/
structure Metered (W : Type) where
  world : W
  /-- What the clock moved on in calls. -/
  spent : Nat
  /-- What was to be slept. -/
  slept : Nat

namespace Metered

/-- All of the time that is in the account. -/
def used (w : Metered W) : Nat := w.spent + w.slept

/-- An account that is still empty. -/
def opened (w : W) : Metered W := ⟨w, 0, 0⟩

/-- Makes a call and enters how long it took. -/
def charge (c : Clock W) (act : W → α × W) (w : Metered W) : α × Metered W :=
  ((act w.world).1,
    ⟨(act w.world).2, w.spent + (c.now (act w.world).2 - c.now w.world), w.slept⟩)

def environment (c : Clock W) (env : Environment W) : Environment (Metered W) where
  provision spec := charge c (env.provision spec)
  teardown w := (charge c (fun v => ((), env.teardown v)) w).2
  stopContainers names := charge c (env.stopContainers names)

def gateway (c : Clock W) (g : Gateway W) : Gateway (Metered W) where
  upload path mode := charge c (g.upload path mode)
  pinStatus cid := charge c (g.pinStatus cid)
  downloadCount file description depth withMetrics :=
    charge c (g.downloadCount file description depth withMetrics)
  triggerRepair request := charge c (g.triggerRepair request)
  repairDone := charge c g.repairDone
  fetchMetrics := charge c g.fetchMetrics
  countActivePeers := charge c g.countActivePeers

def clock (c : Clock W) : Clock (Metered W) where
  now w := c.now w.world
  sleep d w := ⟨c.sleep d w.world, w.spent, w.slept + d⟩

end Metered

namespace Bench

/-- The same bench, with an account of the time. -/
def metered (b : Bench W) : Bench (Metered W) where
  environment := Metered.environment b.clock b.environment
  gateway := Metered.gateway b.clock b.gateway
  clock := Metered.clock b.clock
  stamp w := b.stamp w.world

theorem metered_covers (b : Bench W) : b.metered.Covers Metered.world b where
  provision _ _ := rfl
  teardown _ := rfl
  stopContainers _ _ := rfl
  upload _ _ _ := rfl
  pinStatus _ _ := rfl
  downloadCount _ _ _ _ _ := rfl
  triggerRepair _ _ := rfl
  repairDone _ := rfl
  fetchMetrics _ := rfl
  countActivePeers _ := rfl
  now _ := rfl
  sleep _ _ := rfl
  stamp _ := rfl

/-- A bench with a virtual clock, which no call turns back. -/
structure OnVirtualClock (b : Bench W) (reading : W → VirtualClock) : Prop where
  now : ∀ w, b.clock.now w = (reading w).elapsed
  sleep : ∀ d w, reading (b.clock.sleep d w) = (reading w).sleep d
  forward : ∀ n, b.Keeps fun w => n ≤ b.clock.now w ∧ b.clock.now w ≤ VirtualClock.limit

end Bench

namespace Metered

/-- The account is true, unless the clock has come to its last reading since it showed `start`; and
at least `n` has been used. -/
structure Sound (c : Clock W) (start n : Nat) (w : Metered W) : Prop where
  bounded : c.now w.world ≤ VirtualClock.limit
  exact : start + w.used ≤ VirtualClock.limit → c.now w.world = start + w.used
  used : n ≤ w.used

variable {b : Bench W} {reading : W → VirtualClock}

theorem keeping_charge {c : Clock W} {act : W → α × W}
    (h : ∀ n, Keeping (fun w => n ≤ c.now w ∧ c.now w ≤ VirtualClock.limit) act) (start n : Nat) :
    Keeping (Sound c start n) (charge c act) := by
  intro w hw
  obtain ⟨hforward, hbounded⟩ := h (c.now w.world) w.world ⟨le_rfl, hw.bounded⟩
  have hexact := hw.exact
  have hused := hw.used
  refine ⟨hbounded, fun hlimit => ?_, ?_⟩
  · simp only [charge, Metered.used] at hlimit hexact ⊢
    omega
  · simp only [charge, Metered.used] at hused ⊢
    omega

theorem sound_sleep (hb : b.OnVirtualClock reading) {start n : Nat} {w : Metered W}
    (hw : w.Sound b.clock start n) (d : Nat) :
    ((clock b.clock).sleep d w).Sound b.clock start (n + d) := by
  have hnow : b.clock.now (b.clock.sleep d w.world) =
      min VirtualClock.limit (b.clock.now w.world + min VirtualClock.limit d) := by
    rw [hb.now, hb.sleep, hb.now]
    rfl
  have hexact := hw.exact
  have hused := hw.used
  simp only [Metered.used] at hexact hused
  refine ⟨?_, fun hlimit => ?_, ?_⟩
  · simp only [clock, hnow]
    omega
  · simp only [clock, Metered.used] at hlimit ⊢
    rw [hnow]
    omega
  · simp only [clock, Metered.used]
    omega

theorem Sound.mono {c : Clock W} {start m n : Nat} {w : Metered W} (h : w.Sound c start n)
    (hm : m ≤ w.used) : w.Sound c start m :=
  ⟨h.bounded, h.exact, hm⟩

end Metered

namespace Bench

variable {b : Bench W} {reading : W → VirtualClock}

/-- The account stays true, and nothing is taken from it. -/
theorem OnVirtualClock.metered (hb : b.OnVirtualClock reading) (start n : Nat) :
    b.metered.Keeps (Metered.Sound b.clock start n) where
  provision spec := Metered.keeping_charge (fun m => (hb.forward m).provision spec) start n
  teardown :=
    have hteardown : ∀ m, Keeping (fun w => m ≤ b.clock.now w ∧ b.clock.now w ≤ VirtualClock.limit)
        fun w => ((), b.environment.teardown w) := fun m => (hb.forward m).teardown
    Metered.keeping_charge hteardown start n
  stopContainers names :=
    Metered.keeping_charge (fun m => (hb.forward m).stopContainers names) start n
  upload path mode := Metered.keeping_charge (fun m => (hb.forward m).upload path mode) start n
  pinStatus cid := Metered.keeping_charge (fun m => (hb.forward m).pinStatus cid) start n
  downloadCount file description depth withMetrics := Metered.keeping_charge
    (fun m => (hb.forward m).downloadCount file description depth withMetrics) start n
  triggerRepair request :=
    Metered.keeping_charge (fun m => (hb.forward m).triggerRepair request) start n
  repairDone := Metered.keeping_charge (fun m => (hb.forward m).repairDone) start n
  fetchMetrics := Metered.keeping_charge (fun m => (hb.forward m).fetchMetrics) start n
  countActivePeers := Metered.keeping_charge (fun m => (hb.forward m).countActivePeers) start n
  sleep d _ hw :=
    have hslept := Metered.sound_sleep hb hw d
    hslept.mono ((Nat.le_add_right _ _).trans hslept.used)

/-- The same bench, on which sleeping has no effect. -/
def awake (b : Bench W) : Bench W := { b with clock := ⟨b.clock.now, fun _ w => w⟩ }

/-- Calls are no sleep. -/
theorem metered_awake (b : Bench W) (n : Nat) :
    b.metered.awake.Keeps fun w => w.slept = n where
  provision _ _ hw := hw
  teardown _ hw := hw
  stopContainers _ _ hw := hw
  upload _ _ _ hw := hw
  pinStatus _ _ hw := hw
  downloadCount _ _ _ _ _ hw := hw
  triggerRepair _ _ hw := hw
  repairDone _ hw := hw
  fetchMetrics _ hw := hw
  countActivePeers _ hw := hw
  sleep _ _ hw := hw

end Bench

/-- Whoever plays on a stage, its clock is virtual. -/
theorem Stage.onVirtualClock {τ : Type} (cast : Cast τ) :
    (Stage.bench cast).OnVirtualClock Stage.clock where
  now _ := rfl
  sleep _ _ := rfl
  forward n := by
    have hadvance : ∀ (c : VirtualClock) (d : Nat), n ≤ c.elapsed ∧ c.elapsed ≤ VirtualClock.limit →
        n ≤ (c.advance d).elapsed ∧ (c.advance d).elapsed ≤ VirtualClock.limit := by
      intro c d ⟨hforward, hbounded⟩
      exact ⟨hforward.trans (VirtualClock.le_elapsed_advance hbounded d), c.elapsed_advance_le d⟩
    exact ⟨fun _ _ => hadvance _ _, fun _ hw => hw, fun _ _ => hadvance _ _,
      fun _ _ _ => hadvance _ _, fun _ _ => hadvance _ _, fun _ _ _ _ _ => hadvance _ _,
      fun _ _ => hadvance _ _, fun _ => hadvance _ _, fun _ => hadvance _ _,
      fun _ => hadvance _ _, fun _ _ => hadvance _ _⟩

end FaultSweep
