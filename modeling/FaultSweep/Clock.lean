import FaultSweep.Word

/-!
# Clocks

Time is counted in nanoseconds. The virtual clock moves only when it is told to and stops at the
largest 64-bit number.
-/

namespace FaultSweep

/-- What a program needs of a clock that is part of the world. -/
structure Clock (W : Type) where
  now : W → Nat
  sleep : Nat → W → W

def seconds (n : Nat) : Nat := n * 1000000000

structure VirtualClock where
  elapsed : Nat
  deriving DecidableEq

namespace VirtualClock

/-- The last reading. -/
def limit : Nat := wordBound - 1

def start : VirtualClock := ⟨0⟩

/-- A duration counts up to the limit, and so does the sum. -/
def advance (c : VirtualClock) (duration : Nat) : VirtualClock :=
  ⟨min limit (c.elapsed + min limit duration)⟩

def sleep (c : VirtualClock) (duration : Nat) : VirtualClock := c.advance duration

@[simp] theorem elapsed_advance (c : VirtualClock) (d : Nat) :
    (c.advance d).elapsed = min limit (c.elapsed + min limit d) := rfl

/-- Both limits together are a limit of the exact sum. -/
theorem elapsed_advance_eq (c : VirtualClock) (d : Nat) :
    (c.advance d).elapsed = min limit (c.elapsed + d) := by
  rw [elapsed_advance]
  omega

theorem elapsed_advance_le (c : VirtualClock) (d : Nat) : (c.advance d).elapsed ≤ limit :=
  Nat.min_le_left _ _

theorem le_elapsed_advance {c : VirtualClock} (h : c.elapsed ≤ limit) (d : Nat) :
    c.elapsed ≤ (c.advance d).elapsed := by
  rw [elapsed_advance_eq]
  omega

end VirtualClock

end FaultSweep
