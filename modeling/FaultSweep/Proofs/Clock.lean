import Mathlib.Algebra.Ring.Nat
import Mathlib.Data.List.Chain
import Mathlib.Data.List.Infix
import FaultSweep.Clock

/-!
# Sums of durations

A virtual clock is moved on by durations of any length, each cut to a word before it is added, and
each sum is cut again. All these cuts come to one cut of the exact sum of the durations, as what a
cut takes away is never missed: a clock that has stopped stays where it is. So only the sum of the
durations counts for the last reading, not their order, and no reading is less than one before it.
-/

namespace FaultSweep.VirtualClock

/-- The ways to move a clock on. -/
inductive Move where
  | advance (duration : Nat)
  | sleep (duration : Nat)
  deriving DecidableEq

def Move.duration : Move → Nat
  | advance d => d
  | sleep d => d

def moved (c : VirtualClock) : Move → VirtualClock
  | .advance d => c.advance d
  | .sleep d => c.sleep d

def after (c : VirtualClock) (moves : List Move) : VirtualClock := moves.foldl moved c

/-- What a clock shows at first and after each of the moves. -/
def readings (c : VirtualClock) : List Move → List Nat
  | [] => [c.elapsed]
  | m :: moves => c.elapsed :: (c.moved m).readings moves

theorem start_le : start.elapsed ≤ limit := Nat.zero_le _

theorem moved_eq_advance (c : VirtualClock) (m : Move) : c.moved m = c.advance m.duration := by
  cases m with
  | advance d => rfl
  | sleep d => rfl

theorem elapsed_moved_le (c : VirtualClock) (m : Move) : (c.moved m).elapsed ≤ limit := by
  rw [moved_eq_advance]
  exact c.elapsed_advance_le m.duration

variable {c : VirtualClock}

theorem elapsed_after (h : c.elapsed ≤ limit) (moves : List Move) :
    (c.after moves).elapsed = min limit (c.elapsed + (moves.map Move.duration).sum) := by
  induction moves generalizing c with
  | nil => exact (Nat.min_eq_right h).symm
  | cons m moves ih =>
    rw [List.map_cons, List.sum_cons]
    calc (c.after (m :: moves)).elapsed
        = min limit ((c.moved m).elapsed + (moves.map Move.duration).sum) :=
          ih (c.elapsed_moved_le m)
      _ = min limit (min limit (c.elapsed + m.duration) + (moves.map Move.duration).sum) := by
          rw [moved_eq_advance, elapsed_advance_eq]
      _ = min limit (c.elapsed + (m.duration + (moves.map Move.duration).sum)) := by
          -- If the inner sum is cut, the outer one is as well, as durations are not negative.
          omega

theorem readings_eq (c : VirtualClock) (moves : List Move) :
    c.readings moves = moves.inits.map fun made => (c.after made).elapsed := by
  induction moves generalizing c with
  | nil => rfl
  | cons m moves ih =>
    rw [readings, ih, List.inits_cons, List.map_cons, List.map_map]
    rfl

theorem head?_readings (c : VirtualClock) (moves : List Move) :
    (c.readings moves).head? = some c.elapsed := by
  cases moves with
  | nil => rfl
  | cons m moves => rfl

theorem isChain_readings (h : c.elapsed ≤ limit) (moves : List Move) :
    (c.readings moves).IsChain (· ≤ ·) := by
  induction moves generalizing c with
  | nil => exact .singleton _
  | cons m moves ih =>
    refine List.isChain_cons.2 ⟨fun reading hreading => ?_, ih (c.elapsed_moved_le m)⟩
    obtain rfl : (c.moved m).elapsed = reading := by
      rwa [head?_readings, Option.mem_some_iff] at hreading
    rw [moved_eq_advance]
    exact le_elapsed_advance h m.duration

/-- From its start on a clock shows, after each move, the sum of the durations so far, or its limit
if that is less. It is not turned back, and the order of the moves makes no difference to what it
shows in the end. -/
theorem adds_up_and_is_not_turned_back (moves : List Move) :
    (start.after moves).elapsed = min limit (moves.map Move.duration).sum ∧
    start.readings moves = moves.inits.map (fun made => min limit (made.map Move.duration).sum) ∧
    (start.readings moves).Pairwise (· ≤ ·) ∧
    ∀ moves', moves.Perm moves' →
      (start.after moves').elapsed = (start.after moves).elapsed := by
  have hsum : ∀ made : List Move,
      (start.after made).elapsed = min limit (made.map Move.duration).sum := by
    intro made
    rw [elapsed_after start_le, show start.elapsed = 0 from rfl, Nat.zero_add]
  refine ⟨hsum moves, ?_, List.isChain_iff_pairwise.1 (isChain_readings start_le moves), ?_⟩
  · rw [readings_eq]
    simp only [hsum]
  · intro moves' hmoves
    rw [hsum, hsum, (hmoves.map Move.duration).sum_nat]

/-- The longest duration there is, in the midst of short ones. -/
def overrun : List Move := [.advance 3, .sleep (seconds limit + 999999999), .advance 0, .sleep 5]

theorem overrun_stops_clock : overrun.Perm overrun.reverse ∧
    start.readings overrun = [0, 3, limit, limit, limit] ∧
    (start.after overrun.reverse).elapsed = limit := by
  have hmoves : overrun.Perm overrun.reverse := (List.reverse_perm overrun).symm
  obtain ⟨hlast, hreadings, -, horder⟩ := adds_up_and_is_not_turned_back overrun
  exact ⟨hmoves, hreadings.trans (by decide),
    (horder _ hmoves).trans (hlast.trans (by decide))⟩

end FaultSweep.VirtualClock
