import Mathlib.Algebra.Order.Floor.Div
import FaultSweep.Proofs.Polling

/-!
# How many probes a wait makes

What is left of the time shrinks by the interval with every sleep but the last, which takes all that
is left. So a wait is over after as many sleeps as there are intervals in its timeout, the last of
them cut short, as long as intervals are not empty and the clock moves. That many probes, and the
one at the start, are made if none is answered at once.
-/

namespace FaultSweep

/-- One interval less is left after each sleep, and none after a sleep that is cut short. -/
theorem ceilDiv_sub_min {interval left : Nat} (hinterval : 0 < interval) (hleft : 0 < left) :
    left ⌈/⌉ interval = (left - min interval left) ⌈/⌉ interval + 1 := by
  by_cases hlast : left ≤ interval
  · rw [Nat.min_eq_right hlast, Nat.sub_self, zero_ceilDiv, Nat.ceilDiv_eq_add_pred_div]
    exact (Nat.div_eq_of_lt_le (by omega) (by omega) : (left + interval - 1) / interval = 0 + 1)
  · rw [Nat.min_eq_left (Nat.le_of_not_le hlast), Nat.ceilDiv_eq_add_pred_div,
      Nat.ceilDiv_eq_add_pred_div, ← Nat.add_div_right _ hinterval]
    congr 1
    omega

namespace Course

variable {interval deadline now : Nat} {ps : List Probing}

/-- Probes that are refused in no time leave all of it to the sleeps. -/
theorem length_eq (hinterval : 0 < interval) (h : Course interval deadline now ps)
    (hquiet : ∀ p ∈ ps, p.agrees = false ∧ p.reply.cost = 0) :
    ps.length = (deadline - now) ⌈/⌉ interval + 1 := by
  induction h with
  | @last p h =>
    obtain ⟨hno, hcost⟩ := hquiet p (List.mem_singleton_self p)
    have hover : deadline ≤ p.began := by
      have := h.resolve_left (by simp [hno])
      rwa [Probing.ended, hcost, Nat.add_zero] at this
    rw [Nat.sub_eq_zero_of_le hover, zero_ceilDiv, List.length_singleton]
  | @next p ps _ hearly _ ih =>
    obtain ⟨⟨-, hcost⟩, hrest⟩ := List.forall_mem_cons.1 hquiet
    have hended : p.ended = p.began := by rw [Probing.ended, hcost, Nat.add_zero]
    have hrest := ih hrest
    rw [Nat.sub_add_eq, hended] at hrest
    rw [hended] at hearly
    rw [List.length_cons, hrest, ← ceilDiv_sub_min hinterval (Nat.sub_pos_of_lt hearly)]

theorem begins (h : Course interval deadline now ps) : ∀ p ∈ ps, now ≤ p.began := by
  induction h with
  | last => simp
  | @next p ps _ _ _ ih =>
    refine List.forall_mem_cons.2 ⟨le_rfl, fun q hq => le_trans ?_ (ih q hq)⟩
    rw [Probing.ended, Nat.add_assoc]
    exact Nat.le_add_right _ _

end Course

namespace Inquiry

variable {spec : PollSpec} {start fuel : Nat} {probes : UInt32} {w w' : Inquiry}

end Inquiry

end FaultSweep
