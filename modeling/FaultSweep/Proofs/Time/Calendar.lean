import Mathlib.Tactic.SplitIfs
import FaultSweep.Clock
import FaultSweep.Time.Instant

/-!
# The days of a clock

Day by day the calendar goes from one date that there is to the next, and no year is skipped. The
days that fit on a clock do not reach the last year a date may have.
-/

namespace FaultSweep

namespace Date

theorem one_le_daysIn (year : Int) (month : Nat) : 1 ≤ daysIn year month := by
  unfold daysIn
  split_ifs <;> omega

/-- The next day is not beyond the next year. -/
theorem year_next_le (d : Date) : d.next.year ≤ d.year + 1 := by
  unfold next
  split_ifs <;> dsimp only <;> omega

theorem valid_next {d : Date} (h : d.Valid) (hyear : d.year < lastYear) : d.next.Valid := by
  obtain ⟨hfirst, hlast, hmonth, hmonths, hday, hdays⟩ := h
  unfold next
  split_ifs with hmore hyears
  · exact ⟨hfirst, hlast, hmonth, hmonths, by simp, hmore⟩
  · exact ⟨hfirst, hlast, by simp, hyears, Nat.le_refl _, one_le_daysIn _ _⟩
  · refine ⟨?_, ?_, by simp, by simp, by simp, one_le_daysIn _ _⟩
    · show firstYear ≤ d.year + 1
      omega
    · show d.year + 1 ≤ lastYear
      omega

/-- As many days later as there are years left. -/
theorem valid_repeat_next {d : Date} (h : d.Valid) {n : Nat} (hn : d.year + n ≤ lastYear) :
    (Nat.repeat next n d).Valid ∧ (Nat.repeat next n d).year ≤ d.year + n := by
  induction n with
  | zero => exact ⟨h, by simp [Nat.repeat]⟩
  | succ n ih =>
    obtain ⟨hvalid, hyear⟩ := ih (by omega)
    have hnext := year_next_le (Nat.repeat next n d)
    refine ⟨valid_next hvalid (by omega), ?_⟩
    show (Nat.repeat next n d).next.year ≤ _
    omega

end Date

/-- A clock shows an instant that there is. -/
theorem Instant.valid_afterEpoch {nanos : Nat} (h : nanos ≤ VirtualClock.limit) :
    (Instant.afterEpoch nanos).Valid := by
  have hdays : nanos / 1000000000 / 86400 ≤ 213503 := by
    have hlimit : nanos ≤ 18446744073709551615 := h
    omega
  have hdate : (⟨1970, 1, 1⟩ : Date).Valid := by decide
  refine ⟨(Date.valid_repeat_next hdate ?_).1, ?_, ?_, ?_, ?_⟩
  · show (1970 : Int) + _ ≤ 262142
    omega
  · exact Nat.mod_lt _ (by decide)
  · exact Nat.mod_lt _ (by decide)
  · exact Nat.le_of_lt (Nat.mod_lt _ (by decide))
  · exact Nat.mod_lt _ (by decide)

end FaultSweep
