import Mathlib.Data.Int.Notation
import Mathlib.Data.Nat.Notation
/-!
# A counter that divides a clock

A counter is stepped by every tick and starts over when it reaches its
period. From zero it then counts the ticks modulo the period, and it starts
over at just the ticks the period divides.
-/

namespace Realraum

namespace Divider

variable {period : ℤ}

/-- **One tick**: the counter behind it, and whether it started over. -/
def tick (period count : ℤ) : ℤ × Bool :=
  if period ≤ count + 1 then (0, true) else (count + 1, false)

/-- The counter behind `t` ticks. -/
def countAt (period : ℤ) (t : ℕ) : ℤ := t % period

theorem countAt_zero (period : ℤ) : countAt period 0 = 0 := by
  rw [countAt, Int.natCast_zero, Int.zero_emod]

theorem countAt_nonneg (h : 0 < period) (t : ℕ) : 0 ≤ countAt period t :=
  Int.emod_nonneg _ (by omega)

theorem countAt_lt (h : 0 < period) (t : ℕ) : countAt period t < period := Int.emod_lt_of_pos _ h

/-- **The counter counts modulo the period**, and starts over where the
period divides the number of ticks. -/
theorem tick_countAt (h : 0 < period) (t : ℕ) :
    tick period (countAt period t) = (countAt period (t + 1), decide (period ∣ (t + 1 : ℕ))) := by
  have hnonneg := countAt_nonneg h t
  have hlt := countAt_lt h t
  have hnext : countAt period (t + 1) = (countAt period t + 1) % period := by
    rw [countAt, countAt, Int.natCast_succ, Int.emod_add_emod]
  rw [tick]
  split
  · -- the counter was the period's last
    rename_i hle
    have hzero : countAt period (t + 1) = 0 := by
      rw [hnext, show countAt period t + 1 = period by omega, Int.emod_self]
    rw [hzero, decide_eq_true (Int.dvd_of_emod_eq_zero hzero)]
  · rename_i hle
    have hsame : countAt period (t + 1) = countAt period t + 1 := by
      rw [hnext, Int.emod_eq_of_lt (by omega) (by omega)]
    have hndvd : ¬ period ∣ (t + 1 : ℕ) := fun hdvd => by
      have hzero : countAt period (t + 1) = 0 := Int.emod_eq_zero_of_dvd hdvd
      omega
    rw [hsame, decide_eq_false hndvd]

end Divider

end Realraum
