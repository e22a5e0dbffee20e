import Mathlib.Data.List.Induction
import Mathlib.Tactic.Ring
import Realraum.Firmware.Model.Light
/-!
# How the light level follows the readings

`updateLightLevel` takes the distance of a reading from the mean in unsigned
arithmetic, where a fall by a little is a distance of nearly 65536. So the
mean follows a rise by at most 100 by a tenth of it, and is set to any other
reading at once (`mean_update`), also to one that is only a little lower.
-/

namespace Realraum

namespace Firmware

open LightLevel

variable {s : LightLevel} {mean value mean' : ℕ}

/-! ## One reading -/

/-- The macro does nothing to an `unsigned int`. -/
theorem arduinoAbs_eq (x : UInt16) : arduinoAbs x = x := by
  rw [arduinoAbs]
  split
  · rfl
  · rename_i h
    obtain rfl : x = 0 := by
      rw [← UInt16.toNat_inj]
      exact Nat.eq_zero_of_not_pos h
    rfl

/-- The expression is the mean and a tenth of the rise. -/
theorem toNat_blend {m v : UInt16} (hle : m.toNat ≤ v.toNat) :
    (blend m v).toNat = m.toNat + (v.toNat - m.toNat) / 10 := by
  have hexact : (m.toNat : ℚ) * (90 / 100) + (v.toNat : ℚ) * (10 / 100) =
      ((9 * m.toNat + v.toNat : ℕ) : ℚ) / (10 : ℕ) := by
    push_cast
    ring
  have hlt := v.toNat_lt
  rw [blend, hexact, Rat.natFloor_natCast_div_natCast, UInt16.toNat_ofNat_of_lt']
  · omega
  · show _ < 65536
    omega

theorem toNat_reading (reading : Reading) : (UInt16.ofNat reading).toNat = reading := by
  rw [UInt16.toNat_ofNat_of_lt']
  exact Nat.lt_trans reading.isLt (by decide)

/-- **The new mean**: after a rise by at most 100 the mean and a tenth of
the rise, else the reading. -/
theorem mean_update {reading : Reading} (hs : s.Samples) (hmean : s.lightLevelMean.toNat < 1024) :
    (s.update reading).lightLevelMean.toNat =
      if s.lightLevelMean.toNat ≤ reading ∧ reading ≤ s.lightLevelMean.toNat + 100 then
        s.lightLevelMean.toNat + (reading - s.lightLevelMean.toNat) / 10
      else reading := by
  have hreading := toNat_reading reading
  have hlt := reading.isLt
  rw [update, if_neg hs]
  dsimp only
  split
  · rename_i heq
    rw [← heq, hreading, if_pos ⟨Nat.le_refl _, Nat.le_add_right _ _⟩, Nat.sub_self]
    rfl
  · rw [arduinoAbs_eq]
    by_cases hle : s.lightLevelMean.toNat ≤ reading
    · have hdiff : (UInt16.ofNat reading - s.lightLevelMean).toNat =
          reading - s.lightLevelMean.toNat := by
        rw [UInt16.toNat_sub_of_le, hreading]
        rwa [UInt16.le_iff_toNat_le, hreading]
      by_cases hnear : reading ≤ s.lightLevelMean.toNat + 100
      · rw [if_neg, if_pos ⟨hle, hnear⟩, toNat_blend, hreading]
        · rwa [hreading]
        · rw [UInt16.lt_iff_toNat_lt, hdiff]
          show ¬ 100 < _
          omega
      · rw [if_pos, if_neg fun h => hnear h.2, hreading]
        rw [UInt16.lt_iff_toNat_lt, hdiff]
        show 100 < _
        omega
    · -- the difference wraps, and is larger than any reading
      have hdiff : (UInt16.ofNat reading - s.lightLevelMean).toNat =
          65536 - (s.lightLevelMean.toNat - reading) := by
        rw [UInt16.toNat_sub, hreading]
        omega
      rw [if_pos, if_neg fun h => hle h.1, hreading]
      rw [UInt16.lt_iff_toNat_lt, hdiff]
      show 100 < _
      omega

/-- **The mean follows the reading**: one at a distance of at most 100 by at
most 10 and not past it, and it jumps to one that is farther away only. -/
structure Follows (mean value mean' : ℕ) : Prop where
  near : |(value : ℤ) - mean| ≤ 100 → |(mean' : ℤ) - mean| ≤ 10 ∧
    (mean ≤ value → mean' ≤ value) ∧ (value ≤ mean → value ≤ mean')
  jumps : mean' = value → mean ≠ value → 100 < |(value : ℤ) - mean|

/-- The reading is below the mean, by at most 100. -/
def FallsNear (mean value : ℕ) : Prop := value < mean ∧ mean ≤ value + 100

/-- **A call follows its reading if and only if that is not a little below
the mean.** -/
theorem follows_update_iff {reading : Reading} (hs : s.Samples)
    (hmean : s.lightLevelMean.toNat < 1024) :
    Follows s.lightLevelMean.toNat reading (s.update reading).lightLevelMean.toNat ↔
      ¬ FallsNear s.lightLevelMean.toNat reading := by
  rw [mean_update hs hmean, FallsNear]
  constructor
  · rintro ⟨-, hjumps⟩ ⟨hlt, hle⟩
    rw [if_neg fun h => absurd h.1 (Nat.not_le.mpr hlt)] at hjumps
    have hfar := hjumps rfl (Nat.ne_of_gt hlt)
    rw [lt_abs] at hfar
    omega
  · intro hnot
    split
    · rename_i hrise
      refine ⟨fun _ => ⟨?_, fun _ => by omega, fun _ => by omega⟩, fun heq hne => by omega⟩
      rw [abs_le]
      omega
    · refine ⟨fun hnear => ?_, fun _ hne => ?_⟩
      · rw [abs_le] at hnear
        omega
      · rw [lt_abs]
        omega

/-! ## Any number of calls -/

theorem after_append (readings : List Reading) (reading : Reading) :
    after (readings ++ [reading]) = (after readings).update reading := by
  rw [after, List.foldl_append]
  rfl

/-- The mean stays in the range of the readings. -/
theorem mean_after_lt (readings : List Reading) : (after readings).lightLevelMean.toNat < 1024 := by
  induction readings using List.reverseRecOn with
  | nil => decide
  | append_singleton readings reading ih =>
      rw [after_append]
      by_cases hs : (after readings).Samples
      · have hlt := reading.isLt
        rw [mean_update hs ih]
        split
        · omega
        · exact hlt
      · rw [update, if_pos (not_not.mp hs)]
        exact ih

/-- A mean that stays follows any reading. -/
theorem follows_self (mean value : ℕ) : Follows mean value mean where
  near _ := ⟨by rw [sub_self, abs_zero]; decide, fun h => h, fun h => h⟩
  jumps heq hne := absurd heq hne

/-- **When the mean follows its readings.** For all calls of
`updateLightLevel` from the start on: the mean follows every reading if and
only if none that a call takes is below the mean by 1 to 100. -/
theorem mean_follows_iff (readings : List Reading) :
    (∀ past (reading : Reading), past ++ [reading] <+: readings →
      Follows (after past).lightLevelMean.toNat reading
        (after (past ++ [reading])).lightLevelMean.toNat) ↔
    ∀ past (reading : Reading), past ++ [reading] <+: readings → (after past).Samples →
      ¬ FallsNear (after past).lightLevelMean.toNat reading := by
  refine forall₃_congr fun past reading _ => ?_
  rw [after_append]
  by_cases hs : (after past).Samples
  · rw [follows_update_iff hs (mean_after_lt past)]
    exact ⟨fun h _ => h, fun h => h hs⟩
  · have hidle : ((after past).update reading).lightLevelMean = (after past).lightLevelMean := by
      rw [update, if_pos (not_not.mp hs)]
    rw [hidle]
    exact iff_of_true (follows_self _ _) fun h => absurd h hs

/-- A reading that is passed over is only counted. -/
theorem foldl_update_idle (reading : Reading) (n : ℕ) (s : LightLevel)
    (hn : s.lightSampleTime.toNat + n < 4000) :
    (List.replicate n reading).foldl (fun s reading => s.update reading) s =
      { s with lightSampleTime := s.lightSampleTime + UInt16.ofNat n } := by
  induction n generalizing s with
  | zero => exact congrArg (LightLevel.mk s.lightLevelMean) (UInt16.add_zero _).symm
  | succ n ih =>
      have hone : (s.lightSampleTime + 1).toNat = s.lightSampleTime.toNat + 1 := by
        rw [UInt16.toNat_add]
        exact Nat.mod_eq_of_lt (by simp; omega)
      have hidle : s.lightSampleTime + 1 < photoSampleInterval := by
        rw [UInt16.lt_iff_toNat_lt, hone]
        show _ < 4000
        omega
      rw [List.replicate_succ, List.foldl_cons, update, if_pos hidle, ih _ (by simp [hone]; omega),
        Nat.add_comm n 1, UInt16.ofNat_add, UInt16.add_assoc]
      rfl

/-- **A reading 50 below the mean** is taken over at once. -/
theorem mean_follows_fails :
    let past : List Reading := List.replicate 4000 500 ++ List.replicate 3999 450
    (after past).Samples ∧ (after past).lightLevelMean = 500 ∧
      (after (past ++ [450])).lightLevelMean = 450 ∧ ¬ Follows 500 450 450 := by
  intro past
  have hfirst : after (List.replicate 4000 500) = ⟨500, 0⟩ := by
    have hidle : after (List.replicate 3999 500) = ⟨0, 3999⟩ :=
      foldl_update_idle 500 3999 .init (by decide)
    rw [show List.replicate 4000 (500 : Reading) = List.replicate 3999 500 ++ [500] from
      List.replicate_succ' .., after_append, hidle]
    decide
  have hpast : after past = ⟨500, 3999⟩ := by
    rw [after, List.foldl_append]
    show (List.replicate 3999 450).foldl _ (after _) = _
    rw [hfirst, foldl_update_idle 450 3999 ⟨500, 0⟩ (by decide)]
    rfl
  rw [after_append, hpast]
  refine ⟨by decide, rfl, by decide, fun h => ?_⟩
  exact absurd (h.jumps rfl (by decide)) (by decide)

end Firmware

end Realraum
