import Realraum.Common.Emission
import Realraum.Firmware.Model.Waveform
/-!
# Helpers — the frames of a transmission

One routine counts four bytes down, one inside the other: the time of a
level, the two levels of a pulse, the bits of a frame, the frames. Each
phase of it shows its levels and ends where the next begins.
-/

namespace Realraum

namespace Firmware

open Emission

variable {r : Radio} {a b c n : ℕ} {on : Bool}

/-- The pin goes through these levels, an interrupt each, while the timer
runs. -/
abbrev Shows : Radio → List Bool → Radio → Prop :=
  Emits Radio.isr Radio.rfOn fun r => r.timerRunning = true

/-- A radio in this phase of its transmission. -/
def Radio.phase (r : Radio) (on : Bool) (atime bit repeatc state : ℕ) : Radio :=
  { r with
    rfOn := on
    currentState :=
      ⟨UInt8.ofNat atime, UInt8.ofNat bit, UInt8.ofNat repeatc, UInt8.ofNat state⟩ }

/-! ## Counting down a byte -/

theorem ofNat_succ_ne_zero (h : n + 1 < 256) : UInt8.ofNat (n + 1) ≠ 0 := by
  intro heq
  have htoNat := congrArg UInt8.toNat heq
  rw [UInt8.toNat_ofNat_of_lt' h] at htoNat
  exact Nat.succ_ne_zero n htoNat

theorem ofNat_succ_sub_one (n : ℕ) : UInt8.ofNat (n + 1) - 1 = UInt8.ofNat n := by
  rw [UInt8.ofNat_add]
  exact UInt8.add_sub_cancel _ _

/-! ## The steps of a phase -/

/-- What the routine does while there is time left. -/
theorem isr_of_atime (h : r.currentState.atime ≠ 0) :
    r.isr =
      { r with currentState := { r.currentState with atime := r.currentState.atime - 1 } } := by
  simp [Radio.isr, h]

/-- At the end of the sync's pulse. -/
theorem isr_of_sync (h : r.currentState.atime = 0) (hstate : r.currentState.state = 2) :
    r.isr =
      { r with
        rfOn := false
        currentState := { r.currentState with atime := r.rfTimeSync, state := 0 } } := by
  simp [Radio.isr, h, hstate]

/-- At the end of a bit's pulse. -/
theorem isr_of_pulse (h : r.currentState.atime = 0) (hstate : r.currentState.state ≠ 0)
    (hsync : r.currentState.state ≠ 2) :
    r.isr =
      { r with
        rfOn := false
        currentState :=
          { r.currentState with
            atime := if r.currentBit r.currentState.bit then r.rfTimeShort else r.rfTimeLong
            state := 0 } } := by
  simp [Radio.isr, h, hstate, hsync]

/-- At the end of a pause, with bits to go. -/
theorem isr_of_bit (h : r.currentState.atime = 0) (hstate : r.currentState.state = 0)
    (hbit : r.currentState.bit ≠ 0) :
    r.isr =
      { r with
        rfOn := true
        currentState :=
          { r.currentState with
            bit := r.currentState.bit - 1
            state := 1
            atime :=
              if r.currentBit (r.currentState.bit - 1) then r.rfTimeLong
              else r.rfTimeShort } } := by
  simp [Radio.isr, h, hstate, hbit]

/-- At the end of a frame, with frames to go. -/
theorem isr_of_repeatc (h : r.currentState.atime = 0) (hstate : r.currentState.state = 0)
    (hbit : r.currentState.bit = 0) (hrepeatc : r.currentState.repeatc ≠ 0) :
    r.isr =
      { r with
        rfOn := true
        currentState :=
          ⟨r.rfTimeShort, UInt8.ofNat rfSignalBits, r.currentState.repeatc - 1, 2⟩ } := by
  simp [Radio.isr, h, hstate, hbit, hrepeatc]

/-- At the end. -/
theorem isr_of_zero (h : r.currentState = ⟨0, 0, 0, 0⟩) :
    r.isr =
      { r with
        timerRunning := false
        rfOn := false
        numTransmissionsToAcknowledge := toInt (r.numTransmissionsToAcknowledge + 1) } := by
  simp [Radio.isr, h]

/-! ## The times and the bits -/

theorem mul_eq_ofNat {x y : UInt8} (h : x.toNat * y.toNat < 256) :
    x * y = UInt8.ofNat (x.toNat * y.toNat) := by
  rw [← UInt8.toNat_inj, UInt8.toNat_mul, UInt8.toNat_ofNat_of_lt' h, Nat.mod_eq_of_lt h]

theorem rfTimeShort_eq (h : r.currentSignal.TimesFit) :
    r.rfTimeShort = UInt8.ofNat r.currentSignal.timeShort := mul_eq_ofNat h.1

theorem rfTimeLong_eq (h : r.currentSignal.TimesFit) :
    r.rfTimeLong = UInt8.ofNat r.currentSignal.timeLong := mul_eq_ofNat h.2.1

theorem rfTimeSync_eq (h : r.currentSignal.TimesFit) :
    r.rfTimeSync = UInt8.ofNat r.currentSignal.timeSync := mul_eq_ofNat h.2.2

theorem shiftRight_and_one (x : UInt8) {j : ℕ} (hj : j < 8) :
    decide ((x >>> UInt8.ofNat j) &&& 1 = 1) = x.toNat.testBit j := by
  have hshift : (UInt8.ofNat j).toNat % 8 = j := by
    rw [UInt8.toNat_ofNat_of_lt' (Nat.lt_trans hj (by decide)), Nat.mod_eq_of_lt hj]
  rw [Nat.testBit_eq_decide_div_mod_eq, decide_eq_decide, ← UInt8.toNat_inj, UInt8.toNat_and,
    UInt8.toNat_shiftRight, hshift, Nat.shiftRight_eq_div_pow]
  exact (congrArg (· = 1) (Nat.and_one_is_mod _)).to_iff

/-- **`CURRENT_BIT` goes through the bits in order**, while the index counts
down. -/
theorem map_currentBit (r : Radio) :
    (List.range 24).reverse.map (fun b => r.currentBit (UInt8.ofNat b)) =
      r.currentSignal.bits := by
  have hbit : ∀ b ∈ (List.range 24).reverse, r.currentBit (UInt8.ofNat b) =
      (if h : (23 - b) / 8 < 3 then r.currentSignal.signal ⟨(23 - b) / 8, h⟩
        else 0).toNat.testBit ((23 - b) % 8) := by
    intro b hb
    have hlt : b < 24 := by simpa using hb
    have hcnt : rfSignalBits - (UInt8.ofNat b).toNat - 1 = 23 - b := by
      rw [UInt8.toNat_ofNat_of_lt' (Nat.lt_trans hlt (by decide)), rfSignalBits]
      omega
    rw [Radio.currentBit, hcnt]
    exact shiftRight_and_one _ (Nat.mod_lt _ (by decide))
  rw [List.map_congr_left hbit]
  rfl

/-! ## The levels of each phase -/

theorem Shows.step {q t : Radio} (hq : q.timerRunning = true) (h : q.isr = t) :
    Shows q [t.rfOn] t := by
  refine Emits.single ?_ h
  exact hq

/-- **A level is held** for as long as the time says. -/
theorem shows_hold (hrun : r.timerRunning = true) (ha : a < 256) (s : ℕ) :
    Shows (r.phase on a b c s) (List.replicate a on) (r.phase on 0 b c s) := by
  refine Emits.held (f := fun a => r.phase on a b c s) fun k hk => ⟨hrun, ?_, rfl⟩
  rw [isr_of_atime (ofNat_succ_ne_zero (by omega))]
  simp only [Radio.phase, ofNat_succ_sub_one]

/-- A pulse: the pin goes on and is held, and goes off and is held. -/
theorem shows_pulse {q : Radio} {x y s : ℕ} (hq : q.timerRunning = true)
    (hrun : r.timerRunning = true) (hx : x < 256) (hy : y < 256)
    (hon : q.isr = r.phase true x b c s)
    (hoff : (r.phase true 0 b c s).isr = r.phase false y b c 0) :
    Shows q (RfSignal.pulse x y) (r.phase false 0 b c 0) := by
  have hstart : Shows q [true] (r.phase true x b c s) := .step hq hon
  have hrun' : (r.phase true 0 b c s).timerRunning = true := hrun
  have hend : Shows (r.phase true 0 b c s) [false] (r.phase false y b c 0) := .step hrun' hoff
  exact (hstart.trans (shows_hold hrun hx s)).trans (hend.trans (shows_hold hrun hy 0))

theorem shows_sync (hfit : r.currentSignal.TimesFit) (hrun : r.timerRunning = true)
    (hc : c + 1 < 256) :
    Shows (r.phase on 0 0 (c + 1) 0)
      (RfSignal.pulse r.currentSignal.timeShort r.currentSignal.timeSync)
      (r.phase false 0 24 c 0) := by
  refine shows_pulse (s := 2) hrun hrun hfit.1 hfit.2.2 ?_ ?_
  · rw [isr_of_repeatc rfl rfl rfl (ofNat_succ_ne_zero hc)]
    simp only [Radio.phase, ofNat_succ_sub_one, ← rfTimeShort_eq hfit]
    rfl
  · rw [isr_of_sync rfl rfl]
    simp only [Radio.phase, ← rfTimeSync_eq hfit]
    rfl

theorem shows_bit (hfit : r.currentSignal.TimesFit) (hrun : r.timerRunning = true)
    (hb : b + 1 < 256) :
    Shows (r.phase on 0 (b + 1) c 0)
      (r.currentSignal.bitPulse (r.currentBit (UInt8.ofNat b))) (r.phase false 0 b c 0) := by
  have hstart : (r.phase on 0 (b + 1) c 0).isr =
      { r with
        rfOn := true
        currentState :=
          ⟨if r.currentBit (UInt8.ofNat b) then r.rfTimeLong else r.rfTimeShort, UInt8.ofNat b,
            UInt8.ofNat c, 1⟩ } := by
    have hdown : (r.phase on 0 (b + 1) c 0).currentState.bit - 1 = UInt8.ofNat b :=
      ofNat_succ_sub_one b
    rw [isr_of_bit rfl rfl (ofNat_succ_ne_zero hb), hdown]
    rfl
  have hend : (r.phase true 0 b c 1).isr =
      { r with
        rfOn := false
        currentState :=
          ⟨if r.currentBit (UInt8.ofNat b) then r.rfTimeShort else r.rfTimeLong, UInt8.ofNat b,
            UInt8.ofNat c, 0⟩ } := by
    rw [isr_of_pulse rfl (by decide : UInt8.ofNat 1 ≠ 0) (by decide : UInt8.ofNat 1 ≠ 2)]
    rfl
  cases hbit : r.currentBit (UInt8.ofNat b) with
  | true =>
      rw [if_pos hbit, rfTimeLong_eq hfit] at hstart
      rw [if_pos hbit, rfTimeShort_eq hfit] at hend
      exact shows_pulse hrun hrun hfit.2.1 hfit.1 hstart hend
  | false =>
      rw [if_neg (by simp [hbit]), rfTimeShort_eq hfit] at hstart
      rw [if_neg (by simp [hbit]), rfTimeLong_eq hfit] at hend
      exact shows_pulse hrun hrun hfit.1 hfit.2.1 hstart hend

/-- **A frame**: the sync, and the bits counted down. -/
theorem shows_frame (hfit : r.currentSignal.TimesFit) (hrun : r.timerRunning = true)
    (hc : c + 1 < 256) :
    Shows (r.phase on 0 0 (c + 1) 0) r.currentSignal.frame (r.phase false 0 0 c 0) := by
  have hbits : Shows (r.phase false 0 24 c 0)
      ((List.range 24).reverse.flatMap fun b =>
        r.currentSignal.bitPulse (r.currentBit (UInt8.ofNat b))) (r.phase false 0 0 c 0) :=
    Emits.countdown (f := fun b => r.phase false 0 b c 0) fun b hb =>
      shows_bit hfit hrun (by omega)
  have hword : ((List.range 24).reverse.flatMap fun b =>
      r.currentSignal.bitPulse (r.currentBit (UInt8.ofNat b))) =
        r.currentSignal.bits.flatMap r.currentSignal.bitPulse := by
    rw [← map_currentBit, List.flatMap_map]
  rw [hword] at hbits
  exact (shows_sync hfit hrun hc).trans hbits

/-- **The frames of a transmission.** -/
theorem shows_frames (hfit : r.currentSignal.TimesFit) (hrun : r.timerRunning = true)
    (hn : n < 256) (on : Bool) :
    ∃ off, Shows (r.phase on 0 0 n 0) (List.replicate n r.currentSignal.frame).flatten
      (r.phase off 0 0 0 0) := by
  cases n with
  | zero => exact ⟨on, .nil _⟩
  | succ n =>
      refine ⟨false, ?_⟩
      rw [List.replicate_succ, List.flatten_cons]
      refine (shows_frame hfit hrun hn).trans ?_
      exact Emits.repeated (f := fun c => r.phase false 0 0 c 0) fun c hc =>
        shows_frame hfit hrun (by omega)

end Firmware

end Realraum
