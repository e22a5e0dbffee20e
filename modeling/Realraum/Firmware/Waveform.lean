import Realraum.Firmware.Acknowledge
/-!
# The frames of a transmission

The levels of a transmission are those of its frames, one after the other,
and the interrupt behind the last stops the timer. `loop()` starts each
transmission from the state the first frame begins in.
-/

namespace Realraum

namespace Firmware

open Emission

variable {r : Radio}

/-! ## The indices of `CURRENT_BIT` -/

theorem isrReading_fst (r : Radio) : r.isrReading.1 = r.isr := by
  unfold Radio.isrReading Radio.isr
  simp only
  split
  · split
    · rfl
    · split
      · split <;> rfl
      · split
        · rfl
        · split <;> rfl
  · rfl

/-- **The bit is one of 24**, and during its pulse one that was begun. -/
structure Radio.BitInRange (r : Radio) : Prop where
  bit_le : r.currentState.bit.toNat ≤ 24
  bit_lt : r.currentState.state ≠ 0 → r.currentState.state ≠ 2 → r.currentState.bit.toNat < 24

theorem toNat_sub_one {x : UInt8} (h : x ≠ 0) : (x - 1).toNat + 1 = x.toNat := by
  have hpos : x.toNat ≠ 0 := fun heq => h (UInt8.toNat_inj.mp heq)
  have hle : (1 : UInt8) ≤ x := by
    rw [UInt8.le_iff_toNat_le]
    exact Nat.one_le_iff_ne_zero.mpr hpos
  rw [UInt8.toNat_sub_of_le _ _ hle]
  exact Nat.succ_pred_eq_of_ne_zero hpos

theorem currentBitCnt_bounds {bit : UInt8} (h : bit.toNat < 24) :
    0 ≤ currentBitCnt bit ∧ currentBitCnt bit ≤ 23 := by
  rw [currentBitCnt, rfSignalBits]
  omega

/-- **The routine keeps the bit in range**, and evaluates `CURRENT_BIT` for
indices of the three bytes. -/
theorem Radio.BitInRange.isrReading (h : r.BitInRange) :
    r.isrReading.1.BitInRange ∧ ∀ cnt ∈ r.isrReading.2, 0 ≤ cnt ∧ cnt ≤ 23 := by
  have hone : ∀ {bit : UInt8}, bit.toNat < 24 →
      ∀ cnt ∈ [currentBitCnt bit], 0 ≤ cnt ∧ cnt ≤ 23 := by
    intro bit hbit cnt hcnt
    rw [List.mem_singleton.mp hcnt]
    exact currentBitCnt_bounds hbit
  unfold Radio.isrReading
  simp only
  split
  · split
    · exact ⟨⟨h.bit_le, h.bit_lt⟩, by simp⟩
    · split
      · rename_i hstate
        split
        · exact ⟨⟨h.bit_le, fun hne => absurd rfl hne⟩, by simp⟩
        · rename_i hsync
          exact ⟨⟨h.bit_le, fun hne => absurd rfl hne⟩, hone (h.bit_lt hstate hsync)⟩
      · split
        · rename_i hbit
          have hdown := toNat_sub_one hbit
          have hle := h.bit_le
          have hlt : (r.currentState.bit - 1).toNat < 24 := by omega
          exact ⟨⟨Nat.le_of_lt hlt, fun _ _ => hlt⟩, hone hlt⟩
        · split
          · exact ⟨⟨Nat.le_refl 24, fun _ hne => absurd rfl hne⟩, by simp⟩
          · exact ⟨h, by simp⟩
  · exact ⟨⟨h.bit_le, h.bit_lt⟩, by simp⟩

theorem Radio.BitInRange.iterate (h : r.BitInRange) (k : ℕ) : (Radio.isr^[k] r).BitInRange := by
  induction k with
  | zero => exact h
  | succ k ih =>
      rw [Function.iterate_succ_apply', ← isrReading_fst]
      exact ih.isrReading.1

/-! ## Where a transmission starts -/

variable {s t : State}

/-- **Without a transmission everything is counted down**, but for the
repeat count that `send_rf_cmd` has set when it starts the timer. -/
def State.Rests (s : State) : Prop :=
  s.radio.timerRunning = false →
    s.radio.currentState = ⟨0, 0, if s.point = .startTimer then numRepeatSignal else 0, 0⟩

/-- Elsewhere in `loop()` the state of the transmission is left alone. -/
theorem State.Rests.moved (h : s.Rests) (hs : s.point ≠ .startTimer) (ht : t.point ≠ .startTimer)
    (hstate : t.radio.currentState = s.radio.currentState)
    (hrun : t.radio.timerRunning = s.radio.timerRunning) : t.Rests := by
  intro hidle
  rw [hrun] at hidle
  rw [hstate, h hidle, if_neg hs, if_neg ht]

theorem afterByte_ne {next : Fin 3 → Point} (hnext : ∀ chr, next chr ≠ .startTimer)
    (chr : Fin 3) : afterByte next chr ≠ .startTimer := by
  unfold afterByte
  split
  · exact nofun
  · exact hnext _

theorem State.Rests.access (h : s.Rests) (i : Inputs) : (Firmware.access i s).Rests := by
  unfold Firmware.access
  split
  all_goals
    rename_i hp
    have hs : ∀ p, s.point = p → p ≠ .startTimer → s.point ≠ .startTimer :=
      fun p heq hne => heq ▸ hne
  · exact h.moved (hs _ hp nofun) nofun rfl rfl
  · refine h.moved (hs _ hp nofun) ?_ rfl rfl
    show (if _ then Point.frameLoad else .serialTest) ≠ _
    split <;> exact nofun
  · exact h.moved (hs _ hp nofun) nofun rfl rfl
  · exact h.moved (hs _ hp nofun) nofun rfl rfl
  · exact h.moved (hs _ hp nofun) nofun rfl rfl
  · split
    · exact h.moved (hs _ hp nofun) nofun rfl rfl
    · exact h.moved (hs _ hp nofun) nofun rfl rfl
  · rename_i command
    obtain ⟨-, heq⟩ | ⟨-, ⟨sr, heq⟩ | ⟨o, irSent, -, heq⟩⟩ := dispatch_cases i command s
    all_goals
      rw [heq]
      exact h.moved (hs _ hp nofun) nofun rfl rfl
  · split
    · exact h
    · exact h.moved (hs _ hp nofun) nofun rfl rfl
  · rename_i chr
    split
    · exact h
    · have hnext : ∀ chr, Point.readByte chr ≠ .startTimer := fun _ => nofun
      exact h.moved (hs _ hp nofun) (afterByte_ne hnext chr) rfl rfl
  · split
    · exact h
    · exact h.moved (hs _ hp nofun) nofun rfl rfl
  · rename_i sr chr
    have hnext : ∀ chr, Point.storeByte sr chr ≠ .startTimer := fun _ => nofun
    exact h.moved (hs _ hp nofun) (afterByte_ne hnext chr) rfl rfl
  · intro hidle
    have hzero := h hidle
    rw [if_neg (hs _ hp nofun)] at hzero
    show { s.radio.currentState with repeatc := numRepeatSignal } = _
    rw [hzero]
    rfl
  · intro hidle
    cases hidle

/-- The routine stops the timer with everything counted down. -/
theorem isr_of_stopped (hrun : r.timerRunning = true) (hstop : r.isr.timerRunning = false) :
    r.isr.currentState = ⟨0, 0, 0, 0⟩ := by
  have hkeeps : ∀ {q : Radio}, r.isr = q → q.timerRunning = r.timerRunning → False :=
    fun heq hq => by
      rw [heq, hq, hrun] at hstop
      cases hstop
  by_cases hatime : r.currentState.atime = 0
  · by_cases hstate : r.currentState.state = 0
    · by_cases hbit : r.currentState.bit = 0
      · by_cases hrepeatc : r.currentState.repeatc = 0
        · have hzero : r.currentState = ⟨0, 0, 0, 0⟩ :=
            calc r.currentState = ⟨r.currentState.atime, r.currentState.bit,
                  r.currentState.repeatc, r.currentState.state⟩ := rfl
              _ = ⟨0, 0, 0, 0⟩ := by rw [hatime, hbit, hrepeatc, hstate]
          rw [isr_of_zero hzero]
          exact hzero
        · exact (hkeeps (isr_of_repeatc hatime hstate hbit hrepeatc) rfl).elim
      · exact (hkeeps (isr_of_bit hatime hstate hbit) rfl).elim
    · by_cases hsync : r.currentState.state = 2
      · exact (hkeeps (isr_of_sync hatime hsync) rfl).elim
      · exact (hkeeps (isr_of_pulse hatime hstate hsync) rfl).elim
  · exact (hkeeps (isr_of_atime hatime) rfl).elim

/-- **Every step keeps it**: the routine stops the timer with everything
counted down. -/
theorem State.Rests.step (h : s.Rests) (hinv : Inv s) {a : Act}
    (hstep : Firmware.step a s = some t) : t.Rests := by
  cases a with
  | receives b =>
      cases hstep
      exact h
  | interrupts =>
      rw [Firmware.step] at hstep
      split at hstep
      · rename_i hrun
        cases hstep
        have hpoint : s.point ≠ .startTimer := fun hp => by
          rw [hinv.quiet (by rw [hp]; rfl)] at hrun
          cases hrun
        intro hidle
        show s.radio.isr.currentState = ⟨0, 0, if s.point = .startTimer then _ else _, 0⟩
        rw [if_neg hpoint]
        exact isr_of_stopped hrun hidle
      · cases hstep
  | goesOn i =>
      cases hstep
      exact h.access i

/-- **Where the firmware starts the timer** the state is the one a
transmission begins with, and fewer than two others are to be
acknowledged. -/
theorem reached_startTimer (h : Reached s) (hp : s.point = .startTimer) :
    s.radio.startTimer.currentState = ⟨0, 0, numRepeatSignal, 0⟩ ∧
      s.radio.startTimer.timerRunning = true ∧ s.radio.numTransmissionsToAcknowledge ≤ 1 := by
  have hrests : s.Rests :=
    h.invariant (fun _ => rfl) fun _ _ _ hu hrests _ ht => hrests.step (Reached.inv hu) ht
  have hbound := h.inv.bound
  have hquiet := h.inv.quiet (by rw [hp]; rfl)
  rw [hp] at hbound
  refine ⟨?_, rfl, ?_⟩
  · show s.radio.currentState = _
    rw [hrests hquiet, if_pos hp]
  · have hrun := s.radio.running_nonneg
    simp only [Point.limit] at hbound
    omega

/-! ## The result -/

/-- **A transmission is its frames.** From the state that `send_rf_cmd` sets
up with any repeat count: the levels of the pin are those of so many frames,
one interrupt after the other while the timer runs, and the next interrupt
stops the timer with the pin off, everything counted down and one
transmission more to acknowledge, as long as the `int` can count it.
`CURRENT_BIT` is evaluated for one of the 24 bits only. -/
theorem transmission_frames {repeatc : UInt8} (hfit : r.currentSignal.TimesFit)
    (hstate : r.currentState = ⟨0, 0, repeatc, 0⟩) (hrun : r.timerRunning = true) :
    let w := (List.replicate repeatc.toNat r.currentSignal.frame).flatten
    (List.range w.length).map (fun k => (Radio.isr^[k + 1] r).rfOn) = w ∧
      (∀ k ≤ w.length, (Radio.isr^[k] r).timerRunning = true) ∧
      Radio.isr^[w.length + 1] r =
        { r with
          currentState := ⟨0, 0, 0, 0⟩
          rfOn := false
          timerRunning := false
          numTransmissionsToAcknowledge := toInt (r.numTransmissionsToAcknowledge + 1) } ∧
      (0 ≤ r.numTransmissionsToAcknowledge → r.numTransmissionsToAcknowledge < 32767 →
        (Radio.isr^[w.length + 1] r).numTransmissionsToAcknowledge =
          r.numTransmissionsToAcknowledge + 1) ∧
      ∀ k, ∀ cnt ∈ (Radio.isr^[k] r).isrReading.2, 0 ≤ cnt ∧ cnt ≤ 23 := by
  intro w
  have hphase : r = r.phase r.rfOn 0 0 repeatc.toNat 0 := by
    rw [Radio.phase, UInt8.ofNat_toNat]
    exact congrArg (fun st => { r with currentState := st }) hstate
  obtain ⟨off, hshows⟩ := shows_frames hfit hrun (UInt8.toNat_lt repeatc) r.rfOn
  rw [← hphase] at hshows
  obtain ⟨hend, hword, hbefore⟩ := hshows.eq_iterate
  have hlast : Radio.isr^[w.length] r = r.phase off 0 0 0 0 := hend.symm
  have hstop : Radio.isr^[w.length + 1] r =
      { r with
        currentState := ⟨0, 0, 0, 0⟩
        rfOn := false
        timerRunning := false
        numTransmissionsToAcknowledge := toInt (r.numTransmissionsToAcknowledge + 1) } := by
    rw [Function.iterate_succ_apply', hlast, isr_of_zero rfl]
    rfl
  refine ⟨hword.symm, fun k hk => ?_, hstop, fun hnonneg hlt => ?_, fun k => ?_⟩
  · rcases Nat.lt_or_eq_of_le hk with hlt | rfl
    · exact hbefore k hlt
    · rw [hlast]
      exact hrun
  · rw [hstop]
    exact toInt_eq (by omega) (by omega)
  · have hrange : r.BitInRange :=
      ⟨by rw [hstate]; exact Nat.zero_le _, fun hne => absurd (by rw [hstate]) hne⟩
    exact (hrange.iterate k).isrReading.2

/-- **One frame of zeros**, at the times the signal is initialised with:
818 interrupts, and the one that stops the timer. -/
theorem transmission_frames_once :
    let r : Radio := { Radio.init with currentState := ⟨0, 0, 1, 0⟩, timerRunning := true }
    Radio.isr^[819] r = { Radio.init with numTransmissionsToAcknowledge := 1 } := by
  intro r
  obtain ⟨-, -, hstop, -, -⟩ := @transmission_frames r 1 (by decide) rfl rfl
  have hlength : (List.replicate (1 : UInt8).toNat r.currentSignal.frame).flatten.length = 818 := by
    decide +kernel
  rw [hlength] at hstop
  rw [hstop]
  rfl

end Firmware

end Realraum
