import Realraum.Firmware.Model.Transmission
/-!
# The firmware — what a transmission looks like

The form of a transmission as the comment at `rf_signal` has it, in levels
of the pin, one for each interrupt of the timer, and the interrupt routine
with the indices it evaluates `CURRENT_BIT` for.
-/

namespace Realraum

namespace Firmware

/-! ## The indices of `CURRENT_BIT` -/

/-- `CURRENT_BIT_CNT`, an `int`. -/
def currentBitCnt (bit : UInt8) : ℤ := rfSignalBits - bit.toNat - 1

/-- `ISR(TIMER1_COMPA_vect)`, with every `CURRENT_BIT_CNT` for which
`CURRENT_BIT` is evaluated on the way. -/
def Radio.isrReading (r : Radio) : Radio × List ℤ :=
  let st := r.currentState
  if st.state ≠ 0 ∨ st.bit ≠ 0 ∨ st.repeatc ≠ 0 ∨ st.atime ≠ 0 then
    if st.atime ≠ 0 then ({ r with currentState := { st with atime := st.atime - 1 } }, [])
    else if st.state ≠ 0 then
      if st.state = 2 then
        ({ r with
          rfOn := false
          currentState := { st with atime := r.rfTimeSync, state := 0 } }, [])
      else
        let atime := if r.currentBit st.bit then r.rfTimeShort else r.rfTimeLong
        ({ r with rfOn := false, currentState := { st with atime := atime, state := 0 } },
          [currentBitCnt st.bit])
    else if st.bit ≠ 0 then
      let bit := st.bit - 1
      let atime := if r.currentBit bit then r.rfTimeLong else r.rfTimeShort
      ({ r with rfOn := true, currentState := { st with bit := bit, state := 1, atime := atime } },
        [currentBitCnt bit])
    else if st.repeatc ≠ 0 then
      ({ r with
        rfOn := true
        currentState := ⟨r.rfTimeShort, UInt8.ofNat rfSignalBits, st.repeatc - 1, 2⟩ }, [])
    else (r, [])
  else
    ({ r with
      timerRunning := false
      rfOn := false
      numTransmissionsToAcknowledge := toInt (r.numTransmissionsToAcknowledge + 1) }, [])

/-! ## The levels of the pin -/

namespace RfSignal

variable (s : RfSignal)

/-- The product that `RF_TIME_SHORT` is. -/
def timeShort : ℕ := s.shortMult.toNat * s.durationShortPulse.toNat

/-- The product that `RF_TIME_LONG` is. -/
def timeLong : ℕ := s.longMult.toNat * s.durationShortPulse.toNat

/-- The product that `RF_TIME_SNYC` is. -/
def timeSync : ℕ := s.syncMult.toNat * s.durationShortPulse.toNat

/-- **The times fit a byte.** -/
def TimesFit : Prop := s.timeShort < 256 ∧ s.timeLong < 256 ∧ s.timeSync < 256

instance : Decidable s.TimesFit := inferInstanceAs (Decidable (_ ∧ _ ∧ _))

/-- The 24 bits in the order they are sent: of each byte the lowest
first. -/
def bits : List Bool :=
  (List.finRange 3).flatMap fun i => (List.range 8).map fun j => (s.signal i).toNat.testBit j

/-- The pin is on for `on + 1` interrupts and off for `off + 1`. -/
def pulse (on off : ℕ) : List Bool :=
  List.replicate (on + 1) true ++ List.replicate (off + 1) false

/-- A bit: long and short for 1, short and long for 0. -/
def bitPulse (bit : Bool) : List Bool :=
  if bit then pulse s.timeLong s.timeShort else pulse s.timeShort s.timeLong

/-- **A frame**: the sync, and the bits. -/
def frame : List Bool := pulse s.timeShort s.timeSync ++ s.bits.flatMap s.bitPulse

end RfSignal

end Firmware

end Realraum
