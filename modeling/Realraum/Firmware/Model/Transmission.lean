import Mathlib.Data.Fin.VecNotation
import Mathlib.Data.Fintype.Basic
import Mathlib.Data.Int.Notation
/-!
# The firmware — the RF transmission

The data that `loop()` shares with the interrupt routine of timer 1, and
the routine. `rf_num_transmissions_to_acknowledge` is a 16-bit `int`.
-/

namespace Realraum

namespace Firmware

/-- `rf_signal`. -/
structure RfSignal where
  durationShortPulse : UInt8
  shortMult : UInt8
  longMult : UInt8
  syncMult : UInt8
  signal : Fin 3 → UInt8
  deriving DecidableEq

/-- `rf_state`. -/
structure RfState where
  atime : UInt8
  bit : UInt8
  repeatc : UInt8
  state : UInt8
  deriving DecidableEq

/-- `RF_SIGNAL_BITS`. -/
def rfSignalBits : ℕ := 24

/-- `NUM_REPEAT_SIGNAL`. -/
def numRepeatSignal : UInt8 := 8

/-- An `int` after an assignment. -/
def toInt (n : ℤ) : ℤ := n.bmod 65536

/-- What `loop()` and the interrupt routine share, and the RF pin. -/
structure Radio where
  currentSignal : RfSignal
  currentState : RfState
  numTransmissionsToAcknowledge : ℤ
  /-- `TIMER_RUNNING`. -/
  timerRunning : Bool
  /-- `RF_ON`. -/
  rfOn : Bool
  deriving DecidableEq

namespace Radio

/-- As the globals are initialised. -/
def init : Radio where
  currentSignal := ⟨6, 1, 3, 31, ![0, 0, 0]⟩
  currentState := ⟨0, 0, 0, 0⟩
  numTransmissionsToAcknowledge := 0
  timerRunning := false
  rfOn := false

/-- `RF_TIME_SHORT`. -/
def rfTimeShort (r : Radio) : UInt8 :=
  r.currentSignal.shortMult * r.currentSignal.durationShortPulse

/-- `RF_TIME_LONG`. -/
def rfTimeLong (r : Radio) : UInt8 :=
  r.currentSignal.longMult * r.currentSignal.durationShortPulse

/-- `RF_TIME_SNYC`. -/
def rfTimeSync (r : Radio) : UInt8 := r.currentSignal.syncMult * r.currentSignal.durationShortPulse

/-- `CURRENT_BIT`, with this index of the current bit. -/
def currentBit (r : Radio) (bit : UInt8) : Bool :=
  let cnt := rfSignalBits - bit.toNat - 1
  -- at most 23, so one of the three bytes
  let byte := if h : cnt / 8 < 3 then r.currentSignal.signal ⟨cnt / 8, h⟩ else 0
  (byte >>> UInt8.ofNat (cnt % 8)) &&& 1 = 1

/-- `ISR(TIMER1_COMPA_vect)`. -/
def isr (r : Radio) : Radio :=
  let st := r.currentState
  if st.state ≠ 0 ∨ st.bit ≠ 0 ∨ st.repeatc ≠ 0 ∨ st.atime ≠ 0 then
    if st.atime ≠ 0 then { r with currentState := { st with atime := st.atime - 1 } }
    else if st.state ≠ 0 then
      -- the end of a pulse: the pause after a sync, or after a bit
      let atime :=
        if st.state = 2 then r.rfTimeSync
        else if r.currentBit st.bit then r.rfTimeShort else r.rfTimeLong
      { r with rfOn := false, currentState := { st with atime := atime, state := 0 } }
    else if st.bit ≠ 0 then
      let bit := st.bit - 1
      let atime := if r.currentBit bit then r.rfTimeLong else r.rfTimeShort
      { r with rfOn := true, currentState := { st with bit := bit, state := 1, atime := atime } }
    else if st.repeatc ≠ 0 then
      { r with
        rfOn := true
        currentState := ⟨r.rfTimeShort, UInt8.ofNat rfSignalBits, st.repeatc - 1, 2⟩ }
    else r
  else
    { r with
      timerRunning := false
      rfOn := false
      numTransmissionsToAcknowledge := toInt (r.numTransmissionsToAcknowledge + 1) }

/-- `current_signal.signal[chr] = b`. -/
def storeByte (r : Radio) (chr : Fin 3) (b : UInt8) : Radio :=
  { r with
    currentSignal :=
      { r.currentSignal with
        signal := fun i => if i = chr then b else r.currentSignal.signal i } }

/-- `current_state.repeatc = NUM_REPEAT_SIGNAL`. -/
def arm (r : Radio) : Radio :=
  { r with currentState := { r.currentState with repeatc := numRepeatSignal } }

/-- `start_timer`. -/
def startTimer (r : Radio) : Radio := { r with timerRunning := true }

/-- The store of `rf_num_transmissions_to_acknowledge--`: one less than was
loaded. -/
def acknowledge (r : Radio) (loaded : ℤ) : Radio :=
  { r with numTransmissionsToAcknowledge := toInt (loaded - 1) }

end Radio

end Firmware

end Realraum
