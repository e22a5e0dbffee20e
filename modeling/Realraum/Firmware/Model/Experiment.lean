import Mathlib.Data.Fin.VecNotation
import Mathlib.Data.Fintype.Basic
/-!
# The firmware — the timer experiment

The transmission of `rf433ctl_timer_consolidation_experiment.pde`: a word of
ternary digits, each of which a table describes by the times its levels end
at, sent by the interrupt routine of timer 2. The counters are bytes.
-/

namespace Realraum

namespace Firmware

/-- `rf_bit_t`. -/
structure RfBit where
  offset : UInt8
  state : UInt8
  deriving DecidableEq

/-- `adbit_t`. -/
inductive AdBit
  | zero
  | one
  | float
  | sync
  deriving DecidableEq

/-- `zero_bit`. -/
def zeroBit : List RfBit := [⟨4, 1⟩, ⟨16, 0⟩, ⟨20, 1⟩, ⟨32, 0⟩, ⟨0, 0⟩]

/-- `one_bit`. -/
def oneBit : List RfBit := [⟨12, 1⟩, ⟨16, 0⟩, ⟨28, 1⟩, ⟨32, 0⟩, ⟨0, 0⟩]

/-- `float_bit`. -/
def floatBit : List RfBit := [⟨4, 1⟩, ⟨16, 0⟩, ⟨28, 1⟩, ⟨32, 0⟩, ⟨0, 0⟩]

/-- `sync_bit`. -/
def syncBit : List RfBit := [⟨4, 1⟩, ⟨128, 0⟩, ⟨0, 0⟩]

/-- `bit_defs`. -/
def bitDefs : AdBit → List RfBit
  | .zero => zeroBit
  | .one => oneBit
  | .float => floatBit
  | .sync => syncBit

/-- `WORD_LEN`. -/
def wordLen : ℕ := 13

/-- `FRAME_LEN`. -/
def frameLen : UInt8 := 8

/-- `word_t`. -/
abbrev Word := Fin wordLen → AdBit

/-- The globals of the transmission, the timer and the RF pin. -/
structure Experiment where
  alphaCnt : UInt8
  bitCnt : UInt8
  chunkCnt : UInt8
  wordCnt : UInt8
  currentWord : Word
  frameFinished : UInt8
  timerRunning : Bool
  /-- The pin is `LOW`. -/
  rfOn : Bool
  deriving DecidableEq

namespace Experiment

/-- As the globals are initialised; `current_word` is not read before
`init_word` sets it. -/
def init : Experiment := ⟨0, 0, 0, 0, fun _ => .zero, 1, false, false⟩

/-- `current_word[bit_cnt]`. -/
def currentBit (e : Experiment) : AdBit :=
  -- a digit of the word, while the timer runs
  if h : e.bitCnt.toNat < wordLen then e.currentWord ⟨e.bitCnt.toNat, h⟩ else .zero

/-- `bit_defs[current_word[bit_cnt]][chunk_cnt]`. -/
def rfBit (e : Experiment) : RfBit := (bitDefs e.currentBit).getD e.chunkCnt.toNat ⟨0, 0⟩

/-- The pin as the table has it. -/
def writePin (e : Experiment) : Experiment := { e with rfOn := e.rfBit.state ≠ 0 }

/-- `init_word`. -/
def initWord (w : Word) (e : Experiment) : Experiment :=
  let e := { e with currentWord := w, alphaCnt := 0, chunkCnt := 0, bitCnt := 0 }
  { e.writePin with timerRunning := true }

/-- `ISR(TIMER2_COMPA_vect)`. -/
def isr (e : Experiment) : Experiment :=
  let e := { e with alphaCnt := e.alphaCnt + 1 }
  if e.alphaCnt < e.rfBit.offset then e
  else
    let e := { e with chunkCnt := e.chunkCnt + 1 }
    if e.rfBit.offset ≠ 0 then e.writePin
    else
      let e := { e with bitCnt := e.bitCnt + 1 }
      if e.bitCnt.toNat < wordLen then writePin { e with alphaCnt := 0, chunkCnt := 0 }
      else
        let e := { e with timerRunning := false, rfOn := false, wordCnt := e.wordCnt + 1 }
        if e.wordCnt < frameLen then e.initWord e.currentWord else { e with frameFinished := 2 }

/-- `send_frame`, which waits for the frame before. -/
def sendFrame (w : Word) (e : Experiment) : Option Experiment :=
  if e.frameFinished = 0 then none
  else some (initWord w { e with wordCnt := 0, frameFinished := 0 })

end Experiment

end Firmware

end Realraum
