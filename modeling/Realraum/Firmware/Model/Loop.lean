import Realraum.Common.Reach
import Realraum.Firmware.Model.Transmission
/-!
# The firmware — `loop()`

`loop()` one access to the shared data after another, so that the
interrupt routine can run between any two: the count of transmissions is
loaded in one and stored in another. A `while` that waits is a point that
is left when its condition says so. What only `loop()` uses is done in one
step with the access next to it. The serial port is the bytes that have
come and not been read, those read, and the lines printed.
-/

namespace Realraum

namespace Firmware

/-- A line the loop prints. -/
inductive Output
  | ok
  /-- A sensor's line: the command it echoes, and the reading. -/
  | sensor (command : Char) (reading : List Char)
  | unknownCommand
  | movement
  | panicButton
  deriving DecidableEq

/-- Whether the line answers a command. -/
def Output.isReply : Output → Bool
  | movement => false
  | panicButton => false
  | _ => true

/-! ## The commands -/

/-- The three bytes of an RF code. -/
abbrev RfCode := Fin 3 → UInt8

/-- The commands of `send_rf_cmd`, and their codes. -/
def rfCode : Char → Option RfCode
  | 'A' => some ![0x8a, 0xa0, 0x8a]
  | 'a' => some ![0x8a, 0xa0, 0x2a]
  | 'B' => some ![0xa0, 0xa2, 0xa8]
  | 'b' => some ![0xa0, 0xa2, 0x28]
  | 'C' => some ![0xa2, 0xa0, 0xa8]
  | 'c' => some ![0xa2, 0xa0, 0x28]
  | 'D' => some ![0x8a, 0x88, 0x8a]
  | 'd' => some ![0x8a, 0x88, 0x2a]
  | 'E' => some ![0xa8, 0xa0, 0xa8]
  | 'e' => some ![0xa8, 0xa0, 0x28]
  | 'F' => some ![0xa8, 0xa2, 0xa8]
  | 'f' => some ![0xa8, 0xa2, 0x28]
  | 'G' => some ![0xaa, 0xa0, 0xa8]
  | 'g' => some ![0xaa, 0xa0, 0x28]
  | 'H' => some ![0xaa, 0xa2, 0xa8]
  | 'h' => some ![0xaa, 0xa2, 0x28]
  | 'I' => some ![0x8a, 0x28, 0x8a]
  | 'i' => some ![0x8a, 0x28, 0x2a]
  | 'J' => some ![0x8a, 0xa8, 0x88]
  | 'j' => some ![0x8a, 0xa8, 0x28]
  | 'L' => some ![0xae, 0x2b, 0x30]
  | 'l' => some ![0xae, 0x2b, 0xc0]
  | 'M' => some ![0xae, 0x2e, 0x30]
  | 'm' => some ![0xae, 0x2e, 0xc0]
  | 'N' => some ![0xae, 0x3a, 0x30]
  | 'n' => some ![0xae, 0x3a, 0xc0]
  | 'Z' => some ![0xa2, 0xa2, 0xaa]
  | 'z' => some ![0xa2, 0xa2, 0x2a]
  | _ => none

/-- The commands of `send_yamaha_ir_signal`, and their code bytes. -/
def yamahaCode : Char → Option UInt8
  | '1' => some 0xa8
  | '2' => some 0x68
  | '3' => some 0x18
  | '4' => some 0xe8
  | '5' => some 0x2a
  | '6' => some 0xf0
  | '8' => some 0xaa
  | '9' => some 0xe1
  | '0' => some 0xa1
  | '/' => some 0x48
  | '\\' => some 0x6a
  | '-' => some 0x88
  | '+' => some 0x08
  | ':' => some 0x78
  | '.' => some 0xf8
  | ';' => some 0x58
  | ',' => some 0xd8
  | '_' => some 0x38
  | '#' => some 0x39
  | '"' => some 0x4a
  | '!' => some 0xca
  | '=' => some 0x19
  | '$' => some 0x9a
  | '%' => some 0x1a
  | '(' => some 0xea
  | ')' => some 0xfb
  | _ => none

/-- The code `send_yamaha_ir_signal` hands to `irsend`. -/
def yamahaIrCode (codebyte : UInt8) : UInt32 :=
  (codebyte.toUInt32 <<< 8) ||| (0xff ^^^ codebyte.toUInt32) ||| 0x5ea10000

/-! ## The sensors -/

/-- `IR_SAMPLE_DURATION`. -/
def irSampleDuration : UInt16 := 6000

/-- `IR_TRESHOLD`. -/
def irTreshold : UInt16 := 5900

/-- `PB_TRESHOLD`. -/
def pbTreshold : UInt16 := 1000

/-- The globals of the movement sensors and the panic button. -/
structure Sensors where
  irTime : UInt16
  irCount : UInt16
  irCount2 : UInt16
  pbLastState : Bool
  pbPostthState : Bool
  pbTime : UInt16
  deriving DecidableEq

/-- As the globals are initialised. -/
def Sensors.init : Sensors := ⟨irSampleDuration, 0, 0, false, false, 0⟩

/-- What one pass of `loop()` finds at its pins and sensors. -/
structure Inputs where
  movementPin : Bool
  movementPin2 : Bool
  panicButtonPin : Bool
  reading : List Char

/-- The movement sensors in one pass. -/
def Sensors.movement (i : Inputs) (s : Sensors) : Sensors × List Output :=
  let irTime := s.irTime - 1
  let irCount := s.irCount + if i.movementPin then 1 else 0
  let irCount2 := s.irCount2 + if i.movementPin2 then 1 else 0
  if irTime = 0 then
    ({ s with irTime := irSampleDuration, irCount := 0, irCount2 := 0 },
      if irTreshold ≤ irCount ∨ irTreshold ≤ irCount2 then [.movement] else [])
  else ({ s with irTime := irTime, irCount := irCount, irCount2 := irCount2 }, [])

/-- The panic button in one pass. -/
def Sensors.button (i : Inputs) (s : Sensors) : Sensors × List Output :=
  let pbTime := if s.pbTime < pbTreshold then s.pbTime + 1 else s.pbTime
  if i.panicButtonPin = s.pbLastState ∧ pbTreshold ≤ pbTime then
    if i.panicButtonPin ∧ !s.pbPostthState then
      ({ s with pbTime := pbTime, pbPostthState := true }, [.panicButton])
    else if !i.panicButtonPin then ({ s with pbTime := pbTime, pbPostthState := false }, [])
    else ({ s with pbTime := pbTime }, [])
  else if i.panicButtonPin ≠ s.pbLastState then
    ({ s with pbTime := 0, pbLastState := i.panicButtonPin }, [])
  else ({ s with pbTime := pbTime }, [])

/-! ## The loop -/

/-- Where control is in `loop()`, by the access that comes next. -/
inductive Point
  /-- Between two calls of `loop()`. -/
  | boundary
  /-- `while (rf_num_transmissions_to_acknowledge > 0)`. -/
  | frameTest
  /-- `rf_num_transmissions_to_acknowledge--` loads the count. -/
  | frameLoad
  /-- It stores one less than it has loaded. -/
  | frameStore (loaded : ℤ)
  /-- `Serial.println("Ok")` in `check_frame_done`. -/
  | framePrint
  /-- `if(Serial.available())`. -/
  | serialTest
  /-- A command was read. -/
  | dispatch (command : Char)
  /-- `while (TIMER_RUNNING)` of `serial_read_send_rf_cmd`. -/
  | waitRead
  /-- A byte of the code is read and stored there. -/
  | readByte (chr : Fin 3)
  /-- `while (TIMER_RUNNING)` of `send_rf_cmd`. -/
  | waitSend (sr : RfCode)
  /-- A byte of the code is stored there. -/
  | storeByte (sr : RfCode) (chr : Fin 3)
  /-- `current_state.repeatc=NUM_REPEAT_SIGNAL`. -/
  | arm
  /-- `start_timer()`. -/
  | startTimer
  deriving DecidableEq

/-- **The firmware**: control, the shared data, the sensors, the bytes to
read, the lines and infrared codes sent, the bytes read. -/
structure State where
  point : Point
  radio : Radio
  sensors : Sensors
  rx : List UInt8
  printed : List Output
  irSent : List UInt32
  /-- The bytes read so far. -/
  read : List UInt8
  deriving DecidableEq

/-- Behind `setup()`. -/
def State.init : State := ⟨.boundary, .init, .init, [], [], [], []⟩

/-- `Serial.println`. -/
def State.println (s : State) (o : Output) : State := { s with printed := s.printed ++ [o] }

/-- `(char) Serial.read()`, as the character of its byte. -/
def charOf (b : UInt8) : Char := Char.ofNat b.toNat

/-- The branches of `loop()` for a command. -/
def dispatch (i : Inputs) (command : Char) (s : State) : State :=
  if command = '>' then { s with point := .waitRead }
  else
    match rfCode command with
    | some sr => { s with point := .waitSend sr }
    | none =>
      let s := { s with point := .boundary }
      if command = '*' ∨ command = '?' then s.println (.sensor command i.reading)
      else if command = '^' ∨ command = '&' then s.println .ok
      else
        match yamahaCode command with
        | some codebyte =>
          State.println { s with irSent := s.irSent ++ [yamahaIrCode codebyte] } .ok
        | none => s.println .unknownCommand

/-- The point behind one of the three bytes. -/
def afterByte (next : Fin 3 → Point) (chr : Fin 3) : Point :=
  if chr = 2 then .arm else next (chr + 1)

/-- The next access of `loop()`. -/
def access (i : Inputs) (s : State) : State :=
  match s.point with
  | .boundary =>
    let m := s.sensors.movement i
    let b := m.1.button i
    { s with point := .frameTest, sensors := b.1, printed := s.printed ++ m.2 ++ b.2 }
  | .frameTest =>
    { s with
      point := if 0 < s.radio.numTransmissionsToAcknowledge then .frameLoad else .serialTest }
  | .frameLoad => { s with point := .frameStore s.radio.numTransmissionsToAcknowledge }
  | .frameStore loaded => { s with point := .framePrint, radio := s.radio.acknowledge loaded }
  | .framePrint => State.println { s with point := .frameTest } .ok
  | .serialTest =>
    match s.rx with
    | [] => { s with point := .boundary }
    | b :: rx => { s with point := .dispatch (charOf b), rx := rx, read := s.read ++ [b] }
  | .dispatch command => dispatch i command s
  | .waitRead => if s.radio.timerRunning then s else { s with point := .readByte 0 }
  | .readByte chr =>
    match s.rx with
    | [] => s
    | b :: rx =>
      { s with
        point := afterByte .readByte chr
        rx := rx
        read := s.read ++ [b]
        radio := s.radio.storeByte chr b }
  | .waitSend sr => if s.radio.timerRunning then s else { s with point := .storeByte sr 0 }
  | .storeByte sr chr =>
    { s with point := afterByte (.storeByte sr) chr, radio := s.radio.storeByte chr (sr chr) }
  | .arm => { s with point := .startTimer, radio := s.radio.arm }
  | .startTimer => { s with point := .boundary, radio := s.radio.startTimer }

/-- What happens next: a byte comes, the timer interrupts, or `loop()`
goes on. -/
inductive Act
  | receives (b : UInt8)
  | interrupts
  | goesOn (i : Inputs)

/-- **One step of the firmware.** The timer interrupts while it runs. -/
def step (a : Act) (s : State) : Option State :=
  match a with
  | .receives b => some { s with rx := s.rx ++ [b] }
  | .interrupts => if s.radio.timerRunning then some { s with radio := s.radio.isr } else none
  | .goesOn i => some (access i s)

/-- **The states the firmware reaches.** -/
def Reached (s : State) : Prop := Reach.Run step (fun _ _ => True) .init s

end Firmware

end Realraum
