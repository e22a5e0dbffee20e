import Realraum.Daemon.Model.Options
import Realraum.Common.Reach
/-!
# The serial console — `sample_sensors.c`

The client that feeds the round robin databases. The buffer is all of its
1024 bytes, with whatever the stack held where nothing was received yet.
One round of the loop is what `select` and `recv` give and what the clock
says; a round whose bytes do not fit where `recv` was told to put them is
none the kernel makes. `asprintf` has memory here, and the number `open`
gives for the text file is an input, counted by the line it is for.
-/

namespace Realraum

namespace Console

open Daemon (CStr ascii cstring startsWith linefeed atoi)

/-- `rrd_temp_`. -/
def rrdTemp : CStr := ascii "/home/sensortemp.rrd"

/-- `rrd_light_`. -/
def rrdLight : CStr := ascii "/home/sensorlight.rrd"

/-- `txt_temp_`. -/
def txtTemp : CStr := ascii "/home/sensortemp.txt"

/-- `txt_light_`. -/
def txtLight : CStr := ascii "/home/sensorlight.txt"

/-- `rrd_movement_`. -/
def rrdMovement : CStr := ascii "/home/sensormovement.rrd"

/-- `sample_interval_s_`. -/
def sampleInterval : ℤ := 30

/-! ## Numbers -/

/-- `%d`. -/
def decimal (n : ℤ) : CStr := ascii (toString n)

/-- `%d` of an `unsigned int`. -/
def asInt (n : UInt32) : ℤ := n.toBitVec.toInt

/-! ## What is done with a line -/

/-- What a line does outside of the program. -/
inductive Effect
  | system (cmd : CStr)
  | truncate (file : CStr)
  | write (file : CStr) (bytes : List UInt8)
  deriving DecidableEq

/-- The body `check_handle_line` and `check_handle_line_float` share:
`number` prints the number at the start of a string, `fd` is what `open`
gives. The number is read in front of the test. -/
def checkHandle (number : CStr → CStr) (fd : ℤ) (buffer : List UInt8) (buflen : ℕ)
    (cmpstr : String) (rrdFile txtFile : CStr) : Bool × List Effect :=
  let cmpstrlen := cmpstr.length
  let value := number (cstring (buffer.drop cmpstrlen))
  if cmpstrlen < buflen ∧ startsWith buffer cmpstr then
    (true,
      [.system (ascii "rrdtool update " ++ rrdFile ++ ascii " N:" ++ value), .truncate txtFile] ++
        if fd ≠ 0 then [.write txtFile (value.take 12)] else [])
  else (false, [])

/-- `check_handle_line`. -/
def checkHandleLine := checkHandle fun s => decimal (atoi s)

/-- `check_handle_line_float`, where `showAtof` is `%f` of `atof`. -/
def checkHandleLineFloat (showAtof : CStr → CStr) := checkHandle showAtof

/-- A call of `collect_data`: the string at `buffer`, the value returned
and what was done. -/
structure Collected where
  text : CStr
  count : UInt32
  effects : List Effect
  deriving DecidableEq

/-- `collect_data`. -/
def collectData (showAtof : CStr → CStr) (fd : ℤ) (buffer : List UInt8) (size : ℕ) : Collected :=
  if 8 ≤ size ∧ startsWith buffer "movement" then ⟨cstring buffer, 1, []⟩
  else
    match checkHandleLineFloat showAtof fd buffer size "temp0: " rrdTemp txtTemp with
    | (true, effects) => ⟨cstring buffer, 0, effects⟩
    | (false, _) =>
      ⟨cstring buffer, 0, (checkHandleLine fd buffer size "photo0: " rrdLight txtLight).2⟩

/-! ## The state of `sample_sensors` -/

/-- `buffer_size`. -/
abbrev bufferSize : ℕ := 1024

/-- What `sample_sensors` does. -/
inductive SensorEvent
  | send (bytes : List UInt8)
  /-- `recv(fd, buffer + offset, size, 0)`. -/
  | recv (offset size : ℕ)
  /-- `n` bytes are stored from `buffer[offset]` on. -/
  | store (offset n : ℕ)
  /-- `memmove(buffer + dest, buffer + src, n)`. -/
  | memmove (dest src n : ℕ)
  | collect (call : Collected)
  /-- The movement is passed to `rrdtool`: the number printed and the
  command. -/
  | movement (count : ℤ) (cmd : CStr)

/-- The locals of `sample_sensors`, how many lines were collected, whether
it has returned, and what it did. -/
structure Sensors where
  buffer : List UInt8
  bufferOffset : ℕ
  movementCount : UInt32
  lastSampleTime : ℤ
  lines : ℕ
  returned : Bool
  trace : List SensorEvent

/-- What `select` and `recv` give: nothing to read, bytes, or a `recv`
that gives `0` or `-1`. -/
inductive Input
  | idle
  | bytes (bs : List UInt8)
  | gone

/-- One round: its input, and `time(0)`. -/
structure Round where
  input : Input
  currTime : ℤ

/-- What is outside of `sample_sensors.c`: `%f` of `atof`, and what `open`
gives at a line. -/
structure Outside where
  showAtof : CStr → CStr
  opened : ℕ → ℤ

namespace Sensors

variable (out : Outside)

/-- The bytes that are pending. -/
def contents (s : Sensors) : List UInt8 := s.buffer.take s.bufferOffset

/-- `bs` is stored behind what is pending. -/
def received (s : Sensors) (bs : List UInt8) : Sensors :=
  { s with
    buffer := s.contents ++ bs ++ s.buffer.drop (s.bufferOffset + bs.length)
    bufferOffset := s.bufferOffset + bs.length
    trace := s.trace ++ [.recv s.bufferOffset (bufferSize - s.bufferOffset),
      .store s.bufferOffset bs.length] }

/-- The index at which the `for` loop is left: of the first line feed, or
`buffer_offset`. -/
def lineEnd (s : Sensors) : ℕ := (s.contents.takeWhile (· ≠ linefeed)).length

/-- A line is collected and cut off. -/
def cutLine (s : Sensors) : Sensors :=
  let c := s.lineEnd
  let buffer := s.buffer.set c 0
  -- the size handed over is more than the line has
  let call := collectData out.showAtof (out.opened s.lines) buffer (s.bufferOffset + c)
  { s with
    buffer := buffer.drop (c + 1) ++ buffer.drop (bufferSize - (c + 1))
    bufferOffset := s.bufferOffset - (c + 1)
    movementCount := s.movementCount + call.count
    lines := s.lines + 1
    trace := s.trace ++ [.store c 1, .collect call, .memmove 0 (c + 1) (bufferSize - c - 1)] }

/-- The `do` loop. A line takes a byte at least, so it ends within as many
rounds as there are bytes. -/
def cutLines : ℕ → Sensors → Sensors
  | 0, s => s
  | n + 1, s => if s.lineEnd < s.bufferOffset then cutLines n (s.cutLine out) else s

/-- The movement counted is passed on when the interval is over. -/
def update (s : Sensors) (currTime : ℤ) : Sensors :=
  if currTime - s.lastSampleTime > sampleInterval then
    { s with
      lastSampleTime := currTime
      movementCount := 0
      trace := s.trace ++ [.movement (asInt s.movementCount)
        (ascii "rrdtool update " ++ rrdMovement ++ ascii " -t movement N:" ++
          decimal (asInt s.movementCount))] }
  else s

/-- One round of the loop. -/
def round (r : Round) (s : Sensors) : Option Sensors :=
  if s.returned then none
  else
    match r.input with
    | .idle => some (s.update r.currTime)
    | .gone =>
      some { s with
        returned := true
        trace := s.trace ++ [.recv s.bufferOffset (bufferSize - s.bufferOffset)] }
    | .bytes bs =>
      if bs ≠ [] ∧ bs.length ≤ bufferSize - s.bufferOffset then
        let s := s.received bs
        some ((s.cutLines out s.bufferOffset).update r.currTime)
      else none

/-- The state in front of the loop: `stale` is what the stack held where
the buffer is. -/
def start (stale : List UInt8) (now : ℤ) : Sensors where
  buffer := stale
  bufferOffset := 0
  movementCount := 0
  lastSampleTime := now
  lines := 0
  returned := false
  trace := [.send (ascii "listen sensor\n"), .send (ascii "listen movement\n")]

end Sensors

/-- `sample_sensors`, behind its check of `fd`, through these rounds. -/
def sampleSensors (out : Outside) (stale : List UInt8) (now : ℤ) (rounds : List Round) :
    Option Sensors :=
  Reach.replay (Sensors.round out) (fun _ _ => true) rounds (.start stale now)

/-- The bytes received in these rounds. -/
def received (rounds : List Round) : List UInt8 :=
  rounds.flatMap fun r => match r.input with | .bytes bs => bs | _ => []

/-! ## What a trace says -/

/-- The calls of `collect_data`. -/
def calls (trace : List SensorEvent) : List Collected :=
  trace.filterMap fun | .collect call => some call | _ => none

/-- The movement counts passed to `rrdtool`. -/
def passed (trace : List SensorEvent) : List ℤ :=
  trace.filterMap fun | .movement count _ => some count | _ => none

/-- The event stays inside the buffer. -/
def SensorEvent.Inside : SensorEvent → Prop
  | .recv offset size => offset + size ≤ bufferSize
  | .store offset n => offset + n ≤ bufferSize
  | .memmove dest src n => dest + n ≤ bufferSize ∧ src + n ≤ bufferSize
  | _ => True

end Console

end Realraum
