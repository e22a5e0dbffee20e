import Realraum.Daemon.Model.MainLoop
import Realraum.Daemon.Model.Options
/-!
# The daemon — `autosample.c`

The child's end of the pipe: what it writes for a device that is to be
sampled, and the loop that counts the seconds until the next sample of
each.
-/

namespace Realraum

namespace Daemon

/-- `"sample %s\n"`. -/
def sampleCmd (deviceName : CStr) : List UInt8 := ascii "sample " ++ deviceName ++ [linefeed]

/-- The loop of `send_sample_cmd` for `len` bytes, behind `offset` bytes
that were written: what it returns and how far it came, or none where the
results given do not end it. It is content with all bytes but one. -/
def sampleLoop (len : ℕ) : ℕ → List WriteResult → Option (ℤ × ℕ)
  | _, [] => none
  | offset, .failed :: _ => some (-1, offset)
  | offset, .interrupted :: rest =>
    if len ≤ offset + 1 then some (0, offset) else sampleLoop len offset rest
  | offset, .accepted n :: rest =>
    let offset := offset + min n (len - offset)
    if len ≤ offset + 1 then some (0, offset) else sampleLoop len offset rest

/-- `send_sample_cmd`: what it returns and what it wrote. -/
def sendSampleCmd (asprintf : Bool) (deviceName : Option CStr) (results : List WriteResult) :
    Option (ℤ × List UInt8) :=
  match deviceName with
  | none => some (-1, [])
  | some deviceName =>
    if asprintf then
      let buf := sampleCmd deviceName
      (sampleLoop buf.length 0 results).map fun r => (r.1, buf.take r.2)
    else some (-1, [])

/-- What the child writes for these devices, one after the other, where the
pipe takes every line whole. -/
def childWrites (names : List CStr) : List UInt8 :=
  names.flatMap fun name =>
    match sendSampleCmd true (some name) [.accepted (sampleCmd name).length] with
    | some (_, bytes) => bytes
    | none => []

/-! ## `autosample_process` -/

/-- `autosample_device_t`. -/
structure AutosampleDevice where
  delay : ℤ
  cnt : ℤ
  deviceName : Option CStr
  deriving DecidableEq

/-- `key_value_storage_length`. -/
def keyValueStorageLength (stor : KeyValueStorage) : ℕ := stor.keys.length

/-- The array of devices, where `malloc` left `heap` in it: an entry is
filled for each key that has a value. -/
def autosampleDevices (opt : OptionsT) (heap : ℕ → AutosampleDevice) : List AutosampleDevice :=
  (List.range (keyValueStorageLength opt.autosampledevs)).map fun i =>
    match opt.devices[i]? with
    | some d => ⟨d.2, 0, some d.1⟩
    | none => heap i

/-- The variables of the child's loop. -/
structure Sampler where
  devices : List AutosampleDevice
  sampleEnabled : UInt8
  returnValue : ℤ
  deriving DecidableEq

/-- `autosample_process`, before its loop: the variables, or the value
returned. -/
def autosampleStart (opt : OptionsT) (memory : Option (ℕ → AutosampleDevice)) (sigFd : ℤ) :
    Except ℤ Sampler :=
  if keyValueStorageLength opt.autosampledevs = 0 then .error 0
  else
    match memory with
    | none => .error (-3)
    | some heap =>
      if sigFd < 0 then .error (-1)
      else .ok ⟨autosampleDevices opt heap, 0, 0⟩

/-- What one `read(readfd, &sample_enabled, 1)` gives. -/
inductive ByteResult
  | byte (b : UInt8)
  | nothing
  | interrupted
  | failed
  deriving DecidableEq

/-- `do ret = read(..); while(!ret || (ret == -1 && errno == EINTR))`: the
byte, if one was read, or none where the results given do not end the
loop. -/
def enableLoop : List ByteResult → Option (Option UInt8)
  | [] => none
  | .byte b :: _ => some (some b)
  | .failed :: _ => some none
  | .nothing :: rest => enableLoop rest
  | .interrupted :: rest => enableLoop rest

/-- What `select` gives the child. A descriptor that is ready comes with
what is read of it. -/
inductive Wakeup
  | failed
  | interrupted
  | timeout
  | ready (enable : Option (List ByteResult)) (signals : Option (List Signal))
  deriving DecidableEq

/-- A call of `send_sample_cmd`: the place of the device in the array, and
its name. -/
abbrev SampleCall := ℕ × Option CStr

/-- A round of the `for` loop: the device behind it, and whether
`send_sample_cmd` is called, whose return value is not looked at. -/
def tickDevice (sampleEnabled : UInt8) (d : AutosampleDevice) : AutosampleDevice × Bool :=
  let d := { d with cnt := d.cnt + 1 }
  if d.delay ≤ d.cnt then ({ d with cnt := 0 }, sampleEnabled ≠ 0) else (d, false)

/-- The `for` loop, from the `i`-th device on. -/
def tickDevices (sampleEnabled : UInt8) :
    ℕ → List AutosampleDevice → List AutosampleDevice × List SampleCall
  | _, [] => ([], [])
  | i, d :: devices =>
    let r := tickDevice sampleEnabled d
    let rest := tickDevices sampleEnabled (i + 1) devices
    (r.1 :: rest.1, if r.2 then (i, d.deviceName) :: rest.2 else rest.2)

/-- One round of the `while` loop, and the calls it makes. Behind a timeout
no descriptor is set. -/
def samplerTurn (u : Wakeup) (c : Sampler) : Option (Sampler × List SampleCall) :=
  match u with
  | .failed => some ({ c with returnValue := -3 }, [])
  | .interrupted => some (c, [])
  | .timeout =>
    let r := tickDevices c.sampleEnabled 0 c.devices
    some ({ c with devices := r.1 }, r.2)
  | .ready enable signals =>
    (enable.elim (some none) enableLoop).map fun byte =>
      ({ c with
          sampleEnabled := byte.getD c.sampleEnabled
          returnValue := if signals.any signalHandle then 1 else c.returnValue }, [])

/-- `while(!return_value)`, for these rounds: the child behind them, or none
where it does not get through them. -/
def samplerRun : List Wakeup → Sampler → Option Sampler :=
  Reach.replay (fun u c => (samplerTurn u c).map Prod.fst) fun c _ => c.returnValue = 0

end Daemon

end Realraum
