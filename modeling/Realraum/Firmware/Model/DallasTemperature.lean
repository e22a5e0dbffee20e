import Mathlib.Data.Int.Notation
import Realraum.Firmware.Model.OneWire
/-!
# The firmware — the temperature sensors

The class `DallasTemperature`: how it finds its devices with the search of
`OneWire`, and the search of its own for the devices in alarm. A loop over a
search has as many turns as it is given, and no result where these do not
suffice.
-/

namespace Realraum

namespace Firmware

/-- `ScratchPad`. -/
abbrev ScratchPad := Fin 9 → UInt8

/-- **The bus**: the devices on it, and what each of them answers. -/
structure Bus where
  devices : List DeviceAddress
  readPowerSupply : DeviceAddress → Bool
  readScratchPad : DeviceAddress → ScratchPad
  /-- The device is in alarm. -/
  alarm : DeviceAddress → Bool

/-- `DS18S20MODEL`. -/
def ds18s20Model : UInt8 := 0x10

/-- `TEMP_9_BIT`. -/
def temp9Bit : ℤ := 0x1f

/-- `TEMP_10_BIT`. -/
def temp10Bit : ℤ := 0x3f

/-- `TEMP_11_BIT`. -/
def temp11Bit : ℤ := 0x5f

/-- `TEMP_12_BIT`. -/
def temp12Bit : ℤ := 0x7f

/-- The bytes of a code in order. -/
def DeviceAddress.bytes (rom : DeviceAddress) : List UInt8 := List.ofFn rom

/-- `validAddress`. -/
def DeviceAddress.Valid (rom : DeviceAddress) : Prop := crc8 rom.bytes 7 = rom.crcByte

instance : DecidablePred DeviceAddress.Valid := fun _ => inferInstanceAs (Decidable (_ = _))

/-- `scratchPad[CONFIGURATION]`. -/
def ScratchPad.configuration (scratchPad : ScratchPad) : UInt8 := scratchPad 4

/-! ## The search for devices in alarm -/

/-- The members of `alarmSearch`. The junction is a `char` from -1 to 63. -/
structure AlarmSearch where
  alarmSearchAddress : DeviceAddress
  alarmSearchJunction : ℤ
  alarmSearchExhausted : Bool

/-- The local variables of `alarmSearch`, and the wire. -/
structure AlarmPass where
  lastJunction : ℤ
  done : Bool
  wire : Wire

namespace AlarmSearch

/-- `resetAlarmSearch`: the last byte of the address is left as it is. -/
def reset (s : AlarmSearch) : AlarmSearch where
  alarmSearchAddress k := if k.val < 7 then 0 else s.alarmSearchAddress k
  alarmSearchJunction := -1
  alarmSearchExhausted := false

/-- What is written where devices answered with both bits, with the state and
the variables behind it. -/
def atJunction (i : ℕ) (s : AlarmSearch) (p : AlarmPass) : Bool × AlarmSearch × AlarmPass :=
  if i = s.alarmSearchJunction then
    -- it went zero last time
    (true, { s with alarmSearchJunction := p.lastJunction }, p)
  else if i < s.alarmSearchJunction then
    -- whatever was taken last time
    if s.alarmSearchAddress (byteIndex (UInt8.ofNat (i / 8))) &&& 1 <<< UInt8.ofNat (i % 8) ≠ 0 then
      (true, s, p)
    else (false, s, { p with done := false, lastJunction := i })
  else (false, { s with alarmSearchJunction := i }, { p with done := false })

/-- A round of the loop of `alarmSearch`, unless it returns. -/
def round (i : ℕ) (s : AlarmSearch) (p : AlarmPass) : Option (AlarmSearch × AlarmPass) :=
  let a := p.wire.idBit
  let nota := p.wire.cmpIdBit
  if a ∧ nota then none
  else
    let r := if !a ∧ !nota then s.atJunction i p else (a, s, p)
    let mask := 1 <<< UInt8.ofNat (i % 8)
    some
      ({ r.2.1 with
          alarmSearchAddress := r.2.1.alarmSearchAddress.put (UInt8.ofNat (i / 8)) mask r.1 },
        { r.2.2 with wire := r.2.2.wire.writeBit r.1 })

/-- So many rounds from the `i`-th on, and whether all were gone through. -/
def rounds : ℕ → ℕ → AlarmSearch → AlarmPass → Bool × AlarmSearch × AlarmPass
  | 0, _, s, p => (true, s, p)
  | n + 1, i, s, p =>
    match s.round i p with
    | none => (false, s, p)
    | some (s', p') => rounds n (i + 1) s' p'

/-- **`alarmSearch`**. -/
def search (bus : Bus) (s : AlarmSearch) : Found × AlarmSearch :=
  if s.alarmSearchExhausted then (⟨false, none⟩, s)
  else if bus.devices = [] then (⟨false, none⟩, s)
  else
    let r := s.rounds 64 0 ⟨-1, true, ⟨bus.devices.filter bus.alarm, 0⟩⟩
    if r.1 then
      let s' := { r.2.1 with
        alarmSearchExhausted := if r.2.2.done then true else r.2.1.alarmSearchExhausted }
      (⟨true, some s'.alarmSearchAddress⟩, s')
    else (⟨false, none⟩, r.2.1)

/-- The call of `alarmSearch` behind so many others. -/
def searchAfter (bus : Bus) (s : AlarmSearch) (n : ℕ) : Found :=
  (((fun s => (search bus s).2)^[n] s).search bus).1

/-- The loop of `processAlarms`, with the calls of the handler. -/
def handleAlarms (bus : Bus) : ℕ → AlarmSearch → Option (List DeviceAddress)
  | 0, _ => none
  | n + 1, s =>
    match (s.search bus).1.device with
    | none => some []
    | some rom =>
      (handleAlarms bus n (s.search bus).2).map fun calls =>
        if rom.Valid then rom :: calls else calls

/-- **`processAlarms`**. -/
def processAlarms (bus : Bus) (turns : ℕ) (s : AlarmSearch) : Option (List DeviceAddress) :=
  handleAlarms bus turns s.reset

end AlarmSearch

/-! ## The devices -/

/-- The members of `DallasTemperature`. -/
structure DallasTemperature where
  parasite : Bool
  conversionDelay : ℤ
  devices : UInt8
  wire : OneWire

namespace DallasTemperature

/-- The constructor. -/
def init : DallasTemperature := ⟨false, temp9Bit, 0, OneWire.resetSearch⟩

/-- What `begin` does for a device that it finds. -/
def note (bus : Bus) (d : DallasTemperature) (deviceAddress : DeviceAddress) : DallasTemperature :=
  if deviceAddress.Valid then
    let configuration : ℤ := (bus.readScratchPad deviceAddress).configuration.toNat
    { d with
      parasite := d.parasite || bus.readPowerSupply deviceAddress
      conversionDelay :=
        if deviceAddress.familyCode = ds18s20Model then temp12Bit
        else if configuration > d.conversionDelay then configuration
        else d.conversionDelay
      devices := d.devices + 1 }
  else d

/-- The loop of `begin`. -/
def noteDevices (bus : Bus) : ℕ → DallasTemperature → Option DallasTemperature
  | 0, _ => none
  | n + 1, d =>
    let f := d.wire.search bus.devices
    let d := { d with wire := f.2 }
    match f.1.device with
    | none => some d
    | some deviceAddress => noteDevices bus n (note bus d deviceAddress)

/-- **`begin`**. -/
def start (bus : Bus) (turns : ℕ) (d : DallasTemperature) : Option DallasTemperature :=
  noteDevices bus turns { d with wire := OneWire.resetSearch }

/-- The loop of `getAddress`: its result, and the buffer. -/
def findAddress (bus : Bus) (index : UInt8) :
    ℕ → UInt8 → OneWire → DeviceAddress → Option (Bool × DeviceAddress)
  | 0, _, _, _ => none
  | n + 1, depth, wire, buffer =>
    if depth ≤ index then
      let f := wire.search bus.devices
      let buffer := f.1.newAddr.getD buffer
      if f.1.searchResult then
        if depth = index ∧ buffer.Valid then some (true, buffer)
        else findAddress bus index n (depth + 1) f.2 buffer
      else some (false, buffer)
    else some (false, buffer)

/-- **`getAddress`**. -/
def getAddress (bus : Bus) (turns : ℕ) (buffer : DeviceAddress) (index : UInt8) :
    Option (Bool × DeviceAddress) :=
  findAddress bus index turns 0 OneWire.resetSearch buffer

/-- The milliseconds for which `requestTemperatures` waits. -/
def waitFor (conversionDelay : ℤ) : ℕ :=
  if conversionDelay = temp9Bit then 94
  else if conversionDelay = temp10Bit then 188
  else if conversionDelay = temp11Bit then 375
  else 750

end DallasTemperature

end Firmware

end Realraum
