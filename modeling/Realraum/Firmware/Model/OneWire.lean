import Mathlib.Data.Fin.VecNotation
import Mathlib.Data.Fintype.Basic
import Mathlib.Data.List.Dedup
import Mathlib.Data.List.Lex
import Mathlib.Data.List.Sort
import Mathlib.Logic.Function.Iterate
/-!
# The firmware — the 1-Wire bus

The search of the class `OneWire`, and what it finds on the wire: behind the
search command every device on the bus sends a bit of its code, then the
complement, and goes on only if the bit written next is its own. A read is
low as soon as one of the devices sends a 0.
-/

namespace Realraum

namespace Firmware

/-- `DeviceAddress`, a ROM code: the family code, six bytes of a number, and
the CRC. -/
abbrev DeviceAddress := Fin 8 → UInt8

/-- The first byte of a code. -/
def DeviceAddress.familyCode (rom : DeviceAddress) : UInt8 := rom 0

/-- The last one. -/
def DeviceAddress.crcByte (rom : DeviceAddress) : UInt8 := rom 7

/-- The `n`-th bit of a code on the wire: its bytes in order, and of each the
lowest bit first. -/
def DeviceAddress.bit (rom : DeviceAddress) (n : ℕ) : Bool :=
  (rom (Fin.ofNat 8 (n / 8))).toNat.testBit (n % 8)

/-- A code as the bits on the wire. -/
def DeviceAddress.word (rom : DeviceAddress) : List Bool := (List.range 64).map rom.bit

/-! ## The wire -/

/-- **The wire during a search**: the devices that go on, and how many of
their bits have been passed. -/
structure Wire where
  answering : List DeviceAddress
  passed : ℕ

/-- The first `read_bit` of a round: no device sends a 0. -/
def Wire.idBit (w : Wire) : Bool := w.answering.all fun rom => rom.bit w.passed

/-- The second one: no device sends a 0 for the complement. -/
def Wire.cmpIdBit (w : Wire) : Bool := w.answering.all fun rom => !rom.bit w.passed

/-- `write_bit`: only those go on whose bit it is. -/
def Wire.writeBit (w : Wire) (b : Bool) : Wire :=
  ⟨w.answering.filter fun rom => rom.bit w.passed = b, w.passed + 1⟩

/-! ## The search -/

/-- The search state of `OneWire`. -/
structure OneWire where
  romNo : DeviceAddress
  lastDiscrepancy : UInt8
  lastFamilyDiscrepancy : UInt8
  lastDeviceFlag : Bool
  deriving DecidableEq

/-- The local variables of `search`, and the wire. -/
structure Pass where
  idBitNumber : UInt8
  lastZero : UInt8
  romByteNumber : UInt8
  romByteMask : UInt8
  wire : Wire

/-- The byte of the code at an index, which the loops keep below 8. -/
def byteIndex (n : UInt8) : Fin 8 := Fin.ofNat 8 n.toNat

/-- `rom[n] |= mask`, or `rom[n] &= ~mask`. -/
def DeviceAddress.put (rom : DeviceAddress) (n mask : UInt8) (b : Bool) : DeviceAddress :=
  fun i => if i = byteIndex n then (if b then rom i ||| mask else rom i &&& ~~~mask) else rom i

/-- What a call of `search` gives back: its result, and what it has copied to
`newAddr`. -/
structure Found where
  searchResult : Bool
  newAddr : Option DeviceAddress
  deriving DecidableEq

/-- The device that was found. -/
def Found.device (f : Found) : Option DeviceAddress := if f.searchResult then f.newAddr else none

namespace OneWire

/-- `reset_search`. -/
def resetSearch : OneWire := ⟨fun _ => 0, 0, 0, false⟩

/-- The bit to write where devices answered with both. -/
def forkDirection (s : OneWire) (p : Pass) : Bool :=
  if p.idBitNumber < s.lastDiscrepancy then
    -- the same as last time
    0 < s.romNo (byteIndex p.romByteNumber) &&& p.romByteMask
  else p.idBitNumber = s.lastDiscrepancy

/-- A round of the loop of `search`, unless it breaks. -/
def round (s : OneWire) (p : Pass) : Option (OneWire × Pass) :=
  let idBit := p.wire.idBit
  let cmpIdBit := p.wire.cmpIdBit
  if idBit ∧ cmpIdBit then none
  else
    let searchDirection := if idBit ≠ cmpIdBit then idBit else s.forkDirection p
    let zero := idBit = cmpIdBit ∧ searchDirection = false
    let lastZero := if zero then p.idBitNumber else p.lastZero
    let mask := p.romByteMask <<< 1
    some
      ({ s with
          romNo := s.romNo.put p.romByteNumber p.romByteMask searchDirection
          lastFamilyDiscrepancy :=
            if zero ∧ lastZero < 9 then lastZero else s.lastFamilyDiscrepancy },
        { idBitNumber := p.idBitNumber + 1
          lastZero := lastZero
          romByteNumber := if mask = 0 then p.romByteNumber + 1 else p.romByteNumber
          romByteMask := if mask = 0 then 1 else mask
          wire := p.wire.writeBit searchDirection })

/-- The loop of `search`, for as many rounds: 64 take it through all the
bytes. -/
def rounds : ℕ → OneWire → Pass → OneWire × Pass
  | 0, s, p => (s, p)
  | n + 1, s, p =>
    match s.round p with
    | none => (s, p)
    | some (s', p') => if p'.romByteNumber < 8 then rounds n s' p' else (s', p')

/-- The counters as they are reset for the next search to be a first one. -/
def startOver (s : OneWire) : OneWire :=
  { s with lastDiscrepancy := 0, lastFamilyDiscrepancy := 0, lastDeviceFlag := false }

/-- **`search`**, with these devices on the bus. -/
def search (devices : List DeviceAddress) (s : OneWire) : Found × OneWire :=
  if !s.lastDeviceFlag ∧ devices = [] then
    -- nobody answers the reset
    (⟨false, none⟩, s.startOver)
  else
    let r :=
      if !s.lastDeviceFlag then
        let r := s.rounds 64 ⟨1, 0, 0, 1, ⟨devices, 0⟩⟩
        if ¬ r.2.idBitNumber < 65 then
          (true, { r.1 with
            lastDiscrepancy := r.2.lastZero
            lastDeviceFlag := r.2.lastZero = 0 })
        else (false, r.1)
      else (false, s)
    if !r.1 ∨ r.2.romNo 0 = 0 then (⟨false, some r.2.romNo⟩, r.2.startOver)
    else (⟨true, some r.2.romNo⟩, r.2)

/-- The call of `search` behind so many others. -/
def searchAfter (devices : List DeviceAddress) (s : OneWire) (n : ℕ) : Found :=
  (((fun s => (search devices s).2)^[n] s).search devices).1

end OneWire

/-- **The devices in the order of their codes**, each once. -/
def inOrder (devices : List DeviceAddress) : List DeviceAddress :=
  devices.dedup.insertionSort fun rom rom' => rom.word ≤ rom'.word

/-! ## The CRC -/

/-- A round of the inner loop of `crc8`: the register, and the byte. -/
def crcRound (r : UInt8 × UInt8) : UInt8 × UInt8 :=
  let mix := (r.1 ^^^ r.2) &&& 1
  (if mix ≠ 0 then (r.1 >>> 1) ^^^ 0x8c else r.1 >>> 1, r.2 >>> 1)

/-- The register behind a byte. -/
def crcByte (crc inbyte : UInt8) : UInt8 := (crcRound^[8] (crc, inbyte)).1

/-- **`crc8`** of the first `len` bytes. -/
def crc8 (addr : List UInt8) (len : UInt8) : UInt8 := (addr.take len.toNat).foldl crcByte 0

/-- `dscrc_table`. -/
def dscrcTable : List UInt8 :=
  [0, 94, 188, 226, 97, 63, 221, 131, 194, 156, 126, 32, 163, 253, 31, 65,
    157, 195, 33, 127, 252, 162, 64, 30, 95, 1, 227, 189, 62, 96, 130, 220,
    35, 125, 159, 193, 66, 28, 254, 160, 225, 191, 93, 3, 128, 222, 60, 98,
    190, 224, 2, 92, 223, 129, 99, 61, 124, 34, 192, 158, 29, 67, 161, 255,
    70, 24, 250, 164, 39, 121, 155, 197, 132, 218, 56, 102, 229, 187, 89, 7,
    219, 133, 103, 57, 186, 228, 6, 88, 25, 71, 165, 251, 120, 38, 196, 154,
    101, 59, 217, 135, 4, 90, 184, 230, 167, 249, 27, 69, 198, 152, 122, 36,
    248, 166, 68, 26, 153, 199, 37, 123, 58, 100, 134, 216, 91, 5, 231, 185,
    140, 210, 48, 110, 237, 179, 81, 15, 78, 16, 242, 172, 47, 113, 147, 205,
    17, 79, 173, 243, 112, 46, 204, 146, 211, 141, 111, 49, 178, 236, 14, 80,
    175, 241, 19, 77, 206, 144, 114, 44, 109, 51, 209, 143, 12, 82, 176, 238,
    50, 108, 142, 208, 83, 13, 239, 177, 240, 174, 76, 18, 145, 207, 45, 115,
    202, 148, 118, 40, 171, 245, 23, 73, 8, 86, 180, 234, 105, 55, 213, 139,
    87, 9, 235, 181, 54, 104, 138, 212, 149, 203, 41, 119, 244, 170, 72, 22,
    233, 183, 85, 11, 136, 214, 52, 106, 43, 117, 151, 201, 74, 20, 246, 168,
    116, 42, 200, 150, 21, 75, 169, 247, 182, 232, 10, 84, 215, 137, 107, 53]

/-- `crc8` as it is with `ONEWIRE_CRC8_TABLE`. -/
def crc8Table (addr : List UInt8) (len : UInt8) : UInt8 :=
  (addr.take len.toNat).foldl (fun crc inbyte => dscrcTable.getD (crc ^^^ inbyte).toNat 0) 0

end Firmware

end Realraum
