import Realraum.Common.Reach
import Realraum.Firmware.Model.DallasTemperature
import Realraum.Firmware.RomSearch
/-!
# The firmware — finding the temperature sensors

`begin` and `getAddress` go through the devices that the search of `OneWire`
gives out: all of them in the order of their codes, or none if the family
code of one is 0. What `begin` keeps of them is enough for the wait of
`requestTemperatures` to be as long as the slowest of them needs.
-/

namespace Realraum

namespace Firmware

variable {bus : Bus} {rom : DeviceAddress} {devices l : List DeviceAddress} {wire : OneWire}
variable {d : DallasTemperature} {turns n : ℕ}

/-- **What the search gives out** behind `reset_search`. -/
def listed (devices : List DeviceAddress) : List DeviceAddress :=
  if 0 ∈ devices.map DeviceAddress.familyCode then [] else inOrder devices

/-- A call of the search as an answer and the state behind it. -/
def OneWire.next (devices : List DeviceAddress) (s : OneWire) : Option DeviceAddress × OneWire :=
  ((s.search devices).1.device, (s.search devices).2)

theorem oneWire_drains (devices : List DeviceAddress) :
    Reach.Drains (OneWire.next devices) (listed devices) OneWire.resetSearch := by
  rw [listed]
  split
  · rename_i hfamily
    obtain ⟨rom, hmem, hzero⟩ := List.mem_map.mp hfamily
    refine .done ?_
    have hresult := (search_startsOver (s := OneWire.resetSearch) rfl rfl hmem hzero).1
    show Found.device _ = none
    rw [Found.device, hresult]
    rfl
  · rename_i hfamily
    have hfamily' : ∀ rom ∈ devices, rom 0 ≠ 0 := fun rom hmem hzero =>
      hfamily (List.mem_map.mpr ⟨rom, hmem, hzero⟩)
    refine Reach.Drains.of_behind (l := inOrder devices)
      (fun k s (hk : Behind devices k s) => ?_) 0 _ ⟨rfl, rfl⟩
    obtain ⟨hdevice, -, hnext⟩ := search_behind hfamily' hk
    refine ⟨hdevice, fun hlt => ?_⟩
    rwa [if_pos hlt] at hnext

/-! ## Noting the devices -/

theorem note_wire (bus : Bus) (d : DallasTemperature) (rom : DeviceAddress) :
    (d.note bus rom).wire = d.wire := by
  rw [DallasTemperature.note]
  split <;> rfl

/-- Noting a device does not look at the wire. -/
theorem note_with_wire (bus : Bus) (d : DallasTemperature) (wire : OneWire) (rom : DeviceAddress) :
    DallasTemperature.note bus { d with wire := wire } rom =
      { d.note bus rom with wire := wire } := by
  rw [DallasTemperature.note, DallasTemperature.note]
  split <;> rfl

theorem foldl_note_with_wire (bus : Bus) (wire : OneWire) (l : List DeviceAddress) :
    ∀ d : DallasTemperature, l.foldl (DallasTemperature.note bus) { d with wire := wire } =
      { l.foldl (DallasTemperature.note bus) d with wire := wire } := by
  induction l with
  | nil => exact fun d => rfl
  | cons rom l ih =>
      intro d
      rw [List.foldl_cons, List.foldl_cons, note_with_wire, ih]

/-- **The loop of `begin`** notes what the search gives out. -/
theorem noteDevices_of_drains (h : Reach.Drains (OneWire.next bus.devices) l wire) :
    ∃ wire', ∀ d : DallasTemperature, d.wire = wire → ∀ turns,
      DallasTemperature.noteDevices bus turns d =
        if l.length < turns then
          some { l.foldl (DallasTemperature.note bus) d with wire := wire' }
        else none := by
  induction h with
  | @done wire hnone =>
      refine ⟨(wire.search bus.devices).2, fun d hwire turns => ?_⟩
      have hdevice : (d.wire.search bus.devices).1.device = none := hwire ▸ hnone
      cases turns with
      | zero => rfl
      | succ turns =>
          rw [DallasTemperature.noteDevices]
          dsimp only
          rw [hdevice, hwire]
          rfl
  | @more wire rom l hsome _ ih =>
      obtain ⟨wire', hrest⟩ := ih
      refine ⟨wire', fun d hwire turns => ?_⟩
      have hdevice : (d.wire.search bus.devices).1.device = some rom := hwire ▸ hsome
      cases turns with
      | zero => rfl
      | succ turns =>
          rw [DallasTemperature.noteDevices]
          dsimp only
          rw [hdevice]
          dsimp only
          rw [hrest _ ((note_wire _ _ _).trans (hwire ▸ rfl)), List.length_cons, List.foldl_cons,
            note_with_wire, foldl_note_with_wire]
          simp only [Nat.add_lt_add_iff_right]

/-- The devices are counted, in a byte. -/
theorem foldl_note_devices (bus : Bus) (l : List DeviceAddress) : ∀ d : DallasTemperature,
    (l.foldl (DallasTemperature.note bus) d).devices =
      d.devices + UInt8.ofNat (l.countP fun rom => rom.Valid) := by
  induction l with
  | nil => exact fun d => (UInt8.add_zero _).symm
  | cons rom l ih =>
      intro d
      rw [List.foldl_cons, ih, List.countP_cons, DallasTemperature.note]
      by_cases hvalid : rom.Valid
      · rw [if_pos hvalid, if_pos (decide_eq_true hvalid), UInt8.ofNat_add, UInt8.add_assoc,
          UInt8.add_comm 1]
        rfl
      · rw [if_neg hvalid, if_neg (by simpa using hvalid)]
        rfl

/-- Parasite power is noted once one of them needs it. -/
theorem foldl_note_parasite (bus : Bus) (l : List DeviceAddress) : ∀ d : DallasTemperature,
    (l.foldl (DallasTemperature.note bus) d).parasite =
      (d.parasite || l.any fun rom => decide rom.Valid && bus.readPowerSupply rom) := by
  induction l with
  | nil => exact fun d => (Bool.or_false _).symm
  | cons rom l ih =>
      intro d
      rw [List.foldl_cons, ih, List.any_cons, DallasTemperature.note, ← Bool.or_assoc]
      by_cases hvalid : rom.Valid
      · rw [if_pos hvalid, decide_eq_true hvalid, Bool.true_and]
      · rw [if_neg hvalid, decide_eq_false hvalid, Bool.false_and, Bool.or_false]

/-! ## The wait -/

/-- The milliseconds for 9 bits and so many more. -/
def resolutionTime : ℕ → ℕ
  | 0 => 94
  | 1 => 188
  | 2 => 375
  | _ => 750

theorem resolutionTime_mono : Monotone resolutionTime := by
  refine monotone_nat_of_le_succ fun n => ?_
  match n with
  | 0 => decide
  | 1 => decide
  | 2 => decide
  | _ + 3 => exact Nat.le_refl _

/-- **The milliseconds a device needs** for a conversion: the full time for
the model with the fixed resolution, else what its resolution takes. -/
def conversionTime (bus : Bus) (rom : DeviceAddress) : ℕ :=
  if rom.familyCode = ds18s20Model then 750
  else resolutionTime ((bus.readScratchPad rom).configuration.toNat / 32 % 4)

/-- The delay that is long enough for a device. -/
def enoughDelay (bus : Bus) (rom : DeviceAddress) : ℤ :=
  if rom.familyCode = ds18s20Model then temp12Bit
  else min (bus.readScratchPad rom).configuration.toNat temp12Bit

theorem conversionTime_le_waitFor {delay : ℤ} (h : enoughDelay bus rom ≤ delay) :
    conversionTime bus rom ≤ DallasTemperature.waitFor delay := by
  have h9 : temp9Bit = 31 := rfl
  have h10 : temp10Bit = 63 := rfl
  have h11 : temp11Bit = 95 := rfl
  have h12 : temp12Bit = 127 := rfl
  rw [enoughDelay] at h
  rw [conversionTime, DallasTemperature.waitFor]
  generalize (bus.readScratchPad rom).configuration.toNat = configuration at h ⊢
  by_cases hmodel : rom.familyCode = ds18s20Model
  · rw [if_pos hmodel] at h ⊢
    rw [if_neg (by omega), if_neg (by omega), if_neg (by omega)]
  · rw [if_neg hmodel] at h ⊢
    -- a short wait is for a small resolution
    split_ifs with hdelay hdelay' hdelay''
    · have hres : configuration / 32 % 4 ≤ 0 := by omega
      exact resolutionTime_mono hres
    · have hres : configuration / 32 % 4 ≤ 1 := by omega
      exact resolutionTime_mono hres
    · have hres : configuration / 32 % 4 ≤ 2 := by omega
      exact resolutionTime_mono hres
    · have hres : configuration / 32 % 4 ≤ 3 := by omega
      exact resolutionTime_mono hres

theorem enoughDelay_le_note (hvalid : rom.Valid) :
    enoughDelay bus rom ≤ (d.note bus rom).conversionDelay := by
  rw [DallasTemperature.note, if_pos hvalid, enoughDelay]
  dsimp only
  split
  · exact le_refl _
  · split <;> omega

/-- A delay that is long enough stays so. -/
theorem enoughDelay_le_note_of_le {rom' : DeviceAddress}
    (h : enoughDelay bus rom ≤ d.conversionDelay) :
    enoughDelay bus rom ≤ (d.note bus rom').conversionDelay := by
  have hle : enoughDelay bus rom ≤ temp12Bit := by
    rw [enoughDelay]
    split
    · exact le_refl _
    · exact min_le_right _ _
  rw [DallasTemperature.note]
  split
  · dsimp only
    split
    · exact hle
    · split <;> omega
  · exact h

theorem enoughDelay_le_foldl_note (h : enoughDelay bus rom ≤ d.conversionDelay) :
    enoughDelay bus rom ≤ (l.foldl (DallasTemperature.note bus) d).conversionDelay := by
  induction l generalizing d with
  | nil => exact h
  | cons rom' l ih => exact ih (enoughDelay_le_note_of_le h)

theorem enoughDelay_le_of_mem (hmem : rom ∈ l) (hvalid : rom.Valid) :
    enoughDelay bus rom ≤ (l.foldl (DallasTemperature.note bus) d).conversionDelay := by
  obtain ⟨before, behind, rfl⟩ := List.append_of_mem hmem
  rw [List.foldl_append, List.foldl_cons]
  exact enoughDelay_le_foldl_note (enoughDelay_le_note hvalid)

/-- **What `begin` finds**: it returns after one turn more than the search
gives out devices, has counted those with a valid address and knows whether
one of them needs parasite power; and `requestTemperatures` then waits as
long as any of them needs. -/
theorem start_finds (bus : Bus) (d : DallasTemperature) :
    ∃ d' : DallasTemperature,
      (∀ turns, d.start bus turns =
        if (listed bus.devices).length < turns then some d' else none) ∧
      d'.devices = d.devices + UInt8.ofNat ((listed bus.devices).countP fun rom => rom.Valid) ∧
      d'.parasite = (d.parasite ||
        (listed bus.devices).any fun rom => decide rom.Valid && bus.readPowerSupply rom) ∧
      ∀ rom ∈ listed bus.devices, rom.Valid →
        conversionTime bus rom ≤ DallasTemperature.waitFor d'.conversionDelay := by
  obtain ⟨wire', hloop⟩ := noteDevices_of_drains (oneWire_drains bus.devices)
  refine ⟨_, hloop { d with wire := OneWire.resetSearch } rfl, ?_, ?_, fun rom hmem hvalid => ?_⟩
  · exact foldl_note_devices bus _ _
  · exact foldl_note_parasite bus _ _
  · exact conversionTime_le_waitFor (enoughDelay_le_of_mem hmem hvalid)

/-! ## An address by its index -/

theorem search_searchResult (devices : List DeviceAddress) (s : OneWire) :
    (s.search devices).1.searchResult = (s.search devices).1.device.isSome := by
  have hend : ∀ r : Bool × OneWire, ∀ f : Found × OneWire,
      (if !r.1 ∨ r.2.romNo 0 = 0 then (⟨false, some r.2.romNo⟩, r.2.startOver)
        else (⟨true, some r.2.romNo⟩, r.2)) = f → f.1.searchResult = f.1.device.isSome := by
    rintro r f rfl
    split
    · rfl
    · rfl
  by_cases hnobody : !s.lastDeviceFlag ∧ devices = []
  · rw [OneWire.search, if_pos hnobody]
    rfl
  · rw [OneWire.search, if_neg hnobody]
    exact hend _ _ rfl

/-- **The loop of `getAddress`** stops at the entry of what the search gives
out that is so far behind, or at the end. -/
theorem findAddress_of_drains {index : UInt8} (hindex : index < 255)
    (h : Reach.Drains (OneWire.next bus.devices) l wire) :
    ∀ {depth : UInt8} {turns k : ℕ} {buffer : DeviceAddress}, depth.toNat + k = index.toNat →
      k + 1 < turns →
      ∃ r, DallasTemperature.findAddress bus index turns depth wire buffer = some r ∧
        ∀ rom, r = (true, rom) ↔ l[k]? = some rom ∧ rom.Valid := by
  have hsmall := UInt8.lt_iff_toNat_lt.mp hindex
  rw [show (255 : UInt8).toNat = 255 from rfl] at hsmall
  induction h with
  | @done wire hnone =>
      intro depth turns k buffer hdepth hturns
      obtain ⟨turns, rfl⟩ := Nat.exists_eq_succ_of_ne_zero (Nat.ne_zero_of_lt hturns)
      have hresult : (wire.search bus.devices).1.searchResult = false := by
        rw [search_searchResult]
        exact Option.isSome_eq_false_iff.mpr (Option.isNone_iff_eq_none.mpr hnone)
      rw [DallasTemperature.findAddress, if_pos (UInt8.le_iff_toNat_le.mpr (by omega))]
      dsimp only
      rw [hresult, if_neg Bool.false_ne_true]
      exact ⟨_, rfl, fun rom => by simp⟩
  | @more wire rom l hsome _ ih =>
      intro depth turns k buffer hdepth hturns
      obtain ⟨turns, rfl⟩ := Nat.exists_eq_succ_of_ne_zero (Nat.ne_zero_of_lt hturns)
      have hdevice : (wire.search bus.devices).1.device = some rom := hsome
      have hresult : (wire.search bus.devices).1.searchResult = true := by
        rw [search_searchResult, hdevice]
        rfl
      have hnew : (wire.search bus.devices).1.newAddr = some rom := by
        rwa [Found.device, if_pos hresult] at hdevice
      rw [DallasTemperature.findAddress, if_pos (UInt8.le_iff_toNat_le.mpr (by omega))]
      dsimp only
      rw [hresult, hnew, if_pos rfl, Option.getD_some]
      cases k with
      | zero =>
          have hlast : depth = index := UInt8.toNat_inj.mp hdepth
          by_cases hvalid : rom.Valid
          · rw [if_pos ⟨hlast, hvalid⟩]
            refine ⟨_, rfl, fun rom' => ?_⟩
            rw [List.getElem?_cons_zero, Prod.mk.injEq, Option.some.injEq]
            exact ⟨fun ⟨_, heq⟩ => ⟨heq, heq ▸ hvalid⟩, fun ⟨heq, _⟩ => ⟨rfl, heq⟩⟩
          · -- the loop ends one turn later
            obtain ⟨turns, rfl⟩ :=
              Nat.exists_eq_succ_of_ne_zero (Nat.ne_zero_of_lt (Nat.lt_of_succ_lt_succ hturns))
            have hbehind : ¬ depth + 1 ≤ index := by
              rw [UInt8.le_iff_toNat_le, UInt8.toNat_add, hlast, UInt8.toNat_one,
                Nat.mod_eq_of_lt (by omega)]
              exact Nat.not_succ_le_self _
            rw [if_neg fun h => hvalid h.2, DallasTemperature.findAddress, if_neg hbehind]
            refine ⟨_, rfl, fun rom' => ?_⟩
            rw [List.getElem?_cons_zero, Prod.mk.injEq, Option.some.injEq]
            refine ⟨fun ⟨hfalse, _⟩ => absurd hfalse Bool.false_ne_true, fun ⟨heq, hvalid'⟩ => ?_⟩
            exact absurd (heq ▸ hvalid') hvalid
      | succ k =>
          have hnot : depth ≠ index := by
            rintro rfl
            omega
          have hdepth' : (depth + 1).toNat = depth.toNat + 1 := by
            rw [UInt8.toNat_add, UInt8.toNat_one, Nat.mod_eq_of_lt (by omega)]
          rw [if_neg fun h => hnot h.1, List.getElem?_cons_succ]
          exact ih (by omega) (by omega)

/-- **`getAddress` is true for an index below 255** just if there is such an
entry in what the search gives out, and its address is valid, and it is this
address that is found: whatever was searched before, and with two turns more
than the index. -/
theorem getAddress_finds (bus : Bus) (buffer : DeviceAddress) {index : UInt8} (hindex : index < 255)
    {turns : ℕ} (hturns : index.toNat + 1 < turns) :
    ∃ r, DallasTemperature.getAddress bus turns buffer index = some r ∧
      ∀ rom, r = (true, rom) ↔ (listed bus.devices)[index.toNat]? = some rom ∧ rom.Valid :=
  findAddress_of_drains hindex (oneWire_drains bus.devices) (Nat.zero_add _) hturns

/-- **The sensor on the shield**, the first of two. -/
theorem getAddress_finds_first :
    let rom : DeviceAddress := ![0x10, 0xe7, 0x77, 0xd3, 1, 8, 0, 0x3f]
    let bus : Bus := ⟨[fun _ => 0x29, rom], fun _ => false, fun _ _ => 0, fun _ => false⟩
    DallasTemperature.getAddress bus 2 (fun _ => 0) 0 = some (true, rom) := by
  intro rom bus
  obtain ⟨r, hr, hiff⟩ :=
    getAddress_finds bus (fun _ => 0) (show (0 : UInt8) < 255 by decide)
      (show (0 : UInt8).toNat + 1 < 2 by decide)
  have hfirst : (listed bus.devices)[0]? = some rom ∧ rom.Valid := by decide +kernel
  rw [hr, (hiff rom).mpr hfirst]

end Firmware

end Realraum
