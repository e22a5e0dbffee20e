import Realraum.Firmware.Helpers.RomWalk
/-!
# The firmware — searching the 1-Wire bus

A round of `search` reads whether the devices that go on have both bits, and
keeps the state of the walk through their codes: which bits were written,
where the last 0 was written at a fork. So one call after the other gives out
the devices in the order of their codes, then says once that there is none
left, and starts over.
-/

namespace Realraum

namespace Firmware

open BitSearch

variable {rom : DeviceAddress} {devices : List DeviceAddress} {last s s' : OneWire} {p p' : Pass}
variable {z : Option ℕ} {i k : ℕ}

/-! ## One round -/

/-- A position in the words as the search counts it, from 1. -/
def bitNumber : Option ℕ → UInt8
  | none => 0
  | some d => UInt8.ofNat (d + 1)

/-- **The search behind so many rounds**: the walk, its counters, and the last
fork at which a 0 was written. -/
structure Searching (devices : List DeviceAddress) (last : OneWire) (z : Option ℕ) (i : ℕ)
    (s : OneWire) (p : Pass) : Prop where
  walking : Walking devices last.romNo z i s.romNo p.wire
  idBitNumber : p.idBitNumber = UInt8.ofNat (i + 1)
  romByteNumber : p.romByteNumber = UInt8.ofNat (i / 8)
  romByteMask : p.romByteMask = romMask i
  lastDiscrepancy : s.lastDiscrepancy = last.lastDiscrepancy
  lastDeviceFlag : s.lastDeviceFlag = last.lastDeviceFlag
  lastZero : ∃ z', LastJunction (words devices) (s.romNo.word.take i) z' ∧
    p.lastZero = bitNumber z'

theorem Searching.start (h : devices ≠ []) (s : OneWire) (z : Option ℕ) :
    Searching devices s z 0 s ⟨1, 0, 0, 1, ⟨devices, 0⟩⟩ where
  walking := .start h s.romNo z
  idBitNumber := rfl
  romByteNumber := rfl
  romByteMask := rfl
  lastDiscrepancy := rfl
  lastDeviceFlag := rfl
  lastZero := ⟨none, by
    rw [List.take_zero]
    exact .nil, rfl⟩

/-- The bit a round writes. -/
def direction (s : OneWire) (p : Pass) : Bool :=
  if p.wire.idBit ≠ p.wire.cmpIdBit then p.wire.idBit else s.forkDirection p

/-- **At a fork it is the preferred one.** -/
theorem Searching.forkDirection_eq (h : Searching devices last z i s p) (hi : i < 64)
    (hz : last.lastDiscrepancy = bitNumber z) (hlt : ∀ d ∈ z, d < 64) :
    s.forkDirection p = prefer last.romNo.word z (s.romNo.word.take i) := by
  have hnumber : p.idBitNumber.toNat = i + 1 := by
    rw [h.idBitNumber, UInt8.toNat_ofNat_of_lt']
    show _ < 256
    omega
  rw [OneWire.forkDirection, h.lastDiscrepancy, hz]
  cases z with
  | none =>
      have hnot : ¬ p.idBitNumber < bitNumber none := UInt8.not_lt_zero
      rw [if_neg hnot, prefer, decide_eq_false_iff_not, ← UInt8.toNat_inj, hnumber]
      exact Nat.succ_ne_zero i
  | some d =>
      have hd : (bitNumber (some d)).toNat = d + 1 := by
        have hlt := hlt d rfl
        rw [bitNumber, UInt8.toNat_ofNat_of_lt']
        show _ < 256
        omega
      have htest := bit_eq_test s.romNo hi
      rw [prefer, length_take_word _ hi]
      by_cases hid : i < d
      · rw [if_pos, if_pos hid, h.romByteNumber, h.romByteMask, htest, h.walking.kept i
          (Nat.le_refl i) hi, List.getD_eq_getElem?_getD, getElem?_word _ hi, Option.getD_some]
        rw [UInt8.lt_iff_toNat_lt, hnumber, hd]
        exact Nat.succ_lt_succ hid
      · rw [if_neg, if_neg hid]
        · refine decide_eq_decide.mpr ?_
          rw [← UInt8.toNat_inj, hnumber, hd]
          exact Nat.succ_inj
        · rw [UInt8.lt_iff_toNat_lt, hnumber, hd]
          exact fun hlt => hid (Nat.lt_of_succ_lt_succ hlt)

/-- The counters behind a round. -/
theorem romMask_succ (i : ℕ) :
    UInt8.ofNat ((i + 1) / 8) =
        (if romMask i <<< 1 = 0 then UInt8.ofNat (i / 8) + 1 else UInt8.ofNat (i / 8)) ∧
      romMask (i + 1) = (if romMask i <<< 1 = 0 then 1 else romMask i <<< 1 : UInt8) := by
  have hall : ∀ k : Fin 8, ((1 <<< UInt8.ofNat k : UInt8) <<< 1 = 0 ↔ k.val = 7) ∧
      (1 <<< UInt8.ofNat ((k + 1) % 8) : UInt8) =
        (if k.val = 7 then 1 else (1 <<< UInt8.ofNat k) <<< 1 : UInt8) := by decide
  obtain ⟨hzero, hnext⟩ := hall ⟨i % 8, Nat.mod_lt i (by decide)⟩
  have hmod : (i + 1) % 8 = (i % 8 + 1) % 8 := by omega
  simp only [romMask, hmod, hzero]
  refine ⟨?_, hnext⟩
  split
  · refine Eq.trans (congrArg UInt8.ofNat ?_) (UInt8.ofNat_add (i / 8) 1)
    omega
  · congr 1
    omega

/-- **One round**: it does not break, and the search is one bit further. -/
theorem Searching.round (h : Searching devices last z i s p) (hi : i < 64)
    (hz : last.lastDiscrepancy = bitNumber z) (hlt : ∀ d ∈ z, d < 64) :
    ∃ s' p', s.round p = some (s', p') ∧ Searching devices last z (i + 1) s' p' := by
  obtain ⟨hnumber, hmask⟩ := romMask_succ i
  have hfork_iff := h.walking.fork_iff hi
  have hwalking : Walking devices last.romNo z (i + 1)
      (s.romNo.put p.romByteNumber p.romByteMask (direction s p))
      (p.wire.writeBit (direction s p)) := by
    rw [h.romByteNumber, h.romByteMask]
    refine h.walking.writeBit hi (fun hne => if_pos hne) fun hfork => ?_
    obtain ⟨hid, hcmp⟩ := hfork_iff.mp hfork
    rw [direction, if_neg (by rw [hid, hcmp]; simp), h.forkDirection_eq hi hz hlt]
  have hzero : (p.wire.idBit = p.wire.cmpIdBit ∧ direction s p = false) ↔
      Fork (words devices) (s.romNo.word.take i) ∧ direction s p = false := by
    refine and_congr_left fun _ => Iff.trans ⟨h.walking.eq_false_of_eq, ?_⟩ hfork_iff.symm
    rintro ⟨hid, hcmp⟩
    rw [hid, hcmp]
  refine ⟨_, _, by rw [OneWire.round, if_neg h.walking.not_both], ?_⟩
  refine ⟨hwalking, ?_, ?_, ?_, h.lastDiscrepancy, h.lastDeviceFlag, ?_⟩
  · rw [h.idBitNumber]
    exact (UInt8.ofNat_add (i + 1) 1).symm
  · rw [h.romByteNumber, h.romByteMask, hnumber]
  · rw [h.romByteMask, hmask]
  · obtain ⟨z', hz', hlast⟩ := h.lastZero
    rw [h.romByteNumber, h.romByteMask]
    show ∃ z', LastJunction _ ((DeviceAddress.put _ _ _ (direction s p)).word.take _) z' ∧
      (if p.wire.idBit = p.wire.cmpIdBit ∧ direction s p = false then p.idBitNumber
        else p.lastZero) = bitNumber z'
    rw [take_word_put_succ _ hi]
    by_cases hjunction : p.wire.idBit = p.wire.cmpIdBit ∧ direction s p = false
    · obtain ⟨hfork, hb⟩ := hzero.mp hjunction
      refine ⟨some i, ?_, by rw [if_pos hjunction, h.idBitNumber]; rfl⟩
      rw [hb]
      conv => arg 3; rw [← length_take_word s.romNo hi]
      exact .concat_fork hfork
    · refine ⟨z', hz'.concat fun hfork => ?_, by rw [if_neg hjunction, hlast]⟩
      by_contra hb
      exact hjunction (hzero.mpr ⟨hfork, by simpa using hb⟩)

/-- **All rounds** take the search through the whole word. -/
theorem Searching.rounds (hz : last.lastDiscrepancy = bitNumber z) (hlt : ∀ d ∈ z, d < 64) {n : ℕ} :
    ∀ {i s p}, Searching devices last z i s p → i + (n + 1) = 64 →
      Searching devices last z 64 (s.rounds (n + 1) p).1 (s.rounds (n + 1) p).2 := by
  induction n with
  | zero =>
      intro i s p h hi
      obtain rfl : i = 63 := by omega
      obtain ⟨s', p', hround, hnext⟩ := h.round (by omega) hz hlt
      rw [OneWire.rounds, hround]
      dsimp only
      split
      · exact hnext
      · exact hnext
  | succ n ih =>
      intro i s p h hi
      obtain ⟨s', p', hround, hnext⟩ := h.round (by omega) hz hlt
      have hbyte : p'.romByteNumber < 8 := by
        have hsize : (i + 1) / 8 < UInt8.size :=
          Nat.lt_trans (by omega) (by decide : 8 < UInt8.size)
        rw [hnext.romByteNumber]
        exact (UInt8.ofNat_lt_iff_lt (b := 8) hsize (by decide)).mpr (by omega)
      rw [OneWire.rounds, hround]
      dsimp only
      rw [if_pos hbyte]
      exact ih hnext (by omega)

/-! ## One call -/

theorem bitNumber_eq_zero_iff (hlt : ∀ d ∈ z, d < 64) : bitNumber z = 0 ↔ z = none := by
  cases z with
  | none => exact iff_of_true rfl rfl
  | some d =>
      have hd := hlt d rfl
      have hpos : UInt8.ofNat 0 < UInt8.ofNat (d + 1) :=
        (UInt8.ofNat_lt_iff_lt (by decide) (Nat.lt_trans (Nat.succ_lt_succ hd) (by decide))).mpr
          d.succ_pos
      exact iff_of_false (UInt8.ne_of_lt hpos).symm (by simp)

/-- **A call that walks** finds a device, in whose code the bits are as the
search prefers. It does not count where the family code is 0. -/
theorem search_walk (hdevices : devices ≠ []) (hflag : s.lastDeviceFlag = false)
    (hz : s.lastDiscrepancy = bitNumber z) (hlt : ∀ d ∈ z, d < 64) :
    ∃ s' z', s'.romNo ∈ devices ∧
      GoesAs (words devices) (prefer s.romNo.word z) s'.romNo.word ∧
      LastJunction (words devices) s'.romNo.word z' ∧ s'.lastDiscrepancy = bitNumber z' ∧
      (s'.lastDeviceFlag = true ↔ z' = none) ∧
      s.search devices =
        if s'.romNo 0 = 0 then (⟨false, some s'.romNo⟩, s'.startOver)
        else (⟨true, some s'.romNo⟩, s') := by
  have hend := (Searching.start hdevices s z).rounds hz hlt (n := 63) rfl
  generalize hr : s.rounds 64 ⟨1, 0, 0, 1, ⟨devices, 0⟩⟩ = r at hend
  obtain ⟨hmem, hgoes⟩ := hend.walking.found
  obtain ⟨z', hz', hlast⟩ := hend.lastZero
  rw [← length_word r.1.romNo, List.take_length] at hz'
  have hdone : ¬ r.2.idBitNumber < 65 := by
    rw [hend.idBitNumber]
    decide
  refine ⟨{ r.1 with lastDiscrepancy := r.2.lastZero, lastDeviceFlag := r.2.lastZero = 0 }, z',
    hmem, hgoes, hz', hlast, ?_, ?_⟩
  · rw [← bitNumber_eq_zero_iff (lt_of_lastJunction hz'), ← hlast]
    exact decide_eq_true_iff
  · rw [OneWire.search, hflag, if_neg (by simp [hdevices])]
    simp only [Bool.not_false, if_true, hr, hdone, not_false_eq_true, Bool.not_true,
      Bool.false_eq_true, false_or]

/-- Behind the last device there is no walk. -/
theorem search_of_lastDeviceFlag (h : s.lastDeviceFlag = true) :
    s.search devices = (⟨false, some s.romNo⟩, s.startOver) := by
  rw [OneWire.search, h]
  simp

/-! ## One call after the other -/

/-- **The search behind the first `k` devices**: the last of them is the one
that was found, and the counter is at the last fork where it took 0. -/
def Behind (devices : List DeviceAddress) : ℕ → OneWire → Prop
  | 0, s => s.lastDiscrepancy = 0 ∧ s.lastDeviceFlag = false
  | k + 1, s =>
    (inOrder devices)[k]? = some s.romNo ∧
      ∃ z, LastJunction (words devices) s.romNo.word z ∧ s.lastDiscrepancy = bitNumber z ∧
        (s.lastDeviceFlag = true ↔ z = none)

/-- **A call finds the next device**, and behind the last one none. -/
theorem search_behind (hfamily : ∀ rom ∈ devices, rom 0 ≠ 0) (h : Behind devices k s) :
    (s.search devices).1.device = (inOrder devices)[k]? ∧
      (s.search devices).1.searchResult = (inOrder devices)[k]?.isSome ∧
      Behind devices (if k < (inOrder devices).length then k + 1 else 0)
        (s.search devices).2 := by
  -- a call that walks to the right device
  have hwalk : ∀ s' z', s'.romNo ∈ devices → (inOrder devices)[k]? = some s'.romNo →
      LastJunction (words devices) s'.romNo.word z' → s'.lastDiscrepancy = bitNumber z' →
      (s'.lastDeviceFlag = true ↔ z' = none) →
      (s.search devices = if s'.romNo 0 = 0 then (⟨false, some s'.romNo⟩, s'.startOver)
        else (⟨true, some s'.romNo⟩, s')) →
      (s.search devices).1.device = (inOrder devices)[k]? ∧
        (s.search devices).1.searchResult = (inOrder devices)[k]?.isSome ∧
        Behind devices (if k < (inOrder devices).length then k + 1 else 0)
          (s.search devices).2 := by
    intro s' z' hmem hget hz' hlast hflag hsearch
    rw [hsearch, if_neg (hfamily _ hmem), hget, if_pos (List.getElem?_eq_some_iff.mp hget).1]
    exact ⟨rfl, rfl, hget, z', hz', hlast, hflag⟩
  cases k with
  | zero =>
      obtain ⟨hz, hflag⟩ := h
      by_cases hdevices : devices = []
      · rw [inOrder_eq_nil.mpr hdevices, OneWire.search, if_pos ⟨by simp [hflag], hdevices⟩]
        exact ⟨rfl, rfl, rfl, rfl⟩
      · obtain ⟨s', z', hmem, hgoes, hz', hlast, hflag', hsearch⟩ :=
          search_walk hdevices hflag (z := none) hz (by simp)
        exact hwalk s' z' hmem (first_of_goesAs hmem hgoes) hz' hlast hflag' hsearch
  | succ k =>
      obtain ⟨hget, z, hz, hlast, hflag⟩ := h
      cases z with
      | none =>
          -- there was no fork left
          have hlength := length_of_lastJunction hget hz
          have hnot : ¬ k + 1 < (inOrder devices).length := by omega
          rw [search_of_lastDeviceFlag (hflag.mpr rfl), if_neg hnot,
            List.getElem?_eq_none (Nat.le_of_eq hlength)]
          exact ⟨rfl, rfl, rfl, rfl⟩
      | some d =>
          obtain ⟨s', z', hmem', hgoes, hz', hlast', hflag', hsearch⟩ :=
            search_walk (List.ne_nil_of_mem (mem_inOrder.mp (List.mem_of_getElem? hget)))
              (by simpa using hflag) hlast (lt_of_lastJunction hz)
          exact hwalk s' z' hmem' (next_of_goesAs hget hz hmem' hgoes) hz' hlast' hflag'
            hsearch

/-- **The searches behind each other.** -/
theorem behind_iterate (hfamily : ∀ rom ∈ devices, rom 0 ≠ 0) (h : Behind devices 0 s) (n : ℕ) :
    Behind devices (n % ((inOrder devices).length + 1))
      ((fun s => (s.search devices).2)^[n] s) := by
  induction n with
  | zero => exact (Nat.zero_mod _).symm ▸ h
  | succ n ih =>
      obtain ⟨-, -, hnext⟩ := search_behind hfamily ih
      rw [Function.iterate_succ_apply', ← Nat.mod_add_mod]
      split at hnext
      · rename_i hk
        rwa [Nat.mod_eq_of_lt (Nat.succ_lt_succ hk)]
      · rename_i hk
        have hle := Nat.mod_lt n (Nat.succ_pos (inOrder devices).length)
        rwa [Nat.le_antisymm (Nat.le_of_lt_succ hle) (Nat.le_of_not_lt hk), Nat.mod_self]

/-- **The devices are given out in the order of their codes**, each once, and
behind the last one the search says that there is none and starts over: for
any devices on the bus with a family code that is not 0, and any number of
calls behind `reset_search`. -/
theorem search_enumerates (hfamily : ∀ rom ∈ devices, rom 0 ≠ 0) (n : ℕ) :
    (OneWire.resetSearch.searchAfter devices n).searchResult =
        decide (n % ((inOrder devices).length + 1) < (inOrder devices).length) ∧
      (OneWire.resetSearch.searchAfter devices n).device =
        (inOrder devices)[n % ((inOrder devices).length + 1)]? := by
  have h := behind_iterate hfamily (s := OneWire.resetSearch) ⟨rfl, rfl⟩ n
  obtain ⟨hdevice, hresult, -⟩ := search_behind hfamily h
  refine ⟨hresult.trans ?_, hdevice⟩
  rw [Bool.eq_iff_iff, decide_eq_true_iff]
  simp

/-- **Two devices**: the one whose first bit is 0 comes first. -/
theorem search_enumerates_two :
    let devices : List DeviceAddress :=
      [![0x29, 1, 2, 3, 4, 5, 6, 7], ![0x10, 0xe7, 0x77, 0xd3, 1, 8, 0, 0x3f]]
    (OneWire.resetSearch.searchAfter devices 0).device = devices[1]? ∧
      (OneWire.resetSearch.searchAfter devices 1).device = devices[0]? ∧
      (OneWire.resetSearch.searchAfter devices 2).searchResult = false := by
  intro devices
  have hfamily : ∀ rom ∈ devices, rom 0 ≠ 0 := by
    simp only [devices, List.forall_mem_cons]
    exact ⟨by decide, by decide, by simp⟩
  have horder : inOrder devices =
      [![0x10, 0xe7, 0x77, 0xd3, 1, 8, 0, 0x3f], ![0x29, 1, 2, 3, 4, 5, 6, 7]] := by
    decide +kernel
  have h := search_enumerates hfamily
  rw [horder] at h
  exact ⟨(h 0).2, (h 1).2, (h 2).1⟩

/-! ## A family code of 0 -/

theorem bit_eq_false_of_family (h : rom 0 = 0) (hi : i < 8) : rom.bit i = false := by
  have hbyte : Fin.ofNat 8 (i / 8) = 0 := by
    rw [Nat.div_eq_of_lt hi]
    rfl
  rw [DeviceAddress.bit, hbyte, h]
  exact Nat.zero_testBit _

/-- **The codes of a family 0 are the first.** -/
theorem family_eq_zero_of_le {rom' : DeviceAddress} (h : rom.word ≤ rom'.word)
    (hfamily : rom' 0 = 0) : rom 0 = 0 := by
  rcases lt_or_eq_of_le h with hlt | heq
  · obtain ⟨u, s, t, hu, hu'⟩ :=
      (lt_iff ((length_word rom).trans (length_word rom').symm)).mp hlt
    -- the bit where the codes are told apart is behind the family code
    have hlong : 8 ≤ u.length := by
      by_contra hshort
      have hone := getElem?_word rom' (i := u.length) (by omega)
      rw [hu', List.getElem?_append_right (Nat.le_refl _), Nat.sub_self, List.getElem?_cons_zero,
        bit_eq_false_of_family hfamily (by omega)] at hone
      exact Bool.true_eq_false.mp (Option.some.inj hone)
    have hbits : ∀ k < 8, rom.bit k = false := by
      intro k hk
      have hget := getElem?_word rom (i := k) (by omega)
      have hget' := getElem?_word rom' (i := k) (by omega)
      rw [hu, List.getElem?_append_left (by omega)] at hget
      rw [hu', List.getElem?_append_left (by omega), hget,
        bit_eq_false_of_family hfamily hk] at hget'
      exact Option.some.inj hget'
    rw [← UInt8.toNat_inj]
    refine Nat.eq_of_testBit_eq fun k => ?_
    rw [UInt8.toNat_zero, Nat.zero_testBit]
    by_cases hk : k < 8
    · have hbit := hbits k hk
      rwa [DeviceAddress.bit, Nat.div_eq_of_lt hk, Nat.mod_eq_of_lt hk] at hbit
    · exact Nat.testBit_lt_two_pow (Nat.lt_of_lt_of_le (rom 0).toNat_lt
        (Nat.pow_le_pow_right (by decide) (Nat.le_of_not_lt hk)))
  · rw [word_injective heq, hfamily]

/-- A search that has started over finds nothing and starts over. -/
theorem search_startsOver (hz : s.lastDiscrepancy = 0) (hflag : s.lastDeviceFlag = false)
    (hmem : rom ∈ devices) (hfamily : rom 0 = 0) :
    (s.search devices).1.searchResult = false ∧ (s.search devices).2.lastDiscrepancy = 0 ∧
      (s.search devices).2.lastDeviceFlag = false := by
  obtain ⟨s', z', hmem', hgoes, -, -, -, hsearch⟩ :=
    search_walk (List.ne_nil_of_mem hmem) hflag (z := none) hz (by simp)
  have hle := hgoes.least length_of_mem_words (word_mem_words.mpr hmem')
    (word_mem_words.mpr hmem)
  rw [hsearch, if_pos (family_eq_zero_of_le hle hfamily)]
  exact ⟨rfl, rfl, rfl⟩

/-- **When the search finds anything**: a device with the family code 0 is
always the first, is not counted, and makes the search start over, so that
no call behind `reset_search` ever finds a device. -/
theorem search_finds_iff (devices : List DeviceAddress) :
    (∃ n, (OneWire.resetSearch.searchAfter devices n).searchResult = true) ↔
      devices ≠ [] ∧ ∀ rom ∈ devices, rom 0 ≠ 0 := by
  constructor
  · rintro ⟨n, h⟩
    by_contra hnot
    rw [not_and_or, not_not] at hnot
    rcases hnot with rfl | hnot
    · have hbehind : Behind [] 0 OneWire.resetSearch := ⟨rfl, rfl⟩
      obtain ⟨-, hnone, -⟩ := search_behind (by simp) (behind_iterate (by simp) hbehind n)
      exact Bool.false_ne_true (hnone.symm.trans h)
    · push Not at hnot
      obtain ⟨rom, hmem, hfamily⟩ := hnot
      have hfresh : ∀ n, ((fun s => (OneWire.search devices s).2)^[n]
          OneWire.resetSearch).lastDiscrepancy = 0 ∧ ((fun s => (OneWire.search devices s).2)^[n]
          OneWire.resetSearch).lastDeviceFlag = false := by
        intro n
        induction n with
        | zero => exact ⟨rfl, rfl⟩
        | succ n ih =>
            rw [Function.iterate_succ_apply']
            exact (search_startsOver ih.1 ih.2 hmem hfamily).2
      have hresult := (search_startsOver (hfresh n).1 (hfresh n).2 hmem hfamily).1
      rw [OneWire.searchAfter, hresult] at h
      exact Bool.false_ne_true h
  · rintro ⟨hdevices, hfamily⟩
    have hbehind : Behind devices 0 OneWire.resetSearch := ⟨rfl, rfl⟩
    obtain ⟨-, hresult, -⟩ := search_behind hfamily hbehind
    refine ⟨0, hresult.trans ?_⟩
    rw [List.getElem?_eq_getElem (List.length_pos_iff.mpr (mt inOrder_eq_nil.mp hdevices))]
    rfl

end Firmware

end Realraum
