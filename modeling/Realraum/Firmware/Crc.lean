import Realraum.Common.Crc
import Realraum.Firmware.Model.OneWire
/-!
# The firmware — the CRC of the 1-Wire bus

The loop over the bits of a byte is a register of eight bits with the
polynomial `0x8c`; the byte can be added to the register beforehand, which is
what the table is for. No two messages of one check differ in one to three
bits, or within eight bits behind each other.
-/

namespace Realraum

namespace Firmware

open Crc

variable {addr addr' : List UInt8} {len crc crc' : UInt8}

/-! ## The table -/

/-- The register when the byte was added to it beforehand. -/
def crcShift (x : UInt8) : UInt8 := (crcRound (x, 0)).1

/-- A round is the same for the sum of the register and the byte. -/
theorem crcRound_xor (r : UInt8 × UInt8) :
    (crcRound r).1 ^^^ (crcRound r).2 = crcShift (r.1 ^^^ r.2) := by
  rw [crcShift, crcRound, crcRound]
  simp only [UInt8.xor_zero]
  split
  · rw [UInt8.shiftRight_xor]
    ac_rfl
  · rw [UInt8.shiftRight_xor]

theorem iterate_crcRound_xor (r : UInt8 × UInt8) (k : ℕ) :
    (crcRound^[k] r).1 ^^^ (crcRound^[k] r).2 = crcShift^[k] (r.1 ^^^ r.2) := by
  induction k with
  | zero => rfl
  | succ k ih => rw [Function.iterate_succ_apply', Function.iterate_succ_apply', crcRound_xor, ih]

/-- The byte is used up behind eight rounds. -/
theorem crcByte_eq (crc inbyte : UInt8) : crcByte crc inbyte = crcShift^[8] (crc ^^^ inbyte) := by
  have hbyte : ∀ k, (crcRound^[k] (crc, inbyte)).2 = (fun x : UInt8 => x >>> 1)^[k] inbyte := by
    intro k
    induction k with
    | zero => rfl
    | succ k ih =>
        rw [Function.iterate_succ_apply', Function.iterate_succ_apply', ← ih]
        rfl
  have hgone : ∀ i : Fin 256, (fun x : UInt8 => x >>> 1)^[8] (UInt8.ofNat i) = 0 := by
    decide +kernel
  have hend := hgone ⟨inbyte.toNat, inbyte.toNat_lt⟩
  rw [UInt8.ofNat_toNat] at hend
  have hxor := iterate_crcRound_xor (crc, inbyte) 8
  rwa [hbyte, hend, UInt8.xor_zero] at hxor

/-- **The table and the loop compute the same**, for all messages. -/
theorem crc8Table_eq (addr : List UInt8) (len : UInt8) : crc8Table addr len = crc8 addr len := by
  have htable : ∀ i : Fin 256, dscrcTable.getD i 0 = crcShift^[8] (UInt8.ofNat i) := by
    decide +kernel
  have hentry : ∀ x : UInt8, dscrcTable.getD x.toNat 0 = crcShift^[8] x := by
    intro x
    have h := htable ⟨x.toNat, x.toNat_lt⟩
    rwa [UInt8.ofNat_toNat] at h
  have hstep : (fun crc inbyte => dscrcTable.getD (crc ^^^ inbyte).toNat 0) = crcByte := by
    funext crc inbyte
    rw [hentry, crcByte_eq]
  rw [crc8Table, crc8, hstep]

/-! ## The register -/

/-- The polynomial. -/
def crcPoly : BitVec 8 := 0x8c

/-- The bits of a byte, the lowest first. -/
def byteBits (x : UInt8) : List Bool := (List.range 8).map x.toBitVec.getLsbD

/-- The bits of a message. -/
def messageBits (bytes : List UInt8) : List Bool := bytes.flatMap byteBits

theorem crcRound_fst (r : UInt8 × UInt8) :
    (crcRound r).1.toBitVec = step crcPoly r.1.toBitVec (r.2.toBitVec.getLsbD 0) := by
  have hmix : ∀ x : UInt8, x &&& 1 ≠ 0 ↔ x.toBitVec.getLsbD 0 = true := by
    intro x
    have hall : ∀ i : Fin 256, UInt8.ofNat i &&& 1 ≠ 0 ↔
        (UInt8.ofNat i).toBitVec.getLsbD 0 = true := by decide +kernel
    have h := hall ⟨x.toNat, x.toNat_lt⟩
    rwa [UInt8.ofNat_toNat] at h
  have hbit := hmix (r.1 ^^^ r.2)
  rw [UInt8.toBitVec_xor, BitVec.getLsbD_xor] at hbit
  rw [crcRound, step]
  simp only [hbit]
  split
  · rfl
  · rfl

theorem iterate_crcRound (r : UInt8 × UInt8) (k : ℕ) :
    (crcRound^[k] r).1.toBitVec =
        run crcPoly r.1.toBitVec ((List.range k).map r.2.toBitVec.getLsbD) ∧
      (crcRound^[k] r).2.toBitVec = r.2.toBitVec >>> k := by
  induction k with
  | zero => exact ⟨rfl, (BitVec.ushiftRight_zero _).symm⟩
  | succ k ih =>
      obtain ⟨hcrc, hbyte⟩ := ih
      rw [Function.iterate_succ_apply', crcRound_fst, hcrc, hbyte, List.range_succ, List.map_append,
        run_append, BitVec.getLsbD_ushiftRight]
      refine ⟨rfl, ?_⟩
      rw [BitVec.shiftRight_add, ← hbyte]
      rfl

/-- **The check is the register behind the bits of the message.** -/
theorem toBitVec_crc8 (hlen : addr.length = len.toNat) :
    (crc8 addr len).toBitVec = run crcPoly 0#8 (messageBits addr) := by
  have hall : ∀ addr crc, (addr.foldl crcByte crc).toBitVec =
      run crcPoly crc.toBitVec (messageBits addr) := by
    intro addr
    induction addr with
    | nil => exact fun crc => rfl
    | cons inbyte addr ih =>
        intro crc
        rw [List.foldl_cons, ih, crcByte, (iterate_crcRound (crc, inbyte) 8).1]
        exact (run_append _ _ _ _).symm
  rw [crc8, ← hlen, List.take_length]
  exact hall addr 0

theorem length_messageBits (bytes : List UInt8) :
    (messageBits bytes).length = 8 * bytes.length := by
  induction bytes with
  | nil => rfl
  | cons x bytes ih =>
      rw [messageBits, List.flatMap_cons, List.length_append, byteBits, List.length_map,
        List.length_range, List.length_cons, Nat.mul_succ, Nat.add_comm]
      exact congrArg (· + 8) ih

theorem byteBits_injective : Function.Injective byteBits := by
  intro x y h
  refine UInt8.toBitVec_inj.mp (BitVec.eq_of_getLsbD_eq fun i hi => ?_)
  have hget := congrArg (·[i]?) h
  simpa [byteBits, List.getElem?_map, List.getElem?_range hi] using hget

theorem messageBits_injective {bytes bytes' : List UInt8}
    (h : messageBits bytes = messageBits bytes') : bytes = bytes' := by
  induction bytes generalizing bytes' with
  | nil =>
      have hlength := length_messageBits bytes'
      rw [← h] at hlength
      have hzero : 0 = 8 * bytes'.length := hlength
      exact (List.eq_nil_of_length_eq_zero (by omega)).symm
  | cons x bytes ih =>
      cases bytes' with
      | nil =>
          have hlength := length_messageBits (x :: bytes)
          rw [h] at hlength
          simp [messageBits] at hlength
      | cons y bytes' =>
          obtain ⟨hhead, htail⟩ := List.append_inj h rfl
          rw [byteBits_injective hhead, ih htail]

/-- **The message with its check** brings the register to 0. -/
theorem run_checked (hlen : addr.length = len.toNat) (h : crc8 addr len = crc) :
    run crcPoly 0#8 (messageBits (addr ++ [crc])) = 0#8 := by
  have hbits : messageBits (addr ++ [crc]) = messageBits addr ++ byteBits crc := by
    rw [messageBits, List.flatMap_append, List.flatMap_singleton]
    rfl
  rw [hbits, run_append, ← toBitVec_crc8 hlen, h]
  exact run_own crcPoly crc.toBitVec

/-! ## What the check finds -/

/-- The polynomial does not come back within 127 bits. -/
theorem crcPoly_apart : Apart crcPoly 127 := by decide +kernel

/-- Where two messages differ. -/
def differences (bytes bytes' : List UInt8) : List Bool :=
  List.zipWith (· ^^ ·) (messageBits bytes) (messageBits bytes')

/-- In up to three bits of a message of up to 15 bytes, or only within eight
bits behind each other. -/
def FewDifferences (bytes bytes' : List UInt8) : Prop :=
  bytes.length ≤ 15 ∧ (differences bytes bytes').count true ≤ 3 ∨
    ∃ c d burst, differences bytes bytes' =
      List.replicate c false ++ (burst ++ List.replicate d false) ∧ burst.length ≤ 8

/-- **Every small change of a message is found**: one that changes, with the
check of the message included, up to three bits (of up to 15 bytes), or only
bits within eight behind each other, of a message as long as `len` can say. -/
theorem crc8_detects (hlen : addr.length = len.toNat) (hlen' : addr'.length = len.toNat)
    (h : crc8 addr len = crc) (hne : addr ++ [crc] ≠ addr' ++ [crc'])
    (hfew : FewDifferences (addr ++ [crc]) (addr' ++ [crc'])) : crc8 addr' len ≠ crc' := by
  intro h'
  have hlength : addr.length = addr'.length := hlen.trans hlen'.symm
  have hsame : (messageBits (addr ++ [crc])).length = (messageBits (addr' ++ [crc'])).length := by
    rw [length_messageBits, length_messageBits, List.length_append, List.length_append, hlength]
    rfl
  have hzero : run crcPoly 0#8 (differences (addr ++ [crc]) (addr' ++ [crc'])) = 0#8 :=
    (run_zipWith_eq_zero_iff hsame).mpr ((run_checked hlen h).trans (run_checked hlen' h').symm)
  have hnone : ∀ b ∈ differences (addr ++ [crc]) (addr' ++ [crc']), b = false := by
    rcases hfew with ⟨hshort, hle⟩ | ⟨c, d, burst, hburst, hshort⟩
    · have hbits : (differences (addr ++ [crc]) (addr' ++ [crc'])).length ≤ 127 := by
        rw [differences, List.length_zipWith, ← hsame, Nat.min_self, length_messageBits]
        omega
      have hcount : (differences (addr ++ [crc]) (addr' ++ [crc'])).count true = 0 := by
        by_contra hpos
        exact run_ne_zero_of_count (by decide) (by decide) crcPoly_apart hbits
          (Nat.pos_of_ne_zero hpos) hle hzero
      rw [eq_replicate_of_count hcount]
      exact fun b hb => List.eq_of_mem_replicate hb
    · rw [hburst] at hzero ⊢
      have hfalse := burst_eq_of_run_eq_zero (by decide) hshort hzero
      intro b hb
      rcases List.mem_append.mp hb with hzeros | hb
      · exact List.eq_of_mem_replicate hzeros
      · rcases List.mem_append.mp hb with hb | hzeros
        · exact hfalse b hb
        · exact List.eq_of_mem_replicate hzeros
  exact hne (messageBits_injective (eq_of_differences hsame hnone))

/-- **The address in the firmware**: a code that differs from it in one bit of
the family code and one bit of the check is not valid. -/
theorem crc8_detects_address :
    crc8 [0x11, 0xe7, 0x77, 0xd3, 1, 8, 0] 7 ≠ 0x3e := by
  have hvalid : crc8 [0x10, 0xe7, 0x77, 0xd3, 1, 8, 0] 7 = 0x3f := by decide +kernel
  have hfew : FewDifferences ([0x10, 0xe7, 0x77, 0xd3, 1, 8, 0] ++ [0x3f])
      ([0x11, 0xe7, 0x77, 0xd3, 1, 8, 0] ++ [0x3e]) := .inl (by decide +kernel)
  exact crc8_detects rfl rfl hvalid (by decide) hfew

end Firmware

end Realraum
