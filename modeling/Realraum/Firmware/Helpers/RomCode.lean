import Mathlib.Data.Nat.Bitwise
import Realraum.Common.BitSearch
import Realraum.Firmware.Model.OneWire
/-!
# The firmware — ROM codes

The bits of a code, the code as the word of its bits, and the devices in the
order of these words.
-/

namespace Realraum

namespace Firmware

open BitSearch

variable {rom rom' : DeviceAddress} {devices : List DeviceAddress} {b : Bool} {i n : ℕ}

/-! ## Bits -/

/-- The mask behind so many shifts. -/
def romMask (n : ℕ) : UInt8 := 1 <<< UInt8.ofNat (n % 8)

theorem toNat_romMask (n : ℕ) : (romMask n).toNat = 2 ^ (n % 8) := by
  have hall : ∀ k : Fin 8, (1 <<< UInt8.ofNat k : UInt8).toNat = 2 ^ k.val := by decide
  exact hall ⟨n % 8, Nat.mod_lt n (by decide)⟩

/-- The bits of a byte in which one was set. -/
theorem testBit_set (x : UInt8) (n i : ℕ) :
    (x ||| romMask n).toNat.testBit i = (x.toNat.testBit i || decide (n % 8 = i)) := by
  rw [UInt8.toNat_or, Nat.testBit_or, toNat_romMask, Nat.testBit_two_pow]

/-- And in which it was cleared. -/
theorem testBit_clear (x : UInt8) (n : ℕ) (hi : i < 8) :
    (x &&& ~~~romMask n).toNat.testBit i = (x.toNat.testBit i && !decide (n % 8 = i)) := by
  have hnot : (~~~romMask n).toNat.testBit i = !decide (n % 8 = i) := by
    show (~~~romMask n).toBitVec.getLsbD i = _
    rw [UInt8.toBitVec_not, BitVec.getLsbD_not, decide_eq_true hi, Bool.true_and]
    show (!(romMask n).toNat.testBit i) = _
    rw [toNat_romMask, Nat.testBit_two_pow]
  rw [UInt8.toNat_and, Nat.testBit_and, hnot]

theorem byteIndex_ofNat (n : ℕ) (h : n < 64) :
    byteIndex (UInt8.ofNat (n / 8)) = Fin.ofNat 8 (n / 8) := by
  rw [byteIndex, UInt8.toNat_ofNat_of_lt']
  show _ < 256
  omega

/-- The test for a bit of the code. -/
theorem bit_eq_test (rom : DeviceAddress) (h : n < 64) :
    decide (0 < rom (byteIndex (UInt8.ofNat (n / 8))) &&& romMask n) = rom.bit n := by
  rw [byteIndex_ofNat n h, DeviceAddress.bit]
  generalize rom (Fin.ofNat 8 (n / 8)) = x
  have hbits : ∀ k, (x &&& romMask n).toNat.testBit k =
      (x.toNat.testBit k && decide (n % 8 = k)) := by
    intro k
    rw [UInt8.toNat_and, toNat_romMask, Nat.testBit_and, Nat.testBit_two_pow]
  cases hbit : x.toNat.testBit (n % 8) with
  | true =>
      refine decide_eq_true (UInt8.lt_iff_toNat_lt.mpr (Nat.pos_of_ne_zero fun hzero => ?_))
      have htest := hbits (n % 8)
      rw [hzero, hbit, decide_eq_true rfl] at htest
      simp at htest
  | false =>
      refine decide_eq_false fun hpos => (UInt8.lt_iff_toNat_lt.mp hpos).ne' ?_
      refine Nat.eq_of_testBit_eq fun k => ?_
      rw [hbits, UInt8.toNat_zero, Nat.zero_testBit]
      by_cases hk : n % 8 = k
      · rw [← hk, hbit, Bool.false_and]
      · rw [decide_eq_false hk, Bool.and_false]

/-- **A bit is put into a code**, and the others stay. -/
theorem bit_put (rom : DeviceAddress) (hn : n < 64) (hi : i < 64) (b : Bool) :
    (rom.put (UInt8.ofNat (n / 8)) (romMask n) b).bit i = if i = n then b else rom.bit i := by
  rw [DeviceAddress.bit, DeviceAddress.put, byteIndex_ofNat n hn]
  have hmod : i % 8 < 8 := Nat.mod_lt i (by decide)
  by_cases hbyte : Fin.ofNat 8 (i / 8) = Fin.ofNat 8 (n / 8)
  · have heq : i / 8 = n / 8 := by
      have hval := congrArg Fin.val hbyte
      simp only [Fin.val_ofNat] at hval
      omega
    rw [if_pos hbyte]
    have hset := testBit_set (rom (Fin.ofNat 8 (i / 8))) n (i % 8)
    have hclear := testBit_clear (rom (Fin.ofNat 8 (i / 8))) n hmod
    by_cases hin : i = n
    · rw [if_pos hin]
      have hmask : n % 8 = i % 8 := by rw [hin]
      rw [decide_eq_true hmask] at hset hclear
      cases b with
      | true => rw [if_pos rfl, hset, Bool.or_true]
      | false => rw [if_neg Bool.false_ne_true, hclear, Bool.not_true, Bool.and_false]
    · rw [if_neg hin, DeviceAddress.bit]
      have hmask : n % 8 ≠ i % 8 := by omega
      rw [decide_eq_false hmask] at hset hclear
      cases b with
      | true => rw [if_pos rfl, hset, Bool.or_false]
      | false => rw [if_neg Bool.false_ne_true, hclear, Bool.not_false, Bool.and_true]
  · rw [if_neg hbyte, if_neg]
    · rfl
    · rintro rfl
      exact hbyte rfl

/-! ## Words -/

theorem length_word (rom : DeviceAddress) : rom.word.length = 64 := by
  rw [DeviceAddress.word, List.length_map, List.length_range]

theorem getElem?_word (rom : DeviceAddress) (h : i < 64) : rom.word[i]? = some (rom.bit i) := by
  rw [DeviceAddress.word, List.getElem?_map, List.getElem?_range h]
  rfl

/-- **A code is the word of its bits.** -/
theorem word_injective : Function.Injective DeviceAddress.word := by
  intro rom rom' h
  funext k
  rw [← UInt8.toNat_inj]
  refine Nat.eq_of_testBit_eq fun i => ?_
  by_cases hi : i < 8
  · have hbit : rom.bit (8 * k + i) = rom'.bit (8 * k + i) := by
      have hlt : 8 * k.val + i < 64 := by omega
      have hget := congrArg (·[8 * k.val + i]?) h
      simpa only [getElem?_word _ hlt, Option.some.injEq] using hget
    have hdiv : (8 * k.val + i) / 8 = k := by omega
    have hmod : (8 * k.val + i) % 8 = i := by omega
    simpa only [DeviceAddress.bit, hdiv, hmod, Fin.ofNat_val_eq_self] using hbit
  · have hlarge : ∀ x : UInt8, x.toNat < 2 ^ i := fun x =>
      Nat.lt_of_lt_of_le x.toNat_lt (Nat.pow_le_pow_right (by decide) (Nat.le_of_not_lt hi))
    rw [Nat.testBit_lt_two_pow (hlarge _), Nat.testBit_lt_two_pow (hlarge _)]

/-- The next bit of the word. -/
theorem take_succ_word (rom : DeviceAddress) (h : i < 64) :
    rom.word.take (i + 1) = rom.word.take i ++ [rom.bit i] := by
  rw [List.take_add_one, getElem?_word _ h]
  rfl

theorem length_take_word (rom : DeviceAddress) (h : i < 64) : (rom.word.take i).length = i := by
  rw [List.length_take, length_word, Nat.min_eq_left (Nat.le_of_lt h)]

/-- The word behind a bit that is put. -/
theorem take_word_put (rom : DeviceAddress) (h : i < 64) (b : Bool) :
    (rom.put (UInt8.ofNat (i / 8)) (romMask i) b).word.take i = rom.word.take i := by
  refine List.ext_getElem? fun j => ?_
  rw [List.getElem?_take, List.getElem?_take]
  split
  · rename_i hj
    rw [getElem?_word _ (Nat.lt_trans hj h), getElem?_word _ (Nat.lt_trans hj h),
      bit_put rom h (Nat.lt_trans hj h), if_neg (Nat.ne_of_lt hj)]
  · rfl

/-- The words of these devices. -/
def words (devices : List DeviceAddress) : Set (List Bool) := {w | ∃ rom ∈ devices, rom.word = w}

theorem length_of_mem_words : ∀ w ∈ words devices, w.length = 64 := by
  rintro w ⟨rom, -, rfl⟩
  exact length_word rom

theorem word_mem_words : rom.word ∈ words devices ↔ rom ∈ devices := by
  constructor
  · rintro ⟨rom', hmem, heq⟩
    rwa [← word_injective heq]
  · exact fun h => ⟨rom, h, rfl⟩

/-- What a word looks like behind some of its bits. -/
theorem word_eq_iff {u : List Bool} (hu : u.length = i) (hi : i < 64) :
    (∃ v, rom.word = u ++ b :: v) ↔ rom.word.take i = u ∧ rom.bit i = b := by
  constructor
  · rintro ⟨v, h⟩
    have hget := getElem?_word rom hi
    rw [h, ← hu] at hget ⊢
    refine ⟨List.take_left, ?_⟩
    simpa [eq_comm] using hget
  · rintro ⟨rfl, rfl⟩
    have hlt : i < rom.word.length := by rwa [length_word]
    refine ⟨rom.word.drop (i + 1), ?_⟩
    have hget : rom.word[i] = rom.bit i := by
      have hsome := getElem?_word rom hi
      rwa [List.getElem?_eq_getElem hlt, Option.some.injEq] at hsome
    rw [← hget, ← List.drop_eq_getElem_cons hlt, List.take_append_drop]

/-- **A fork of the words**: devices with both bits begin like this. -/
theorem fork_words_iff {u : List Bool} (hu : u.length = i) (hi : i < 64) :
    Fork (words devices) u ↔
      (∃ rom ∈ devices, rom.word.take i = u ∧ rom.bit i = false) ∧
        ∃ rom ∈ devices, rom.word.take i = u ∧ rom.bit i = true := by
  have hside : ∀ b, (∃ v, u ++ b :: v ∈ words devices) ↔
      ∃ rom ∈ devices, rom.word.take i = u ∧ rom.bit i = b := by
    intro b
    constructor
    · rintro ⟨v, rom, hmem, heq⟩
      exact ⟨rom, hmem, (word_eq_iff hu hi).mp ⟨v, heq⟩⟩
    · rintro ⟨rom, hmem, h⟩
      obtain ⟨v, heq⟩ := (word_eq_iff hu hi).mpr h
      exact ⟨v, rom, hmem, heq⟩
  rw [Fork, hside, hside]

/-! ## The devices in order -/

theorem mem_inOrder : rom ∈ inOrder devices ↔ rom ∈ devices := by
  rw [inOrder, List.mem_insertionSort, List.mem_dedup]

/-- Their words go up. -/
theorem pairwise_inOrder (devices : List DeviceAddress) :
    ((inOrder devices).map DeviceAddress.word).Pairwise (· < ·) := by
  have hle : ((inOrder devices).map DeviceAddress.word).Pairwise (· ≤ ·) := by
    rw [List.pairwise_map]
    have : Std.Total fun rom rom' : DeviceAddress => rom.word ≤ rom'.word :=
      ⟨fun rom rom' => le_total _ _⟩
    have : IsTrans DeviceAddress fun rom rom' => rom.word ≤ rom'.word :=
      ⟨fun _ _ _ h h' => le_trans h h'⟩
    exact List.pairwise_insertionSort _ _
  have hne : ((inOrder devices).map DeviceAddress.word).Nodup :=
    ((List.perm_insertionSort _ _).nodup_iff.mpr (List.nodup_dedup _)).map word_injective
  exact (hle.and hne).imp fun ⟨hle, hne⟩ => lt_of_le_of_ne hle hne

theorem mem_map_inOrder {w : List Bool} :
    w ∈ (inOrder devices).map DeviceAddress.word ↔ w ∈ words devices := by
  rw [List.mem_map]
  exact exists_congr fun rom => and_congr_left fun _ => mem_inOrder

/-- A device is where its word is. -/
theorem getElem?_inOrder :
    ((inOrder devices).map DeviceAddress.word)[i]? = some rom.word ↔
      (inOrder devices)[i]? = some rom := by
  rw [List.getElem?_map, Option.map_eq_some_iff]
  constructor
  · rintro ⟨rom', hget, heq⟩
    rwa [← word_injective heq]
  · exact fun h => ⟨rom, h, rfl⟩

end Firmware

end Realraum
