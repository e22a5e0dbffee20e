import Realraum.Firmware.Helpers.RomCode
/-!
# The firmware — a walk on the 1-Wire bus

What a search on the bus knows and keeps, whichever way it counts: the
devices that go on are those whose codes begin with the bits written, the
two reads of a round say whether there is a fork, and a bit that some device
has, and that is the preferred one at a fork, takes the walk one bit further.
-/

namespace Realraum

namespace Firmware

open BitSearch

variable {rom last : DeviceAddress} {devices : List DeviceAddress} {w : Wire} {z : Option ℕ}
variable {i k d : ℕ} {b : Bool}

/-- **The walk behind so many bits**: those of the code are written, and the
others are still those of the last code. -/
structure Walking (devices : List DeviceAddress) (last : DeviceAddress) (z : Option ℕ) (i : ℕ)
    (rom : DeviceAddress) (w : Wire) : Prop where
  passed : w.passed = i
  kept : ∀ j, i ≤ j → j < 64 → rom.bit j = last.bit j
  mem_answering : ∀ rom', rom' ∈ w.answering ↔
    rom' ∈ devices ∧ rom'.word.take i = rom.word.take i
  answered : ∃ rom', rom' ∈ w.answering
  follows : GoesAs (words devices) (prefer last.word z) (rom.word.take i)

theorem Walking.start (h : devices ≠ []) (rom : DeviceAddress) (z : Option ℕ) :
    Walking devices rom z 0 rom ⟨devices, 0⟩ where
  passed := rfl
  kept _ _ _ := rfl
  mem_answering rom' := by simp
  answered := List.exists_mem_of_ne_nil devices h
  follows := by
    rw [List.take_zero]
    exact .nil

/-! ## The reads of a round -/

theorem Walking.idBit_iff (h : Walking devices last z i rom w) :
    w.idBit = true ↔ ∀ rom' ∈ w.answering, rom'.bit i = true := by
  rw [Wire.idBit, List.all_eq_true, h.passed]

theorem Walking.cmpIdBit_iff (h : Walking devices last z i rom w) :
    w.cmpIdBit = true ↔ ∀ rom' ∈ w.answering, rom'.bit i = false := by
  rw [Wire.cmpIdBit, List.all_eq_true, h.passed]
  simp only [Bool.not_eq_true']

/-- **There is a fork where both reads are 0.** -/
theorem Walking.fork_iff (h : Walking devices last z i rom w) (hi : i < 64) :
    Fork (words devices) (rom.word.take i) ↔ w.idBit = false ∧ w.cmpIdBit = false := by
  rw [fork_words_iff (length_take_word _ hi) hi, ← Bool.not_eq_true, ← Bool.not_eq_true,
    h.idBit_iff, h.cmpIdBit_iff]
  simp only [h.mem_answering, not_forall, Bool.not_eq_true, Bool.not_eq_false, exists_prop,
    and_assoc]

/-- Somebody is there to send a 0. -/
theorem Walking.not_both (h : Walking devices last z i rom w) :
    ¬ (w.idBit = true ∧ w.cmpIdBit = true) := by
  rintro ⟨hid, hcmp⟩
  obtain ⟨rom', hmem⟩ := h.answered
  have htrue := h.idBit_iff.mp hid rom' hmem
  rw [h.cmpIdBit_iff.mp hcmp rom' hmem] at htrue
  exact Bool.false_ne_true htrue

/-- Reads that are the same are both 0. -/
theorem Walking.eq_false_of_eq (h : Walking devices last z i rom w)
    (heq : w.idBit = w.cmpIdBit) : w.idBit = false ∧ w.cmpIdBit = false := by
  have hid : w.idBit = false := by
    by_contra hid
    rw [Bool.not_eq_false] at hid
    exact h.not_both ⟨hid, heq ▸ hid⟩
  exact ⟨hid, heq ▸ hid⟩

/-- **Some device has the bit** that was read alone, or any bit at a fork. -/
theorem Walking.exists_bit (h : Walking devices last z i rom w)
    (hb : w.idBit ≠ w.cmpIdBit → b = w.idBit) : ∃ rom' ∈ w.answering, rom'.bit i = b := by
  by_cases heq : w.idBit = w.cmpIdBit
  · obtain ⟨hid, hcmp⟩ := h.eq_false_of_eq heq
    cases b with
    | true =>
        rw [← Bool.not_eq_true, h.cmpIdBit_iff] at hcmp
        simpa using hcmp
    | false =>
        rw [← Bool.not_eq_true, h.idBit_iff] at hid
        simpa using hid
  · obtain ⟨rom', hmem⟩ := h.answered
    refine ⟨rom', hmem, ?_⟩
    rw [hb heq]
    cases hid : w.idBit with
    | true => exact h.idBit_iff.mp hid rom' hmem
    | false =>
        rw [hid] at heq
        exact h.cmpIdBit_iff.mp (by simpa using Ne.symm heq) rom' hmem

/-! ## The write -/

/-- The word behind the bit. -/
theorem take_word_put_succ (rom : DeviceAddress) (hi : i < 64) (b : Bool) :
    (rom.put (UInt8.ofNat (i / 8)) (romMask i) b).word.take (i + 1) = rom.word.take i ++ [b] := by
  rw [take_succ_word _ hi, take_word_put rom hi, bit_put rom hi hi, if_pos rfl]

/-- **One bit further**: some device has the bit, and at a fork it is the
preferred one. -/
theorem Walking.writeBit (h : Walking devices last z i rom w) (hi : i < 64)
    (hsome : w.idBit ≠ w.cmpIdBit → b = w.idBit)
    (hfork : Fork (words devices) (rom.word.take i) →
      b = prefer last.word z (rom.word.take i)) :
    Walking devices last z (i + 1) (rom.put (UInt8.ofNat (i / 8)) (romMask i) b)
      (w.writeBit b) where
  passed := congrArg (· + 1) h.passed
  kept j hij hj := by
    rw [bit_put rom hi hj, if_neg (Nat.ne_of_gt hij), h.kept j (Nat.le_of_succ_le hij) hj]
  mem_answering rom' := by
    rw [Wire.writeBit, List.mem_filter, h.mem_answering, take_word_put_succ rom hi,
      take_succ_word _ hi, h.passed, decide_eq_true_eq, and_assoc]
    refine and_congr_right fun _ => ⟨fun ⟨heq, hb⟩ => by rw [heq, hb], fun heq => ?_⟩
    obtain ⟨heq, hb⟩ := List.append_inj heq
      ((length_take_word rom' hi).trans (length_take_word rom hi).symm)
    exact ⟨heq, (List.cons.inj hb).1⟩
  answered := by
    obtain ⟨rom', hmem, hb⟩ := h.exists_bit hsome
    refine ⟨rom', List.mem_filter.mpr ⟨hmem, ?_⟩⟩
    rw [h.passed]
    exact decide_eq_true hb
  follows := by
    rw [take_word_put_succ rom hi]
    exact h.follows.concat hfork

/-- **A walk through all bits** is at the code of a device. -/
theorem Walking.found (h : Walking devices last z 64 rom w) :
    rom ∈ devices ∧ GoesAs (words devices) (prefer last.word z) rom.word := by
  have hwhole : ∀ rom' : DeviceAddress, rom'.word.take 64 = rom'.word := fun rom' => by
    rw [← length_word rom', List.take_length]
  obtain ⟨rom', hmem⟩ := h.answered
  obtain ⟨hmem, heq⟩ := (h.mem_answering rom').mp hmem
  have hgoes := h.follows
  rw [hwhole] at hgoes
  rw [hwhole, hwhole] at heq
  exact ⟨word_injective heq ▸ hmem, hgoes⟩

/-! ## One device after the other -/

theorem inOrder_eq_nil : inOrder devices = [] ↔ devices = [] := by
  rw [List.eq_nil_iff_forall_not_mem, List.eq_nil_iff_forall_not_mem]
  exact forall_congr' fun rom => not_congr mem_inOrder

/-- The last junction is a bit of the word. -/
theorem lt_of_lastJunction {D : Set (List Bool)} (h : LastJunction D rom.word z) :
    ∀ d ∈ z, d < 64 := by
  rintro d rfl
  exact length_word rom ▸ h.1.lt_length

/-- A first walk is for the first device. -/
theorem first_of_goesAs (hrom : rom ∈ devices)
    (h : GoesAs (words devices) (prefer last.word none) rom.word) :
    (inOrder devices)[0]? = some rom := by
  refine getElem?_inOrder.mp (getElem?_zero_of_least (pairwise_inOrder devices) ?_ fun w hw => ?_)
  · exact mem_map_inOrder.mpr (word_mem_words.mpr hrom)
  · exact h.least length_of_mem_words (word_mem_words.mpr hrom) (mem_map_inOrder.mp hw)

/-- The next walk is for the next one. -/
theorem next_of_goesAs (hget : (inOrder devices)[k]? = some last)
    (hlast : LastJunction (words devices) last.word (some d)) (hrom : rom ∈ devices)
    (h : GoesAs (words devices) (prefer last.word (some d)) rom.word) :
    (inOrder devices)[k + 1]? = some rom := by
  have hmem := mem_inOrder.mp (List.mem_of_getElem? hget)
  obtain ⟨hlt, hnext⟩ := h.next length_of_mem_words (word_mem_words.mpr hmem) hlast
    (word_mem_words.mpr hrom)
  exact getElem?_inOrder.mp (getElem?_succ_of_next (pairwise_inOrder devices)
    (getElem?_inOrder.mpr hget) (mem_map_inOrder.mpr (word_mem_words.mpr hrom)) hlt
    fun w hw => hnext w (mem_map_inOrder.mp hw))

/-- And without a junction it was the last one. -/
theorem length_of_lastJunction (hget : (inOrder devices)[k]? = some last)
    (hlast : LastJunction (words devices) last.word none) : (inOrder devices).length = k + 1 := by
  have hmem := mem_inOrder.mp (List.mem_of_getElem? hget)
  have hlength := length_of_greatest (pairwise_inOrder devices) (getElem?_inOrder.mpr hget)
    fun w hw => hlast.greatest length_of_mem_words (word_mem_words.mpr hmem) (mem_map_inOrder.mp hw)
  rwa [List.length_map] at hlength

end Firmware

end Realraum
