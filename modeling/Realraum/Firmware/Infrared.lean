import Realraum.Firmware.Helpers.Receiving
import Realraum.Firmware.Helpers.SentBits
/-!
# The firmware — infrared codes of pulses

NEC codes, which the firmware sends to the amplifier, and Sony codes: a bit
is how long a space or a mark is. A receiver decodes each code that is sent,
wherever its samples fall and with the lag of its sensor, if it has seen a gap
before.
-/

namespace Realraum

namespace Firmware

open Sampling

variable {p : IrParams} {data : UInt32} {bs : List Bool} {lag offset : ℕ}
variable {signal wave : List (Level × ℕ)}

/-! ## NEC -/

/-- The marks and spaces of NEC bits. -/
def necPulses (bs : List Bool) : List (Level × ℕ) :=
  bs.flatMap fun b => [mark necBitMark, space (if b then necOneSpace else necZeroSpace)]

@[simp] theorem necPulses_cons (b : Bool) (bs : List Bool) :
    necPulses (b :: bs) =
      mark necBitMark :: space (if b then necOneSpace else necZeroSpace) :: necPulses bs := rfl

/-- **A NEC code** as it is heard, without the space at its end. -/
def necSignal (bs : List Bool) : List (Level × ℕ) :=
  mark necHdrMark :: space necHdrSpace :: (necPulses bs ++ [mark necBitMark])

theorem necPulses_changing (bs : List Bool) :
    Changing .space (necPulses bs ++ [mark necBitMark]) ∧
      ∃ w, necPulses bs ++ [mark necBitMark] = mark necBitMark :: w := by
  induction bs with
  | nil => exact ⟨⟨by decide, by decide⟩, [], rfl⟩
  | cons b bs ih =>
      obtain ⟨hchanging, w, hw⟩ := ih
      refine ⟨?_, _, rfl⟩
      rw [hw] at hchanging
      rw [necPulses_cons, List.cons_append, List.cons_append, hw]
      refine ⟨by decide, Level.noConfusion, ?_, Level.noConfusion, hchanging⟩
      cases b with
      | true => decide
      | false => decide

theorem condense_sendNEC (data : UInt32) (n : ℕ) :
    condense .space (sendNEC data n) = necSignal (topBits n data) := by
  obtain ⟨hchanging, w, hw⟩ := necPulses_changing (topBits n data)
  have hsend : sendNEC data n = necSignal (topBits n data) ++ [(.space, 0)] := by
    rw [sendNEC, sendBits_const, necSignal, necPulses]
    simp [space]
  rw [hsend, condense_append_rest]
  refine condense_of_changing ⟨by decide, by decide, ?_⟩
  rw [hw] at hchanging ⊢
  exact ⟨by decide, by decide, hchanging⟩

theorem length_necPulses (bs : List Bool) : (necPulses bs).length = 2 * bs.length := by
  induction bs with
  | nil => rfl
  | cons b bs ih =>
      rw [necPulses_cons, List.length_cons, List.length_cons, ih, List.length_cons, Nat.mul_succ]

theorem mem_necPulses {x : Level × ℕ} (h : x ∈ necPulses bs) :
    x = mark necBitMark ∨ x = space necOneSpace ∨ x = space necZeroSpace := by
  obtain ⟨b, -, hx⟩ := List.mem_flatMap.mp h
  rw [List.mem_cons, List.mem_singleton] at hx
  cases b with
  | true => exact hx.imp_right .inl
  | false => exact hx.imp_right .inr

theorem necSignal_sendable (hbs : bs.length = 32) : Sendable 260 (necSignal bs) := by
  have hmem : ∀ x ∈ necSignal bs, x = mark necHdrMark ∨ x = space necHdrSpace ∨
      x = mark necBitMark ∨ x = space necOneSpace ∨ x = space necZeroSpace := by
    intro x hx
    simp only [necSignal, List.mem_cons, List.mem_append, List.not_mem_nil, or_false] at hx
    obtain hx | hx | hx | hx := hx
    · exact .inl hx
    · exact .inr (.inl hx)
    · exact .inr (.inr (mem_necPulses hx))
    · exact .inr (.inr (.inl hx))
  refine ⟨⟨_, _, rfl⟩, fun x hx => ?_, fun x hx => ?_, ?_⟩
  · obtain rfl | rfl | rfl | rfl | rfl := hmem x hx <;> decide
  · obtain rfl | rfl | rfl | rfl | rfl := hmem x hx <;> decide
  · rw [necSignal, List.length_cons, List.length_cons, List.length_append, length_necPulses, hbs]
    decide

/-- **The bits are read back.** -/
theorem necBits_of_recorded {n : ℕ} {acc : UInt32} (hbs : bs.length = n)
    (h : Recorded 260 p offset (necPulses bs ++ [mark necBitMark])) :
    p.necBits n offset acc = some (bs.foldl shiftIn acc) := by
  induction bs generalizing n offset acc with
  | nil =>
      obtain rfl : 0 = n := hbs
      rfl
  | cons b bs ih =>
      obtain rfl : bs.length + 1 = n := hbs
      rw [necPulses_cons] at h
      have hmark : MatchMark (p.rawbuf offset) necBitMark :=
        h.matches_mark (by decide) (by decide) (by decide)
      rw [IrParams.necBits, if_neg (not_not.mpr hmark), List.foldl_cons]
      cases b with
      | true =>
          have hone : MatchSpace (p.rawbuf (offset + 1)) necOneSpace :=
            h.tail.matches_space (by decide) (by decide) (by decide)
          rw [if_pos hone]
          exact ih rfl h.tail.tail
      | false =>
          have hone : ¬ MatchSpace (p.rawbuf (offset + 1)) necOneSpace :=
            h.tail.not_matches_space (by decide) (by decide)
          have hzero : MatchSpace (p.rawbuf (offset + 1)) necZeroSpace :=
            h.tail.matches_space (by decide) (by decide) (by decide)
          rw [if_neg hone, if_pos hzero]
          exact ih rfl h.tail.tail

theorem decodeNEC_of_recorded (hbs : bs.length = 32)
    (hlen : p.rawlen.toNat = (necSignal bs).length + 1) (h : Recorded 260 p 1 (necSignal bs)) :
    p.decodeNEC = some ⟨.nec, bs.foldl shiftIn 0, 32⟩ := by
  have hrawlen : p.rawlen.toNat = 68 := by
    rw [hlen, necSignal, List.length_cons, List.length_cons, List.length_append, length_necPulses,
      hbs]
    rfl
  have hnot : p.rawlen ≠ 4 := by
    rintro heq
    rw [heq] at hrawlen
    exact absurd hrawlen (by decide)
  have hmark : MatchMark (p.rawbuf 1) necHdrMark :=
    h.matches_mark (by decide) (by decide) (by decide)
  have hspace : MatchSpace (p.rawbuf 2) necHdrSpace :=
    h.tail.matches_space (by decide) (by decide) (by decide)
  rw [IrParams.decodeNEC, if_neg (not_not.mpr hmark), if_neg fun hrpt => hnot hrpt.1,
    if_neg (by omega), if_neg (not_not.mpr hspace), necBits_of_recorded hbs h.tail.tail]
  rfl

/-- **NEC codes are received**, any data, exactly if the receiver has seen a gap
before: wherever the samples fall, with a lag of up to 260 µs for each mark and
each space, and read any time once 102 ticks of silence are behind the signal.
The timer counts in 16 bits, so that the gap is also missed just behind an
overflow. -/
theorem nec_received {timer : UInt16} {φ n : ℕ} (hears : Hears 260 (sendNEC data 32) wave)
    (hφ : φ < usecPerTick)
    (hn : duration wave + 102 * usecPerTick ≤ φ + usecPerTick * n) (hp : Waiting p timer) :
    (p.receive (samples usecPerTick .space wave φ n)).decode.1 = some ⟨.nec, data, 32⟩ ↔
      gapTicks ≤ timer + 1 := by
  have hlength := length_topBits 32 data
  have hvalue : (topBits 32 data).foldl shiftIn 0 = data := by
    rw [← UInt32.toNat_inj, foldl_shiftIn (Nat.le_refl _), Nat.sub_self, Nat.pow_zero, Nat.div_one]
  refine received_iff hears (condense_sendNEC data 32 ▸ necSignal_sendable hlength) hφ hn hp ?_
  rw [condense_sendNEC]
  intro p' hlen hrecorded
  rw [decodeNEC_of_recorded hlength hlen hrecorded, hvalue]
  rfl

/-- The code that turns the volume up, 100 ms behind the start. -/
theorem nec_received_volume :
    (IrParams.receive ⟨.idle, 2000, fun _ => 0, 0⟩
      (samples usecPerTick .space (sendNEC 0x5ea158a7 32) 0 1800)).decode.1 =
        some ⟨.nec, 0x5ea158a7, 32⟩ := by
  rw [← samples_condense]
  exact (nec_received (hears_condense 260 _) (by decide) (by decide +kernel)
    ⟨rfl, by decide, rfl⟩).mpr (by decide)

/-! ## Sony -/

/-- The spaces and marks of Sony bits. -/
def sonyPulses (bs : List Bool) : List (Level × ℕ) :=
  bs.flatMap fun b => [space sonyHdrSpace, mark (if b then sonyOneMark else sonyZeroMark)]

@[simp] theorem sonyPulses_cons (b : Bool) (bs : List Bool) :
    sonyPulses (b :: bs) =
      space sonyHdrSpace :: mark (if b then sonyOneMark else sonyZeroMark) :: sonyPulses bs := rfl

/-- **A Sony code** as it is heard, without the space at its end. -/
def sonySignal (bs : List Bool) : List (Level × ℕ) := mark sonyHdrMark :: sonyPulses bs

theorem sonyPulses_changing (bs : List Bool) : ∀ {d : ℕ}, 0 < d →
    Changing .space ((.mark, d) :: sonyPulses bs) := by
  induction bs with
  | nil => exact fun hd => ⟨hd, Level.noConfusion⟩
  | cons b bs ih =>
      intro d hd
      refine ⟨hd, Level.noConfusion, by decide, Level.noConfusion, ih ?_⟩
      cases b with
      | true => decide
      | false => decide

/-- The space behind a bit is the one in front of the next. -/
theorem sonyPulses_append (bs : List Bool) :
    space sonyHdrSpace ::
        bs.flatMap (fun b => [mark (if b then sonyOneMark else sonyZeroMark), space sonyHdrSpace]) =
      sonyPulses bs ++ [space sonyHdrSpace] := by
  induction bs with
  | nil => rfl
  | cons b bs ih =>
      rw [sonyPulses_cons, List.cons_append, List.cons_append, ← ih, List.flatMap_cons]
      rfl

theorem condense_sendSony (data : UInt32) (n : ℕ) :
    condense .space (sendSony data n) =
      sonySignal (topBits n (data <<< UInt32.ofNat (32 - n))) := by
  have hsend : sendSony data n =
      sonySignal (topBits n (data <<< UInt32.ofNat (32 - n))) ++ [space sonyHdrSpace] := by
    rw [sendSony, sendBits_const, sonySignal]
    exact congrArg (List.cons _) (sonyPulses_append _)
  rw [hsend, space, condense_append_rest]
  exact condense_of_changing (sonyPulses_changing _ (by decide))

theorem length_sonyPulses (bs : List Bool) : (sonyPulses bs).length = 2 * bs.length := by
  induction bs with
  | nil => rfl
  | cons b bs ih =>
      rw [sonyPulses_cons, List.length_cons, List.length_cons, ih, List.length_cons, Nat.mul_succ]

theorem sonySignal_sendable (hbs : bs.length ≤ 32) : Sendable 250 (sonySignal bs) := by
  have hmem : ∀ x ∈ sonySignal bs, x = mark sonyHdrMark ∨ x = space sonyHdrSpace ∨
      x = mark sonyOneMark ∨ x = mark sonyZeroMark := by
    intro x hx
    rcases List.mem_cons.mp hx with rfl | hx
    · exact .inl rfl
    · obtain ⟨b, -, hx⟩ := List.mem_flatMap.mp hx
      rw [List.mem_cons, List.mem_singleton] at hx
      cases b with
      | true => exact .inr (hx.imp_right .inl)
      | false => exact .inr (hx.imp_right .inr)
  refine ⟨⟨_, _, rfl⟩, fun x hx => ?_, fun x hx => ?_, ?_⟩
  · obtain rfl | rfl | rfl | rfl := hmem x hx <;> decide
  · obtain rfl | rfl | rfl | rfl := hmem x hx <;> decide
  · rw [sonySignal, List.length_cons, length_sonyPulses]
    omega

/-- **The bits are read back**, up to the end of the buffer. -/
theorem sonyBits_of_recorded {acc : UInt32} (hlen : offset + 2 * bs.length = p.rawlen.toNat)
    (h : Recorded 250 p offset (sonyPulses bs)) :
    p.sonyBits offset acc = some (p.rawlen.toNat, bs.foldl shiftIn acc) := by
  induction bs generalizing offset acc with
  | nil =>
      rw [List.length_nil, Nat.mul_zero, Nat.add_zero] at hlen
      rw [IrParams.sonyBits, if_neg (by omega), hlen, List.foldl_nil]
  | cons b bs ih =>
      rw [List.length_cons] at hlen
      rw [sonyPulses_cons] at h
      have hspace : MatchSpace (p.rawbuf offset) sonyHdrSpace :=
        h.matches_space (by decide) (by decide) (by decide)
      rw [IrParams.sonyBits, if_pos (by omega), if_neg (not_not.mpr hspace), List.foldl_cons]
      cases b with
      | true =>
          have hone : MatchMark (p.rawbuf (offset + 1)) sonyOneMark :=
            h.tail.matches_mark (by decide) (by decide) (by decide)
          rw [if_pos hone]
          exact ih (by omega) h.tail.tail
      | false =>
          have hone : ¬ MatchMark (p.rawbuf (offset + 1)) sonyOneMark :=
            h.tail.not_matches_mark (by decide) (by decide)
          have hzero : MatchMark (p.rawbuf (offset + 1)) sonyZeroMark :=
            h.tail.matches_mark (by decide) (by decide) (by decide)
          rw [if_neg hone, if_pos hzero]
          exact ih (by omega) h.tail.tail

/-- **Sony codes are received**, any data in 12 up to 32 bits, exactly if there
was a gap before: wherever the samples fall, with a lag of up to 250 µs for
each mark and each space, and read any time once 102 ticks of silence are
behind the signal. -/
theorem sony_received {timer : UInt16} {φ n nbits : ℕ} (hmin : 12 ≤ nbits) (hmax : nbits ≤ 32)
    (hears : Hears 250 (sendSony data nbits) wave) (hφ : φ < usecPerTick)
    (hn : duration wave + 102 * usecPerTick ≤ φ + usecPerTick * n) (hp : Waiting p timer) :
    (p.receive (samples usecPerTick .space wave φ n)).decode.1 =
        some ⟨.sony, UInt32.ofNat (data.toNat % 2 ^ nbits), nbits⟩ ↔
      gapTicks ≤ timer + 1 := by
  have hlength := length_topBits nbits (data <<< UInt32.ofNat (32 - nbits))
  refine received_iff hears
    (condense_sendSony data nbits ▸ sonySignal_sendable (hlength.trans_le hmax)) hφ hn hp ?_
  rw [condense_sendSony, ← foldl_shiftIn_shifted (by omega) hmax]
  generalize topBits nbits (data <<< UInt32.ofNat (32 - nbits)) = bs at hlength
  intro p' hlen hrecorded
  rw [sonySignal, List.length_cons, length_sonyPulses, hlength] at hlen
  have hmark : MatchMark (p'.rawbuf 1) sonyHdrMark :=
    hrecorded.matches_mark (by decide) (by decide) (by decide)
  have hbits : p'.sonyBits 2 0 = some (p'.rawlen.toNat, bs.foldl shiftIn 0) :=
    sonyBits_of_recorded (by omega) hrecorded.tail
  have hcount : (p'.rawlen.toNat - 1) / 2 = nbits := by omega
  rw [decodeNEC_eq_none hrecorded (by decide), IrParams.decodeSony, if_neg (by omega),
    if_neg (not_not.mpr hmark), hbits]
  dsimp only
  rw [hcount, if_neg (by omega)]
  rfl

/-- A code of 12 bits, half way between two ticks. -/
theorem sony_received_short :
    (IrParams.receive ⟨.idle, 99, fun _ => 0, 0⟩
      (samples usecPerTick .space (sendSony 0xa90 12) 25 600)).decode.1 =
        some ⟨.sony, UInt32.ofNat ((0xa90 : UInt32).toNat % 2 ^ 12), 12⟩ := by
  rw [← samples_condense]
  exact (sony_received (by decide) (by decide) (hears_condense 250 _) (by decide)
    (by decide +kernel) ⟨rfl, by decide, rfl⟩).mpr (by decide)

end Firmware

end Realraum
