import Realraum.Firmware.Helpers.Receiving
/-!
# The firmware — the buffer of the infrared receiver

The interrupt handler writes to `rawbuf` and counts `rawlen` without a look
at the index, and the decoders read with offsets of their own. Whatever
comes, and whenever the receiver is read or started again, it writes inside
the buffer, and the decoders go by the entries that were recorded.
-/

namespace Realraum

namespace Firmware

variable {p q : IrParams} {irdata : Level}

/-! ## Writing -/

/-- The entries that are recorded in a state: the pause, and the mark. -/
def RcvState.recorded : RcvState → ℕ
  | idle => 0
  | mark => 1
  | space => 2
  | stop => 2

/-- **The count is that of entries in the buffer**, and of those there are in
the state. -/
structure IrParams.Bounded (p : IrParams) : Prop where
  rawlen : p.rawlen ≤ rawbufSize
  recorded : p.rcvstate.recorded ≤ p.rawlen.toNat

/-- What a tick leaves alone. -/
structure Inside (p q : IrParams) : Prop where
  bounded : q.Bounded
  rawbuf : ∀ k, rawbufSize.toNat ≤ k → q.rawbuf k = p.rawbuf k

theorem Inside.trans {r : IrParams} (h : Inside p q) (h' : Inside q r) : Inside p r :=
  ⟨h'.bounded, fun k hk => (h'.rawbuf k hk).trans (h.rawbuf k hk)⟩

/-- **A record below the end** is inside the buffer. -/
theorem inside_record (h : p.rawlen < rawbufSize) {state : RcvState}
    (hstate : state.recorded ≤ p.rawlen.toNat + 1) :
    Inside p { p.record with rcvstate := state } := by
  have hlt := UInt8.lt_iff_toNat_lt.mp h
  have hsize : rawbufSize.toNat = 76 := rfl
  have hcount : (p.rawlen + 1).toNat = p.rawlen.toNat + 1 := by
    rw [UInt8.toNat_add, UInt8.toNat_one]
    omega
  refine ⟨⟨?_, ?_⟩, fun k hk => if_neg (by omega)⟩
  · rw [UInt8.le_iff_toNat_le]
    show (p.rawlen + 1).toNat ≤ _
    omega
  · show _ ≤ (p.rawlen + 1).toNat
    rwa [hcount]

theorem tick_stop (h : p.rcvstate = .stop) :
    p.tick irdata = if irdata = .mark then { p with timer := 0 } else p.counted := by
  obtain ⟨rcvstate, timer, rawbuf, rawlen⟩ := p
  obtain rfl : rcvstate = .stop := h
  rw [IrParams.tick]
  dsimp only
  rw [ite_self]
  rfl

theorem tick_full (h : p.rawlen ≥ rawbufSize) :
    p.tick irdata =
      if irdata = .mark then { p with rcvstate := .stop, timer := 0 }
      else { p.counted with rcvstate := .stop } := by
  rw [IrParams.tick]
  dsimp only
  rw [if_pos h]
  rfl

/-- **An interrupt stays inside the buffer.** -/
theorem inside_tick (h : p.Bounded) (irdata : Level) : Inside p (p.tick irdata) := by
  have hsame : Inside p p.counted := ⟨⟨h.rawlen, h.recorded⟩, fun _ _ => rfl⟩
  have hzero : Inside p { p with timer := 0 } := ⟨⟨h.rawlen, h.recorded⟩, fun _ _ => rfl⟩
  have hrecorded := h.recorded
  by_cases hfull : p.rawlen < rawbufSize
  · have hrecord := fun {state : RcvState} (hle : state.recorded ≤ p.rawlen.toNat + 1) =>
      hsame.trans (inside_record (p := p.counted) hfull hle)
    cases hstate : p.rcvstate with
    | idle =>
        cases irdata with
        | mark =>
            rw [tick_idle_mark hfull hstate]
            split
            · exact hzero
            · have hfirst : Inside { p.counted with rawlen := 0 }
                  { { p.counted with rawlen := 0 }.record with rcvstate := .mark } :=
                inside_record (by decide : (0 : UInt8) < rawbufSize) (Nat.le_refl 1)
              exact ⟨hfirst.bounded, hfirst.rawbuf⟩
        | space => rwa [tick_idle_space hfull hstate]
    | mark =>
        rw [hstate] at hrecorded
        cases irdata with
        | mark => rwa [tick_mark_mark hfull hstate]
        | space =>
            rw [tick_mark_space hfull hstate]
            exact hrecord (Nat.succ_le_succ hrecorded)
    | space =>
        rw [hstate] at hrecorded
        cases irdata with
        | mark =>
            rw [tick_space_mark hfull hstate]
            exact hrecord (Nat.le_add_left 1 _)
        | space =>
            rw [tick_space_space hfull hstate]
            split
            · exact ⟨⟨h.rawlen, hrecorded⟩, fun _ _ => rfl⟩
            · exact hsame
    | stop =>
        rw [tick_stop hstate]
        split
        · exact hzero
        · exact hsame
  · have hmany : 2 ≤ p.rawlen.toNat :=
      Nat.le_trans (by decide) (UInt8.le_iff_toNat_le.mp (UInt8.not_lt.mp hfull))
    rw [tick_full (UInt8.not_lt.mp hfull)]
    split
    · exact ⟨⟨h.rawlen, hmany⟩, fun _ _ => rfl⟩
    · exact ⟨⟨h.rawlen, hmany⟩, fun _ _ => rfl⟩

/-! ## Reading -/

/-- The same receiver, as far as it has recorded a signal. -/
structure SameRecorded (p q : IrParams) : Prop where
  rcvstate : q.rcvstate = p.rcvstate
  rawlen : q.rawlen = p.rawlen
  rawbuf : ∀ k < p.rawlen.toNat, q.rawbuf k = p.rawbuf k

theorem SameRecorded.necBits (h : SameRecorded p q) {n : ℕ} : ∀ {offset data},
    offset + 2 * n ≤ p.rawlen.toNat → q.necBits n offset data = p.necBits n offset data := by
  induction n with
  | zero => exact fun _ => rfl
  | succ n ih =>
      intro offset data hoffset
      rw [IrParams.necBits, IrParams.necBits, h.rawbuf offset (by omega),
        h.rawbuf (offset + 1) (by omega), ih (by omega), ih (by omega)]

/-- Entries 2 and 3 are read behind a look at `rawlen`. -/
theorem SameRecorded.decodeNEC (h : SameRecorded p q) (hlen : 2 ≤ p.rawlen.toNat) :
    q.decodeNEC = p.decodeNEC := by
  rw [IrParams.decodeNEC, IrParams.decodeNEC, h.rawlen, h.rawbuf 1 (by omega)]
  by_cases hrepeat : p.rawlen = 4
  · have hfour : p.rawlen.toNat = 4 := congrArg UInt8.toNat hrepeat
    have hshort : p.rawlen.toNat < 2 * 32 + 4 := by omega
    rw [h.rawbuf 2 (by omega), h.rawbuf 3 (by omega), if_pos hshort, if_pos hshort]
  · by_cases hshort : p.rawlen.toNat < 2 * 32 + 4
    · simp only [hrepeat, false_and, if_false, if_pos hshort]
    · rw [h.rawbuf 2 (by omega), h.rawbuf 3 (by omega), h.necBits (by omega)]

theorem SameRecorded.sonyBits (h : SameRecorded p q) (offset : ℕ) (data : UInt32) :
    q.sonyBits offset data = p.sonyBits offset data := by
  rw [IrParams.sonyBits.eq_1 q, IrParams.sonyBits.eq_1 p, h.rawlen]
  by_cases hoffset : offset + 1 < p.rawlen.toNat
  · rw [if_pos hoffset, if_pos hoffset, h.rawbuf offset (by omega),
      h.rawbuf (offset + 1) hoffset, h.sonyBits, h.sonyBits]
  · rw [if_neg hoffset, if_neg hoffset]
termination_by p.rawlen.toNat - offset

theorem SameRecorded.decodeSony (h : SameRecorded p q) : q.decodeSony = p.decodeSony := by
  rw [IrParams.decodeSony, IrParams.decodeSony, h.rawlen]
  by_cases hshort : p.rawlen.toNat < 2 * 12 + 2
  · rw [if_pos hshort, if_pos hshort]
  · rw [h.rawbuf 1 (by omega), h.sonyBits]

theorem SameRecorded.getRClevel (h : SameRecorded p q)
    (c : IrParams.Cursor) (t1 : ℕ) : q.getRClevel c t1 = p.getRClevel c t1 := by
  rw [IrParams.getRClevel, IrParams.getRClevel, h.rawlen]
  by_cases hoffset : p.rawlen.toNat ≤ c.offset
  · rw [if_pos hoffset, if_pos hoffset]
  · rw [if_neg hoffset, if_neg hoffset, h.rawbuf c.offset (by omega)]

theorem SameRecorded.rc6Level (h : SameRecorded p q)
    (c : IrParams.Cursor) (nbits : ℕ) : q.rc6Level c nbits = p.rc6Level c nbits := by
  rw [IrParams.rc6Level, IrParams.rc6Level]
  simp only [h.getRClevel]

theorem SameRecorded.rc5Bits (h : SameRecorded p q)
    (c : IrParams.Cursor) (nbits : ℕ) (data : UInt32) :
    q.rc5Bits c nbits data = p.rc5Bits c nbits data := by
  induction c, nbits, data using IrParams.rc5Bits.induct p with
  | case1 c nbits data hoffset a b hone ih =>
      rw [IrParams.rc5Bits.eq_1 q, IrParams.rc5Bits.eq_1 p, h.rawlen]
      simp only [h.getRClevel]
      rw [dif_pos hoffset, dif_pos hoffset, dif_pos hone, dif_pos hone]
      exact ih
  | case2 c nbits data hoffset a b hone hzero ih =>
      rw [IrParams.rc5Bits.eq_1 q, IrParams.rc5Bits.eq_1 p, h.rawlen]
      simp only [h.getRClevel]
      rw [dif_pos hoffset, dif_pos hoffset, dif_neg hone, dif_neg hone, dif_pos hzero,
        dif_pos hzero]
      exact ih
  | case3 c nbits data hoffset a b hone hzero =>
      rw [IrParams.rc5Bits.eq_1 q, IrParams.rc5Bits.eq_1 p, h.rawlen]
      simp only [h.getRClevel]
      rw [dif_pos hoffset, dif_pos hoffset, dif_neg hone, dif_neg hone, dif_neg hzero,
        dif_neg hzero]
  | case4 c nbits data hoffset =>
      rw [IrParams.rc5Bits.eq_1 q, IrParams.rc5Bits.eq_1 p, h.rawlen, dif_neg hoffset,
        dif_neg hoffset]

theorem SameRecorded.rc6Bits (h : SameRecorded p q)
    (c : IrParams.Cursor) (nbits : ℕ) (data : UInt32) :
    q.rc6Bits c nbits data = p.rc6Bits c nbits data := by
  induction c, nbits, data using IrParams.rc6Bits.induct p with
  | case1 c nbits data hoffset a b hone ih =>
      rw [IrParams.rc6Bits.eq_1 q, IrParams.rc6Bits.eq_1 p, h.rawlen]
      simp only [h.rc6Level]
      rw [dif_pos hoffset, dif_pos hoffset, dif_pos hone, dif_pos hone]
      exact ih
  | case2 c nbits data hoffset a b hone hzero ih =>
      rw [IrParams.rc6Bits.eq_1 q, IrParams.rc6Bits.eq_1 p, h.rawlen]
      simp only [h.rc6Level]
      rw [dif_pos hoffset, dif_pos hoffset, dif_neg hone, dif_neg hone, dif_pos hzero,
        dif_pos hzero]
      exact ih
  | case3 c nbits data hoffset a b hone hzero =>
      rw [IrParams.rc6Bits.eq_1 q, IrParams.rc6Bits.eq_1 p, h.rawlen]
      simp only [h.rc6Level]
      rw [dif_pos hoffset, dif_pos hoffset, dif_neg hone, dif_neg hone, dif_neg hzero,
        dif_neg hzero]
  | case4 c nbits data hoffset =>
      rw [IrParams.rc6Bits.eq_1 q, IrParams.rc6Bits.eq_1 p, h.rawlen, dif_neg hoffset,
        dif_neg hoffset]

theorem SameRecorded.decodeRC5 (h : SameRecorded p q) : q.decodeRC5 = p.decodeRC5 := by
  rw [IrParams.decodeRC5, IrParams.decodeRC5, h.rawlen]
  simp only [h.getRClevel, h.rc5Bits]

/-- Entry 2 is read without a look at `rawlen`, and what is read there is of
no account. -/
theorem decodeRC6_eq_none (h : p.rawlen.toNat ≤ 3) : p.decodeRC6 = none := by
  have hspace : p.getRClevel ⟨3, 0⟩ rc6T1 = (some .space, ⟨3, 0⟩) := if_pos h
  rw [IrParams.decodeRC6, hspace]
  simp

theorem SameRecorded.decodeRC6 (h : SameRecorded p q) : q.decodeRC6 = p.decodeRC6 := by
  rcases Nat.lt_or_ge 3 p.rawlen.toNat with hlong | hshort
  · rw [IrParams.decodeRC6, IrParams.decodeRC6, h.rawlen, h.rawbuf 1 (by omega),
      h.rawbuf 2 (by omega)]
    simp only [h.getRClevel, h.rc6Bits]
  · rw [decodeRC6_eq_none hshort, decodeRC6_eq_none (by rw [h.rawlen]; exact hshort)]

/-- **The decoders go by what was recorded.** -/
theorem SameRecorded.decode (h : SameRecorded p q)
    (hlen : p.rcvstate = .stop → 2 ≤ p.rawlen.toNat) : q.decode.1 = p.decode.1 := by
  rw [IrParams.decode, IrParams.decode, h.rcvstate, h.rawlen]
  by_cases hstop : p.rcvstate = .stop
  · rw [h.decodeNEC (hlen hstop), h.decodeSony, h.decodeRC5, h.decodeRC6]
    split
    · rfl
    · split
      · rfl
      · split
        · rfl
        · rfl
  · rw [if_pos hstop, if_pos hstop]

/-! ## Any order of events -/

/-- What happens to the receiver. -/
inductive Reception
  | interrupt (irdata : Level)
  | decode
  | resume

/-- One event. -/
def IrParams.after (p : IrParams) : Reception → IrParams
  | .interrupt irdata => p.tick irdata
  | .decode => p.decode.2
  | .resume => p.resume

theorem inside_resume (p : IrParams) : Inside p p.resume :=
  ⟨⟨(by decide : (0 : UInt8) ≤ rawbufSize), Nat.le_refl 0⟩, fun _ _ => rfl⟩

theorem inside_decode (h : p.Bounded) : Inside p p.decode.2 := by
  have hsame : Inside p p := ⟨h, fun _ _ => rfl⟩
  rw [IrParams.decode]
  split
  · exact hsame
  · split
    · exact hsame
    · split
      · exact hsame
      · exact inside_resume p

/-- **One event stays inside the buffer.** -/
theorem inside_after (h : p.Bounded) (e : Reception) : Inside p (p.after e) := by
  cases e with
  | interrupt irdata => exact inside_tick h irdata
  | decode => exact inside_decode h
  | resume => exact inside_resume p

/-- **Any events stay inside the buffer.** -/
theorem inside_events (h : p.Bounded) (events : List Reception) :
    Inside p (events.foldl IrParams.after p) := by
  induction events generalizing p with
  | nil => exact ⟨h, fun _ _ => rfl⟩
  | cons e events ih =>
      have hafter := inside_after h e
      exact hafter.trans (ih hafter.bounded)

/-- **The receiver stays inside its buffer**: from `enableIRIn` on, through any
interrupts, calls of `decode` and of `resume` in any order, `rawlen` is at
most the length of the buffer, nothing behind it is written, and what `decode`
returns never depends on an entry behind the recorded ones. -/
theorem inside_buffer (p : IrParams) (events : List Reception) :
    Inside p (events.foldl IrParams.after p.enableIRIn) ∧
      ∀ q, SameRecorded (events.foldl IrParams.after p.enableIRIn) q →
        q.decode.1 = (events.foldl IrParams.after p.enableIRIn).decode.1 := by
  have henabled : Inside p p.enableIRIn := inside_resume p
  have hinside := henabled.trans (inside_events henabled.bounded events)
  refine ⟨hinside, fun q hq => hq.decode fun hstop => ?_⟩
  have hrecorded := hinside.bounded.recorded
  rwa [hstop] at hrecorded

end Firmware

end Realraum
