import Mathlib.Data.Nat.Notation
/-!
# The firmware — the infrared remote

The library `IRremote`: what `IRsend` puts on the diode, as marks and spaces
with their microseconds, and the receiver that looks at its pin with every
tick of a timer, records how long the marks and spaces are, and decodes them.
-/

namespace Realraum

namespace Firmware

/-- `MARK` and `SPACE`. -/
inductive Level where
  | mark
  | space
  deriving DecidableEq, Repr

/-! ## Sending -/

/-- `mark`, as what it adds to the signal. -/
def mark (time : ℕ) : Level × ℕ := (.mark, time)

/-- `space`. -/
def space (time : ℕ) : Level × ℕ := (.space, time)

/-- `NEC_HDR_MARK`. -/
def necHdrMark : ℕ := 9000

/-- `NEC_HDR_SPACE`. -/
def necHdrSpace : ℕ := 4500

/-- `NEC_BIT_MARK`. -/
def necBitMark : ℕ := 560

/-- `NEC_ONE_SPACE`. -/
def necOneSpace : ℕ := 1600

/-- `NEC_ZERO_SPACE`. -/
def necZeroSpace : ℕ := 560

/-- `NEC_RPT_SPACE`. -/
def necRptSpace : ℕ := 2250

/-- `SONY_HDR_MARK`. -/
def sonyHdrMark : ℕ := 2400

/-- `SONY_HDR_SPACE`. -/
def sonyHdrSpace : ℕ := 600

/-- `SONY_ONE_MARK`. -/
def sonyOneMark : ℕ := 1200

/-- `SONY_ZERO_MARK`. -/
def sonyZeroMark : ℕ := 600

/-- `RC5_T1`. -/
def rc5T1 : ℕ := 889

/-- `RC6_HDR_MARK`. -/
def rc6HdrMark : ℕ := 2666

/-- `RC6_HDR_SPACE`. -/
def rc6HdrSpace : ℕ := 889

/-- `RC6_T1`. -/
def rc6T1 : ℕ := 444

/-- `data & TOPBIT`. -/
def topBit (data : UInt32) : Bool := data &&& 0x80000000 ≠ 0

/-- The loop of a sender over so many bits, from the `i`-th on. -/
def sendBits (bit : ℕ → Bool → List (Level × ℕ)) : ℕ → ℕ → UInt32 → List (Level × ℕ)
  | 0, _, _ => []
  | n + 1, i, data => bit i (topBit data) ++ sendBits bit n (i + 1) (data <<< 1)

/-- `sendNEC`. -/
def sendNEC (data : UInt32) (nbits : ℕ) : List (Level × ℕ) :=
  [mark necHdrMark, space necHdrSpace] ++
    sendBits (fun _ b => [mark necBitMark, space (if b then necOneSpace else necZeroSpace)])
      nbits 0 data ++
    [mark necBitMark, space 0]

/-- `sendSony`. -/
def sendSony (data : UInt32) (nbits : ℕ) : List (Level × ℕ) :=
  [mark sonyHdrMark, space sonyHdrSpace] ++
    sendBits (fun _ b => [mark (if b then sonyOneMark else sonyZeroMark), space sonyHdrSpace])
      nbits 0 (data <<< UInt32.ofNat (32 - nbits))

/-- `sendRC5`. -/
def sendRC5 (data : UInt32) (nbits : ℕ) : List (Level × ℕ) :=
  [mark rc5T1, space rc5T1, mark rc5T1] ++
    sendBits (fun _ b => if b then [space rc5T1, mark rc5T1] else [mark rc5T1, space rc5T1])
      nbits 0 (data <<< UInt32.ofNat (32 - nbits)) ++
    [space 0]

/-- `sendRC6`, with its trailer bit twice as wide. -/
def sendRC6 (data : UInt32) (nbits : ℕ) : List (Level × ℕ) :=
  [mark rc6HdrMark, space rc6HdrSpace, mark rc6T1, space rc6T1] ++
    sendBits
      (fun i b =>
        let t := if i = 3 then 2 * rc6T1 else rc6T1
        if b then [mark t, space t] else [space t, mark t])
      nbits 0 (data <<< UInt32.ofNat (32 - nbits)) ++
    [space 0]

/-! ## Receiving -/

/-- `USECPERTICK`. -/
def usecPerTick : ℕ := 50

/-- `RAWBUF`. -/
def rawbufSize : UInt8 := 76

/-- `GAP_TICKS`. -/
def gapTicks : UInt16 := 100

/-- The states of the receiver. -/
inductive RcvState where
  | idle
  | mark
  | space
  | stop
  deriving DecidableEq, Repr

/-- `irparams`. -/
structure IrParams where
  rcvstate : RcvState
  timer : UInt16
  rawbuf : ℕ → UInt16
  rawlen : UInt8

namespace IrParams

/-- `rawbuf[rawlen++] = timer`, with the timer started again. -/
def record (p : IrParams) : IrParams :=
  { p with
    timer := 0
    rawbuf := fun k => if k = p.rawlen.toNat then p.timer else p.rawbuf k
    rawlen := p.rawlen + 1 }

/-- **The interrupt handler**, with the level that it reads. -/
def tick (p : IrParams) (irdata : Level) : IrParams :=
  let p := { p with timer := p.timer + 1 }
  let p := if p.rawlen ≥ rawbufSize then { p with rcvstate := .stop } else p
  match p.rcvstate with
  | .idle =>
    if irdata = .mark then
      if p.timer < gapTicks then { p with timer := 0 }
      else { { p with rawlen := 0 }.record with rcvstate := .mark }
    else p
  | .mark => if irdata = .space then { p.record with rcvstate := .space } else p
  | .space =>
    if irdata = .mark then { p.record with rcvstate := .mark }
    else if p.timer > gapTicks then { p with rcvstate := .stop }
    else p
  | .stop => if irdata = .mark then { p with timer := 0 } else p

/-- One interrupt after the other. -/
def receive (p : IrParams) (levels : List Level) : IrParams := levels.foldl tick p

/-- `resume`. -/
def resume (p : IrParams) : IrParams := { p with rcvstate := .idle, rawlen := 0 }

/-- The state machine as `enableIRIn` initialises it. -/
def enableIRIn (p : IrParams) : IrParams := { p with rcvstate := .idle, rawlen := 0 }

end IrParams

/-! ## Decoding -/

/-- The percent of `TOLERANCE`. -/
def tolerance : ℕ := 25

/-- `MARK_EXCESS`. -/
def markExcess : ℕ := 100

/-- `TICKS_LOW`. -/
def ticksLow (us : ℕ) : ℕ := us * (100 - tolerance) / (100 * usecPerTick)

/-- `TICKS_HIGH`. -/
def ticksHigh (us : ℕ) : ℕ := us * (100 + tolerance) / (100 * usecPerTick) + 1

/-- `MATCH`. -/
def Matches (measuredTicks : UInt16) (desiredUs : ℕ) : Prop :=
  ticksLow desiredUs ≤ measuredTicks.toNat ∧ measuredTicks.toNat ≤ ticksHigh desiredUs

instance (measuredTicks : UInt16) (desiredUs : ℕ) : Decidable (Matches measuredTicks desiredUs) :=
  inferInstanceAs (Decidable (_ ∧ _))

/-- `MATCH_MARK`. -/
def MatchMark (measuredTicks : UInt16) (desiredUs : ℕ) : Prop :=
  Matches measuredTicks (desiredUs + markExcess)

instance (measuredTicks : UInt16) (desiredUs : ℕ) : Decidable (MatchMark measuredTicks desiredUs) :=
  inferInstanceAs (Decidable (Matches _ _))

/-- `MATCH_SPACE`. -/
def MatchSpace (measuredTicks : UInt16) (desiredUs : ℕ) : Prop :=
  Matches measuredTicks (desiredUs - markExcess)

instance (measuredTicks : UInt16) (desiredUs : ℕ) :
    Decidable (MatchSpace measuredTicks desiredUs) :=
  inferInstanceAs (Decidable (Matches _ _))

/-- The values for `decode_type`. -/
inductive DecodeType where
  | nec
  | sony
  | rc5
  | rc6
  | unknown
  deriving DecidableEq, Repr

/-- `decode_results`; its buffer is the one of the receiver. -/
structure DecodeResults where
  decodeType : DecodeType
  value : UInt32
  bits : ℕ
  deriving DecidableEq, Repr

/-- `data = (data << 1) | 1`, or `data <<= 1`. -/
def shiftIn (data : UInt32) (b : Bool) : UInt32 := if b then data <<< 1 ||| 1 else data <<< 1

namespace IrParams

/-- The loop of `decodeNEC` for so many bits. -/
def necBits (p : IrParams) : ℕ → ℕ → UInt32 → Option UInt32
  | 0, _, data => some data
  | n + 1, offset, data =>
    if ¬ MatchMark (p.rawbuf offset) necBitMark then none
    else if MatchSpace (p.rawbuf (offset + 1)) necOneSpace then
      p.necBits n (offset + 2) (shiftIn data true)
    else if MatchSpace (p.rawbuf (offset + 1)) necZeroSpace then
      p.necBits n (offset + 2) (shiftIn data false)
    else none

/-- `decodeNEC`. -/
def decodeNEC (p : IrParams) : Option DecodeResults :=
  if ¬ MatchMark (p.rawbuf 1) necHdrMark then none
  else if p.rawlen = 4 ∧ MatchSpace (p.rawbuf 2) necRptSpace ∧
      MatchMark (p.rawbuf 3) necBitMark then
    some ⟨.nec, 0xffffffff, 0⟩
  else if p.rawlen.toNat < 2 * 32 + 4 then none
  else if ¬ MatchSpace (p.rawbuf 2) necHdrSpace then none
  else (p.necBits 32 3 0).map fun data => ⟨.nec, data, 32⟩

/-- The loop of `decodeSony`: where it ends, and the data, unless it returns. -/
def sonyBits (p : IrParams) (offset : ℕ) (data : UInt32) : Option (ℕ × UInt32) :=
  if offset + 1 < p.rawlen.toNat then
    if ¬ MatchSpace (p.rawbuf offset) sonyHdrSpace then some (offset, data)
    else if MatchMark (p.rawbuf (offset + 1)) sonyOneMark then
      p.sonyBits (offset + 2) (shiftIn data true)
    else if MatchMark (p.rawbuf (offset + 1)) sonyZeroMark then
      p.sonyBits (offset + 2) (shiftIn data false)
    else none
  else some (offset, data)
termination_by p.rawlen.toNat - offset

/-- `decodeSony`. -/
def decodeSony (p : IrParams) : Option DecodeResults :=
  if p.rawlen.toNat < 2 * 12 + 2 then none
  else if ¬ MatchMark (p.rawbuf 1) sonyHdrMark then none
  else
    match p.sonyBits 2 0 with
    | none => none
    | some (offset, data) =>
      if (offset - 1) / 2 < 12 then none else some ⟨.sony, data, (offset - 1) / 2⟩

/-- The `offset` and `used` of `getRClevel`. -/
structure Cursor where
  offset : ℕ
  used : ℕ

/-- The width of so many intervals, with the `correction`. -/
def corrected (val : Level) (t1 k : ℕ) : ℕ :=
  if val = .mark then k * t1 + markExcess else k * t1 - markExcess

/-- The intervals that a recorded width stands for. -/
def available (width : UInt16) (val : Level) (t1 : ℕ) : Option ℕ :=
  if Matches width (corrected val t1 1) then some 1
  else if Matches width (corrected val t1 2) then some 2
  else if Matches width (corrected val t1 3) then some 3
  else none

/-- One interval further, in a width of so many. -/
def Cursor.advance (c : Cursor) (avail : ℕ) : Cursor :=
  if avail ≤ c.used + 1 then ⟨c.offset + 1, 0⟩ else ⟨c.offset, c.used + 1⟩

/-- `getRClevel`, where no level stands for its -1. -/
def getRClevel (p : IrParams) (c : Cursor) (t1 : ℕ) : Option Level × Cursor :=
  if p.rawlen.toNat ≤ c.offset then (some .space, c)
  else
    let val := if c.offset % 2 = 1 then .mark else .space
    match available (p.rawbuf c.offset) val t1 with
    | none => (none, c)
    | some avail => (some val, c.advance avail)

/-- What is left for the cursor to go. -/
def Cursor.left (p : IrParams) (c : Cursor) : ℕ := (p.rawlen.toNat - c.offset) * 4 - min c.used 3

theorem available_le {width : UInt16} {val : Level} {t1 k : ℕ}
    (h : available width val t1 = some k) : k ≤ 3 := by
  rw [available] at h
  repeat' split at h
  all_goals first
    | exact Option.some.inj h ▸ by decide
    | cases h

theorem Cursor.left_advance_lt {p : IrParams} {c : Cursor} {avail : ℕ} (h : avail ≤ 3)
    (hoffset : c.offset < p.rawlen.toNat) : (c.advance avail).left p < c.left p := by
  rw [advance]
  split
  · rw [left, left]
    dsimp only
    omega
  · rw [left, left]
    dsimp only
    omega

/-- **A level that is there is used up.** -/
theorem left_getRClevel_lt {p : IrParams} {c : Cursor} {t1 : ℕ}
    (hoffset : c.offset < p.rawlen.toNat) (h : (p.getRClevel c t1).1 ≠ none) :
    (p.getRClevel c t1).2.left p < c.left p := by
  rw [getRClevel, if_neg (Nat.not_le_of_lt hoffset)] at h ⊢
  dsimp only at h ⊢
  split at h
  · exact absurd rfl h
  · rename_i avail havail
    exact Cursor.left_advance_lt (available_le havail) hoffset

theorem left_getRClevel_le (p : IrParams) (c : Cursor) (t1 : ℕ) :
    (p.getRClevel c t1).2.left p ≤ c.left p := by
  by_cases hoffset : p.rawlen.toNat ≤ c.offset
  · refine Nat.le_of_eq ?_
    rw [getRClevel, if_pos hoffset]
  · by_cases hnone : (p.getRClevel c t1).1 = none
    · rw [getRClevel, if_neg hoffset] at hnone ⊢
      dsimp only at hnone ⊢
      split at hnone
      · exact Nat.le_refl _
      · cases hnone
    · exact Nat.le_of_lt (left_getRClevel_lt (Nat.lt_of_not_le hoffset) hnone)

/-- The loop of `decodeRC5`: the bits and the data. -/
def rc5Bits (p : IrParams) (c : Cursor) (nbits : ℕ) (data : UInt32) : Option (ℕ × UInt32) :=
  if hoffset : c.offset < p.rawlen.toNat then
    let a := p.getRClevel c rc5T1
    let b := p.getRClevel a.2 rc5T1
    if hone : a.1 = some .space ∧ b.1 = some .mark then
      p.rc5Bits b.2 (nbits + 1) (shiftIn data true)
    else if hzero : a.1 = some .mark ∧ b.1 = some .space then
      p.rc5Bits b.2 (nbits + 1) (shiftIn data false)
    else none
  else some (nbits, data)
termination_by c.left p
decreasing_by
  · refine Nat.lt_of_le_of_lt (left_getRClevel_le ..) (left_getRClevel_lt hoffset ?_)
    simp [a, hone]
  · refine Nat.lt_of_le_of_lt (left_getRClevel_le ..) (left_getRClevel_lt hoffset ?_)
    simp [a, hzero]

/-- `decodeRC5`. -/
def decodeRC5 (p : IrParams) : Option DecodeResults :=
  if p.rawlen.toNat < 11 + 2 then none
  else
    let a := p.getRClevel ⟨1, 0⟩ rc5T1
    let b := p.getRClevel a.2 rc5T1
    let c := p.getRClevel b.2 rc5T1
    if a.1 ≠ some .mark then none
    else if b.1 ≠ some .space then none
    else if c.1 ≠ some .mark then none
    else (p.rc5Bits c.2 0 0).map fun r => ⟨.rc5, r.2, r.1⟩

/-- A level of `decodeRC6`, read twice for the trailer bit. Halves that differ
are an error like the -1 of `getRClevel`. -/
def rc6Level (p : IrParams) (c : Cursor) (nbits : ℕ) : Option Level × Cursor :=
  let a := p.getRClevel c rc6T1
  if nbits = 3 then
    let b := p.getRClevel a.2 rc6T1
    (if a.1 ≠ b.1 then none else a.1, b.2)
  else a

theorem left_rc6Level_le (p : IrParams) (c : Cursor) (nbits : ℕ) :
    (p.rc6Level c nbits).2.left p ≤ (p.getRClevel c rc6T1).2.left p := by
  rw [rc6Level]
  dsimp only
  split
  · exact left_getRClevel_le ..
  · exact Nat.le_refl _

theorem left_rc6Level_lt {p : IrParams} {c : Cursor} {nbits : ℕ}
    (hoffset : c.offset < p.rawlen.toNat) (h : (p.rc6Level c nbits).1 ≠ none) :
    (p.rc6Level c nbits).2.left p < c.left p := by
  refine Nat.lt_of_le_of_lt (left_rc6Level_le ..) (left_getRClevel_lt hoffset fun hnone => h ?_)
  rw [rc6Level]
  dsimp only
  split
  · rw [hnone]
    exact ite_self _
  · exact hnone

/-- The loop of `decodeRC6`: the bits and the data. -/
def rc6Bits (p : IrParams) (c : Cursor) (nbits : ℕ) (data : UInt32) : Option (ℕ × UInt32) :=
  if hoffset : c.offset < p.rawlen.toNat then
    let a := p.rc6Level c nbits
    let b := p.rc6Level a.2 nbits
    if hone : a.1 = some .mark ∧ b.1 = some .space then
      p.rc6Bits b.2 (nbits + 1) (shiftIn data true)
    else if hzero : a.1 = some .space ∧ b.1 = some .mark then
      p.rc6Bits b.2 (nbits + 1) (shiftIn data false)
    else none
  else some (nbits, data)
termination_by c.left p
decreasing_by
  · refine Nat.lt_of_le_of_lt (Nat.le_trans (left_rc6Level_le ..) (left_getRClevel_le ..)) ?_
    exact left_rc6Level_lt hoffset (by simp [a, hone])
  · refine Nat.lt_of_le_of_lt (Nat.le_trans (left_rc6Level_le ..) (left_getRClevel_le ..)) ?_
    exact left_rc6Level_lt hoffset (by simp [a, hzero])

/-- `decodeRC6`. -/
def decodeRC6 (p : IrParams) : Option DecodeResults :=
  if p.rawlen.toNat < 1 then none
  else if ¬ MatchMark (p.rawbuf 1) rc6HdrMark then none
  else if ¬ MatchSpace (p.rawbuf 2) rc6HdrSpace then none
  else
    let a := p.getRClevel ⟨3, 0⟩ rc6T1
    let b := p.getRClevel a.2 rc6T1
    if a.1 ≠ some .mark then none
    else if b.1 ≠ some .space then none
    else (p.rc6Bits b.2 0 0).map fun r => ⟨.rc6, r.2, r.1⟩

/-- **`decode`**. -/
def decode (p : IrParams) : Option DecodeResults × IrParams :=
  if p.rcvstate ≠ .stop then (none, p)
  else
    match p.decodeNEC <|> p.decodeSony <|> p.decodeRC5 <|> p.decodeRC6 with
    | some results => (some results, p)
    | none =>
      if 6 ≤ p.rawlen.toNat then (some ⟨.unknown, 0, 0⟩, p)
      else (none, p.resume)

end IrParams

end Firmware

end Realraum
