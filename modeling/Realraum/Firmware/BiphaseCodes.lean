import Realraum.Common.Biphase
import Realraum.Firmware.Helpers.Receiving
import Realraum.Firmware.Helpers.SentBits
/-!
# The firmware — infrared codes in two phases

RC5 and RC6 codes: a bit is in which order a mark and a space come. Marks and
spaces of neighbouring bits run together, and the receiver takes them apart
again, interval by interval; one that it cannot see, at the end of the code,
it takes for a space.
-/

namespace Realraum

namespace Firmware

open Sampling Biphase

variable {p : IrParams} {data : UInt32} {bs : List Bool} {lag offset t1 M : ℕ}
variable {c : IrParams.Cursor} {l : Level} {ls levels : List Level}
variable {rs wave : List (Level × ℕ)}

/-! ## Reading intervals -/

/-- The level of an entry. -/
def levelOf (offset : ℕ) : Level := if offset % 2 = 1 then .mark else .space

theorem levelOf_succ_ne (offset : ℕ) : levelOf offset ≠ levelOf (offset + 1) := by
  rw [levelOf, levelOf]
  rcases Nat.mod_two_eq_zero_or_one offset with h | h
  · rw [if_neg (by omega), if_pos (by omega)]
    exact Level.noConfusion
  · rw [if_pos h, if_neg (by omega)]
    exact Level.noConfusion

/-- There are but two levels. -/
theorem eq_of_ne_of_ne {a b c : Level} (h : a ≠ b) (h' : a ≠ c) : b = c := by
  cases a <;> cases b <;> cases c <;> first | rfl | exact absurd rfl h | exact absurd rfl h'

/-- **What the cursor has before it**, interval by interval. -/
inductive Reads (p : IrParams) (t1 : ℕ) : IrParams.Cursor → List Level → Prop where
  | done {offset : ℕ} (h : p.rawlen.toNat ≤ offset) : Reads p t1 ⟨offset, 0⟩ []
  | run {offset used m : ℕ} {ls : List Level} (hoffset : offset < p.rawlen.toNat)
      (havail : IrParams.available (p.rawbuf offset) (levelOf offset) t1 = some (used + (m + 1)))
      (rest : Reads p t1 ⟨offset + 1, 0⟩ ls) :
      Reads p t1 ⟨offset, used⟩ (List.replicate (m + 1) (levelOf offset) ++ ls)

/-- **An interval is read.** -/
theorem Reads.head (h : Reads p t1 c (l :: ls)) :
    (p.getRClevel c t1).1 = some l ∧ Reads p t1 (p.getRClevel c t1).2 ls := by
  generalize hlevels : l :: ls = levels at h
  cases h with
  | done => cases hlevels
  | @run offset used m ls' hoffset havail rest =>
      rw [List.replicate_succ, List.cons_append] at hlevels
      obtain ⟨rfl, rfl⟩ := List.cons.inj hlevels
      have hget : p.getRClevel ⟨offset, used⟩ t1 =
          (some (levelOf offset), IrParams.Cursor.advance ⟨offset, used⟩ (used + (m + 1))) := by
        rw [IrParams.getRClevel, if_neg (Nat.not_le_of_lt hoffset)]
        dsimp only
        rw [← levelOf, havail]
      rw [hget]
      refine ⟨rfl, ?_⟩
      rw [IrParams.Cursor.advance]
      cases m with
      | zero =>
          rw [if_pos (Nat.le_refl _)]
          exact rest
      | succ m =>
          have hmore : ¬ used + (m + 1 + 1) ≤ used + 1 := by omega
          rw [if_neg hmore]
          refine .run hoffset (havail.trans (congrArg some ?_)) rest
          show used + (m + 1 + 1) = used + 1 + (m + 1)
          omega

theorem Reads.lt (h : Reads p t1 c ls) (hne : ls ≠ []) : c.offset < p.rawlen.toNat := by
  cases h with
  | done => exact absurd rfl hne
  | run hoffset => exact hoffset

theorem Reads.nil (h : Reads p t1 c []) : p.rawlen.toNat ≤ c.offset := by
  generalize hlevels : ([] : List Level) = levels at h
  cases h with
  | done h => exact h
  | run => cases hlevels

/-- What the cursor has before it, with the spaces that cannot be seen. -/
def ReadsOn (p : IrParams) (t1 : ℕ) (c : IrParams.Cursor) (levels : List Level) : Prop :=
  ∃ ls k, Reads p t1 c ls ∧ levels = ls ++ List.replicate k .space

theorem ReadsOn.head (h : ReadsOn p t1 c (l :: levels)) :
    (p.getRClevel c t1).1 = some l ∧ ReadsOn p t1 (p.getRClevel c t1).2 levels := by
  obtain ⟨ls, k, hreads, heq⟩ := h
  cases ls with
  | nil =>
      -- behind the end
      obtain ⟨k, rfl⟩ := Nat.exists_eq_succ_of_ne_zero (n := k) (by rintro rfl; cases heq)
      obtain ⟨rfl, rfl⟩ := List.cons.inj heq
      have hget : p.getRClevel c t1 = (some .space, c) := by
        rw [IrParams.getRClevel, if_pos hreads.nil]
      rw [hget]
      exact ⟨rfl, [], k, hreads, rfl⟩
  | cons l' ls =>
      obtain ⟨rfl, rfl⟩ := List.cons.inj heq
      obtain ⟨hlevel, hrest⟩ := hreads.head
      exact ⟨hlevel, ls, k, hrest, rfl⟩

/-- A mark can be seen. -/
theorem ReadsOn.lt (h : ReadsOn p t1 c levels) (hmark : .mark ∈ levels) :
    c.offset < p.rawlen.toNat := by
  obtain ⟨ls, k, hreads, rfl⟩ := h
  refine hreads.lt ?_
  rintro rfl
  cases List.eq_of_mem_replicate hmark

theorem ReadsOn.nil (h : ReadsOn p t1 c []) : p.rawlen.toNat ≤ c.offset := by
  obtain ⟨ls, k, hreads, heq⟩ := h
  rw [(List.append_eq_nil_iff.mp heq.symm).1] at hreads
  exact hreads.nil

/-- The widths of so many intervals are told apart. -/
def Readable (lag t1 M : ℕ) : Prop :=
  ∀ p offset k rs level, 0 < k → k ≤ M → Recorded lag p offset ((level, t1 * k) :: rs) →
    IrParams.available (p.rawbuf offset) level t1 = some k

/-- **A recorded code is read**, stretch by stretch. -/
theorem Reads.of_recorded (hreadable : Readable lag t1 M) : ∀ {rs offset},
    (∀ x ∈ rs, 0 < x.2 ∧ x.2 ≤ M) → Changing .space rs → (∀ x ∈ rs.head?, x.1 = levelOf offset) →
      Recorded lag p offset (rs.map fun x => (x.1, t1 * x.2)) →
      p.rawlen.toNat = offset + rs.length → Reads p t1 ⟨offset, 0⟩ (spread rs) := by
  intro rs
  induction rs with
  | nil =>
      intro offset _ _ _ _ hlen
      exact .done (Nat.le_of_eq hlen)
  | cons x rs ih =>
      intro offset hwidth hchanging hhead hrecorded hlen
      obtain ⟨level, k⟩ := x
      obtain rfl : level = levelOf offset := hhead _ rfl
      obtain ⟨hpos, hle⟩ : 0 < k ∧ k ≤ M := hwidth _ List.mem_cons_self
      have hrest : Changing .space rs ∧ ∀ y ∈ rs.head?, y.1 = levelOf (offset + 1) := by
        cases rs with
        | nil => exact ⟨trivial, by simp⟩
        | cons y rs =>
            refine ⟨hchanging.2.2, fun z hz => ?_⟩
            obtain rfl := Option.mem_some.mp hz
            exact eq_of_ne_of_ne hchanging.2.1 (levelOf_succ_ne offset)
      rw [List.length_cons] at hlen
      have havail := hreadable p offset k _ _ hpos hle hrecorded
      obtain ⟨m, rfl⟩ := Nat.exists_eq_succ_of_ne_zero (Nat.ne_of_gt hpos)
      refine .run (by omega) ?_ (ih (fun y hy => hwidth y (List.mem_cons_of_mem _ hy)) hrest.1
        hrest.2 hrecorded.tail (by omega))
      rw [havail, Nat.zero_add]

/-! ## RC5 -/

/-- An RC5 bit. -/
def rc5Symbol (b : Bool) : Symbol Level := if b then ⟨.space, .mark, 1⟩ else ⟨.mark, .space, 1⟩

/-- The symbols of an RC5 code, behind its first mark. -/
def rc5Symbols (bs : List Bool) : List (Symbol Level) := ⟨.space, .mark, 1⟩ :: bs.map rc5Symbol

theorem rc5Symbol_proper (b : Bool) : (rc5Symbol b).Proper := by
  cases b with
  | true => exact ⟨Level.noConfusion, Nat.one_pos⟩
  | false => exact ⟨Level.noConfusion, Nat.one_pos⟩

theorem rc5Symbols_proper (bs : List Bool) : ∀ x ∈ rc5Symbols bs, x.Proper := by
  intro x hx
  rcases List.mem_cons.mp hx with rfl | hx
  · exact rc5Symbol_proper true
  · obtain ⟨b, -, rfl⟩ := List.mem_map.mp hx
    exact rc5Symbol_proper b

theorem width_rc5Symbol (b : Bool) : (rc5Symbol b).width = 1 := by
  cases b with
  | true => rfl
  | false => rfl

theorem rc5Symbols_within (bs : List Bool) : Within 2 (rc5Symbols bs) := by
  rw [rc5Symbols]
  have hfirst : (⟨.space, .mark, 1⟩ : Symbol Level).width = 1 := rfl
  generalize (⟨.space, .mark, 1⟩ : Symbol Level) = x at hfirst
  induction bs generalizing x with
  | nil =>
      rw [List.map_nil, Within, hfirst]
      decide
  | cons b bs ih =>
      have hwidth := width_rc5Symbol b
      refine ⟨?_, ih _ hwidth⟩
      rw [hfirst, hwidth]

/-- The signal of an RC5 code in intervals. -/
def rc5Wave (bs : List Bool) : List (Level × ℕ) := (.mark, 1) :: Biphase.wave (rc5Symbols bs)

theorem wave_rc5Symbols (bs : List Bool) :
    (bs.flatMap fun b => if b then [space rc5T1, mark rc5T1] else [mark rc5T1, space rc5T1]) =
      (Biphase.wave (bs.map rc5Symbol)).map fun x => (x.1, rc5T1 * x.2) := by
  induction bs with
  | nil => rfl
  | cons b bs ih =>
      rw [List.flatMap_cons, ih]
      cases b with
      | true => rfl
      | false => rfl

theorem sendRC5_eq (data : UInt32) (n : ℕ) :
    sendRC5 data n = (rc5Wave (topBits n (data <<< UInt32.ofNat (32 - n)))).map
      (fun x => (x.1, rc5T1 * x.2)) ++ [(.space, 0)] := by
  rw [sendRC5, sendBits_const, wave_rc5Symbols]
  rfl

theorem condense_sendRC5 (data : UInt32) (n : ℕ) :
    condense .space (sendRC5 data n) =
      (condense .space (rc5Wave (topBits n (data <<< UInt32.ofNat (32 - n))))).map
        fun x => (x.1, rc5T1 * x.2) := by
  rw [sendRC5_eq, condense_append_rest, condense_scale (by decide)]

/-- **The stretches of an RC5 code.** -/
theorem condense_rc5Wave (bs : List Bool) :
    ∃ w, condense .space (rc5Wave bs) = (.mark, 1) :: (.space, 1) :: w ∧ (∀ y ∈ w, y.2 ≤ 2) ∧
      bs.length ≤ w.length := by
  obtain ⟨w, hw, hle, hlength⟩ :=
    condense_wave Level.space (rc5Symbols_proper bs) (rc5Symbols_within bs)
  refine ⟨w, ?_, hle, (List.length_map rc5Symbol).symm.trans_le hlength⟩
  rw [rc5Wave, condense_cons, rc5Symbols, hw, push, if_neg Nat.one_ne_zero,
    if_neg Level.noConfusion]

theorem rc5_width {x : Level × ℕ} (hx : x ∈ condense .space (rc5Wave bs)) :
    0 < x.2 ∧ x.2 ≤ 2 := by
  refine ⟨(changing_condense _).pos x hx, ?_⟩
  obtain ⟨w, hw, hle, -⟩ := condense_rc5Wave bs
  rw [hw] at hx
  rcases List.mem_cons.mp hx with rfl | hx
  · decide
  · rcases List.mem_cons.mp hx with rfl | hx
    · decide
    · exact hle x hx

theorem length_wave (xs : List (Symbol Level)) : (Biphase.wave xs).length = 2 * xs.length := by
  induction xs with
  | nil => rfl
  | cons x xs ih =>
      rw [wave_cons, List.length_cons, List.length_cons, ih, List.length_cons, Nat.mul_succ]

theorem rc5_sendable (hbs : bs.length ≤ 32) :
    Sendable 339 ((condense .space (rc5Wave bs)).map fun x => (x.1, rc5T1 * x.2)) := by
  refine ⟨?_, fun x hx => ?_, fun x hx _ => ?_, ?_⟩
  · obtain ⟨w, hw, -⟩ := condense_rc5Wave bs
    exact ⟨_, _, by rw [hw]; rfl⟩
  · obtain ⟨y, hy, rfl⟩ := List.mem_map.mp hx
    obtain ⟨hpos, -⟩ := rc5_width hy
    simp only [rc5T1]
    omega
  · obtain ⟨y, hy, rfl⟩ := List.mem_map.mp hx
    obtain ⟨-, hle⟩ := rc5_width hy
    simp only [rc5T1]
    omega
  · have hle := length_condense_le Level.space (rc5Wave bs)
    have hlength : (rc5Wave bs).length = 2 * (bs.length + 1) + 1 := by
      rw [rc5Wave, List.length_cons, length_wave, rc5Symbols, List.length_cons, List.length_map]
    rw [List.length_map]
    omega

theorem rc5_readable : Readable 339 rc5T1 2 := by
  intro p offset k rs level hpos hle h
  obtain rfl | rfl : k = 1 ∨ k = 2 := by omega
  · cases level with
    | mark => rw [IrParams.available, if_pos (h.matches_mark (by decide) (by decide) (by decide))]
    | space => rw [IrParams.available, if_pos (h.matches_space (by decide) (by decide) (by decide))]
  · cases level with
    | mark =>
        rw [IrParams.available, if_neg (h.not_matches_mark (by decide) (by decide)),
          if_pos (h.matches_mark (by decide) (by decide) (by decide))]
    | space =>
        rw [IrParams.available, if_neg (h.not_matches_space (by decide) (by decide)),
          if_pos (h.matches_space (by decide) (by decide) (by decide))]

/-- The two intervals of a bit. -/
def rc5Levels (bs : List Bool) : List Level :=
  bs.flatMap fun b => if b then [.space, .mark] else [.mark, .space]

theorem spread_rc5Wave (bs : List Bool) :
    spread (rc5Wave bs) = .mark :: .space :: .mark :: rc5Levels bs := by
  have hbits : spread (Biphase.wave (bs.map rc5Symbol)) = rc5Levels bs := by
    induction bs with
    | nil => rfl
    | cons b bs ih =>
        rw [List.map_cons, wave_cons, spread_cons, spread_cons, ih]
        cases b with
        | true => rfl
        | false => rfl
  rw [← hbits]
  rfl

/-- **The bits are read back**, up to the end of the buffer. -/
theorem rc5Bits_of_reads {acc : UInt32} {n : ℕ} (h : ReadsOn p rc5T1 c (rc5Levels bs)) :
    p.rc5Bits c n acc = some (n + bs.length, bs.foldl shiftIn acc) := by
  induction bs generalizing c n acc with
  | nil => rw [IrParams.rc5Bits, dif_neg (Nat.not_lt_of_le h.nil)]; rfl
  | cons b bs ih =>
      have hmark : Level.mark ∈ rc5Levels (b :: bs) := by
        cases b with
        | true => exact List.mem_cons_of_mem _ List.mem_cons_self
        | false => exact List.mem_cons_self
      rw [IrParams.rc5Bits, dif_pos (h.lt hmark), List.length_cons, ← Nat.add_assoc,
        Nat.add_right_comm, List.foldl_cons]
      cases b with
      | true =>
          obtain ⟨hfirst, hrest⟩ := ReadsOn.head (l := .space) h
          obtain ⟨hsecond, hrest⟩ := ReadsOn.head (l := .mark) hrest
          rw [dif_pos ⟨hfirst, hsecond⟩]
          exact ih hrest
      | false =>
          obtain ⟨hfirst, hrest⟩ := ReadsOn.head (l := .mark) h
          obtain ⟨hsecond, hrest⟩ := ReadsOn.head (l := .space) hrest
          dsimp only
          rw [hfirst, hsecond, dif_neg (by decide), dif_pos ⟨rfl, rfl⟩]
          exact ih hrest

/-- **RC5 codes are received**, any data in 10 up to 32 bits, exactly if there
was a gap before: wherever the samples fall, with a lag of up to 339 µs for
each mark and each space, and read any time once 102 ticks of silence are
behind the signal. -/
theorem rc5_received {timer : UInt16} {φ n nbits : ℕ} (hmin : 10 ≤ nbits) (hmax : nbits ≤ 32)
    (hears : Hears 339 (sendRC5 data nbits) wave) (hφ : φ < usecPerTick)
    (hn : duration wave + 102 * usecPerTick ≤ φ + usecPerTick * n) (hp : Waiting p timer) :
    (p.receive (samples usecPerTick .space wave φ n)).decode.1 =
        some ⟨.rc5, UInt32.ofNat (data.toNat % 2 ^ nbits), nbits⟩ ↔
      gapTicks ≤ timer + 1 := by
  have hlength := length_topBits nbits (data <<< UInt32.ofNat (32 - nbits))
  refine received_iff hears
    (condense_sendRC5 data nbits ▸ rc5_sendable (hlength.trans_le hmax)) hφ hn hp ?_
  rw [condense_sendRC5, ← foldl_shiftIn_shifted (by omega) hmax]
  generalize topBits nbits (data <<< UInt32.ofNat (32 - nbits)) = bs at hlength
  intro p' hlen hrecorded
  rw [List.length_map] at hlen
  obtain ⟨w, hw, -, hlong⟩ := condense_rc5Wave bs
  obtain ⟨rs, hfirst⟩ : ∃ rs, Recorded 339 p' 1 ((.mark, rc5T1 * 1) :: rs) := by
    rw [hw] at hrecorded
    exact ⟨_, hrecorded⟩
  have hrawlen : 13 ≤ p'.rawlen.toNat := by
    rw [hw, List.length_cons, List.length_cons] at hlen
    omega
  have hreads := Reads.of_recorded rc5_readable (fun x hx => rc5_width hx)
    (changing_condense _) (by rw [hw]; rintro x ⟨⟩; rfl) hrecorded
    (by rw [hlen, Nat.add_comm])
  obtain ⟨k, hk⟩ := exists_spread_eq Level.space (rc5Wave bs)
  rw [spread_rc5Wave] at hk
  obtain ⟨ha, hrest⟩ := ReadsOn.head ⟨_, k, hreads, hk⟩
  obtain ⟨hb, hrest⟩ := hrest.head
  obtain ⟨hc, hrest⟩ := hrest.head
  rw [decodeNEC_eq_none hfirst (by decide), decodeSony_eq_none hfirst (by decide),
    IrParams.decodeRC5, if_neg (by omega)]
  dsimp only
  rw [ha, hb, hc, rc5Bits_of_reads hrest, hlength, Nat.zero_add]
  rfl

/-- A code of 12 bits. -/
theorem rc5_received_short :
    (IrParams.receive ⟨.idle, 99, fun _ => 0, 0⟩
      (samples usecPerTick .space (sendRC5 0x80c 12) 25 700)).decode.1 =
        some ⟨.rc5, UInt32.ofNat ((0x80c : UInt32).toNat % 2 ^ 12), 12⟩ := by
  rw [← samples_condense]
  exact (rc5_received (by decide) (by decide) (hears_condense 339 _) (by decide)
    (by decide +kernel) ⟨rfl, by decide, rfl⟩).mpr (by decide)

/-! ## RC6 -/

/-- The intervals of half a bit. -/
def rc6Width (i : ℕ) : ℕ := if i = 3 then 2 else 1

/-- An RC6 bit, by its index. -/
def rc6Symbol (i : ℕ) (b : Bool) : Symbol Level :=
  if b then ⟨.mark, .space, rc6Width i⟩ else ⟨.space, .mark, rc6Width i⟩

/-- The symbols of the bits from an index on. -/
def rc6Bitwise (i : ℕ) (bs : List Bool) : List (Symbol Level) :=
  (bs.zipIdx i).map fun x => rc6Symbol x.2 x.1

/-- The symbols of an RC6 code, with its start bit. -/
def rc6Symbols (bs : List Bool) : List (Symbol Level) := ⟨.mark, .space, 1⟩ :: rc6Bitwise 0 bs

@[simp] theorem rc6Bitwise_cons (i : ℕ) (b : Bool) (bs : List Bool) :
    rc6Bitwise i (b :: bs) = rc6Symbol i b :: rc6Bitwise (i + 1) bs := rfl

theorem rc6Width_pos (i : ℕ) : 0 < rc6Width i := by
  rw [rc6Width]
  split
  · decide
  · decide

theorem width_rc6Symbol (i : ℕ) (b : Bool) : (rc6Symbol i b).width = rc6Width i := by
  cases b with
  | true => rfl
  | false => rfl

theorem rc6Symbols_proper (bs : List Bool) : ∀ x ∈ rc6Symbols bs, x.Proper := by
  intro x hx
  rcases List.mem_cons.mp hx with rfl | hx
  · exact ⟨Level.noConfusion, Nat.one_pos⟩
  · obtain ⟨⟨b, i⟩, -, rfl⟩ := List.mem_map.mp hx
    cases b with
    | true => exact ⟨Level.noConfusion, rc6Width_pos i⟩
    | false => exact ⟨Level.noConfusion, rc6Width_pos i⟩

/-- The trailer bit has no neighbour that is wide. -/
theorem rc6Bitwise_within (bs : List Bool) : ∀ {i : ℕ} {x : Symbol Level},
    x.width ≤ (if i = 4 then 2 else 1) → Within 3 (x :: rc6Bitwise i bs) := by
  induction bs with
  | nil =>
      intro i x hx
      show x.width ≤ 3
      split at hx <;> omega
  | cons b bs ih =>
      intro i x hx
      have hwidth := width_rc6Symbol i b
      rw [rc6Width] at hwidth
      refine ⟨?_, ih ?_⟩
      · rw [hwidth]
        split at hx <;> split <;> omega
      · rw [hwidth]
        split <;> split <;> omega

theorem wave_rc6Bitwise (bs : List Bool) : ∀ i,
    ((bs.zipIdx i).flatMap fun x =>
      let t := if x.2 = 3 then 2 * rc6T1 else rc6T1
      if x.1 then [mark t, space t] else [space t, mark t]) =
      (Biphase.wave (rc6Bitwise i bs)).map fun x => (x.1, rc6T1 * x.2) := by
  induction bs with
  | nil => exact fun i => rfl
  | cons b bs ih =>
      intro i
      have hwidth : rc6T1 * rc6Width i = if i = 3 then 2 * rc6T1 else rc6T1 := by
        rw [rc6Width]
        split
        · rfl
        · rfl
      rw [List.zipIdx_cons, List.flatMap_cons, ih, rc6Bitwise_cons, wave_cons, List.map_cons,
        List.map_cons, width_rc6Symbol, hwidth]
      cases b with
      | true => rfl
      | false => rfl

/-- **The stretches of an RC6 code**, behind its header. -/
theorem condense_rc6Symbols (bs : List Bool) :
    ∃ w, condense .space (Biphase.wave (rc6Symbols bs)) = (.mark, 1) :: w ∧
      ∀ y ∈ condense .space (Biphase.wave (rc6Symbols bs)), 0 < y.2 ∧ y.2 ≤ 3 := by
  obtain ⟨w, hw, hle, -⟩ :=
    condense_wave Level.space (rc6Symbols_proper bs)
      (rc6Bitwise_within bs (i := 0) (x := ⟨.mark, .space, 1⟩) (by decide))
  refine ⟨w, hw, fun y hy => ⟨(changing_condense _).pos y hy, ?_⟩⟩
  rw [rc6Symbols, hw] at hy
  rcases List.mem_cons.mp hy with rfl | hy
  · exact Nat.le_of_ble_eq_true rfl
  · exact hle y hy

theorem condense_sendRC6 (data : UInt32) (n : ℕ) :
    condense .space (sendRC6 data n) =
      (.mark, rc6HdrMark) :: (.space, rc6HdrSpace) ::
        (condense .space (Biphase.wave (rc6Symbols
          (topBits n (data <<< UInt32.ofNat (32 - n)))))).map fun x => (x.1, rc6T1 * x.2) := by
  have hsend : sendRC6 data n = ((.mark, rc6HdrMark) :: (.space, rc6HdrSpace) ::
      (Biphase.wave (rc6Symbols (topBits n (data <<< UInt32.ofNat (32 - n))))).map
        fun x => (x.1, rc6T1 * x.2)) ++ [(.space, 0)] := by
    rw [sendRC6, sendBits_eq, wave_rc6Bitwise]
    rfl
  obtain ⟨w, hw, -⟩ := condense_rc6Symbols (topBits n (data <<< UInt32.ofNat (32 - n)))
  rw [hsend, condense_append_rest, condense_cons, condense_cons, condense_scale (by decide), hw,
    List.map_cons, push, if_neg (by decide), if_neg Level.noConfusion, push, if_neg (by decide),
    if_neg Level.noConfusion]

theorem rc6_sendable (hbs : bs.length ≤ 32) :
    Sendable 189 ((.mark, rc6HdrMark) :: (.space, rc6HdrSpace) ::
      (condense .space (Biphase.wave (rc6Symbols bs))).map fun x => (x.1, rc6T1 * x.2)) := by
  obtain ⟨w, hw, hwidth⟩ := condense_rc6Symbols bs
  have hcode : ∀ x ∈ (condense .space (Biphase.wave (rc6Symbols bs))).map
      (fun x => (x.1, rc6T1 * x.2)), 444 ≤ x.2 ∧ x.2 ≤ 1332 := by
    intro x hx
    obtain ⟨y, hy, rfl⟩ := List.mem_map.mp hx
    obtain ⟨hpos, hle⟩ := hwidth y hy
    simp only [rc6T1]
    omega
  refine ⟨⟨_, _, rfl⟩, fun x hx => ?_, fun x hx _ => ?_, ?_⟩
  · rcases List.mem_cons.mp hx with rfl | hx
    · decide
    · rcases List.mem_cons.mp hx with rfl | hx
      · decide
      · have hlong := (hcode x hx).1
        omega
  · rcases List.mem_cons.mp hx with rfl | hx
    · decide
    · rcases List.mem_cons.mp hx with rfl | hx
      · decide
      · have hshort := (hcode x hx).2
        omega
  · have hle := length_condense_le Level.space (Biphase.wave (rc6Symbols bs))
    rw [length_wave, rc6Symbols, List.length_cons, rc6Bitwise, List.length_map,
      List.length_zipIdx] at hle
    rw [List.length_cons, List.length_cons, List.length_map, rc6Symbols, rc6Bitwise]
    omega

theorem rc6_readable : Readable 189 rc6T1 3 := by
  intro p offset k rs level hpos hle h
  obtain rfl | rfl | rfl : k = 1 ∨ k = 2 ∨ k = 3 := by omega
  · cases level with
    | mark => rw [IrParams.available, if_pos (h.matches_mark (by decide) (by decide) (by decide))]
    | space => rw [IrParams.available, if_pos (h.matches_space (by decide) (by decide) (by decide))]
  · cases level with
    | mark =>
        rw [IrParams.available, if_neg (h.not_matches_mark (by decide) (by decide)),
          if_pos (h.matches_mark (by decide) (by decide) (by decide))]
    | space =>
        rw [IrParams.available, if_neg (h.not_matches_space (by decide) (by decide)),
          if_pos (h.matches_space (by decide) (by decide) (by decide))]
  · cases level with
    | mark =>
        rw [IrParams.available, if_neg (h.not_matches_mark (by decide) (by decide)),
          if_neg (h.not_matches_mark (by decide) (by decide)),
          if_pos (h.matches_mark (by decide) (by decide) (by decide))]
    | space =>
        rw [IrParams.available, if_neg (h.not_matches_space (by decide) (by decide)),
          if_neg (h.not_matches_space (by decide) (by decide)),
          if_pos (h.matches_space (by decide) (by decide) (by decide))]

/-- **Half a bit is read**, be it wide or not. -/
theorem rc6Level_of_reads {i : ℕ}
    (h : ReadsOn p rc6T1 c (List.replicate (rc6Width i) l ++ levels)) :
    (p.rc6Level c i).1 = some l ∧ ReadsOn p rc6T1 (p.rc6Level c i).2 levels := by
  rw [IrParams.rc6Level]
  dsimp only
  by_cases hi : i = 3
  · rw [rc6Width, if_pos hi] at h
    obtain ⟨hfirst, hrest⟩ : _ ∧ ReadsOn p rc6T1 _ (l :: levels) := ReadsOn.head h
    obtain ⟨hsecond, hrest⟩ := hrest.head
    rw [if_pos hi, hfirst, hsecond, if_neg (not_not.mpr rfl)]
    exact ⟨rfl, hrest⟩
  · rw [rc6Width, if_neg hi] at h
    rw [if_neg hi]
    exact ReadsOn.head h

theorem spread_rc6Bitwise_cons (i : ℕ) (b : Bool) (bs : List Bool) :
    spread (Biphase.wave (rc6Bitwise i (b :: bs))) =
      List.replicate (rc6Width i) (rc6Symbol i b).first ++
        (List.replicate (rc6Width i) (rc6Symbol i b).second ++
          spread (Biphase.wave (rc6Bitwise (i + 1) bs))) := by
  rw [rc6Bitwise_cons, wave_cons, spread_cons, spread_cons, width_rc6Symbol]

/-- **The bits are read back**, up to the end of the buffer. -/
theorem rc6Bits_of_reads {acc : UInt32} {i : ℕ}
    (h : ReadsOn p rc6T1 c (spread (Biphase.wave (rc6Bitwise i bs)))) :
    p.rc6Bits c i acc = some (i + bs.length, bs.foldl shiftIn acc) := by
  induction bs generalizing c i acc with
  | nil => rw [IrParams.rc6Bits, dif_neg (Nat.not_lt_of_le h.nil)]; rfl
  | cons b bs ih =>
      rw [spread_rc6Bitwise_cons] at h
      have hmark : Level.mark ∈ List.replicate (rc6Width i) (rc6Symbol i b).first ++
          (List.replicate (rc6Width i) (rc6Symbol i b).second ++
            spread (Biphase.wave (rc6Bitwise (i + 1) bs))) := by
        have hpos := Nat.ne_of_gt (rc6Width_pos i)
        cases b with
        | true => exact List.mem_append_left _ (List.mem_replicate.mpr ⟨hpos, rfl⟩)
        | false =>
            exact List.mem_append_right _
              (List.mem_append_left _ (List.mem_replicate.mpr ⟨hpos, rfl⟩))
      rw [IrParams.rc6Bits, dif_pos (h.lt hmark), List.length_cons, ← Nat.add_assoc,
        Nat.add_right_comm, List.foldl_cons]
      dsimp only
      cases b with
      | true =>
          obtain ⟨hfirst, hlater⟩ := rc6Level_of_reads (l := .mark) h
          obtain ⟨hsecond, hrest⟩ := rc6Level_of_reads (l := .space) hlater
          rw [dif_pos ⟨hfirst, hsecond⟩]
          exact ih hrest
      | false =>
          obtain ⟨hfirst, hlater⟩ := rc6Level_of_reads (l := .space) h
          obtain ⟨hsecond, hrest⟩ := rc6Level_of_reads (l := .mark) hlater
          rw [hfirst, hsecond, dif_neg (by decide), dif_pos ⟨rfl, rfl⟩]
          exact ih hrest

/-- The space behind the header is none of a Sony code. -/
theorem decodeSony_eq_none_of_space {d : ℕ} (h : Recorded lag p 2 ((.space, d) :: rs))
    (hlow : 700 + lag ≤ d) (hd : d < 3000000) : p.decodeSony = none := by
  have hspace : ¬ MatchSpace (p.rawbuf 2) sonyHdrSpace := h.not_matches_space (.inl hlow) hd
  rw [IrParams.decodeSony]
  split
  · rfl
  · split
    · rfl
    · rw [IrParams.sonyBits, if_pos (by omega), if_pos hspace]
      rfl

/-- A header of three intervals is none of an RC5 code. -/
theorem decodeRC5_eq_none (h : IrParams.available (p.rawbuf 1) .mark rc5T1 = some 3) :
    p.decodeRC5 = none := by
  rw [IrParams.decodeRC5]
  split
  · rfl
  · rename_i hlen
    have hget : ∀ used, p.getRClevel ⟨1, used⟩ rc5T1 =
        (some .mark, IrParams.Cursor.advance ⟨1, used⟩ 3) := by
      intro used
      rw [IrParams.getRClevel, if_neg (by dsimp only; omega)]
      dsimp only
      rw [if_pos (by decide), h]
    have hadvance : IrParams.Cursor.advance ⟨1, 0⟩ 3 = ⟨1, 1⟩ := rfl
    dsimp only
    rw [hget, hadvance, hget, if_neg (not_not.mpr rfl), if_pos (by decide)]

/-- **RC6 codes are received**, any data in up to 32 bits, exactly if there was
a gap before: wherever the samples fall, with a lag of up to 189 µs for each
mark and each space, and read any time once 102 ticks of silence are behind the
signal. -/
theorem rc6_received {timer : UInt16} {φ n nbits : ℕ} (hmin : 0 < nbits) (hmax : nbits ≤ 32)
    (hears : Hears 189 (sendRC6 data nbits) wave) (hφ : φ < usecPerTick)
    (hn : duration wave + 102 * usecPerTick ≤ φ + usecPerTick * n) (hp : Waiting p timer) :
    (p.receive (samples usecPerTick .space wave φ n)).decode.1 =
        some ⟨.rc6, UInt32.ofNat (data.toNat % 2 ^ nbits), nbits⟩ ↔
      gapTicks ≤ timer + 1 := by
  have hlength := length_topBits nbits (data <<< UInt32.ofNat (32 - nbits))
  refine received_iff hears
    (condense_sendRC6 data nbits ▸ rc6_sendable (hlength.trans_le hmax)) hφ hn hp ?_
  rw [condense_sendRC6, ← foldl_shiftIn_shifted hmin hmax]
  generalize topBits nbits (data <<< UInt32.ofNat (32 - nbits)) = bs at hlength
  intro p' hlen hrecorded
  rw [List.length_cons, List.length_cons, List.length_map] at hlen
  obtain ⟨w, hw, hwidth⟩ := condense_rc6Symbols bs
  have hmark : MatchMark (p'.rawbuf 1) rc6HdrMark :=
    hrecorded.matches_mark (by decide) (by decide) (by decide)
  have hspace : MatchSpace (p'.rawbuf 2) rc6HdrSpace :=
    hrecorded.tail.matches_space (by decide) (by decide) (by decide)
  have hthree : IrParams.available (p'.rawbuf 1) .mark rc5T1 = some 3 := by
    rw [IrParams.available, if_neg (hrecorded.not_matches_mark (by decide) (by decide)),
      if_neg (hrecorded.not_matches_mark (by decide) (by decide)),
      if_pos (hrecorded.matches_mark (by decide) (by decide) (by decide))]
  have hreads := Reads.of_recorded rc6_readable hwidth (changing_condense _)
    (by rw [hw]; rintro x ⟨⟩; rfl) hrecorded.tail.tail (by omega)
  obtain ⟨k, hk⟩ := exists_spread_eq Level.space (Biphase.wave (rc6Symbols bs))
  rw [rc6Symbols, wave_cons, spread_cons, spread_cons] at hk
  obtain ⟨ha, hrest⟩ := ReadsOn.head (l := .mark) ⟨_, k, hreads, hk⟩
  obtain ⟨hb, hrest⟩ := ReadsOn.head (l := .space) hrest
  rw [decodeNEC_eq_none hrecorded (by decide),
    decodeSony_eq_none_of_space hrecorded.tail (by decide) (by decide), decodeRC5_eq_none hthree,
    IrParams.decodeRC6, if_neg (by omega), if_neg (not_not.mpr hmark), if_neg (not_not.mpr hspace)]
  dsimp only
  rw [ha, hb, rc6Bits_of_reads hrest, hlength, Nat.zero_add]
  rfl

/-- A code of 20 bits. -/
theorem rc6_received_long :
    (IrParams.receive ⟨.idle, 99, fun _ => 0, 0⟩
      (samples usecPerTick .space (sendRC6 0x1000c 20) 25 700)).decode.1 =
        some ⟨.rc6, UInt32.ofNat ((0x1000c : UInt32).toNat % 2 ^ 20), 20⟩ := by
  rw [← samples_condense]
  exact (rc6_received (by decide) (by decide) (hears_condense 189 _) (by decide)
    (by decide +kernel) ⟨rfl, by decide, rfl⟩).mpr (by decide)

end Firmware

end Realraum
