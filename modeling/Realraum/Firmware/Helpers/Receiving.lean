import Realraum.Common.Sampling
import Realraum.Firmware.Model.IRremote
/-!
# The firmware — what the infrared receiver records

The receiver looks at its pin every 50 µs, so it records of each mark and of
each space how many samples there were of it. From a gap on it records all of
a signal that is short enough for its buffer and has no gap itself, and stops
behind it.
-/

namespace Realraum

namespace Firmware

open Sampling

variable {p : IrParams} {level : Level} {count c n m t lag φ : ℕ} {entries cs : List ℕ}
variable {rs w wave signal : List (Level × ℕ)}

/-! ## The interrupt handler -/

/-- The state with the timer one tick on. -/
def IrParams.counted (p : IrParams) : IrParams := { p with timer := p.timer + 1 }

section Tick

variable (hfull : p.rawlen < rawbufSize)

include hfull

theorem tick_idle_mark (h : p.rcvstate = .idle) :
    p.tick .mark =
      if p.timer + 1 < gapTicks then { p with timer := 0 }
      else { { p.counted with rawlen := 0 }.record with rcvstate := .mark } := by
  obtain ⟨rcvstate, timer, rawbuf, rawlen⟩ := p
  obtain rfl : rcvstate = .idle := h
  rw [IrParams.tick]
  dsimp only
  rw [if_neg (UInt8.not_le.mpr hfull)]
  rfl

theorem tick_idle_space (h : p.rcvstate = .idle) : p.tick .space = p.counted := by
  obtain ⟨rcvstate, timer, rawbuf, rawlen⟩ := p
  obtain rfl : rcvstate = .idle := h
  rw [IrParams.tick]
  dsimp only
  rw [if_neg (UInt8.not_le.mpr hfull)]
  rfl

theorem tick_mark_mark (h : p.rcvstate = .mark) : p.tick .mark = p.counted := by
  obtain ⟨rcvstate, timer, rawbuf, rawlen⟩ := p
  obtain rfl : rcvstate = .mark := h
  rw [IrParams.tick]
  dsimp only
  rw [if_neg (UInt8.not_le.mpr hfull)]
  rfl

theorem tick_mark_space (h : p.rcvstate = .mark) :
    p.tick .space = { p.counted.record with rcvstate := .space } := by
  obtain ⟨rcvstate, timer, rawbuf, rawlen⟩ := p
  obtain rfl : rcvstate = .mark := h
  rw [IrParams.tick]
  dsimp only
  rw [if_neg (UInt8.not_le.mpr hfull)]
  rfl

theorem tick_space_mark (h : p.rcvstate = .space) :
    p.tick .mark = { p.counted.record with rcvstate := .mark } := by
  obtain ⟨rcvstate, timer, rawbuf, rawlen⟩ := p
  obtain rfl : rcvstate = .space := h
  rw [IrParams.tick]
  dsimp only
  rw [if_neg (UInt8.not_le.mpr hfull)]
  rfl

theorem tick_space_space (h : p.rcvstate = .space) :
    p.tick .space =
      if p.timer + 1 > gapTicks then { p.counted with rcvstate := .stop } else p.counted := by
  obtain ⟨rcvstate, timer, rawbuf, rawlen⟩ := p
  obtain rfl : rcvstate = .space := h
  rw [IrParams.tick]
  dsimp only
  rw [if_neg (UInt8.not_le.mpr hfull)]
  rfl

end Tick

theorem receive_append (p : IrParams) (l l' : List Level) :
    p.receive (l ++ l') = (p.receive l).receive l' := List.foldl_append

theorem receive_cons (p : IrParams) (x : Level) (l : List Level) :
    p.receive (x :: l) = (p.tick x).receive l := rfl

/-! ## Recording -/

/-- The state in which a level is timed. -/
def Level.timing : Level → RcvState
  | .mark => .mark
  | .space => .space

/-- **The receiver while it records**: the entries so far, and as the timer
the samples of the level behind the first one. -/
structure Recording (p : IrParams) (level : Level) (count : ℕ) (entries : List ℕ) : Prop where
  rcvstate : p.rcvstate = level.timing
  timer : p.timer = UInt16.ofNat count
  rawlen : p.rawlen = UInt8.ofNat entries.length
  rawbuf : ∀ k c, entries[k]? = some c → p.rawbuf k = UInt16.ofNat c

/-- **The receiver behind a signal.** -/
structure Stopped (p : IrParams) (entries : List ℕ) : Prop where
  rcvstate : p.rcvstate = .stop
  rawlen : p.rawlen.toNat = entries.length
  rawbuf : ∀ k c, entries[k]? = some c → p.rawbuf k = UInt16.ofNat c

theorem Recording.not_full (h : Recording p level count entries) (hlen : entries.length < 76) :
    p.rawlen < rawbufSize := by
  rw [h.rawlen]
  exact (UInt8.ofNat_lt_iff_lt (b := 76) (Nat.lt_trans hlen (by decide)) (by decide)).mpr hlen

theorem Recording.timer_add_one (h : Recording p level count entries) :
    p.timer + 1 = UInt16.ofNat (count + 1) := by
  rw [h.timer]
  exact (UInt16.ofNat_add count 1).symm

/-- A sample of the level that is timed. -/
theorem Recording.same (h : Recording p level count entries) (hlen : entries.length < 76)
    (hgap : level = .space → count + 1 ≤ 100) :
    Recording (p.tick level) level (count + 1) entries := by
  have hcounted : Recording p.counted level (count + 1) entries :=
    ⟨h.rcvstate, h.timer_add_one, h.rawlen, h.rawbuf⟩
  cases level with
  | mark => rwa [tick_mark_mark (h.not_full hlen) h.rcvstate]
  | space =>
      have hcount := hgap rfl
      rw [tick_space_space (h.not_full hlen) h.rcvstate, if_neg]
      · exact hcounted
      · rw [h.timer_add_one, gt_iff_lt, UInt16.not_lt, UInt16.le_iff_toNat_le,
          UInt16.toNat_ofNat_of_lt' (Nat.lt_of_le_of_lt hcount (by decide))]
        exact hcount

/-- What `record` puts into the buffer. -/
theorem Recording.record (h : Recording p level count entries) (hlen : entries.length < 76)
    (level' : Level) :
    Recording { p.counted.record with rcvstate := level'.timing } level' 0
      (entries ++ [count + 1]) := by
  have hlength : p.rawlen.toNat = entries.length := by
    rw [h.rawlen, UInt8.toNat_ofNat_of_lt' (Nat.lt_trans hlen (by decide))]
  refine ⟨rfl, rfl, ?_, fun k c hc => ?_⟩
  · rw [List.length_append, List.length_singleton, UInt8.ofNat_add, ← h.rawlen]
    rfl
  · show (if k = p.rawlen.toNat then p.timer + 1 else p.rawbuf k) = _
    rw [hlength, h.timer_add_one]
    split
    · rename_i hk
      rw [hk, List.getElem?_append_right (Nat.le_refl _), Nat.sub_self,
        List.getElem?_cons_zero] at hc
      rw [← Option.some.inj hc]
    · rename_i hk
      rw [List.getElem?_append, List.getElem?_singleton] at hc
      split at hc
      · exact h.rawbuf k c hc
      · rw [if_neg (by omega)] at hc
        cases hc

/-- **A sample of the other level** ends the count. -/
theorem Recording.other (h : Recording p level count entries) (hlen : entries.length < 76)
    {level' : Level} (hne : level ≠ level') :
    Recording (p.tick level') level' 0 (entries ++ [count + 1]) := by
  have hrecord := h.record hlen level'
  cases level with
  | mark =>
      cases level' with
      | mark => exact absurd rfl hne
      | space => rwa [tick_mark_space (h.not_full hlen) h.rcvstate]
  | space =>
      cases level' with
      | mark => rwa [tick_space_mark (h.not_full hlen) h.rcvstate]
      | space => exact absurd rfl hne

/-- Samples of the level that is timed. -/
theorem Recording.replicate (h : Recording p level count entries) (hlen : entries.length < 76)
    (hgap : level = .space → count + n ≤ 100) :
    Recording (p.receive (List.replicate n level)) level (count + n) entries := by
  induction n generalizing p count with
  | zero => exact h
  | succ n ih =>
      rw [List.replicate_succ, receive_cons, Nat.add_comm n 1, ← Nat.add_assoc]
      refine ih (h.same hlen fun hs => ?_) fun hs => ?_
      · have hcount := hgap hs
        omega
      · have hcount := hgap hs
        omega

/-! ## Stopping -/

theorem Stopped.tick_space (h : Stopped p entries) : Stopped (p.tick .space) entries := by
  obtain ⟨rcvstate, timer, rawbuf, rawlen⟩ := p
  obtain rfl : rcvstate = .stop := h.rcvstate
  rw [IrParams.tick]
  dsimp only
  rw [ite_self]
  exact ⟨rfl, h.rawlen, h.rawbuf⟩

theorem Stopped.replicate (h : Stopped p entries) :
    Stopped (p.receive (List.replicate n .space)) entries := by
  induction n generalizing p with
  | zero => exact h
  | succ n ih => exact ih h.tick_space

/-- The sample that makes a space a gap. -/
theorem Recording.gap (h : Recording p .space 100 entries) (hlen : entries.length < 76) :
    Stopped (p.tick .space) entries := by
  rw [tick_space_space (h.not_full hlen) h.rcvstate, h.timer_add_one, if_pos (by decide)]
  refine ⟨rfl, ?_, h.rawbuf⟩
  show p.rawlen.toNat = _
  rw [h.rawlen, UInt8.toNat_ofNat_of_lt' (Nat.lt_trans hlen (by decide))]

/-- **A gap** behind a mark stops the receiver. -/
theorem Recording.stop (h : Recording p .mark count entries) (hlen : entries.length + 1 < 76)
    (hn : 102 ≤ n) : Stopped (p.receive (List.replicate n .space)) (entries ++ [count + 1]) := by
  have hlen' : (entries ++ [count + 1]).length < 76 := by
    rw [List.length_append]
    exact hlen
  have hother : Recording (p.tick .space) .space 0 (entries ++ [count + 1]) :=
    h.other (Nat.lt_of_succ_lt hlen) Level.noConfusion
  have hlast := hother.replicate (n := 100) hlen' fun _ => Nat.le_refl _
  rw [Nat.zero_add] at hlast
  -- the sample that ends the mark, those that are no gap yet, and the one that makes it one
  obtain ⟨m, rfl⟩ := Nat.exists_eq_add_of_le' hn
  have hsplit : List.replicate (m + 102) Level.space =
      .space :: (List.replicate 100 .space ++ .space :: List.replicate m .space) := by
    rw [← List.replicate_succ, ← List.replicate_add, ← List.replicate_succ]
    congr 1
    omega
  rw [hsplit, receive_cons, receive_append, receive_cons]
  exact (hlast.gap hlen').replicate

/-- **A signal is recorded** from its first mark on, stretch by stretch, and
stops the receiver with the gap behind it. -/
theorem Recording.stretches (hn : 102 ≤ n) : ∀ {rs p level c entries},
    Recording p level (c - 1) entries → Changing .space ((level, c) :: rs) →
      (∀ x ∈ rs, x.1 = .space → x.2 ≤ 101) → entries.length + (rs.length + 1) < 76 →
      Stopped (p.receive (spread rs ++ List.replicate n .space))
        (entries ++ c :: rs.map Prod.snd) := by
  intro rs
  induction rs with
  | nil =>
      intro p level c entries h hchanging _ hlen
      obtain ⟨hc, hmark⟩ := hchanging
      cases level with
      | mark =>
          have hstop := h.stop hlen hn
          rwa [Nat.sub_add_cancel hc] at hstop
      | space => exact absurd rfl hmark
  | cons x rs ih =>
      intro p level c entries h hchanging hshort hlen
      obtain ⟨level', c'⟩ := x
      obtain ⟨hc, hne, hchanging'⟩ := hchanging
      have hc' : 0 < c' := by
        cases rs with
        | nil => exact hchanging'.1
        | cons y rs => exact hchanging'.1
      rw [List.length_cons] at hlen
      have hother := h.other (by omega) hne
      rw [Nat.sub_add_cancel hc] at hother
      have hlast := hother.replicate (n := c' - 1)
        (by rw [List.length_append, List.length_singleton]; omega)
        (fun hs => by
          have hle := hshort _ List.mem_cons_self hs
          omega)
      rw [Nat.zero_add] at hlast
      have hrest := ih hlast hchanging' (fun x hx => hshort x (List.mem_cons_of_mem _ hx))
        (by rw [List.length_append, List.length_singleton]; omega)
      have hsplit : List.replicate c' level' = level' :: List.replicate (c' - 1) level' := by
        rw [← List.replicate_succ, Nat.sub_add_cancel hc']
      rw [spread_cons, hsplit, List.append_assoc, List.cons_append, receive_cons, receive_append]
      rwa [List.append_assoc] at hrest

/-- **From a gap on** a signal is recorded. -/
theorem receive_signal (hidle : p.rcvstate = .idle) (hfull : p.rawlen < rawbufSize)
    (hgap : gapTicks ≤ p.timer + 1) (hn : 102 ≤ n)
    (hchanging : Changing .space ((.mark, c) :: rs)) (hshort : ∀ x ∈ rs, x.1 = .space → x.2 ≤ 101)
    (hlen : rs.length + 2 < 76) :
    Stopped (p.receive (spread ((.mark, c) :: rs) ++ List.replicate n .space))
      ((p.timer + 1).toNat :: c :: rs.map Prod.snd) := by
  have hc : 0 < c := by
    cases rs with
    | nil => exact hchanging.1
    | cons y rs => exact hchanging.1
  have hfirst : Recording (p.tick .mark) .mark 0 [(p.timer + 1).toNat] := by
    rw [tick_idle_mark hfull hidle, if_neg (UInt16.not_lt.mpr hgap)]
    refine ⟨rfl, rfl, rfl, fun k e he => ?_⟩
    rw [List.getElem?_singleton] at he
    split at he
    · rename_i hk
      rw [← Option.some.inj he, UInt16.ofNat_toNat]
      exact if_pos hk
    · cases he
  have hlast := hfirst.replicate (n := c - 1) (by simp) Level.noConfusion
  rw [Nat.zero_add] at hlast
  have hrest := hlast.stretches hn hchanging hshort (by rw [List.length_singleton]; omega)
  have hsplit : List.replicate c Level.mark = .mark :: List.replicate (c - 1) .mark := by
    rw [← List.replicate_succ, Nat.sub_add_cancel hc]
  rw [spread_cons, hsplit, List.append_assoc, List.cons_append, receive_cons, receive_append]
  exact hrest

/-! ## Ignoring a signal -/

/-- The receiver while it waits for a gap. -/
structure Waiting (p : IrParams) (timer : UInt16) : Prop where
  rcvstate : p.rcvstate = .idle
  rawlen : p.rawlen < rawbufSize
  timer : p.timer = timer

theorem Waiting.marks {timer : UInt16} (h : Waiting p timer) (htimer : timer + 1 < gapTicks) :
    Waiting (p.receive (List.replicate (c + 1) .mark)) 0 := by
  have htick : Waiting (p.tick .mark) 0 := by
    rw [tick_idle_mark h.rawlen h.rcvstate, h.timer, if_pos htimer]
    exact ⟨h.rcvstate, h.rawlen, rfl⟩
  induction c generalizing p timer with
  | zero => exact htick
  | succ c ih =>
      refine ih htick (by decide) ?_
      rw [tick_idle_mark htick.rawlen htick.rcvstate, htick.timer, if_pos (by decide)]
      exact ⟨htick.rcvstate, htick.rawlen, rfl⟩

theorem Waiting.spaces {timer : UInt16} (h : Waiting p timer) :
    Waiting (p.receive (List.replicate c .space)) (timer + UInt16.ofNat c) := by
  induction c generalizing p timer with
  | zero =>
      rw [show UInt16.ofNat 0 = 0 from rfl, UInt16.add_zero]
      exact h
  | succ c ih =>
      have htick : Waiting (p.tick .space) (timer + 1) := by
        rw [tick_idle_space h.rawlen h.rcvstate]
        exact ⟨h.rcvstate, h.rawlen, congrArg (· + 1) h.timer⟩
      have hrest := ih htick
      rw [List.replicate_succ, receive_cons, Nat.add_comm c 1, UInt16.ofNat_add,
        ← UInt16.add_assoc]
      exact hrest

/-- **Without a gap in front of it** a signal is not recorded at all. -/
theorem Waiting.stretches : ∀ {rs p timer}, Waiting p timer →
    (∀ x ∈ rs.head?, if x.1 = .mark then timer + 1 < gapTicks else timer = 0) →
    Changing .space rs → (∀ x ∈ rs, x.1 = .space → x.2 < 99) →
    ∃ timer', Waiting (p.receive (spread rs)) timer' := by
  intro rs
  induction rs with
  | nil => exact fun h _ _ _ => ⟨_, h⟩
  | cons x rs ih =>
      intro p timer h hhead hchanging hshort
      obtain ⟨level, c⟩ := x
      have htimer := hhead _ rfl
      have htail : 0 < c ∧ Changing .space rs ∧ ∀ x ∈ rs.head?, level ≠ x.1 := by
        cases rs with
        | nil => exact ⟨hchanging.1, trivial, by simp⟩
        | cons y rs => exact ⟨hchanging.1, hchanging.2.2, by simpa using hchanging.2.1⟩
      obtain ⟨hc, hchanging', hne⟩ := htail
      have hshort' : ∀ x ∈ rs, x.1 = .space → x.2 < 99 := fun x hx =>
        hshort x (List.mem_cons_of_mem _ hx)
      rw [spread_cons, receive_append]
      cases level with
      | mark =>
          rw [if_pos rfl] at htimer
          obtain ⟨c, rfl⟩ := Nat.exists_eq_succ_of_ne_zero (Nat.ne_of_gt hc)
          refine ih (h.marks htimer) (fun x hx => ?_) hchanging' hshort'
          rw [if_neg (Ne.symm (hne x hx))]
      | space =>
          obtain rfl : timer = 0 := htimer
          refine ih h.spaces (fun x hx => ?_) hchanging' hshort'
          have hmark : x.1 = .mark := by
            have hx := hne x hx
            cases hlevel : x.1 with
            | mark => rfl
            | space => exact absurd hlevel.symm hx
          have hlt := hshort _ List.mem_cons_self rfl
          rw [if_pos hmark, UInt16.zero_add]
          have hsucc : UInt16.ofNat c + 1 = UInt16.ofNat (c + 1) := (UInt16.ofNat_add c 1).symm
          rw [hsucc, UInt16.lt_iff_toNat_lt, UInt16.toNat_ofNat_of_lt' (by
            show _ < 65536
            omega)]
          exact Nat.succ_lt_succ hlt

/-! ## Hearing a signal -/

/-- **What is heard of a stretch**: a mark up to so many µs longer than it was
sent, or a space up to so many shorter. -/
def Lagged (lag : ℕ) (sent heard : Level × ℕ) : Prop :=
  heard.1 = sent.1 ∧
    match sent.1 with
    | .mark => sent.2 ≤ heard.2 ∧ heard.2 ≤ sent.2 + lag
    | .space => heard.2 ≤ sent.2 ∧ sent.2 ≤ heard.2 + lag

/-- **The wave that is heard of a signal**, each mark and each space of it with
a lag of its own. -/
def Hears (lag : ℕ) (signal wave : List (Level × ℕ)) : Prop :=
  List.Forall₂ (Lagged lag) (condense .space signal) wave

/-- Without a lag a signal is heard as it is. -/
theorem hears_condense (lag : ℕ) (signal : List (Level × ℕ)) :
    Hears lag signal (condense .space signal) := by
  refine List.forall₂_same.mpr fun x _ => ⟨rfl, ?_⟩
  split
  · exact ⟨Nat.le_refl _, Nat.le_add_right _ _⟩
  · exact ⟨Nat.le_refl _, Nat.le_add_right _ _⟩

/-- The samples of a stretch that was sent. -/
def Sampled (lag : ℕ) (sent : Level × ℕ) (count : Level × ℕ) : Prop :=
  count.1 = sent.1 ∧
    match sent.1 with
    | .mark => sent.2 < 50 * (count.2 + 1) ∧ 50 * count.2 < sent.2 + lag + 50
    | .space => sent.2 < 50 * (count.2 + 1) + lag ∧ 50 * count.2 < sent.2 + 50

theorem Lagged.sampled {sent heard : Level × ℕ} (h : Lagged lag sent heard)
    (hc : Counted usecPerTick heard c) : Sampled lag sent (heard.1, c) := by
  obtain ⟨level, d⟩ := sent
  obtain ⟨level', d'⟩ := heard
  obtain ⟨rfl, hlag⟩ : level' = level ∧ _ := h
  have hlt : d' < 50 * (c + 1) := hc.1
  have hgt : 50 * c < d' + 50 := hc.2
  refine ⟨rfl, ?_⟩
  cases level' with
  | mark =>
      obtain ⟨hle, hle'⟩ : d ≤ d' ∧ d' ≤ d + lag := hlag
      exact ⟨Nat.lt_of_le_of_lt hle hlt, by dsimp only; omega⟩
  | space =>
      obtain ⟨hle, hle'⟩ : d' ≤ d ∧ d ≤ d' + lag := hlag
      exact ⟨by dsimp only; omega, by dsimp only; omega⟩

theorem forall₂_sampled {sent : List (Level × ℕ)} (h : List.Forall₂ (Lagged lag) sent wave)
    (hcs : List.Forall₂ (Counted usecPerTick) wave cs) :
    List.Forall₂ (Sampled lag) sent ((wave.map Prod.fst).zip cs) := by
  induction h generalizing cs with
  | nil =>
      cases hcs
      exact .nil
  | cons hlag _ ih =>
      cases hcs with
      | cons hc hcs => exact .cons (hlag.sampled hc) (ih hcs)

/-- **What a receiver can take in**: it begins with a mark, has no stretch that
could be missed and no space that could be a gap, and is not too long. -/
structure Sendable (lag : ℕ) (w : List (Level × ℕ)) : Prop where
  head : ∃ d rest, w = (.mark, d) :: rest
  long : ∀ x ∈ w, lag + 50 ≤ x.2
  short : ∀ x ∈ w, x.1 = .space → x.2 ≤ 4800
  few : w.length < 75

theorem Sampled.pos {x y : Level × ℕ} (h : Sampled lag x y) (hlong : lag + 50 ≤ x.2) : 0 < y.2 := by
  obtain ⟨level, d⟩ := x
  obtain ⟨-, hcount⟩ := h
  cases level with
  | mark =>
      have hlt : d < 50 * (y.2 + 1) := hcount.1
      dsimp only at hlong
      omega
  | space =>
      have hlt : d < 50 * (y.2 + 1) + lag := hcount.1
      dsimp only at hlong
      omega

theorem Sampled.short {x y : Level × ℕ} (h : Sampled lag x y)
    (hshort : x.1 = .space → x.2 ≤ 4800) (hspace : y.1 = .space) : y.2 < 99 := by
  obtain ⟨level, d⟩ := x
  obtain ⟨hlevel, hcount⟩ := h
  obtain rfl : level = .space := hlevel.symm.trans hspace
  have hlt : 50 * y.2 < d + 50 := hcount.2
  have hd : d ≤ 4800 := hshort rfl
  omega

/-- **What the buffer holds of a signal**, from an entry on. -/
def Recorded (lag : ℕ) (p : IrParams) (offset : ℕ) (sent : List (Level × ℕ)) : Prop :=
  ∃ counts, List.Forall₂ (Sampled lag) sent counts ∧
    ∀ k y, counts[k]? = some y → p.rawbuf (offset + k) = UInt16.ofNat y.2

/-- **A signal that is heard** is recorded stretch by stretch if there was a gap
in front of it, and else not at all. -/
theorem receive_hears {timer : UInt16} (hears : Hears lag signal wave)
    (hsend : Sendable lag (condense .space signal)) (hφ : φ < usecPerTick)
    (hn : duration wave + 102 * usecPerTick ≤ φ + usecPerTick * n) (hp : Waiting p timer) :
    ∃ p', p' = p.receive (samples usecPerTick .space wave φ n) ∧
      (gapTicks ≤ timer + 1 → p'.rcvstate = .stop ∧
        p'.rawlen.toNat = (condense .space signal).length + 1 ∧
        Recorded lag p' 1 (condense .space signal)) ∧
      (timer + 1 < gapTicks → p'.rcvstate = .idle) := by
  have hlong : duration wave + 5100 ≤ φ + 50 * n := hn
  obtain ⟨cs, hcs, hsum, hsamples⟩ := exists_samples_eq Level.space (n := n) hφ
    (show duration wave ≤ φ + 50 * n by omega)
  have hsum' : φ + 50 * cs.sum < duration wave + 50 := hsum
  have hrest : 102 ≤ n - cs.sum := by omega
  have hcounts := forall₂_sampled hears hcs
  refine ⟨_, rfl, ?_⟩
  rw [hsamples]
  generalize (wave.map Prod.fst).zip cs = counts at hcounts ⊢
  have hchanging : Changing .space counts :=
    (changing_condense signal).of_forall₂
      (((List.forall₂_and_left _ _).mpr ⟨hsend.long, hcounts⟩).imp
        fun x y h => ⟨h.2.1, h.2.pos h.1⟩)
  have hshort : ∀ y ∈ counts, y.1 = .space → y.2 < 99 := by
    intro y hy
    obtain ⟨k, hk, rfl⟩ := List.mem_iff_getElem.mp hy
    have hk' := hcounts.length_eq ▸ hk
    exact (hcounts.get hk' hk).short (hsend.short _ (List.getElem_mem hk'))
  have hfew := hcounts.length_eq ▸ hsend.few
  obtain ⟨c, rs, hfirst⟩ : ∃ c rs, counts = (.mark, c) :: rs := by
    obtain ⟨d, rest, hhead⟩ := hsend.head
    rw [hhead] at hcounts
    cases hcounts with
    | @cons _ first _ rs hfirst _ =>
        obtain ⟨level, c⟩ := first
        obtain rfl : level = .mark := hfirst.1
        exact ⟨c, rs, rfl⟩
  constructor
  · intro hgap
    rw [← hp.timer] at hgap
    have hstop : Stopped (p.receive (spread counts ++ List.replicate (n - cs.sum) .space))
        ((p.timer + 1).toNat :: counts.map Prod.snd) := by
      rw [hfirst] at hchanging hshort hfew ⊢
      exact receive_signal hp.rcvstate hp.rawlen hgap hrest hchanging
        (fun y hy hs => Nat.le_of_lt (Nat.lt_trans (hshort y (List.mem_cons_of_mem _ hy) hs)
          (by decide))) (Nat.succ_lt_succ hfew)
    refine ⟨hstop.rcvstate, ?_, counts, hcounts, fun k y hy => ?_⟩
    · rw [hstop.rawlen, List.length_cons, List.length_map, hcounts.length_eq]
    · refine hstop.rawbuf (1 + k) y.2 ?_
      rw [Nat.add_comm 1 k, List.getElem?_cons_succ, List.getElem?_map, hy]
      rfl
  · intro hgap
    have hhead : ∀ x ∈ counts.head?, if x.1 = .mark then timer + 1 < gapTicks else timer = 0 := by
      rw [hfirst]
      rintro x hx
      rw [← Option.mem_some.mp hx]
      exact hgap
    obtain ⟨timer', hwaiting⟩ := hp.stretches hhead hchanging hshort
    rw [receive_append]
    exact hwaiting.spaces.rcvstate

/-- **Whether it is received** is decided by the gap, where it is decoded from
what the buffer then holds of it. -/
theorem received_iff {timer : UInt16} {results : DecodeResults} (hears : Hears lag signal wave)
    (hsend : Sendable lag (condense .space signal)) (hφ : φ < usecPerTick)
    (hn : duration wave + 102 * usecPerTick ≤ φ + usecPerTick * n) (hp : Waiting p timer)
    (hdecode : ∀ p' : IrParams, p'.rawlen.toNat = (condense .space signal).length + 1 →
      Recorded lag p' 1 (condense .space signal) →
      (p'.decodeNEC <|> p'.decodeSony <|> p'.decodeRC5 <|> p'.decodeRC6) = some results) :
    (p.receive (samples usecPerTick .space wave φ n)).decode.1 = some results ↔
      gapTicks ≤ timer + 1 := by
  obtain ⟨p', hp', hgap, hnogap⟩ := receive_hears hears hsend hφ hn hp
  rw [← hp', IrParams.decode]
  constructor
  · intro hresults
    by_contra hlt
    have hidle := hnogap (UInt16.not_le.mp hlt)
    rw [if_pos (by rw [hidle]; exact RcvState.noConfusion)] at hresults
    cases hresults
  · intro hle
    obtain ⟨hstate, hlen, hrecorded⟩ := hgap hle
    rw [if_neg (not_not.mpr hstate), hdecode p' hlen hrecorded]

/-! ## Matching what was recorded -/

theorem matches_ofNat_iff {us : ℕ} (hc : c < 65536) :
    Matches (UInt16.ofNat c) us ↔ ticksLow us ≤ c ∧ c ≤ ticksHigh us := by
  rw [Matches, UInt16.toNat_ofNat_of_lt' hc]

theorem Recorded.tail {offset : ℕ} {x : Level × ℕ} (h : Recorded lag p offset (x :: rs)) :
    Recorded lag p (offset + 1) rs := by
  obtain ⟨counts, hcounts, hbuf⟩ := h
  cases hcounts with
  | cons _ hrest =>
      refine ⟨_, hrest, fun k y hy => ?_⟩
      rw [Nat.add_assoc, Nat.add_comm 1 k]
      exact hbuf (k + 1) y hy

section Matching

variable {offset d us : ℕ}

theorem Recorded.head_mark (h : Recorded lag p offset ((.mark, d) :: rs)) :
    ∃ c, d < 50 * (c + 1) ∧ 50 * c < d + lag + 50 ∧ p.rawbuf offset = UInt16.ofNat c := by
  obtain ⟨counts, hcounts, hbuf⟩ := h
  cases hcounts with
  | cons hfirst _ => exact ⟨_, hfirst.2.1, hfirst.2.2, hbuf 0 _ rfl⟩

theorem Recorded.head_space (h : Recorded lag p offset ((.space, d) :: rs)) :
    ∃ c, d < 50 * (c + 1) + lag ∧ 50 * c < d + 50 ∧ p.rawbuf offset = UInt16.ofNat c := by
  obtain ⟨counts, hcounts, hbuf⟩ := h
  cases hcounts with
  | cons hfirst _ => exact ⟨_, hfirst.2.1, hfirst.2.2, hbuf 0 _ rfl⟩

/-- A mark matches a width that is not too far from it, and no other. -/
theorem Recorded.matches_mark (h : Recorded lag p offset ((.mark, d) :: rs))
    (hlow : 50 * ticksLow us ≤ d) (hhigh : d + lag ≤ 50 * ticksHigh us) (hd : d + lag < 3000000) :
    Matches (p.rawbuf offset) us := by
  obtain ⟨c, hlt, hgt, hbuf⟩ := h.head_mark
  rw [hbuf, matches_ofNat_iff (by omega)]
  omega

theorem Recorded.not_matches_mark (h : Recorded lag p offset ((.mark, d) :: rs))
    (hfar : 50 * (ticksHigh us + 1) ≤ d ∨ d + lag + 50 ≤ 50 * ticksLow us)
    (hd : d + lag < 3000000) : ¬ Matches (p.rawbuf offset) us := by
  obtain ⟨c, hlt, hgt, hbuf⟩ := h.head_mark
  rw [hbuf, matches_ofNat_iff (by omega)]
  omega

/-- And so does a space. -/
theorem Recorded.matches_space (h : Recorded lag p offset ((.space, d) :: rs))
    (hlow : 50 * ticksLow us + lag ≤ d) (hhigh : d ≤ 50 * ticksHigh us) (hd : d < 3000000) :
    Matches (p.rawbuf offset) us := by
  obtain ⟨c, hlt, hgt, hbuf⟩ := h.head_space
  rw [hbuf, matches_ofNat_iff (by omega)]
  omega

theorem Recorded.not_matches_space (h : Recorded lag p offset ((.space, d) :: rs))
    (hfar : 50 * (ticksHigh us + 1) + lag ≤ d ∨ d + 50 ≤ 50 * ticksLow us) (hd : d < 3000000) :
    ¬ Matches (p.rawbuf offset) us := by
  obtain ⟨c, hlt, hgt, hbuf⟩ := h.head_space
  rw [hbuf, matches_ofNat_iff (by omega)]
  omega

/-- A header that is too short is none of a NEC code. -/
theorem decodeNEC_eq_none (h : Recorded lag p 1 ((.mark, d) :: rs))
    (hd : d + lag + 50 ≤ 6800) : p.decodeNEC = none := by
  have hmark : ¬ MatchMark (p.rawbuf 1) necHdrMark :=
    h.not_matches_mark (.inr hd) (by omega)
  rw [IrParams.decodeNEC, if_pos hmark]

/-- A first mark that is too short is not that of a Sony code. -/
theorem decodeSony_eq_none (h : Recorded lag p 1 ((.mark, d) :: rs))
    (hd : d + lag + 50 ≤ 1850) : p.decodeSony = none := by
  have hmark : ¬ MatchMark (p.rawbuf 1) sonyHdrMark :=
    h.not_matches_mark (.inr hd) (by omega)
  rw [IrParams.decodeSony, if_pos hmark, ite_self]

end Matching

end Firmware

end Realraum
