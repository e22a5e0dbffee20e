import Mathlib.Data.List.OfFn
import Realraum.Common.Emission
import Realraum.Common.Pulses
import Realraum.Firmware.Helpers.Frames
import Realraum.Firmware.Model.Experiment
/-!
# The repetitions of a word

The routine of the experiment counts three bytes up: the time since the
digit began, the levels of the digit, the digits of the word. Each of them
starts the next where it ends, and the interrupt that ends the word starts
it again, seven times, before the frame is finished.
-/

namespace Realraum

namespace Firmware

open Emission Pulses

variable {e t : Experiment} {p : Pulse} {a b c i m n : ℕ} {on : Bool}

/-- The pin is at these levels, up to an interrupt each, while the timer
runs. -/
abbrev Levels : Experiment → List Bool → Experiment → Prop :=
  Plays Experiment.isr Experiment.rfOn fun e => e.timerRunning = true

namespace Experiment

/-- The transmission in this phase of its word. -/
def phase (e : Experiment) (on : Bool) (alpha bit chunk : ℕ) : Experiment :=
  { e with
    rfOn := on
    alphaCnt := UInt8.ofNat alpha
    bitCnt := UInt8.ofNat bit
    chunkCnt := UInt8.ofNat chunk }

/-- The digit of the word at this index. -/
def digit (e : Experiment) (b : ℕ) : AdBit :=
  if h : b < wordLen then e.currentWord ⟨b, h⟩ else .zero

/-- The entry of its table with this index. -/
def entry (e : Experiment) (b c : ℕ) : RfBit := (bitDefs (e.digit b)).getD c ⟨0, 0⟩

/-- The word at the start of this repetition. -/
def round (e : Experiment) (i : ℕ) : Experiment :=
  { e with wordCnt := UInt8.ofNat i }.phase true 0 0 0

end Experiment

/-- The last count of a digit: this entry of its table is up, and is the
last. -/
structure Experiment.EndsAt (e : Experiment) (a b c : ℕ) : Prop where
  chunk_lt : c + 1 < 256
  offset_eq : (e.entry b c).offset = UInt8.ofNat (a + 1)
  next_eq : e.entry b (c + 1) = ⟨0, 0⟩

/-- The pulses of a digit, as its table has them. -/
def AdBit.pulses : AdBit → List Pulse
  | .zero => [⟨4, 12⟩, ⟨4, 12⟩]
  | .one => [⟨12, 4⟩, ⟨12, 4⟩]
  | .float => [⟨4, 12⟩, ⟨12, 4⟩]
  | .sync => [⟨4, 124⟩]

/-- The table of these pulses, from a time on. -/
def table : ℕ → List Pulse → List RfBit
  | _, [] => [⟨0, 0⟩]
  | a, p :: ps =>
    ⟨UInt8.ofNat (a + p.on), 1⟩ :: ⟨UInt8.ofNat (a + p.on + p.off), 0⟩ ::
      table (a + p.on + p.off) ps

/-- **The tables are those of the pulses.** -/
theorem bitDefs_eq_table (d : AdBit) : bitDefs d = table 0 d.pulses := by
  cases d <;> rfl

/-! ## The steps of a phase -/

theorem rfBit_phase (hb : b < 256) (hc : c < 256) :
    (e.phase on a b c).rfBit = e.entry b c := by
  have hbit : (UInt8.ofNat b).toNat = b := UInt8.toNat_ofNat_of_lt' hb
  have hchunk : (UInt8.ofNat c).toNat = c := UInt8.toNat_ofNat_of_lt' hc
  simp only [Experiment.rfBit, Experiment.currentBit, Experiment.entry, Experiment.digit,
    Experiment.phase, hbit, hchunk]

/-- The entry behind. -/
theorem rfBit_phase_succ (hb : b < 256) (hc : c + 1 < 256) :
    { e.phase on a b c with chunkCnt := (e.phase on a b c).chunkCnt + 1 }.rfBit =
      e.entry b (c + 1) := by
  have hrfBit : (e.phase on a b (c + 1)).rfBit = e.entry b (c + 1) := rfBit_phase hb hc
  rw [← hrfBit]
  simp only [Experiment.phase, UInt8.ofNat_add]
  rfl

/-- The pin as the entry has it. -/
theorem writePin_phase (hb : b < 256) (hc : c < 256) :
    (e.phase on a b c).writePin = e.phase ((e.entry b c).state ≠ 0) a b c := by
  rw [Experiment.writePin, rfBit_phase hb hc]
  rfl

/-- Every digit begins with a pulse. -/
theorem writePin_phase_zero (hb : b < 256) :
    (e.phase on a b 0).writePin = e.phase true a b 0 := by
  have hstate : (e.entry b 0).state = 1 := by
    rw [Experiment.entry]
    cases e.digit b <;> rfl
  rw [writePin_phase hb (by decide), hstate]
  rfl

/-- What the routine does before the level ends. -/
theorem isr_of_alpha (h : e.alphaCnt + 1 < e.rfBit.offset) :
    e.isr = { e with alphaCnt := e.alphaCnt + 1 } :=
  if_pos h

/-- At the end of a level, with levels to go. -/
theorem isr_of_chunk (h : ¬ e.alphaCnt + 1 < e.rfBit.offset)
    (hchunk : { e with chunkCnt := e.chunkCnt + 1 }.rfBit.offset ≠ 0) :
    e.isr = Experiment.writePin
      { e with alphaCnt := e.alphaCnt + 1, chunkCnt := e.chunkCnt + 1 } :=
  (if_neg h).trans (if_pos hchunk)

/-- At the end of a digit, with digits to go. -/
theorem isr_of_digit (h : ¬ e.alphaCnt + 1 < e.rfBit.offset)
    (hchunk : { e with chunkCnt := e.chunkCnt + 1 }.rfBit.offset = 0)
    (hbit : (e.bitCnt + 1).toNat < wordLen) :
    e.isr = Experiment.writePin
      { e with bitCnt := e.bitCnt + 1, alphaCnt := 0, chunkCnt := 0 } :=
  ((if_neg h).trans (if_neg (not_not.mpr hchunk))).trans (if_pos hbit)

/-- At the end of the word. -/
theorem isr_of_word (h : ¬ e.alphaCnt + 1 < e.rfBit.offset)
    (hchunk : { e with chunkCnt := e.chunkCnt + 1 }.rfBit.offset = 0)
    (hbit : ¬ (e.bitCnt + 1).toNat < wordLen) :
    e.isr =
      let e :=
        { e with
          alphaCnt := e.alphaCnt + 1
          chunkCnt := e.chunkCnt + 1
          bitCnt := e.bitCnt + 1
          timerRunning := false
          rfOn := false
          wordCnt := e.wordCnt + 1 }
      if e.wordCnt < frameLen then e.initWord e.currentWord else { e with frameFinished := 2 } :=
  ((if_neg h).trans (if_neg (not_not.mpr hchunk))).trans (if_neg hbit)

/-! ## The levels of a digit -/

/-- The time is up at the offset of the entry. -/
theorem not_alpha_lt (hb : b < 256) (hc : c < 256)
    (hoffset : (e.entry b c).offset = UInt8.ofNat (a + 1)) :
    ¬ (e.phase on a b c).alphaCnt + 1 < (e.phase on a b c).rfBit.offset := by
  rw [rfBit_phase hb hc, hoffset, UInt8.ofNat_add]
  exact UInt8.lt_irrefl _

theorem isr_next_level (hb : b < 256) (hc : c + 1 < 256)
    (hoffset : (e.entry b c).offset = UInt8.ofNat (a + 1))
    (hnext : (e.entry b (c + 1)).offset ≠ 0) :
    (e.phase on a b c).isr = e.phase ((e.entry b (c + 1)).state ≠ 0) (a + 1) b (c + 1) := by
  rw [isr_of_chunk (not_alpha_lt hb (Nat.lt_of_succ_lt hc) hoffset)]
  · have hpin : (e.phase on (a + 1) b (c + 1)).writePin = _ := writePin_phase hb hc
    rw [← hpin]
    simp only [Experiment.phase, UInt8.ofNat_add]
    rfl
  · rwa [rfBit_phase_succ hb hc]

/-- **A level is held** up to its last count. -/
theorem levels_hold (hrun : e.timerRunning = true) (hb : b < 256) (hc : c < 256)
    (ha : a + n + 1 < 256) (hoffset : (e.entry b c).offset = UInt8.ofNat (a + n + 1)) :
    Levels (e.phase on a b c) (List.replicate (n + 1) on) (e.phase on (a + n) b c).isr := by
  have hheld : Levels (e.phase on a b c) (List.replicate n on) (e.phase on (a + n) b c) := by
    refine Plays.held (f := fun k => e.phase on (a + k) b c) fun k hk => ⟨hrun, ?_, rfl⟩
    rw [isr_of_alpha]
    · show _ = e.phase on (a + k + 1) b c
      simp only [Experiment.phase, UInt8.ofNat_add]
      rfl
    · rw [rfBit_phase hb hc, hoffset]
      have hlt : UInt8.ofNat (a + k + 1) < UInt8.ofNat (a + n + 1) :=
        (UInt8.ofNat_lt_iff_lt (Nat.lt_trans (by omega) ha) ha).mpr (by omega)
      rwa [UInt8.ofNat_add (a + k)] at hlt
  rw [List.replicate_succ']
  exact hheld.trans (.cons hrun (.nil _))

/-- A pulse: a level that is on, and the next, that is off. -/
theorem levels_pulse (hrun : e.timerRunning = true) (hb : b < 256) (hc : c + 1 < 256)
    (hp : p.Proper) (ha : a + p.on + p.off < 256)
    (hon : (e.entry b c).offset = UInt8.ofNat (a + p.on))
    (hoff : e.entry b (c + 1) = ⟨UInt8.ofNat (a + p.on + p.off), 0⟩) :
    ∃ a', a' + 1 = a + p.on + p.off ∧
      Levels (e.phase true a b c) p.levels (e.phase false a' b (c + 1)).isr := by
  obtain ⟨n, hn⟩ := Nat.exists_eq_add_one.mpr hp.on_pos
  obtain ⟨m, hm⟩ := Nat.exists_eq_add_one.mpr hp.off_pos
  rw [hn] at hon hoff ha ⊢
  rw [hm] at hoff ha ⊢
  have hne : (e.entry b (c + 1)).offset ≠ 0 := by
    rw [hoff]
    exact ofNat_succ_ne_zero ha
  have hpulse : Levels (e.phase true a b c) _ (e.phase true (a + n) b c).isr :=
    levels_hold hrun hb (Nat.lt_of_succ_lt hc) (Nat.lt_of_add_right_lt ha) hon
  rw [isr_next_level (a := a + n) hb hc hon hne, hoff] at hpulse
  have hpause : Levels (e.phase false (a + n + 1) b (c + 1)) _
      (e.phase false (a + n + 1 + m) b (c + 1)).isr :=
    levels_hold hrun hb hc ha (congrArg RfBit.offset hoff)
  refine ⟨a + n + 1 + m, rfl, ?_⟩
  rw [Pulse.levels, hn, hm]
  exact hpulse.trans hpause

/-- **The pulses of a table**, up to the last count of the last. -/
theorem levels_table (hrun : e.timerRunning = true) (hb : b < 256) (ps : List Pulse) (p : Pulse)
    (hproper : ∀ q ∈ p :: ps, q.Proper) (ha : a + (train (p :: ps)).length < 256)
    (hc : c + 2 * (p :: ps).length < 256)
    (hentry : ∀ k, e.entry b (c + k) = (table a (p :: ps)).getD k ⟨0, 0⟩) :
    ∃ a' c', e.EndsAt a' b c' ∧
      Levels (e.phase true a b c) (train (p :: ps)) (e.phase false a' b c').isr := by
  induction ps generalizing p a c with
  | nil =>
      simp only [train_cons, List.length_append, length_levels, List.length_cons] at ha hc
      obtain ⟨a', ha', hpulse⟩ := levels_pulse hrun hb (by omega)
        (hproper p List.mem_cons_self) (by omega) (congrArg RfBit.offset (hentry 0)) (hentry 1)
      refine ⟨a', c + 1, ⟨by omega, ?_, hentry 2⟩, hpulse.trans (.nil _)⟩
      rw [hentry 1, ha']
      rfl
  | cons q ps ih =>
      simp only [train_cons, List.length_append, length_levels, List.length_cons] at ha hc
      obtain ⟨a', ha', hpulse⟩ := levels_pulse hrun hb (by omega)
        (hproper p List.mem_cons_self) (by omega) (congrArg RfBit.offset (hentry 0)) (hentry 1)
      have hq := hproper q (List.mem_cons_of_mem p List.mem_cons_self)
      obtain ⟨n, hn⟩ := Nat.exists_eq_add_one.mpr hq.on_pos
      have hnext : (e.entry b (c + 2)).offset ≠ 0 := by
        rw [hentry 2]
        show UInt8.ofNat (a + p.on + p.off + q.on) ≠ 0
        rw [hn, ← Nat.add_assoc]
        exact ofNat_succ_ne_zero (by omega)
      have hoffset : (e.entry b (c + 1)).offset = UInt8.ofNat (a' + 1) := by
        rw [hentry 1, ha']
        rfl
      rw [isr_next_level hb (by omega) hoffset hnext, hentry 2, ha'] at hpulse
      obtain ⟨a'', c', hends, hrest⟩ := ih q (a := a + p.on + p.off) (c := c + 2)
        (fun r hr => hproper r (List.mem_cons_of_mem p hr))
        (by rw [train_cons, List.length_append, length_levels]; omega)
        (by rw [List.length_cons]; omega)
        (fun k => by rw [Nat.add_assoc, Nat.add_comm 2 k]; exact hentry (k + 2))
      exact ⟨a'', c', hends, hpulse.trans hrest⟩

/-- The pulses of a digit, and the time and the entries they take. -/
theorem AdBit.pulses_cons (d : AdBit) :
    ∃ p ps, d.pulses = p :: ps ∧ (∀ q ∈ p :: ps, q.Proper) ∧ (train (p :: ps)).length < 256 ∧
      2 * (p :: ps).length < 256 := by
  cases d <;> exact ⟨_, _, rfl, by decide, by decide, by decide⟩

/-- **A digit**, up to its last count. -/
theorem levels_digit (hrun : e.timerRunning = true) (hb : b < 256) :
    ∃ a c, e.EndsAt a b c ∧
      Levels (e.phase true 0 b 0) (train (e.digit b).pulses) (e.phase false a b c).isr := by
  obtain ⟨p, ps, hpulses, hproper, htime, hentries⟩ := (e.digit b).pulses_cons
  rw [hpulses]
  refine levels_table hrun hb ps p hproper (by omega) (by omega) fun k => ?_
  rw [Experiment.entry, bitDefs_eq_table, hpulses, Nat.zero_add]

/-! ## The digits of a word -/

/-- At the end of a digit, with digits to go. -/
theorem isr_next_digit (hb : b + 1 < wordLen) (hends : e.EndsAt a b c) :
    (e.phase on a b c).isr = e.phase true 0 (b + 1) 0 := by
  have hlt : b + 1 < 256 := Nat.lt_trans hb (by decide)
  have hbit : ((e.phase on a b c).bitCnt + 1).toNat = b + 1 := by
    show (UInt8.ofNat b + UInt8.ofNat 1).toNat = _
    rw [← UInt8.ofNat_add, UInt8.toNat_ofNat_of_lt' hlt]
  rw [isr_of_digit (not_alpha_lt (Nat.lt_of_succ_lt hlt) (Nat.lt_of_succ_lt hends.chunk_lt)
    hends.offset_eq)]
  · have hpin : (e.phase on 0 (b + 1) 0).writePin = e.phase true 0 (b + 1) 0 :=
      writePin_phase_zero hlt
    rw [← hpin]
    simp only [Experiment.phase, UInt8.ofNat_add]
    rfl
  · rw [rfBit_phase_succ (Nat.lt_of_succ_lt hlt) hends.chunk_lt, hends.next_eq]
  · rwa [hbit]

/-- **A word**, up to its last count. -/
theorem levels_word (hrun : e.timerRunning = true) :
    ∃ a c, e.EndsAt a 12 c ∧
      Levels (e.phase true 0 0 0) (train ((List.ofFn e.currentWord).flatMap AdBit.pulses))
        (e.phase false a 12 c).isr := by
  have hword : List.ofFn e.currentWord = (List.range 13).map e.digit := rfl
  have hdigits : Levels (e.phase true 0 0 0)
      ((List.range 12).flatMap fun b => train (e.digit b).pulses) (e.phase true 0 12 0) := by
    refine Plays.countup (f := fun b => e.phase true 0 b 0) fun b hb => ?_
    have hlt : b + 1 < wordLen := Nat.succ_lt_succ hb
    obtain ⟨a, c, hends, hdigit⟩ := levels_digit hrun (Nat.lt_trans hb (by decide))
    rwa [isr_next_digit hlt hends] at hdigit
  obtain ⟨a, c, hends, hlast⟩ := levels_digit (b := 12) hrun (by decide)
  refine ⟨a, c, hends, ?_⟩
  rw [hword, train, List.flatMap_assoc, List.flatMap_map, List.range_succ, List.flatMap_append,
    List.flatMap_singleton]
  exact hdigits.trans hlast

/-! ## The repetitions of a frame -/

variable {w : Word}

/-- `init_word` begins a word, with the timer running. -/
theorem initWord_eq (w : Word) (e : Experiment) :
    e.initWord w =
      Experiment.phase { e with currentWord := w, timerRunning := true } true 0 0 0 := by
  have hpin : (Experiment.phase { e with currentWord := w } e.rfOn 0 0 0).writePin =
      Experiment.phase { e with currentWord := w } true 0 0 0 := writePin_phase_zero (by decide)
  exact congrArg (fun e : Experiment => { e with timerRunning := true }) hpin

/-- At the end of the word it is begun again, or the frame is finished. -/
theorem isr_end_word (hends : e.EndsAt a 12 c) :
    (e.phase on a 12 c).isr =
      let e :=
        { e.phase false (a + 1) 13 (c + 1) with timerRunning := false, wordCnt := e.wordCnt + 1 }
      if e.wordCnt < frameLen then e.initWord e.currentWord else { e with frameFinished := 2 } := by
  have hlast : ¬ (UInt8.ofNat 12 + 1).toNat < wordLen := by decide
  rw [isr_of_word (not_alpha_lt (by decide) (Nat.lt_of_succ_lt hends.chunk_lt) hends.offset_eq) _
    hlast]
  · simp only [Experiment.phase, UInt8.ofNat_add]
    rfl
  · rw [rfBit_phase_succ (by decide) hends.chunk_lt, hends.next_eq]

/-- The samples of a word. -/
def Word.levels (w : Word) : List Bool := train ((List.ofFn w).flatMap AdBit.pulses)

/-- **A repetition** shows the word, and another one follows. -/
theorem levels_round (hi : i + 1 < 8) (hrun : e.timerRunning = true) :
    Levels (e.round i) (Word.levels e.currentWord) (e.round (i + 1)) := by
  obtain ⟨a, c, hends, hword⟩ := levels_word (e := { e with wordCnt := UInt8.ofNat i }) hrun
  have hcount : UInt8.ofNat i + UInt8.ofNat 1 < frameLen := by
    rw [← UInt8.ofNat_add]
    exact (UInt8.ofNat_lt_iff_lt (b := 8) (Nat.lt_trans hi (by decide)) (by decide)).mpr hi
  have hnext : (Experiment.phase { e with wordCnt := UInt8.ofNat i } false a 12 c).isr =
      e.round (i + 1) := by
    rw [isr_end_word hends]
    refine (if_pos hcount).trans ?_
    rw [initWord_eq]
    simp only [Experiment.round, Experiment.phase, UInt8.ofNat_add, hrun]
    rfl
  rwa [hnext] at hword

/-- **The last repetition** shows the word, and the frame is finished. -/
theorem levels_last_round (hrun : e.timerRunning = true) :
    ∃ t, Levels (e.round 7) (Word.levels e.currentWord) t ∧ t.frameFinished = 2 ∧
      t.timerRunning = false ∧ t.rfOn = false := by
  obtain ⟨a, c, hends, hword⟩ := levels_word (e := { e with wordCnt := 7 }) hrun
  refine ⟨_, hword, ?_⟩
  have hcount : ¬ (7 : UInt8) + 1 < frameLen := by decide
  have hfinish : (Experiment.phase { e with wordCnt := 7 } false a 12 c).isr = _ :=
    (isr_end_word hends).trans (if_neg hcount)
  rw [hfinish]
  exact ⟨rfl, rfl, rfl⟩

/-- **The frame of a word**: eight repetitions, each of which begins as
`init_word` left it, but for `word_cnt`, and shows the levels of the word,
an interrupt each. The interrupt that ends the last stops the timer and
finishes the frame. -/
theorem sendFrame_rounds (hsend : e.sendFrame w = some t) :
    (∀ i < 8,
        Experiment.isr^[i * w.levels.length] t = { t with wordCnt := UInt8.ofNat i } ∧
        (List.range w.levels.length).map
          (fun k => (Experiment.isr^[i * w.levels.length + k] t).rfOn) = w.levels ∧
        ∀ k < w.levels.length,
          (Experiment.isr^[i * w.levels.length + k] t).timerRunning = true) ∧
      (Experiment.isr^[8 * w.levels.length] t).frameFinished = 2 ∧
      (Experiment.isr^[8 * w.levels.length] t).timerRunning = false ∧
      (Experiment.isr^[8 * w.levels.length] t).rfOn = false := by
  obtain ⟨hword, hrun, hzero, hrounds⟩ : t.currentWord = w ∧ t.timerRunning = true ∧
      t = t.round 0 ∧ ∀ i, t.round i = { t with wordCnt := UInt8.ofNat i } := by
    rw [Experiment.sendFrame] at hsend
    split at hsend
    · cases hsend
    · cases hsend
      rw [initWord_eq]
      exact ⟨rfl, rfl, rfl, fun _ => rfl⟩
  obtain ⟨q, hlast, hfinished⟩ := levels_last_round hrun
  let f : ℕ → Experiment := fun i => if i < 8 then t.round i else q
  have hround : ∀ i < 8, Levels (f i) w.levels (f (i + 1)) := by
    intro i hi
    rw [← hword]
    by_cases hnext : i + 1 < 8
    · simp only [f, if_pos hi, if_pos hnext]
      exact levels_round hnext hrun
    · obtain rfl : i = 7 := by omega
      exact hlast
  have hiterate : ∀ i ≤ 8, Experiment.isr^[i * w.levels.length] t = f i := fun i hi => by
    rw [← Plays.iterate_rounds hround hi, ← show t = f 0 from hzero]
  refine ⟨fun i hi => ⟨?_, ?_⟩, ?_⟩
  · rw [hiterate i (Nat.le_of_lt hi), ← hrounds]
    exact if_pos hi
  · rw [show t = f 0 from hzero]
    exact Plays.rounds hround hi
  · rw [hiterate 8 (Nat.le_refl 8)]
    exact hfinished

end Firmware

end Realraum
