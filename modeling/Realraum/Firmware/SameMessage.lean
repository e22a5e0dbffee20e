import Mathlib.Data.Fin.Tuple.Basic
import Realraum.Firmware.Experiment
import Realraum.Firmware.Waveform
/-!
# The same message from two programs

The experiment sends words of ternary digits, the firmware sends bytes. A
digit is two bits, and the 24 bits of a word are packed into three bytes,
the lowest bit first. Then the pulses of a repetition of the one and of a
frame of the other say the same, though their lengths differ and the sync
is at the other end.
-/

namespace Realraum

namespace Firmware

open Emission Pulses

variable {e t : Experiment} {r : Radio} {s u : State}

/-! ## Ternary digits -/

/-- A ternary digit. -/
inductive Digit
  | zero
  | one
  | float
  deriving DecidableEq

/-- The digit in a word. -/
def Digit.adBit : Digit → AdBit
  | .zero => .zero
  | .one => .one
  | .float => .float

/-- The two bits that say the same. -/
def Digit.bits : Digit → List Bool
  | .zero => [false, false]
  | .one => [true, true]
  | .float => [false, true]

/-- **The word** of twelve digits, followed by `SYNC`. -/
def wordOf (digits : Fin 12 → Digit) : Word := Fin.snoc (fun i => (digits i).adBit) .sync

/-- The bits of twelve digits. -/
def bitsOf (digits : Fin 12 → Digit) : List Bool := (List.ofFn digits).flatMap Digit.bits

/-- **The three bytes** of 24 bits, packed with the lowest bit first. -/
def packed (bits : List Bool) : Fin 3 → UInt8 :=
  fun i => UInt8.ofNat (Nat.ofBits fun j : Fin 8 => bits.getD (8 * i + j) false)

example : packed (bitsOf fun i => if i.val < 2 then .zero else .float) = ![160, 170, 170] := by
  decide

theorem length_bitsOf (digits : Fin 12 → Digit) : (bitsOf digits).length = 24 := by
  have htwo : ∀ d : Digit, d.bits.length = 2 := fun d => by cases d <;> rfl
  simp [bitsOf, htwo]

/-! ## The pulses of the experiment -/

/-- A digit is sent as its two bits are. -/
theorem pulses_adBit (d : Digit) : d.adBit.pulses = d.bits.map (bitPulse 4 12) := by
  cases d <;> rfl

/-- **The pulses of a word** are those of its bits, and a sync. -/
theorem levels_wordOf (digits : Fin 12 → Digit) :
    (wordOf digits).levels = train ((bitsOf digits).map (bitPulse 4 12) ++ [⟨4, 124⟩]) := by
  have hword : List.ofFn (wordOf digits) =
      (List.ofFn digits).map Digit.adBit ++ [AdBit.sync] := rfl
  have hpulses : (fun d : Digit => d.adBit.pulses) = fun d => d.bits.map (bitPulse 4 12) :=
    funext pulses_adBit
  rw [Word.levels, hword, List.flatMap_append, List.flatMap_singleton, List.flatMap_map, hpulses,
    bitsOf, List.map_flatMap]
  rfl

theorem length_wordOf (digits : Fin 12 → Digit) : (wordOf digits).levels.length = 512 := by
  rw [levels_wordOf, train_append, List.length_append, length_map_bitPulse, length_bitsOf,
    train_cons, List.length_append, length_levels]
  rfl

/-- They are found in its levels. -/
theorem pulses_wordOf (digits : Fin 12 → Digit) :
    pulses (wordOf digits).levels = (bitsOf digits).map (bitPulse 4 12) ++ [⟨4, 124⟩] := by
  rw [levels_wordOf, pulses_train]
  intro p hpulse
  rcases List.mem_append.mp hpulse with hbit | hsync
  · exact map_bitPulse_proper (by decide) (by decide) _ p hbit
  · rw [List.mem_singleton.mp hsync]
    decide

/-! ## The pulses of the firmware -/

/-- **The bits of a signal** are those packed into its bytes. -/
theorem bits_of_packed {s : RfSignal} {bits : List Bool} (hlength : bits.length = 24)
    (h : s.signal = packed bits) : s.bits = bits := by
  have hbit : ∀ i : Fin 3, ∀ j ∈ List.range 8,
      (s.signal i).toNat.testBit j = bits.getD (8 * i + j) false := by
    intro i j hj
    have hlt : j < 8 := List.mem_range.mp hj
    rw [h, packed, UInt8.toNat_ofNat_of_lt' (Nat.ofBits_lt_two_pow _),
      Nat.testBit_ofBits_lt _ _ hlt]
  have hbits : s.bits = (List.range 24).map fun k => bits.getD k false := by
    rw [RfSignal.bits, List.flatMap_congr fun i _ => List.map_congr_left (hbit i)]
    rfl
  rw [hbits, ← hlength]
  refine List.ext_getElem (by simp) fun k hk hk' => ?_
  simp [List.getElem?_eq_getElem hk']

/-- **The pulses of a frame** are a sync, and those of its bits. -/
theorem frame_eq_train (s : RfSignal) :
    s.frame = train (⟨s.timeShort + 1, s.timeSync + 1⟩ ::
      s.bits.map (bitPulse (s.timeShort + 1) (s.timeLong + 1))) := by
  have hbit : s.bitPulse = fun bit =>
      (bitPulse (s.timeShort + 1) (s.timeLong + 1) bit).levels := by
    funext bit
    cases bit <;> rfl
  rw [RfSignal.frame, train_cons, train, List.flatMap_map, hbit]
  rfl

/-- The levels of a frame at the times the signal is initialised with. -/
theorem frame_of_packed {s : RfSignal} {bits : List Bool} (hlength : bits.length = 24)
    (h : s = ⟨6, 1, 3, 31, packed bits⟩) :
    s.TimesFit ∧ s.frame.length = 818 ∧
      pulses s.frame = ⟨7, 187⟩ :: bits.map (bitPulse 7 19) := by
  have hfit : s.TimesFit := by
    rw [h]
    exact (by decide : 6 < 256 ∧ 18 < 256 ∧ 186 < 256)
  have hframe : s.frame = train (⟨7, 187⟩ :: bits.map (bitPulse 7 19)) := by
    rw [frame_eq_train, bits_of_packed hlength (congrArg RfSignal.signal h), h]
    rfl
  refine ⟨hfit, ?_, ?_⟩
  · rw [hframe, train_cons, List.length_append, length_levels, length_map_bitPulse, hlength]
    rfl
  · rw [hframe, pulses_train]
    intro p hpulse
    rcases List.mem_cons.mp hpulse with rfl | hbit
    · decide
    · exact map_bitPulse_proper (by decide) (by decide) _ p hbit

/-- **Every frame** of a transmission begins with no bit to do and the
frames behind it, and shows its levels. -/
theorem levels_of_frame (hfit : r.currentSignal.TimesFit) (hrun : r.timerRunning = true)
    {repeatc : UInt8} (hstate : r.currentState = ⟨0, 0, repeatc, 0⟩) {j : ℕ}
    (hj : j < repeatc.toNat) :
    (Radio.isr^[j * r.currentSignal.frame.length] r).currentState =
        ⟨0, 0, UInt8.ofNat (repeatc.toNat - j), 0⟩ ∧
      (List.range r.currentSignal.frame.length).map
        (fun k => (Radio.isr^[j * r.currentSignal.frame.length + (k + 1)] r).rfOn) =
          r.currentSignal.frame ∧
      ∀ k < r.currentSignal.frame.length,
        (Radio.isr^[j * r.currentSignal.frame.length + k] r).timerRunning = true := by
  -- the pin is off in front of every frame but the first
  let f : ℕ → Radio := fun j => r.phase (if j = 0 then r.rfOn else false) 0 0 (repeatc.toNat - j) 0
  have hlt := repeatc.toNat_lt
  have hframe : ∀ j < repeatc.toNat, Shows (f j) r.currentSignal.frame (f (j + 1)) := by
    intro j hj
    have hdown : repeatc.toNat - j = repeatc.toNat - (j + 1) + 1 := by omega
    simp only [f, hdown, Nat.succ_ne_zero, if_false]
    exact shows_frame hfit hrun (by omega)
  have hstart : r = f 0 := by
    simp only [f, Radio.phase, if_true, Nat.sub_zero, UInt8.ofNat_toNat]
    exact congrArg (fun st => { r with currentState := st }) hstate
  obtain ⟨hbegin, hlevels, hruns⟩ := Emits.rounds hframe hj
  rw [← hstart] at hbegin hlevels hruns
  exact ⟨by rw [hbegin]; rfl, hlevels, hruns⟩

/-- No access changes the times of the signal. -/
theorem access_times (i : Inputs) (s : State) :
    ∃ signal, (access i s).radio.currentSignal =
      { s.radio.currentSignal with signal := signal } := by
  rcases access_radio i s with heq | ⟨count, heq⟩ | ⟨-, ⟨chr, b, heq⟩ | heq | heq⟩
  all_goals rw [heq]
  · exact ⟨_, rfl⟩
  · exact ⟨_, rfl⟩
  · exact ⟨_, rfl⟩
  · exact ⟨_, rfl⟩
  · exact ⟨_, rfl⟩

/-- **The times are those the signal is initialised with.** -/
theorem Reached.times (h : Reached s) :
    ∃ signal, s.radio.currentSignal = ⟨6, 1, 3, 31, signal⟩ := by
  refine h.invariant (I := fun s => ∃ signal, s.radio.currentSignal = ⟨6, 1, 3, 31, signal⟩)
    ⟨_, rfl⟩ fun s a t _ hs _ hstep => ?_
  obtain ⟨signal, hs⟩ := hs
  cases a with
  | receives b =>
      cases hstep
      exact ⟨signal, hs⟩
  | interrupts =>
      rw [step] at hstep
      split at hstep
      · cases hstep
        exact ⟨signal, s.radio.isr_cases.1.trans hs⟩
      · cases hstep
  | goesOn i =>
      cases hstep
      obtain ⟨signal', htimes⟩ := access_times i s
      exact ⟨signal', by rw [htimes, hs]⟩

/-! ## The result -/

/-- **The same message.** For every word of twelve ternary digits and a
`SYNC`, in any of the eight repetitions that `send_frame` has the experiment
send, and for the three bytes its bits are packed into, in any of the eight
frames that the firmware sends of them: the same 24 pulses in the same
order, by which of its two phases is the longer one, and one sync, behind
them in the one and before them in the other. A sync is told by its pause,
for any ratio from 3 to 26. -/
theorem same_message {digits : Fin 12 → Digit} (hsend : e.sendFrame (wordOf digits) = some t)
    (hs : Reached s) (hp : s.point = .startTimer)
    (hbytes : s.radio.currentSignal.signal = packed (bitsOf digits)) {i j : ℕ} (hi : i < 8)
    (hj : j < 8) :
    (Experiment.isr^[i * 512] t = { t with wordCnt := UInt8.ofNat i } ∧
        ∀ k < 512, (Experiment.isr^[i * 512 + k] t).timerRunning = true) ∧
      ((Radio.isr^[j * 818] s.radio.startTimer).currentState = ⟨0, 0, UInt8.ofNat (8 - j), 0⟩ ∧
        ∀ k < 818, (Radio.isr^[j * 818 + k] s.radio.startTimer).timerRunning = true) ∧
      ∃ data data' sync sync',
        pulses ((List.range 512).map fun k => (Experiment.isr^[i * 512 + k] t).rfOn) =
            data ++ [sync] ∧
          pulses ((List.range 818).map fun k =>
              (Radio.isr^[j * 818 + (k + 1)] s.radio.startTimer).rfOn) = sync' :: data' ∧
          data.length = 24 ∧ data.map Pulse.read = data'.map Pulse.read ∧
          data.map Pulse.read = (bitsOf digits).map some ∧
          ∀ k, 3 ≤ k → k ≤ 26 →
            (∀ p ∈ data ++ data', ¬ p.IsSync k) ∧ sync.IsSync k ∧ sync'.IsSync k := by
  -- the experiment
  obtain ⟨hrounds, -⟩ := sendFrame_rounds hsend
  obtain ⟨hround, hlevels, hruns⟩ := hrounds i hi
  rw [length_wordOf] at hround hlevels hruns
  -- the firmware
  obtain ⟨hstate, hrun, -⟩ := reached_startTimer hs hp
  obtain ⟨signal, htimes⟩ := hs.times
  obtain rfl : signal = packed (bitsOf digits) := by rw [← hbytes, htimes]
  obtain ⟨hfit, hlength, hpulses⟩ : s.radio.startTimer.currentSignal.TimesFit ∧
      s.radio.startTimer.currentSignal.frame.length = 818 ∧
      pulses s.radio.startTimer.currentSignal.frame = _ :=
    frame_of_packed (length_bitsOf digits) htimes
  obtain ⟨hbegin, hlevels', hruns'⟩ := levels_of_frame hfit hrun hstate hj
  rw [hlength] at hbegin hlevels' hruns'
  refine ⟨⟨hround, hruns⟩, ⟨hbegin, hruns'⟩, (bitsOf digits).map (bitPulse 4 12),
    (bitsOf digits).map (bitPulse 7 19), ⟨4, 124⟩, ⟨7, 187⟩, ?_, ?_, ?_, ?_,
    map_read_bitPulse (by decide) _, fun k hk hk' => ⟨fun p hpulse => ?_, ?_, ?_⟩⟩
  · rw [hlevels, pulses_wordOf]
  · rw [hlevels', hpulses]
  · rw [List.length_map, length_bitsOf]
  · rw [map_read_bitPulse (by decide), map_read_bitPulse (by decide)]
  · rcases List.mem_append.mp hpulse with hbit | hbit
    · exact map_bitPulse_not_isSync (by decide) (by omega) (by omega) _ p hbit
    · exact map_bitPulse_not_isSync (by decide) (by omega) (by omega) _ p hbit
  · show k * 4 < 124
    omega
  · show k * 7 < 187
    omega

/-- The digits of `words[B1_ON]`. -/
def b1On : Fin 12 → Digit :=
  ![.float, .zero, .float, .float, .zero, .zero, .float, .float, .zero, .float, .float, .float]

/-- **Switching on B1**: the word that the experiment has for it, in its last
repetition, and the bytes of the command `C`, in their first frame. -/
theorem same_message_b1On :
    ∃ t s, Experiment.init.sendFrame (wordOf b1On) = some t ∧ Reached s ∧
      s.radio.currentSignal.signal = ![0xa2, 0xa0, 0xa8] ∧
      ∃ data data' sync sync',
        pulses ((List.range 512).map fun k => (Experiment.isr^[7 * 512 + k] t).rfOn) =
            data ++ [sync] ∧
          pulses ((List.range 818).map fun k =>
              (Radio.isr^[0 * 818 + (k + 1)] s.radio.startTimer).rfOn) = sync' :: data' ∧
          data.length = 24 ∧ data.map Pulse.read = data'.map Pulse.read := by
  have hrun : (Reach.replay step (fun _ _ => true)
      (.receives 67 :: List.replicate 9 (.goesOn ⟨false, false, false, []⟩)) .init).any
      (fun s => s.point = .startTimer ∧ s.radio.currentSignal.signal = ![0xa2, 0xa0, 0xa8]) =
        true := by
    decide +kernel
  obtain ⟨s, hs, hstart⟩ := Reach.exists_of_replay (A := fun _ _ => True) (fun _ _ _ => trivial) _
    _ _ hrun
  obtain ⟨hp, hsignal⟩ := of_decide_eq_true hstart
  have hbytes : s.radio.currentSignal.signal = packed (bitsOf b1On) := hsignal.trans (by decide)
  have hsend : Experiment.init.sendFrame (wordOf b1On) = some _ := rfl
  obtain ⟨-, -, data, data', sync, sync', hfirst, hsecond, hlength, hsame, -⟩ :=
    same_message hsend hs hp hbytes (i := 7) (j := 0) (by decide) (by decide)
  exact ⟨_, s, hsend, hs, hsignal, data, data', sync, sync', hfirst, hsecond, hlength, hsame⟩

end Firmware

end Realraum
