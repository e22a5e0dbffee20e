import Realraum.Console.Model.SampleSensors
import Realraum.Common.Framing
/-!
# The serial console — lines and counts

What `sample_sensors` makes of a stream. Whatever was received, `done` is
the list of the lines collected and `q` what is pending (`Holds`); bytes
received go behind `q`, and the `do` loop moves the complete lines of `q`
over to `done`. So the calls of `collect_data` are those the complete lines
of the stream would have each on their own, however the stream was cut, and
stale bytes play no part. The movement is counted in an `unsigned int`,
from one update to the next.
-/

namespace Realraum

namespace Console

open Daemon (CStr ascii cstring startsWith linefeed)
open Framing

variable {out : Outside} {fits fits' : Prop} {done : List (List UInt8)} {q bs line : List UInt8}
variable {s t : Sensors} {trace : List SensorEvent}

/-! ## A line in front of stale bytes -/

theorem cstring_append_nul (l stale : List UInt8) : cstring (l ++ 0 :: stale) = cstring l := by
  induction l with
  | nil => rfl
  | cons b l ih =>
      by_cases hb : b = 0
      · simp [cstring, hb]
      · simpa [cstring, hb] using ih

/-- A literal has no NUL, so it does not reach behind the end of a line. -/
theorem startsWith_nul {lit : String} (hlit : 0 ∉ ascii lit) (line stale : List UInt8) :
    startsWith (line ++ 0 :: stale) lit = startsWith line lit := by
  rw [startsWith, startsWith, Bool.eq_iff_iff, List.isPrefixOf_iff_prefix,
    List.isPrefixOf_iff_prefix]
  refine ⟨fun h => ?_, fun h => h.trans (List.prefix_append _ _)⟩
  rcases List.prefix_or_prefix_of_prefix h (List.prefix_append line (0 :: stale)) with h' | h'
  · exact h'
  · obtain ⟨t, ht⟩ := h'
    rw [← ht] at h hlit ⊢
    rw [List.prefix_append_right_inj] at h
    cases t with
    | nil => simp
    | cons b t =>
        obtain ⟨rfl, -⟩ := List.cons_prefix_cons.mp h
        exact absurd (by simp) hlit

theorem length_le_of_startsWith {lit : String} (h : startsWith line lit = true) :
    lit.length ≤ line.length := by
  have hlen := (List.isPrefixOf_iff_prefix.mp h).length_le
  rwa [ascii, List.length_map, String.length_toList] at hlen

/-- **A test looks at the line only**: neither the bytes behind it nor the
size beyond it play a part. -/
theorem checkHandle_nul {number : CStr → CStr} {fd : ℤ} {cmpstr : String} {rrd txt : CStr}
    (hlit : 0 ∉ ascii cmpstr) (stale : List UInt8) {size : ℕ} (hsize : line.length < size) :
    checkHandle number fd (line ++ 0 :: stale) size cmpstr rrd txt =
      checkHandle number fd (line ++ [0]) (line.length + 1) cmpstr rrd txt := by
  rw [checkHandle, checkHandle, startsWith_nul hlit, startsWith_nul hlit]
  by_cases h : startsWith line cmpstr = true
  · have hlen := length_le_of_startsWith h
    have hhere : cmpstr.length < size ∧ startsWith line cmpstr = true := ⟨by omega, h⟩
    have halone : cmpstr.length < line.length + 1 ∧ startsWith line cmpstr = true :=
      ⟨by omega, h⟩
    rw [if_pos hhere, if_pos halone, List.drop_append_of_le_length hlen,
      List.drop_append_of_le_length hlen, cstring_append_nul, cstring_append_nul]
  · rw [if_neg fun hand => h hand.2, if_neg fun hand => h hand.2]

/-- The call a line has on its own: alone in the buffer, at its own size. -/
def collectAlone (out : Outside) (k : ℕ) (line : List UInt8) : Collected :=
  collectData out.showAtof (out.opened k) (line ++ [0]) (line.length + 1)

/-- **`collect_data` looks at the line only.** -/
theorem collectData_nul (k : ℕ) (stale : List UInt8) {size : ℕ} (hsize : line.length < size) :
    collectData out.showAtof (out.opened k) (line ++ 0 :: stale) size =
      collectAlone out k line := by
  have hmovement : (0 : UInt8) ∉ ascii "movement" := by decide
  have htemp : (0 : UInt8) ∉ ascii "temp0: " := by decide
  have hphoto : (0 : UInt8) ∉ ascii "photo0: " := by decide
  rw [collectAlone, collectData, collectData, startsWith_nul hmovement, startsWith_nul hmovement,
    cstring_append_nul, cstring_append_nul, checkHandleLineFloat, checkHandle_nul htemp _ hsize,
    checkHandleLine, checkHandle_nul hphoto _ hsize]
  by_cases h : startsWith line "movement" = true
  · have hlen : 8 ≤ line.length := length_le_of_startsWith h
    rw [if_pos ⟨by omega, h⟩, if_pos ⟨by omega, h⟩]
  · rw [if_neg fun hand => h hand.2, if_neg fun hand => h hand.2]

/-- How many of these lines start with `movement`. -/
def movements (lines : List (List UInt8)) : ℕ := lines.countP fun line => startsWith line "movement"

theorem collectAlone_count (k : ℕ) (line : List UInt8) :
    (collectAlone out k line).count = UInt32.ofNat (movements [line]) := by
  have hmovement : (0 : UInt8) ∉ ascii "movement" := by decide
  rw [collectAlone, collectData, startsWith_nul hmovement, movements, List.countP_singleton]
  by_cases h : startsWith line "movement" = true
  · have hlen : 8 ≤ line.length := length_le_of_startsWith h
    rw [if_pos ⟨by omega, h⟩, if_pos h]
    rfl
  · rw [if_neg fun hand => h hand.2, if_neg h]
    split <;> rfl

theorem movements_append (lines lines' : List (List UInt8)) :
    movements (lines ++ lines') = movements lines + movements lines' := List.countP_append

/-! ## The counts -/

/-- How many lines were collected up to each update, from the one before,
and since the last. -/
def stretchLengths (trace : List SensorEvent) : List ℕ × ℕ :=
  trace.foldl (fun cut e => match e with
    | .collect _ => (cut.1, cut.2 + 1)
    | .movement _ _ => (cut.1 ++ [cut.2], 0)
    | _ => cut) ([], 0)

/-- **The movement of these lines, stretch by stretch**: they are cut where
an update came, each stretch was passed on as a 32-bit counter holds its
movement and `%d` prints that, and the last is still counted. -/
def Counted (lines : List (List UInt8)) (trace : List SensorEvent) (pending : UInt32) : Prop :=
  ∃ (stretches : List (List (List UInt8))) (rest : List (List UInt8)),
    lines = stretches.flatten ++ rest ∧
    stretchLengths trace = (stretches.map List.length, rest.length) ∧
    passed trace = stretches.map (fun stretch => asInt (UInt32.ofNat (movements stretch))) ∧
    pending = UInt32.ofNat (movements rest)

theorem Counted.collect {tr : List SensorEvent} {pending : UInt32}
    (h : Counted done trace pending) (hlengths : stretchLengths tr =
      ((stretchLengths trace).1, (stretchLengths trace).2 + 1))
    (hpassed : passed tr = passed trace) (line : List UInt8) :
    Counted (done ++ [line]) tr (pending + UInt32.ofNat (movements [line])) := by
  obtain ⟨stretches, rest, rfl, hcut, hcounts, rfl⟩ := h
  refine ⟨stretches, rest ++ [line], by rw [List.append_assoc], ?_, hpassed.trans hcounts, ?_⟩
  · rw [hlengths, hcut, List.length_append]
    rfl
  · rw [movements_append, UInt32.ofNat_add]

theorem Counted.update {pending : UInt32} {cmd : CStr} (h : Counted done trace pending) :
    Counted done (trace ++ [.movement (asInt pending) cmd]) 0 := by
  obtain ⟨stretches, rest, rfl, hcut, hcounts, rfl⟩ := h
  refine ⟨stretches ++ [rest], [], by simp, ?_, ?_, rfl⟩
  · rw [stretchLengths, List.foldl_append, ← stretchLengths, hcut, List.map_append]
    rfl
  · rw [passed, List.filterMap_append, ← passed, hcounts, List.map_append]
    rfl

/-- Nothing was collected or passed on. -/
theorem Counted.imp {tr : List SensorEvent} {pending : UInt32} (h : Counted done trace pending)
    (hlengths : stretchLengths tr = stretchLengths trace) (hpassed : passed tr = passed trace) :
    Counted done tr pending := by
  obtain ⟨stretches, rest, hlines, hcut, hcounts, hpending⟩ := h
  exact ⟨stretches, rest, hlines, hlengths.trans hcut, hpassed.trans hcounts, hpending⟩

/-! ## The state -/

/-- The sizes `recv` was called with. -/
def asked (trace : List SensorEvent) : List ℕ :=
  trace.filterMap fun | .recv _ size => some size | _ => none

@[simp] theorem calls_append (tr tr' : List SensorEvent) :
    calls (tr ++ tr') = calls tr ++ calls tr' := List.filterMap_append

@[simp] theorem passed_append (tr tr' : List SensorEvent) :
    passed (tr ++ tr') = passed tr ++ passed tr' := List.filterMap_append

@[simp] theorem asked_append (tr tr' : List SensorEvent) :
    asked (tr ++ tr') = asked tr ++ asked tr' := List.filterMap_append

/-- **The lines in `done` are collected and `q` is pending.** The movement
of `done` was passed on in stretches, the last of which is still counted;
and if the stream `fits`, `recv` was never asked for nothing. -/
structure Holds (out : Outside) (fits : Prop) (done : List (List UInt8)) (q : List UInt8)
    (s : Sensors) : Prop where
  length : s.buffer.length = bufferSize
  offset : s.bufferOffset ≤ bufferSize
  contents : s.contents = q
  lines : s.lines = done.length
  collected : calls s.trace = done.mapIdx (collectAlone out)
  inside : ∀ e ∈ s.trace, e.Inside
  asks : fits → ∀ size ∈ asked s.trace, 0 < size
  counted : Counted done s.trace s.movementCount

theorem holds_start {stale : List UInt8} {now : ℤ} (hstale : stale.length = bufferSize) :
    Holds out fits [] [] (.start stale now) where
  length := hstale
  offset := Nat.zero_le _
  contents := rfl
  lines := rfl
  collected := rfl
  inside e he := by
    rcases List.mem_cons.mp he with rfl | he
    · trivial
    · rw [List.mem_singleton.mp he]
      trivial
  asks _ size hsize := by cases hsize
  counted := ⟨[], [], rfl, rfl, rfl, rfl⟩

theorem Holds.length_pending (h : Holds out fits done q s) : q.length = s.bufferOffset := by
  rw [← h.contents, Sensors.contents, List.length_take, h.length, Nat.min_eq_left h.offset]

theorem Holds.imp (h : Holds out fits done q s) (himp : fits' → fits) :
    Holds out fits' done q s where
  __ := h
  asks hfits := h.asks (himp hfits)

/-- **What is received goes behind what is pending.** -/
theorem Holds.received (fits : Prop) (bs : List UInt8) (h : Holds out fits done q s)
    (hbs : bs.length ≤ bufferSize - s.bufferOffset) (hroom : fits → q.length < bufferSize) :
    Holds out fits done (q ++ bs) (s.received bs) where
  length := by
    have hlen := h.length_pending
    have hoff := h.offset
    rw [Sensors.received, h.contents]
    simp only [List.length_append, List.length_drop, h.length]
    omega
  offset := by
    have hoff := h.offset
    rw [Sensors.received]
    dsimp only
    omega
  contents := by
    have hlen : s.bufferOffset + bs.length = (q ++ bs).length := by
      rw [List.length_append, h.length_pending]
    rw [Sensors.contents, Sensors.received, h.contents]
    dsimp only
    rw [hlen, List.take_left']
    rfl
  lines := h.lines
  collected := by
    rw [← h.collected, Sensors.received, calls_append]
    exact List.append_nil _
  inside e he := by
    have hoff := h.offset
    rcases List.mem_append.mp he with he | he
    · exact h.inside e he
    · rcases List.mem_cons.mp he with rfl | he
      · exact Nat.le_of_eq (by omega)
      · rw [List.mem_singleton.mp he]
        exact Nat.add_le_of_le_sub' hoff hbs
  asks hfits size hsize := by
    have hlen := h.length_pending
    have hpending := hroom hfits
    rw [Sensors.received, asked_append] at hsize
    rcases List.mem_append.mp hsize with hsize | hsize
    · exact h.asks hfits size hsize
    · obtain rfl : size = bufferSize - s.bufferOffset := List.mem_singleton.mp hsize
      omega
  counted := h.counted.imp List.foldl_append
    ((passed_append _ _).trans (List.append_nil _))

/-- The line feed that ends a line is where the search stops. -/
theorem Holds.lineEnd (h : Holds out fits done (line ++ linefeed :: q) s)
    (hline : linefeed ∉ line) :
    s.lineEnd = line.length := by
  have hself : line.takeWhile (· ≠ linefeed) = line := by
    refine List.takeWhile_eq_self_iff.mpr fun b hb => ?_
    simpa using ne_of_mem_of_not_mem hb hline
  rw [Sensors.lineEnd, h.contents, List.takeWhile_append, hself, if_pos rfl,
    List.takeWhile_cons_of_neg (by simp), List.append_nil]

/-- **A line is collected on its own, and what is behind it moves up.** -/
theorem Holds.cutLine (h : Holds out fits done (line ++ linefeed :: q) s)
    (hline : linefeed ∉ line) :
    Holds out fits (done ++ [line]) q (s.cutLine out) := by
  have hend := h.lineEnd hline
  have hlen := h.length_pending
  have hoff := h.offset
  have hbuf := h.length
  rw [List.length_append, List.length_cons] at hlen
  -- the buffer, cut where the line ends
  have hbuffer : s.buffer = line ++ linefeed :: q ++ s.buffer.drop s.bufferOffset := by
    rw [← h.contents, Sensors.contents, List.take_append_drop]
  have hset : s.buffer.set s.lineEnd 0 = line ++ 0 :: (q ++ s.buffer.drop s.bufferOffset) := by
    rw [hend]
    conv_lhs => rw [hbuffer]
    rw [List.append_assoc, List.cons_append, List.set_append_right _ _ le_rfl, Nat.sub_self,
      List.set_cons_zero]
  -- behind the NUL stand the next lines and stale bytes, and the size covers them
  have hcall : collectData out.showAtof (out.opened s.lines) (s.buffer.set s.lineEnd 0)
      (s.bufferOffset + s.lineEnd) = collectAlone out done.length line := by
    rw [hset, h.lines]
    exact collectData_nul done.length _ (by omega)
  have hdrop : (s.buffer.set s.lineEnd 0).drop (s.lineEnd + 1) =
      q ++ s.buffer.drop s.bufferOffset := by
    rw [hset, hend, List.append_cons, List.drop_left' (by simp)]
  have hdroplen : ((s.buffer.set s.lineEnd 0).drop (s.lineEnd + 1)).length =
      bufferSize - (s.lineEnd + 1) := by
    rw [List.length_drop, List.length_set, hbuf]
  constructor
  · simp only [Sensors.cutLine, List.length_append, List.length_drop, List.length_set, hbuf]
    omega
  · simp only [Sensors.cutLine]
    omega
  · have hq : s.bufferOffset - (s.lineEnd + 1) = q.length := by omega
    simp only [Sensors.contents, Sensors.cutLine]
    rw [hq, hdrop, List.append_assoc, List.take_left]
  · rw [List.length_append, List.length_singleton, ← h.lines]
    rfl
  · rw [List.mapIdx_concat, ← h.collected, ← hcall]
    exact calls_append _ _
  · intro e he
    rcases List.mem_append.mp he with he | he
    · exact h.inside e he
    · simp only [List.mem_cons, List.not_mem_nil, or_false] at he
      rcases he with rfl | rfl | rfl
      · rw [SensorEvent.Inside]
        omega
      · trivial
      · rw [SensorEvent.Inside]
        omega
  · intro hfits size hsize
    rw [Sensors.cutLine, asked_append] at hsize
    exact h.asks hfits size (by simpa [asked] using hsize)
  · have hpassed : passed (s.cutLine out).trace = passed s.trace :=
      (passed_append _ _).trans (List.append_nil _)
    have hcount : (s.cutLine out).movementCount =
        s.movementCount + UInt32.ofNat (movements [line]) := by
      rw [← collectAlone_count done.length, ← hcall]
      rfl
    have hlengths : stretchLengths (s.cutLine out).trace =
        ((stretchLengths s.trace).1, (stretchLengths s.trace).2 + 1) := List.foldl_append
    rw [hcount]
    exact h.counted.collect hlengths hpassed line

/-- **The `do` loop collects the complete lines that are pending.** -/
theorem Holds.cutLines : ∀ (n : ℕ) (done : List (List UInt8)) (q : List UInt8) (s : Sensors),
    Holds out fits done q s → q.length ≤ n →
      Holds out fits (done ++ completeLines linefeed q) (unterminated linefeed q)
        (s.cutLines out n) := by
  intro n
  induction n with
  | zero =>
      intro done q s h hn
      rw [List.length_eq_zero_iff.mp (Nat.le_zero.mp hn)] at h ⊢
      rwa [completeLines_nil, List.append_nil]
  | succ n ih =>
      intro done q s h hn
      rw [Sensors.cutLines]
      by_cases hmem : linefeed ∈ q
      · obtain ⟨line, rest, rfl, hline⟩ := List.eq_append_cons_of_mem hmem
        have hlen := h.length_pending
        rw [List.length_append, List.length_cons] at hlen hn
        rw [if_pos (by rw [h.lineEnd hline]; omega), completeLines_line hline, unterminated_line,
          List.append_cons]
        exact ih (done ++ [line]) rest _ (h.cutLine hline) (by omega)
      · have hend : s.lineEnd = s.bufferOffset := by
          have hself : q.takeWhile (· ≠ linefeed) = q := by
            refine List.takeWhile_eq_self_iff.mpr fun b hb => ?_
            simpa using ne_of_mem_of_not_mem hb hmem
          rw [Sensors.lineEnd, h.contents, hself, h.length_pending]
        rw [if_neg (by omega), completeLines_of_notMem hmem, unterminated_of_notMem hmem,
          List.append_nil]
        exact h

/-- An update moves what is counted over to what was passed on. -/
theorem Holds.update (h : Holds out fits done q s) (now : ℤ) :
    Holds out fits done q (s.update now) := by
  rw [Sensors.update]
  split
  · refine { h with collected := ?_, inside := ?_, asks := ?_, counted := ?_ }
    · rw [calls_append, h.collected]
      exact List.append_nil _
    · intro e he
      rcases List.mem_append.mp he with he | he
      · exact h.inside e he
      · rw [List.mem_singleton.mp he]
        trivial
    · intro hfits size hsize
      rw [asked_append] at hsize
      exact h.asks hfits size (by simpa [asked] using hsize)
    · exact h.counted.update
  · exact h

/-! ## The run -/

/-- **Every line fits the buffer**, with its line feed; what is not a line
yet leaves room for one more byte. -/
def Fits (stream : List UInt8) : Prop :=
  (∀ line ∈ completeLines linefeed stream, line.length + 1 ≤ bufferSize) ∧
    (unterminated linefeed stream).length < bufferSize

/-- The beginning of a stream fits if the stream does. -/
theorem Fits.of_append {xs ys : List UInt8} (h : Fits (xs ++ ys)) : Fits xs := by
  obtain ⟨hlines, htail⟩ := completeLines_append_unterminated linefeed xs ys
  rw [Fits, hlines, htail] at h
  refine ⟨fun line hline => h.1 line (List.mem_append_left _ hline), ?_⟩
  have hxs := notMem_unterminated linefeed xs
  by_cases hmem : linefeed ∈ ys
  · -- what is pending is the beginning of a line
    obtain ⟨p, bs, rfl, hp⟩ := List.eq_append_cons_of_mem hmem
    have hline : unterminated linefeed xs ++ p ∈
        completeLines linefeed (unterminated linefeed xs ++ (p ++ linefeed :: bs)) := by
      rw [← List.append_assoc, completeLines_line (by simp [hxs, hp])]
      exact List.mem_cons_self
    have hlen := h.1 _ (List.mem_append_right _ hline)
    rw [List.length_append] at hlen
    omega
  · have hlen := h.2
    rw [unterminated_of_notMem (by simp [hxs, hmem]), List.length_append] at hlen
    omega

/-- What is collected and pending is what the stream says. -/
abbrev HoldsFor (out : Outside) (stream : List UInt8) (s : Sensors) : Prop :=
  Holds out (Fits stream) (completeLines linefeed stream) (unterminated linefeed stream) s

theorem received_append (rounds rounds' : List Round) :
    received (rounds ++ rounds') = received rounds ++ received rounds' := List.flatMap_append

/-- **One round.** -/
theorem HoldsFor.round {stream : List UInt8} {r : Round} (h : HoldsFor out stream s)
    (ht : s.round out r = some t) : HoldsFor out (stream ++ received [r]) t := by
  rw [Sensors.round] at ht
  split at ht
  · cases ht
  · obtain ⟨input, now⟩ := r
    cases input with
    | idle =>
        rw [← Option.some.inj ht, received, List.flatMap_singleton, List.append_nil]
        exact h.update now
    | gone =>
        rw [← Option.some.inj ht, received, List.flatMap_singleton, List.append_nil]
        refine { h with collected := ?_, inside := ?_, asks := ?_, counted := ?_ }
        · exact (calls_append _ _).trans ((List.append_nil _).trans h.collected)
        · intro e he
          have hoff := h.offset
          rcases List.mem_append.mp he with he | he
          · exact h.inside e he
          · rw [List.mem_singleton.mp he]
            exact Nat.le_of_eq (by omega)
        · intro hfits size hsize
          have hlen := h.length_pending
          have hpending := hfits.2
          rw [asked_append] at hsize
          rcases List.mem_append.mp hsize with hsize | hsize
          · exact h.asks hfits size hsize
          · obtain rfl : size = bufferSize - s.bufferOffset := List.mem_singleton.mp hsize
            omega
        · exact h.counted.imp List.foldl_append
            ((passed_append _ _).trans (List.append_nil _))
    | bytes bs =>
        dsimp only at ht
        split at ht
        · rename_i hbs
          obtain ⟨hlines, htail⟩ := completeLines_append_unterminated linefeed stream bs
          rw [← Option.some.inj ht, received, List.flatMap_singleton, HoldsFor, hlines, htail]
          -- the bytes go behind what is pending, then the complete lines are cut off
          have hreceived := (h.imp Fits.of_append).received (Fits (stream ++ bs)) bs hbs.2
            fun hfits => hfits.of_append.2
          refine (hreceived.cutLines _ _ _ _ ?_).update now
          rw [hreceived.length_pending]
        · cases ht

/-- **Every run collects what was received.** -/
theorem holdsFor_sampleSensors {stale : List UInt8} {now : ℤ} {rounds : List Round}
    (hstale : stale.length = bufferSize) (h : sampleSensors out stale now rounds = some s) :
    HoldsFor out (received rounds) s := by
  have hrun := Reach.replay_invariant (I := fun past s => HoldsFor out (received past) s)
    (fun past s r t hs _ ht => by
      have hround := HoldsFor.round hs ht
      rwa [← received_append] at hround) rounds [] _ s (holds_start hstale) h
  rwa [List.nil_append] at hrun

/-! ## The sum of the counts -/

/-- The movement passed to `rrdtool`, and what is still counted. -/
def movementTotal (s : Sensors) : ℤ :=
  (passed s.trace).foldr (· + ·) s.movementCount.toNat

theorem asInt_ofNat {n : ℕ} (hn : n < 2 ^ 31) : asInt (UInt32.ofNat n) = n := by
  have hnat : (UInt32.ofNat n).toBitVec.toNat = n := by
    rw [UInt32.toNat_toBitVec, UInt32.toNat_ofNat']
    exact Nat.mod_eq_of_lt (by omega)
  rw [asInt, BitVec.toInt_eq_toNat_of_lt (by rw [hnat]; omega), hnat]

/-- Where no stretch is too long the counts add up. -/
theorem foldr_counts {rest : List (List UInt8)} (hrest : movements rest < 2 ^ 32) :
    ∀ stretches : List (List (List UInt8)), (∀ stretch ∈ stretches, movements stretch < 2 ^ 31) →
      (stretches.map fun stretch => asInt (UInt32.ofNat (movements stretch))).foldr (· + ·)
        ((UInt32.ofNat (movements rest)).toNat : ℤ) = movements (stretches.flatten ++ rest) := by
  intro stretches
  induction stretches with
  | nil =>
      intro _
      rw [List.map_nil, List.foldr_nil, UInt32.toNat_ofNat', Nat.mod_eq_of_lt hrest]
      rfl
  | cons stretch stretches ih =>
      intro hsmall
      rw [List.map_cons, List.foldr_cons, asInt_ofNat (hsmall stretch List.mem_cons_self),
        ih fun st hst => hsmall st (List.mem_cons_of_mem _ hst), List.flatten_cons,
        List.append_assoc, movements_append stretch, Int.natCast_add]

/-- **The lines, the buffer and the counts of `sample_sensors`.** For every
stream and every cut of it, `collect_data` is called once for each complete
line, in order, and each call gives and does what it would with the line
alone. Every store and `memmove` stays inside the buffer, and `recv` is
asked for at least a byte if every line fits. The movement counts passed on
and the pending one are those of the lines collected from one update to the
next, in a 32-bit counter: they add up to the movement of the stream where no
stretch has as much as the counter and `%d` cannot hold. -/
theorem sampleSensors_counts {stale : List UInt8} {now : ℤ} {rounds : List Round}
    (hstale : stale.length = bufferSize) (h : sampleSensors out stale now rounds = some s) :
    calls s.trace = (completeLines linefeed (received rounds)).mapIdx (collectAlone out) ∧
    (∀ e ∈ s.trace, e.Inside) ∧
    (Fits (received rounds) → ∀ size ∈ asked s.trace, 0 < size) ∧
    ∃ (stretches : List (List (List UInt8))) (rest : List (List UInt8)),
      completeLines linefeed (received rounds) = stretches.flatten ++ rest ∧
      stretchLengths s.trace = (stretches.map List.length, rest.length) ∧
      passed s.trace = stretches.map (fun stretch => asInt (UInt32.ofNat (movements stretch))) ∧
      s.movementCount = UInt32.ofNat (movements rest) ∧
      ((∀ stretch ∈ stretches, movements stretch < 2 ^ 31) → movements rest < 2 ^ 32 →
        movementTotal s = movements (completeLines linefeed (received rounds))) := by
  have hholds := holdsFor_sampleSensors hstale h
  obtain ⟨stretches, rest, hlines, hcut, hpassed, hcount⟩ := hholds.counted
  refine ⟨hholds.collected, hholds.inside, hholds.asks, stretches, rest, hlines, hcut, hpassed,
    hcount, fun hsmall hrest => ?_⟩
  rw [movementTotal, hpassed, hcount, hlines]
  exact foldr_counts hrest stretches hsmall

/-- A line in two pieces, and one for the light. -/
theorem sampleSensors_counts_cut :
    ∃ s, sampleSensors ⟨id, fun _ => 3⟩ (List.replicate bufferSize 0) 0
        [⟨.bytes (ascii "move"), 0⟩, ⟨.bytes (ascii "ment\nphoto0: 7\n"), 31⟩] = some s ∧
      calls s.trace = [⟨ascii "movement", 1, []⟩,
        ⟨ascii "photo0: 7", 0, [.system (ascii "rrdtool update /home/sensorlight.rrd N:7"),
          .truncate txtLight, .write txtLight (ascii "7")]⟩] := by
  have hsome : (sampleSensors ⟨id, fun _ => 3⟩ (List.replicate bufferSize 0) 0
      [⟨.bytes (ascii "move"), 0⟩, ⟨.bytes (ascii "ment\nphoto0: 7\n"), 31⟩]).isSome = true := by
    decide +kernel
  obtain ⟨s, hs⟩ := Option.isSome_iff_exists.mp hsome
  refine ⟨s, hs, (sampleSensors_counts List.length_replicate hs).1.trans ?_⟩
  decide +kernel

/-! ## A counter that wraps -/

/-- Rounds of a line of movement each, at a clock that stands still. -/
def stoppedClock (n : ℕ) : List Round := List.replicate n ⟨.bytes (ascii "movement\n"), 0⟩

/-- Nothing is pending, nothing was passed on, and no time has gone by. -/
structure Quiet (s : Sensors) : Prop where
  holds : ∃ done, Holds ⟨id, fun _ => 3⟩ True done [] s
  passed : passed s.trace = []
  clock : s.lastSampleTime = 0
  going : s.returned = false

/-- Cutting lines touches neither the clock nor what was passed on. -/
theorem cutLines_frame (out : Outside) : ∀ (n : ℕ) (s : Sensors),
    passed (s.cutLines out n).trace = passed s.trace ∧
      (s.cutLines out n).lastSampleTime = s.lastSampleTime ∧
      (s.cutLines out n).returned = s.returned := by
  intro n
  induction n with
  | zero => exact fun s => ⟨rfl, rfl, rfl⟩
  | succ n ih =>
      intro s
      rw [Sensors.cutLines]
      split
      · obtain ⟨hpassed, hclock, hreturned⟩ := ih (s.cutLine out)
        refine ⟨hpassed.trans ?_, hclock, hreturned⟩
        exact (passed_append _ _).trans (List.append_nil _)
      · exact ⟨rfl, rfl, rfl⟩

/-- A line of movement at that clock leaves it so. -/
theorem Quiet.round (h : Quiet s) : ∃ t,
    s.round ⟨id, fun _ => 3⟩ ⟨.bytes (ascii "movement\n"), 0⟩ = some t ∧ Quiet t := by
  obtain ⟨done, hholds⟩ := h.holds
  have hoff : s.bufferOffset = 0 := hholds.length_pending.symm
  have hroom : (ascii "movement\n").length ≤ bufferSize - s.bufferOffset := by
    rw [hoff]
    decide
  have hreceived : Holds ⟨id, fun _ => 3⟩ True done (ascii "movement\n")
      (s.received (ascii "movement\n")) :=
    hholds.received True (ascii "movement\n") hroom fun _ => by decide
  have hcut := hreceived.cutLines _ done _ _ (by rw [hreceived.length_pending])
  have hframe := cutLines_frame ⟨id, fun _ => 3⟩
    (s.received (ascii "movement\n")).bufferOffset (s.received (ascii "movement\n"))
  refine ⟨_, ?_, ⟨_, hcut⟩, ?_, hframe.2.1.trans h.clock, hframe.2.2.trans h.going⟩
  · have hclock := hframe.2.1.trans h.clock
    rw [Sensors.round, if_neg (by rw [h.going]; decide)]
    dsimp only
    rw [if_pos ⟨by decide, hroom⟩, Sensors.update, if_neg (by rw [hclock]; decide)]
  · exact hframe.1.trans ((passed_append _ _).trans ((List.append_nil _).trans h.passed))

theorem Quiet.replay (n : ℕ) : ∀ s, Quiet s → ∃ t,
    Reach.replay (Sensors.round ⟨id, fun _ => 3⟩) (fun _ _ => true) (stoppedClock n) s = some t ∧
      Quiet t := by
  induction n with
  | zero => exact fun s h => ⟨s, rfl, h⟩
  | succ n ih =>
      intro s h
      obtain ⟨t, ht, hquiet⟩ := h.round
      obtain ⟨u, hu, hquiet'⟩ := ih t hquiet
      refine ⟨u, ?_, hquiet'⟩
      rw [stoppedClock, List.replicate_succ, Reach.replay, if_pos rfl, ht]
      exact hu

theorem received_stoppedClock (n : ℕ) :
    received (stoppedClock n) = encode linefeed (List.replicate n (ascii "movement")) := by
  induction n with
  | zero => rfl
  | succ n ih =>
      rw [stoppedClock, List.replicate_succ, List.replicate_succ, received, List.flatMap_cons,
        encode, List.flatMap_cons]
      exact congrArg (ascii "movement\n" ++ ·) ih

/-- The lines of the stream, which fit. -/
theorem lines_stoppedClock (n : ℕ) :
    completeLines linefeed (received (stoppedClock n)) =
      List.replicate n (ascii "movement") ∧ Fits (received (stoppedClock n)) := by
  have hwhole : ∀ line ∈ List.replicate n (ascii "movement"), linefeed ∉ line := by
    intro line hline
    rw [List.eq_of_mem_replicate hline]
    decide
  rw [Fits, received_stoppedClock, completeLines_encode hwhole, unterminated_encode]
  refine ⟨rfl, fun line hline => ?_, by decide⟩
  rw [List.eq_of_mem_replicate hline]
  decide

/-- **The counter wraps.** As many lines of movement as an `unsigned int`
has values, while the clock stands still: nothing was passed on, and less
than the number of the lines is counted. -/
theorem sampleSensors_counts_wraps :
    ∃ s, sampleSensors ⟨id, fun _ => 3⟩ (List.replicate bufferSize 0) 0 (stoppedClock (2 ^ 32)) =
        some s ∧
      Fits (received (stoppedClock (2 ^ 32))) ∧
      movementTotal s ≠ movements (completeLines linefeed (received (stoppedClock (2 ^ 32)))) := by
  have hstart : Quiet (.start (List.replicate bufferSize 0) 0) :=
    ⟨⟨[], holds_start List.length_replicate⟩, rfl, rfl, rfl⟩
  obtain ⟨s, hs, hquiet⟩ := hstart.replay (2 ^ 32)
  obtain ⟨hlines, hfits⟩ := lines_stoppedClock (2 ^ 32)
  refine ⟨s, hs, hfits, ?_⟩
  have hcount : movements (List.replicate (2 ^ 32) (ascii "movement")) = 2 ^ 32 := by
    have hword : startsWith (ascii "movement") "movement" = true := by decide
    rw [movements, List.countP_replicate, if_pos hword]
  rw [hlines, hcount, movementTotal, hquiet.passed, List.foldr_nil]
  -- the total is the counter alone, which has no such value
  have hlt := s.movementCount.toNat_lt
  omega

end Console

end Realraum
