import Realraum.Firmware.Helpers.Frames
import Realraum.Firmware.Model.Loop
/-!
# Every command is acknowledged once

An RF command is acknowledged by three parties in turn: the transmission
that runs, the count of finished ones, and the `Ok` that `loop()` prints
for each. All other commands are answered at once. The commands read are
the replies printed and what is still under way, at every access and
wherever the timer interrupts, but for one place: `loop()` counts down by
a load and a store, and a transmission that ends in between is counted for
nothing.
-/

namespace Realraum

namespace Firmware

variable {s t : State} {r : Radio} {i : Inputs}

/-- The replies among the lines printed. -/
def replies (printed : List Output) : List Output := printed.filter Output.isReply

@[simp] theorem replies_append (p q : List Output) : replies (p ++ q) = replies p ++ replies q :=
  List.filter_append _ _

/-- A byte read is a command, or one of the three a `>` takes with it: how
many commands there were, and how many bytes the last still misses. -/
def countByte : ℕ × ℕ → UInt8 → ℕ × ℕ
  | (commands, 0), b => (commands + 1, if charOf b = '>' then 3 else 0)
  | (commands, missing + 1), _ => (commands, missing)

/-- The number of commands read. -/
def State.consumed (s : State) : ℕ := (s.read.foldl countByte (0, 0)).1

/-- How many bytes the last command still misses. -/
def State.missing (s : State) : ℕ := (s.read.foldl countByte (0, 0)).2

/-- The number of transmissions that run. -/
def Radio.running (r : Radio) : ℤ := if r.timerRunning then 1 else 0

theorem toInt_eq {n : ℤ} (h : 0 ≤ n) (h' : n < 32768) : toInt n = n := by
  rw [toInt, Int.bmod_eq_of_le] <;> omega

/-! ## The interrupt routine -/

/-- Everything is counted down: the next interrupt ends the transmission. -/
def Radio.ends (r : Radio) : Bool := r.currentState = ⟨0, 0, 0, 0⟩

/-- **The routine goes on with the transmission, or ends it**: then it is
counted. -/
theorem Radio.isr_cases (r : Radio) :
    r.isr.currentSignal = r.currentSignal ∧
      (r.ends = false ∧ r.isr.timerRunning = r.timerRunning ∧
          r.isr.numTransmissionsToAcknowledge = r.numTransmissionsToAcknowledge ∨
        r.ends = true ∧ r.isr.timerRunning = false ∧
          r.isr.numTransmissionsToAcknowledge = toInt (r.numTransmissionsToAcknowledge + 1)) := by
  cases hends : r.ends with
  | true =>
      rw [isr_of_zero (of_decide_eq_true hends)]
      exact ⟨rfl, .inr ⟨rfl, rfl, rfl⟩⟩
  | false =>
      have hgoes : r.currentState.state ≠ 0 ∨ r.currentState.bit ≠ 0 ∨
          r.currentState.repeatc ≠ 0 ∨ r.currentState.atime ≠ 0 := by
        by_contra hzero
        simp only [ne_eq, not_or, not_not] at hzero
        obtain ⟨hstate, hbit, hrepeatc, hatime⟩ := hzero
        refine of_decide_eq_false hends ?_
        calc r.currentState = ⟨r.currentState.atime, r.currentState.bit,
              r.currentState.repeatc, r.currentState.state⟩ := rfl
          _ = ⟨0, 0, 0, 0⟩ := by rw [hatime, hbit, hrepeatc, hstate]
      unfold Radio.isr
      simp only [if_pos hgoes]
      split
      · exact ⟨rfl, .inl ⟨trivial, rfl, rfl⟩⟩
      · split
        · exact ⟨rfl, .inl ⟨trivial, rfl, rfl⟩⟩
        · split
          · exact ⟨rfl, .inl ⟨trivial, rfl, rfl⟩⟩
          · split <;> exact ⟨rfl, .inl ⟨trivial, rfl, rfl⟩⟩

/-! ## What is under way -/

namespace Point

/-- A command or an acknowledgement `loop()` holds in its hands. -/
def pending : Point → ℤ
  | boundary | frameTest | frameLoad | frameStore _ | serialTest => 0
  | _ => 1

/-- The most transmissions that run or wait to be acknowledged: one more
is started at the end of `loop()` only, with none left from before. -/
def limit : Point → ℤ
  | boundary | frameTest | frameLoad | frameStore _ | framePrint => 2
  | _ => 1

/-- How many bytes the command `loop()` holds in its hands still misses. -/
def missing : Point → ℕ
  | dispatch command => if command = '>' then 3 else 0
  | waitRead => 3
  | readByte chr => 3 - chr
  | _ => 0

/-- The points behind `while (TIMER_RUNNING)`. -/
def stores : Point → Bool
  | readByte _ | storeByte _ _ | arm | startTimer => true
  | _ => false

/-- The count that was loaded, where it is to be stored. -/
def loaded : Point → Option ℤ
  | frameStore count => some count
  | _ => none

end Point

/-- The count `loop()` goes by: the one it has loaded, or what is stored. -/
def State.counted (s : State) : ℤ := s.point.loaded.getD s.radio.numTransmissionsToAcknowledge

/-- **The commands that are lost**: neither replied to nor under way. -/
def State.lost (s : State) : ℤ :=
  s.consumed - ((replies s.printed).length + s.counted + s.radio.running + s.point.pending)

/-- **The invariant of the firmware**, at every access. -/
structure Inv (s : State) : Prop where
  missing : s.missing = s.point.missing
  nonneg : 0 ≤ s.radio.numTransmissionsToAcknowledge
  bound : s.radio.numTransmissionsToAcknowledge + s.radio.running ≤ s.point.limit
  quiet : s.point.stores = true → s.radio.timerRunning = false
  counts : s.point = .frameLoad → 0 < s.radio.numTransmissionsToAcknowledge
  loaded : ∀ count, s.point = .frameStore count →
    0 < count ∧ count ≤ s.radio.numTransmissionsToAcknowledge

theorem Inv.init : Inv .init where
  missing := rfl
  nonneg := Int.le_refl 0
  bound := by decide
  quiet := nofun
  counts := nofun
  loaded := nofun

theorem Radio.running_nonneg (r : Radio) : 0 ≤ r.running := by
  unfold Radio.running
  split <;> omega

theorem Radio.running_le (r : Radio) : r.running ≤ 1 := by
  unfold Radio.running
  split <;> omega

theorem Point.limit_bounds (p : Point) : 1 ≤ p.limit ∧ p.limit ≤ 2 := by
  unfold Point.limit
  split <;> omega

theorem Inv.ack_le (h : Inv s) : s.radio.numTransmissionsToAcknowledge ≤ 2 := by
  have hbound := h.bound
  have hlimit := s.point.limit_bounds
  have hrun := s.radio.running_nonneg
  omega

/-- The interrupt ends a transmission between the load and the store of the
count. -/
def endsBetween (s : State) : Act → Bool
  | .interrupts => s.point.loaded.isSome && s.radio.ends
  | _ => false

/-- **The interrupt keeps the account**: what ran is counted, but where the
count was loaded and is not yet stored. -/
theorem Inv.interrupts (h : Inv s) (hrun : s.radio.timerRunning = true) :
    Inv { s with radio := s.radio.isr } ∧
      { s with radio := s.radio.isr }.lost =
        s.lost + if endsBetween s .interrupts then 1 else 0 := by
  obtain ⟨-, hcases⟩ := s.radio.isr_cases
  have hack := h.ack_le
  have hnonneg := h.nonneg
  have hone : s.radio.running = 1 := if_pos hrun
  have hstores : s.point.stores = true → False := fun hst => by
    rw [h.quiet hst] at hrun
    cases hrun
  have htoInt : toInt (s.radio.numTransmissionsToAcknowledge + 1) =
      s.radio.numTransmissionsToAcknowledge + 1 := toInt_eq (by omega) (by omega)
  have hbound := h.bound
  rcases hcases with ⟨hends, hr, ha⟩ | ⟨hends, hr, ha⟩
  · have hsame : s.radio.isr.running = s.radio.running := by rw [Radio.running, hr, Radio.running]
    refine ⟨⟨h.missing, ?_, ?_, fun hst => (hstores hst).elim, ?_, ?_⟩, ?_⟩
    · rw [ha]
      exact hnonneg
    · rw [ha, hsame]
      exact hbound
    · rw [ha]
      exact h.counts
    · rw [ha]
      exact h.loaded
    · rw [endsBetween, hends, Bool.and_false, if_neg Bool.false_ne_true, Int.add_zero]
      simp only [State.lost, State.counted, State.consumed, ha, hsame]
  · have hzero : s.radio.isr.running = 0 := if_neg (by simp [hr])
    rw [htoInt] at ha
    refine ⟨⟨h.missing, ?_, ?_, fun hst => (hstores hst).elim, fun _ => ?_, fun count hp => ?_⟩, ?_⟩
    · rw [ha]
      omega
    · show _ ≤ s.point.limit
      rw [ha, hzero]
      omega
    · rw [ha]
      omega
    · obtain ⟨hpos, hle⟩ := h.loaded count hp
      rw [ha]
      omega
    · rw [endsBetween, hends, Bool.and_true]
      simp only [State.lost, State.counted, State.consumed, ha, hzero, hone]
      cases s.point.loaded with
      | none =>
          simp only [Option.getD_none, Option.isSome_none, Bool.false_eq_true, if_false]
          omega
      | some count =>
          simp only [Option.getD_some, Option.isSome_some, if_true]
          omega

theorem Inv.receives (h : Inv s) (b : UInt8) :
    Inv { s with rx := s.rx ++ [b] } ∧ { s with rx := s.rx ++ [b] }.lost = s.lost :=
  ⟨⟨h.missing, h.nonneg, h.bound, h.quiet, h.counts, h.loaded⟩, rfl⟩

/-! ## `loop()` -/

theorem Sensors.replies_movement (i : Inputs) (m : Sensors) : replies (m.movement i).2 = [] := by
  unfold Sensors.movement
  simp only
  repeat' split
  all_goals rfl

theorem Sensors.replies_button (i : Inputs) (m : Sensors) : replies (m.button i).2 = [] := by
  unfold Sensors.button
  simp only
  repeat' split
  all_goals rfl

/-- **A command is taken up, or answered at once.** -/
theorem dispatch_cases (i : Inputs) (command : Char) (s : State) :
    command = '>' ∧ dispatch i command s = { s with point := .waitRead } ∨
      command ≠ '>' ∧
        ((∃ sr, dispatch i command s = { s with point := .waitSend sr }) ∨
          ∃ o irSent, o.isReply = true ∧ dispatch i command s =
            { s with point := .boundary, irSent := irSent, printed := s.printed ++ [o] }) := by
  unfold dispatch
  split
  · rename_i hraw
    exact .inl ⟨hraw, rfl⟩
  · rename_i hraw
    refine .inr ⟨hraw, ?_⟩
    split
    · exact .inl ⟨_, rfl⟩
    · simp only
      split
      · exact .inr ⟨.sensor command i.reading, s.irSent, rfl, rfl⟩
      · split
        · exact .inr ⟨.ok, s.irSent, rfl, rfl⟩
        · split
          · exact .inr ⟨.ok, _, rfl, rfl⟩
          · exact .inr ⟨.unknownCommand, s.irSent, rfl, rfl⟩

/-- A byte where a command is expected is one. -/
theorem countByte_command (s : State) (h : s.missing = 0) (b : UInt8) :
    ((s.read ++ [b]).foldl countByte (0, 0)) =
      (s.consumed + 1, if charOf b = '>' then 3 else 0) := by
  rw [List.foldl_append]
  have hpair : s.read.foldl countByte (0, 0) = (s.consumed, 0) := Prod.ext rfl h
  rw [hpair]
  rfl

/-- A byte the last command misses is its next. -/
theorem countByte_argument (s : State) {n : ℕ} (h : s.missing = n + 1) (b : UInt8) :
    ((s.read ++ [b]).foldl countByte (0, 0)) = (s.consumed, n) := by
  rw [List.foldl_append]
  have hpair : s.read.foldl countByte (0, 0) = (s.consumed, n + 1) := Prod.ext rfl h
  rw [hpair]
  rfl

/-- The account moves with `loop()` to another point, while the timer and
the count of transmissions stay. -/
theorem Inv.moved (h : Inv s) (p : Point) (consumed : ℕ) (o : List Output)
    (haccount : (consumed : ℤ) + (replies s.printed).length + s.point.pending =
      s.consumed + (replies o).length + p.pending)
    (hlimit : s.radio.numTransmissionsToAcknowledge + s.radio.running ≤ p.limit)
    (hquiet : p.stores = true → s.radio.timerRunning = false)
    (hcounts : p = .frameLoad → 0 < s.radio.numTransmissionsToAcknowledge)
    (hloaded : s.point.loaded = none ∧ p.loaded = none)
    (ht : t.point = p ∧ t.consumed = consumed ∧ t.missing = p.missing ∧ t.printed = o)
    (hr : t.radio.timerRunning = s.radio.timerRunning)
    (ha : t.radio.numTransmissionsToAcknowledge = s.radio.numTransmissionsToAcknowledge) :
    Inv t ∧ t.lost = s.lost := by
  obtain ⟨rfl, rfl, hmissing, rfl⟩ := ht
  have hrun : t.radio.running = s.radio.running := by rw [Radio.running, hr, Radio.running]
  refine ⟨⟨hmissing, ?_, ?_, ?_, ?_, fun count hp => ?_⟩, ?_⟩
  · rw [ha]
    exact h.nonneg
  · rw [ha, hrun]
    exact hlimit
  · rw [hr]
    exact hquiet
  · rw [ha]
    exact hcounts
  · rw [hp] at hloaded
    cases hloaded.2
  · rw [State.lost, State.lost, State.counted, State.counted, hloaded.1, hloaded.2, ha, hrun]
    simp only [Option.getD_none]
    omega

theorem Inv.loads (h : Inv s) (hp : s.point = .frameLoad) :
    Inv { s with point := .frameStore s.radio.numTransmissionsToAcknowledge } ∧
      { s with point := .frameStore s.radio.numTransmissionsToAcknowledge }.lost = s.lost := by
  have hbound := h.bound
  have hmissing := h.missing
  have hpos := h.counts hp
  rw [hp] at hbound hmissing
  refine ⟨⟨hmissing, h.nonneg, hbound, nofun, nofun, fun count hcount => ?_⟩, ?_⟩
  · cases hcount
    exact ⟨hpos, Int.le_refl _⟩
  · rw [State.lost, State.lost, State.counted, State.counted, hp]
    rfl

theorem Inv.acknowledges {count : ℤ} (h : Inv s) (hp : s.point = .frameStore count) :
    Inv { s with point := .framePrint, radio := s.radio.acknowledge count } ∧
      { s with point := .framePrint, radio := s.radio.acknowledge count }.lost = s.lost := by
  obtain ⟨hpos, hle⟩ := h.loaded count hp
  have hack := h.ack_le
  have hbound := h.bound
  have hmissing := h.missing
  have hdone : (s.radio.acknowledge count).numTransmissionsToAcknowledge = count - 1 :=
    toInt_eq (by omega) (by omega)
  have hrun : (s.radio.acknowledge count).running = s.radio.running := rfl
  rw [hp] at hbound hmissing
  simp only [Point.limit] at hbound
  refine ⟨⟨hmissing, ?_, ?_, nofun, nofun, nofun⟩, ?_⟩
  · rw [hdone]
    omega
  · show _ ≤ (2 : ℤ)
    rw [hdone, hrun]
    omega
  · rw [State.lost, State.lost, State.counted, State.counted, hp]
    simp only [Point.loaded, Point.pending, Option.getD_none, Option.getD_some, hdone, hrun,
      State.consumed]
    omega

/-- The radio is idle where the timer starts. -/
theorem Inv.starts (h : Inv s) (hp : s.point = .startTimer) :
    Inv { s with point := .boundary, radio := s.radio.startTimer } ∧
      { s with point := .boundary, radio := s.radio.startTimer }.lost = s.lost := by
  have hquiet := h.quiet (by rw [hp]; rfl)
  have hzero : s.radio.running = 0 := if_neg (by simp [hquiet])
  have hone : s.radio.startTimer.running = 1 := rfl
  have hbound := h.bound
  have hmissing := h.missing
  rw [hp, hzero] at hbound
  rw [hp] at hmissing
  simp only [Point.limit] at hbound
  refine ⟨⟨hmissing, h.nonneg, ?_, nofun, nofun, nofun⟩, ?_⟩
  · show s.radio.numTransmissionsToAcknowledge + _ ≤ (2 : ℤ)
    rw [hone]
    omega
  · rw [State.lost, State.lost, State.counted, State.counted, hp, hzero]
    simp only [Point.loaded, Point.pending, Option.getD_none, hone, State.consumed]
    show _ - (_ + s.radio.numTransmissionsToAcknowledge + 1 + 0) = _
    omega

/-- `loop()` holds a command in its hands. -/
def Point.Holds (p : Point) : Prop :=
  p.pending = 1 ∧ p.limit = 1 ∧ p.loaded = none ∧ p ≠ .frameLoad

/-- Where `loop()` holds a command, the next point at which it does has
the same account. -/
theorem Inv.holds (h : Inv s) (hs : s.point.Holds) (p : Point) (hp : p.Holds)
    (hquiet : p.stores = true → s.radio.timerRunning = false)
    (ht : t.point = p ∧ t.consumed = s.consumed ∧ t.missing = p.missing ∧ t.printed = s.printed)
    (hr : t.radio.timerRunning = s.radio.timerRunning)
    (ha : t.radio.numTransmissionsToAcknowledge = s.radio.numTransmissionsToAcknowledge) :
    Inv t ∧ t.lost = s.lost :=
  h.moved p s.consumed s.printed (by rw [hs.1, hp.1]) (by rw [hp.2.1, ← hs.2.1]; exact h.bound)
    hquiet (fun hc => absurd hc hp.2.2.2) ⟨hs.2.2.1, hp.2.2.1⟩ ht hr ha

theorem afterByte_holds {next : Fin 3 → Point} (chr : Fin 3) (hnext : ∀ c, (next c).Holds) :
    (afterByte next chr).Holds := by
  unfold afterByte
  split
  · exact ⟨rfl, rfl, rfl, nofun⟩
  · exact hnext _

theorem afterByte_missing : ∀ chr : Fin 3, 2 - (chr : ℕ) = (afterByte .readByte chr).missing := by
  decide

/-- The character is dispatched: the code that follows it is waited for, or
a character is printed or sent at once. -/
theorem Inv.dispatches (h : Inv s) {command : Char} (hp : s.point = .dispatch command)
    (i : Inputs) : Inv (dispatch i command s) ∧ (dispatch i command s).lost = s.lost := by
  have hbound := h.bound
  have hmissing : s.missing = if command = '>' then 3 else 0 := by
    rw [h.missing, hp]
    rfl
  have hs : s.point.Holds := by rw [hp]; exact ⟨rfl, rfl, rfl, nofun⟩
  rw [hp] at hbound
  obtain ⟨hraw, heq⟩ | ⟨hraw, ⟨sr, heq⟩ | ⟨o, irSent, ho, heq⟩⟩ := dispatch_cases i command s
  all_goals
    rw [heq]
    simp only [hraw, if_true, if_false] at hmissing
  · exact h.holds hs .waitRead ⟨rfl, rfl, rfl, nofun⟩ nofun ⟨rfl, rfl, hmissing, rfl⟩ rfl rfl
  · exact h.holds hs (.waitSend sr) ⟨rfl, rfl, rfl, nofun⟩ nofun ⟨rfl, rfl, hmissing, rfl⟩ rfl rfl
  · refine h.moved .boundary s.consumed (s.printed ++ [o]) ?_ ?_ nofun nofun
      ⟨hs.2.2.1, rfl⟩ ⟨rfl, rfl, hmissing, rfl⟩ rfl rfl
    · have hone : (replies [o]).length = 1 := by simp [replies, ho]
      rw [hp, replies_append, List.length_append, hone]
      simp only [Point.pending]
      omega
    · simp only [Point.limit] at hbound ⊢
      omega

/-- **The loop keeps the account**, at every access. -/
theorem Inv.access (h : Inv s) (i : Inputs) :
    Inv (access i s) ∧ (Firmware.access i s).lost = s.lost := by
  have hnonneg := h.nonneg
  have hbound := h.bound
  have hquiet := h.quiet
  have hmissing := h.missing
  have hloads : ∀ {p}, s.point = p → p.loaded = none → s.point.loaded = none :=
    fun hp hnone => by rw [hp, hnone]
  unfold Firmware.access
  split
  all_goals
    rename_i hp
    rw [hp] at hbound hquiet hmissing
  · refine h.moved .frameTest s.consumed _ ?_ hbound nofun nofun ⟨hloads hp rfl, rfl⟩
      ⟨rfl, rfl, hmissing, rfl⟩ rfl rfl
    simp [hp, Sensors.replies_movement, Sensors.replies_button, Point.pending]
  · by_cases hpos : 0 < s.radio.numTransmissionsToAcknowledge
    · exact h.moved .frameLoad s.consumed s.printed (by simp [hp, Point.pending]) hbound nofun
        (fun _ => hpos) ⟨hloads hp rfl, rfl⟩ ⟨if_pos hpos, rfl, hmissing, rfl⟩ rfl rfl
    · refine h.moved .serialTest s.consumed s.printed (by simp [hp, Point.pending]) ?_ nofun nofun
        ⟨hloads hp rfl, rfl⟩ ⟨if_neg hpos, rfl, hmissing, rfl⟩ rfl rfl
      have hle : s.radio.running ≤ 1 := s.radio.running_le
      show _ ≤ (1 : ℤ)
      omega
  · exact h.loads hp
  · exact h.acknowledges hp
  · refine h.moved .frameTest s.consumed (s.printed ++ [.ok]) ?_ hbound nofun nofun
      ⟨hloads hp rfl, rfl⟩ ⟨rfl, rfl, hmissing, rfl⟩ rfl rfl
    have hone : (replies [Output.ok]).length = 1 := rfl
    rw [hp, replies_append, List.length_append, hone]
    simp only [Point.pending]
    omega
  · simp only [Point.limit] at hbound
    split
    · refine h.moved .boundary s.consumed s.printed (by simp [hp, Point.pending]) ?_ nofun nofun
        ⟨hloads hp rfl, rfl⟩ ⟨rfl, rfl, hmissing, rfl⟩ rfl rfl
      show _ ≤ (2 : ℤ)
      omega
    · rename_i _ b rx _
      have hcount := countByte_command s hmissing b
      refine h.moved (.dispatch (charOf b)) (s.consumed + 1) s.printed ?_ hbound nofun nofun
        ⟨hloads hp rfl, rfl⟩
        ⟨rfl, by rw [State.consumed, hcount], by rw [State.missing, hcount]; rfl, rfl⟩ rfl rfl
      simp only [hp, Point.pending]
      omega
  · exact h.dispatches hp i
  · split
    · exact ⟨h, rfl⟩
    · rename_i hidle
      exact h.holds (by rw [hp]; exact ⟨rfl, rfl, rfl, nofun⟩) (.readByte 0) ⟨rfl, rfl, rfl, nofun⟩
        (fun _ => by simpa using hidle) ⟨rfl, rfl, hmissing, rfl⟩ rfl rfl
  · rename_i chr
    split
    · exact ⟨h, rfl⟩
    · rename_i _ b rx _
      have hthree : 3 - (chr : ℕ) = 2 - chr + 1 := by omega
      have hcount := countByte_argument s (hmissing.trans hthree) b
      refine h.holds (by rw [hp]; exact ⟨rfl, rfl, rfl, nofun⟩) (afterByte .readByte chr)
        (afterByte_holds chr fun _ => ⟨rfl, rfl, rfl, nofun⟩) (fun _ => hquiet rfl)
        ⟨rfl, by rw [State.consumed, hcount], ?_, rfl⟩ rfl rfl
      rw [State.missing, hcount]
      exact afterByte_missing chr
  · rename_i sr
    split
    · exact ⟨h, rfl⟩
    · rename_i hidle
      exact h.holds (by rw [hp]; exact ⟨rfl, rfl, rfl, nofun⟩) (.storeByte sr 0)
        ⟨rfl, rfl, rfl, nofun⟩ (fun _ => by simpa using hidle) ⟨rfl, rfl, hmissing, rfl⟩ rfl rfl
  · rename_i sr chr
    refine h.holds (by rw [hp]; exact ⟨rfl, rfl, rfl, nofun⟩) (afterByte (.storeByte sr) chr)
      (afterByte_holds chr fun _ => ⟨rfl, rfl, rfl, nofun⟩) (fun _ => hquiet rfl)
      ⟨rfl, rfl, ?_, rfl⟩ rfl rfl
    unfold afterByte
    split <;> exact hmissing
  · exact h.holds (by rw [hp]; exact ⟨rfl, rfl, rfl, nofun⟩) .startTimer ⟨rfl, rfl, rfl, nofun⟩
      (fun _ => hquiet rfl) ⟨rfl, rfl, hmissing, rfl⟩ rfl rfl
  · exact h.starts hp

/-- **Every access and every interrupt keeps the invariant**, and a command
is lost where a transmission ends between the load and the store. -/
theorem Inv.step (h : Inv s) {a : Act} (hstep : step a s = some t) :
    Inv t ∧ t.lost = s.lost + if endsBetween s a then 1 else 0 := by
  cases a with
  | receives b =>
      cases hstep
      have hnone : endsBetween s (.receives b) = false := rfl
      rw [hnone, if_neg Bool.false_ne_true, Int.add_zero]
      exact h.receives b
  | interrupts =>
      simp only [Firmware.step] at hstep
      split at hstep
      · rename_i hrun
        cases hstep
        exact h.interrupts hrun
      · cases hstep
  | goesOn i =>
      cases hstep
      have hnone : endsBetween s (.goesOn i) = false := rfl
      rw [hnone, if_neg Bool.false_ne_true, Int.add_zero]
      exact h.access i

theorem Reached.inv (h : Reached s) : Inv s :=
  h.invariant Inv.init fun _ _ _ _ hinv _ hstep => (hinv.step hstep).1

/-- **What an access does to the radio**: nothing, or it counts an
acknowledgement, or it is one of those behind `while (TIMER_RUNNING)`. -/
theorem access_radio (i : Inputs) (s : State) :
    (Firmware.access i s).radio = s.radio ∨
      (∃ count, (Firmware.access i s).radio = s.radio.acknowledge count) ∨
      (s.point.stores = true ∧
        ((∃ chr b, (Firmware.access i s).radio = s.radio.storeByte chr b) ∨
          (Firmware.access i s).radio = s.radio.arm ∨
          (Firmware.access i s).radio = s.radio.startTimer)) := by
  have hstores : ∀ {p : Point}, s.point = p → p.stores = true → s.point.stores = true :=
    fun hp hst => by rw [hp, hst]
  unfold Firmware.access
  split
  all_goals rename_i hp
  · exact .inl rfl
  · exact .inl rfl
  · exact .inl rfl
  · exact .inr (.inl ⟨_, rfl⟩)
  · exact .inl rfl
  · split <;> exact .inl rfl
  · rename_i command
    obtain ⟨-, heq⟩ | ⟨-, ⟨sr, heq⟩ | ⟨o, irSent, -, heq⟩⟩ := dispatch_cases i command s <;>
      exact .inl (by rw [heq])
  · split <;> exact .inl rfl
  · rename_i chr
    split
    · exact .inl rfl
    · exact .inr (.inr ⟨hstores hp rfl, .inl ⟨chr, _, rfl⟩⟩)
  · split <;> exact .inl rfl
  · rename_i sr chr
    exact .inr (.inr ⟨hstores hp rfl, .inl ⟨chr, sr chr, rfl⟩⟩)
  · exact .inr (.inr ⟨hstores hp rfl, .inr (.inl rfl)⟩)
  · exact .inr (.inr ⟨hstores hp rfl, .inr (.inr rfl)⟩)

/-- **But for its first access `loop()` prints replies only.** -/
theorem access_replies (hp : s.point ≠ .boundary) (i : Inputs) :
    (Firmware.access i s).sensors = s.sensors ∧
      ∃ lines, (Firmware.access i s).printed = s.printed ++ lines ∧
        ∀ o ∈ lines, o.isReply = true := by
  have hsame : ∀ {u : State}, u.sensors = s.sensors → u.printed = s.printed →
      u.sensors = s.sensors ∧
        ∃ lines, u.printed = s.printed ++ lines ∧ ∀ o ∈ lines, o.isReply = true :=
    fun hsensors hprinted => ⟨hsensors, [], by rw [hprinted, List.append_nil], by simp⟩
  unfold Firmware.access
  split
  · rename_i hboundary
    exact absurd hboundary hp
  · exact hsame rfl rfl
  · exact hsame rfl rfl
  · exact hsame rfl rfl
  · exact ⟨rfl, [.ok], rfl, by simp [Output.isReply]⟩
  · split
    · exact hsame rfl rfl
    · exact hsame rfl rfl
  · rename_i command _
    obtain ⟨-, heq⟩ | ⟨-, ⟨sr, heq⟩ | ⟨o, irSent, ho, heq⟩⟩ := dispatch_cases i command s
    all_goals rw [heq]
    · exact hsame rfl rfl
    · exact hsame rfl rfl
    · exact ⟨rfl, [o], rfl, by simpa using ho⟩
  · split
    · exact hsame rfl rfl
    · exact hsame rfl rfl
  · split
    · exact hsame rfl rfl
    · exact hsame rfl rfl
  · split
    · exact hsame rfl rfl
    · exact hsame rfl rfl
  · exact hsame rfl rfl
  · exact hsame rfl rfl
  · exact hsame rfl rfl

/-- No access changes the signal while it is sent. -/
theorem Inv.access_signal (h : Inv s) (hrun : s.radio.timerRunning = true) (i : Inputs) :
    (Firmware.access i s).radio.currentSignal = s.radio.currentSignal := by
  rcases access_radio i s with heq | ⟨count, heq⟩ | ⟨hst, -⟩
  · rw [heq]
  · rw [heq]
    rfl
  · rw [h.quiet hst] at hrun
    cases hrun

/-- **No step changes the signal while it is sent.** -/
theorem Reached.signal_kept (h : Reached s) (hrun : s.radio.timerRunning = true) {a : Act}
    (hstep : step a s = some t) :
    t.radio.currentSignal.signal = s.radio.currentSignal.signal := by
  cases a with
  | receives b =>
      cases hstep
      rfl
  | interrupts =>
      rw [step, if_pos hrun] at hstep
      cases hstep
      rw [s.radio.isr_cases.1]
  | goesOn i =>
      cases hstep
      rw [h.inv.access_signal hrun i]

/-! ## Runs -/

/-- `loop()` goes on so often, with nothing at its pins. -/
def goesOn (n : ℕ) : List Act := List.replicate n (.goesOn ⟨false, false, false, []⟩)

/-- Where these acts lead. -/
def State.after (s : State) (acts : List Act) : State :=
  (Reach.replay step (fun _ _ => true) acts s).getD s

theorem Reached.after (h : Reached s) (acts : List Act)
    (hacts : (Reach.replay step (fun _ _ => true) acts s).isSome = true) :
    Reached (s.after acts) := by
  obtain ⟨t, ht⟩ := Option.isSome_iff_exists.mp hacts
  rw [State.after, ht, Option.getD_some]
  exact h.trans (Reach.run_of_replay (fun _ _ _ => trivial) acts s t ht)

/-- **The routine runs as long as it shows levels**, whatever `loop()` is
about to do. -/
theorem Shows.reached {q : Radio} {w : List Bool} (hshows : Shows r w q)
    (h : Reached { s with radio := r }) : Reached { s with radio := q } := by
  induction hshows with
  | nil => exact h
  | @cons r q w hruns hshows ih =>
      exact ih (h.tail ⟨.interrupts, trivial, if_pos hruns⟩)

/-- **The frames are sent** while `loop()` does nothing. -/
theorem Reached.sent (h : Reached s) (hrun : s.radio.timerRunning = true)
    (hstate : s.radio.currentState = ⟨0, 0, numRepeatSignal, 0⟩)
    (hfit : s.radio.currentSignal.TimesFit) :
    ∃ on, Reached { s with radio := s.radio.phase on 0 0 0 0 } := by
  have hphase : s.radio = s.radio.phase s.radio.rfOn 0 0 8 0 :=
    congrArg (fun st => { s.radio with currentState := st }) hstate
  obtain ⟨off, hshows⟩ := shows_frames hfit hrun (by decide : 8 < 256) s.radio.rfOn
  rw [← hphase] at hshows
  exact ⟨off, hshows.reached h⟩

/-! ## The result -/

/-- **Every command is acknowledged exactly once**, however the interrupts
fall, as long as none ends a transmission between the load and the store of
the count: between two calls of `loop()` each command read was replied to,
or waits for its acknowledgement, or is being sent; and the signal stays as
it is while it is sent. -/
theorem every_command_acknowledged
    (h : Reach.Run step (fun s a => endsBetween s a = false) .init s) :
    (s.point = .boundary →
      (s.consumed : ℤ) = (replies s.printed).length + s.radio.numTransmissionsToAcknowledge +
        if s.radio.timerRunning then 1 else 0) ∧
    (s.radio.timerRunning = true → ∀ a t, step a s = some t →
      t.radio.currentSignal.signal = s.radio.currentSignal.signal) := by
  have hinv : Inv s ∧ s.lost = 0 := by
    refine h.invariant (I := fun s => Inv s ∧ s.lost = 0) ⟨Inv.init, rfl⟩
      fun u a v _ hu ha hv => ?_
    obtain ⟨hinv, hlost⟩ := hu.1.step hv
    rw [ha, if_neg Bool.false_ne_true, Int.add_zero] at hlost
    exact ⟨hinv, hlost.trans hu.2⟩
  have hreached : Reached s := h.weaken fun _ _ _ => trivial
  refine ⟨fun hp => ?_, fun hrun a t => hreached.signal_kept hrun⟩
  have hlost := hinv.2
  rw [State.lost, State.counted, hp] at hlost
  simp only [Point.loaded, Point.pending, Option.getD_none] at hlost
  show _ = _ + s.radio.running
  omega

/-- A sensor is read while an RF command is sent: both commands are read,
the one is replied to and the other is on its way. -/
theorem every_command_acknowledged_sending :
    ∃ s, Reached s ∧ s.point = .boundary ∧ s.radio.timerRunning = true ∧ s.consumed = 2 ∧
      (s.consumed : ℤ) = (replies s.printed).length + s.radio.numTransmissionsToAcknowledge + 1 ∧
      ∀ a t, step a s = some t →
        t.radio.currentSignal.signal = s.radio.currentSignal.signal := by
  have hrun : (Reach.replay step (fun s a => !endsBetween s a)
      ([.receives 65, .receives 63] ++ goesOn 10 ++ [.interrupts, .interrupts] ++ goesOn 4)
        .init).any
      (fun s => s.point = .boundary ∧ s.radio.timerRunning = true ∧ s.consumed = 2) = true := by
    decide +kernel
  obtain ⟨s, hs, hp⟩ := Reach.exists_of_replay (A := fun s a => endsBetween s a = false)
    (fun s a h => by simpa using h) _ _ _ hrun
  obtain ⟨hpoint, htimer, hconsumed⟩ := of_decide_eq_true hp
  obtain ⟨haccount, hsignal⟩ := every_command_acknowledged hs
  refine ⟨s, hs.weaken fun _ _ _ => trivial, hpoint, htimer, hconsumed, ?_, hsignal htimer⟩
  rw [haccount hpoint, if_pos htimer]

/-- **A command is lost**: the first of two is to be acknowledged, and the
second's transmission ends between the load of the count and its store. Both
were sent, and one `Ok` is printed. -/
theorem every_command_acknowledged_fails :
    ∃ s, Reached s ∧ s.point = .boundary ∧ s.rx = [] ∧ s.consumed = 2 ∧
      replies s.printed = [.ok] ∧ s.radio.numTransmissionsToAcknowledge = 0 ∧
      s.radio.timerRunning = false ∧
      (s.consumed : ℤ) ≠ (replies s.printed).length + s.radio.numTransmissionsToAcknowledge +
        if s.radio.timerRunning then 1 else 0 := by
  -- the second waits for the timer while the first is sent
  have hfirst : Reached (State.init.after ([.receives 65, .receives 65] ++ goesOn 14)) :=
    Reached.after .refl _ (by decide +kernel)
  obtain ⟨on, hsent⟩ := hfirst.sent (by decide +kernel) (by decide +kernel) (by decide +kernel)
  -- it is started with the first to be acknowledged, and sent at the boundary
  have hsecond := hsent.after ([.interrupts] ++ goesOn 6) (by cases on <;> decide +kernel)
  obtain ⟨on', hsent'⟩ := hsecond.sent (by cases on <;> decide +kernel)
    (by cases on <;> decide +kernel) (by cases on <;> decide +kernel)
  refine ⟨_, hsent'.after (goesOn 3 ++ [.interrupts] ++ goesOn 4)
    (by cases on <;> cases on' <;> decide +kernel), ?_⟩
  cases on <;> cases on' <;> decide +kernel

end Firmware

end Realraum
