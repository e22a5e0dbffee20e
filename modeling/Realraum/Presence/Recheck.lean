import Mathlib.Algebra.Order.Monoid.Defs
import Mathlib.Data.List.Chain
import Realraum.Presence.Notify
/-!
# Looking again at a result that was held over

`somebodyPresent` holds the last result over for a while when the door was
closed with card or phone, and asks `checkAgainIn` for another look when that
while is over. The one slot for a timer is shared with the warnings, which
wait much longer, and a slot that is taken is not given away. So the result
is looked at again in time where the slot is free, or taken for no longer
than the wait, and where the slot never looks taken without a timer that is
pending: a timer must not make its call before `timer_timeout` is over, and
the clock must not go back behind it.
-/

namespace Realraum

namespace Presence

variable {T : Type*}

/-! ## The property -/

variable [LinearOrder T] {c sec secs : T} {s t : StatusTracker T} {a : Act T} {l : Look T}

/-- **Every result that was held over is looked at again in time**: a timer
that is due by its deadline is pending, or has made its call since. -/
def Rechecked (timers : List T) (history : List (Happening T)) : Prop :=
  ∀ before deadline since, history = before ++ .heldOver deadline :: since →
    ∃ due ≤ deadline, due ∈ timers ∨ .fires due ∈ since

section Property

variable {timers timers' : List T} {history : List (Happening T)} {x : Happening T}

theorem Rechecked.nil : Rechecked timers ([] : List (Happening T)) := by
  intro before deadline since h
  exact absurd h (by simp)

theorem Rechecked.mono (h : Rechecked timers history) (hsub : timers ⊆ timers') :
    Rechecked timers' history := by
  intro before deadline since heq
  obtain ⟨due, hdue, hpending⟩ := h before deadline since heq
  exact ⟨due, hdue, hpending.imp_left fun hmem => hsub hmem⟩

/-- **Something happens**: a timer stays pending or makes its call, and a
result that is held over has a timer. -/
theorem Rechecked.concat (h : Rechecked timers history)
    (hpending : ∀ due ∈ timers, due ∈ timers' ∨ x = .fires due)
    (hheld : ∀ deadline, x = .heldOver deadline → ∃ due ≤ deadline, due ∈ timers') :
    Rechecked timers' (history ++ [x]) := by
  intro before deadline since heq
  rcases List.eq_nil_or_concat since with rfl | ⟨front, y, rfl⟩
  -- the one that is held over now
  · obtain ⟨-, hx⟩ := List.append_inj' heq rfl
    obtain ⟨due, hdue, hmem⟩ := hheld deadline (List.singleton_inj.mp hx)
    exact ⟨due, hdue, .inl hmem⟩
  -- one from before
  · rw [List.concat_eq_append, ← List.cons_append, ← List.append_assoc] at heq
    obtain ⟨hfront, hx⟩ := List.append_inj' heq rfl
    obtain rfl : x = y := List.singleton_inj.mp hx
    obtain ⟨due, hdue, hmem⟩ := h before deadline front hfront
    refine ⟨due, hdue, ?_⟩
    rw [List.concat_eq_append]
    rcases hmem with hmem | hmem
    · rcases hpending due hmem with hstill | rfl
      · exact .inl hstill
      · exact .inr (by simp)
    · exact .inr (List.mem_append_left _ hmem)

end Property

/-! ## The slot for a timer -/

/-- **The slot is covered**: no timer is due behind it, one is pending while
it is taken, and what was held over is looked at again. -/
structure Covered (c : T) (s : StatusTracker T) : Prop where
  due_le : ∀ due ∈ s.timers, due ≤ s.timerTimeout
  pending : c ≤ s.timerTimeout → s.timers ≠ []
  rechecked : Rechecked s.timers s.history

/-- The clock says something else, and the slot does not look taken when no
timer is pending. -/
theorem Covered.at {r : T} (h : Covered c s)
    (hr : c ≤ r ∨ s.timerTimeout < r ∨ s.timers ≠ []) : Covered r s := by
  refine ⟨h.due_le, fun hle => ?_, h.rechecked⟩
  rcases hr with hr | hr | hr
  · exact h.pending (hr.trans hle)
  · exact absurd hle (not_le.mpr hr)
  · exact hr

theorem Covered.later {r : T} (h : Covered c s) (hr : c ≤ r) : Covered r s := h.at (.inl hr)

theorem Quiet.covered (h : Quiet s t) (hs : Covered c s) : Covered c t where
  due_le := by rw [h.timers, h.timerTimeout]; exact hs.due_le
  pending := by rw [h.timers, h.timerTimeout]; exact hs.pending
  rechecked := by rw [h.timers, h.history]; exact hs.rechecked

/-- Something else happens. -/
theorem Covered.log {x : Happening T} (h : Covered c s)
    (hheld : ∀ deadline, x = .heldOver deadline → ∃ due ≤ deadline, due ∈ s.timers) :
    Covered c (s.log x) :=
  ⟨h.due_le, h.pending, h.rechecked.concat (fun _ hdue => .inl hdue) hheld⟩

theorem notifyPresence_covered (h : Covered c s) (present : Bool) :
    Covered c (s.notifyPresence present) :=
  ⟨h.due_le, h.pending, h.rechecked.concat (fun _ hdue => .inl hdue) nofun⟩

theorem notifyWarning_covered (h : Covered c s) (warning : Option Warning) :
    Covered c (s.notifyWarning warning) :=
  ⟨h.due_le, h.pending, h.rechecked.concat (fun _ hdue => .inl hdue) nofun⟩

/-- **A timer makes its call**, and the slot is free by then or another one
is pending. -/
theorem fire_covered {due checked : T} (h : Covered c s)
    (hlate : s.timerTimeout < checked ∨ s.timers.erase due ≠ []) :
    Covered checked (s.fire due) := by
  refine ⟨fun d hd => h.due_le d (List.mem_of_mem_erase hd), fun hle => ?_,
    h.rechecked.concat (fun d hd => ?_) nofun⟩
  · exact hlate.resolve_left (not_lt_of_ge hle)
  · by_cases heq : d = due
    · exact .inr (by rw [heq])
    · exact .inl ((List.mem_erase_of_ne heq).mpr hd)

/-! ## The clock over a run -/

/-- What the clock says to a look. -/
def Look.readings (l : Look T) : List T := [l.reading, l.checked, l.started, l.set]

/-- What the clock says to a step, one reading after the other. -/
def Act.readings : Act T → List T
  | .doorOperates now => [now]
  | .doorChecks e => e.present.readings ++ e.warning.readings
  | .movementDetected now => [now]
  | .currentLightLevel _ now e => now :: (e.present.readings ++ e.warning.readings)
  | .timer _ e => e.present.readings ++ e.warning.readings
  | .connects l => l.readings
  | _ => []

/-- The last reading, behind one that came before. -/
def Act.clock (c : T) (a : Act T) : T := a.readings.getLastD c

omit [LinearOrder T] in
/-- A step without a look reads the clock at most once. -/
theorem Act.clock_of_looks_eq_none (c : T) (a : Act T) (h : a.looks = none) :
    a.clock c = c ∨ a.readings.head? = some (a.clock c) := by
  cases a with
  | doorOperates now | movementDetected now => exact .inr rfl
  | doorOpen | doorClosed | doorUnlocked | doorLocked | doorNames | doorReturns => exact .inl rfl
  | doorChecks | currentLightLevel | timer | connects => cases h

/-- The timer that makes its call, and its look at the presence. -/
def Act.fired : Act T → Option (T × Look T)
  | .timer due e => some (due, e.present)
  | _ => none

/-- The clock goes on from a reading through both looks of a check. -/
structure Evaluation.Onward (c : T) (e : Evaluation T) : Prop where
  present : c ≤ e.present.checked
  presentStarted : e.present.checked ≤ e.present.started
  presentSet : e.present.started ≤ e.present.set
  warning : e.present.set ≤ e.warning.checked
  warningStarted : e.warning.checked ≤ e.warning.started
  warningSet : e.warning.started ≤ e.warning.set

theorem onward_of_readings {e : Evaluation T}
    (h : (e.present.readings ++ e.warning.readings).IsChain (· ≤ ·)) :
    e.Onward e.present.reading := by
  simp only [Look.readings, List.cons_append, List.nil_append, List.isChain_cons_cons] at h
  obtain ⟨h₁, h₂, h₃, h₄, h₅, h₆, h₇, -⟩ := h
  exact ⟨h₁, h₂, h₃, h₄.trans h₅, h₆, h₇⟩

variable [AddCommGroup T]

/-- A step with the last reading of the clock beside the tracker. -/
def clockedStep (a : Act T) (s : T × StatusTracker T) : Option (T × StatusTracker T) :=
  (trackerStep a s.2).map fun t => (a.clock s.1, t)

/-! ## The condition -/

/-- The clock does not go back within the step, nor before it to where the
slot looks taken with no timer pending. -/
def Act.Onward (c : T) (s : StatusTracker T) (a : Act T) : Prop :=
  a.readings.IsChain (· ≤ ·) ∧
    ∀ r ∈ a.readings.head?, c ≤ r ∨ s.timerTimeout < r ∨ s.timers ≠ []

/-- A timer that makes its call finds the slot free when it asks for
another look, or leaves another one pending. -/
def Act.Late (s : StatusTracker T) (a : Act T) : Prop :=
  ∀ d ∈ a.fired, s.timerTimeout < d.2.checked ∨ s.timers.erase d.1 ≠ []

/-- **The slot serves the wait**: where it is free, the wait is positive and
was not made longer while it was read; where it is taken, this is for no
longer than the wait. -/
def SlotServes (s : StatusTracker T) (l : Look T) : Prop :=
  HeldOver s l → ∀ secs ∈ l.secs, ∀ sec ∈ l.sec,
    (s.timerTimeout < l.checked → 0 < sec ∧ sec ≤ secs) ∧
      (l.checked ≤ s.timerTimeout → s.timerTimeout ≤ l.set + secs)

/-- **The steps that are in time.** -/
def InTime (s : T × StatusTracker T) (a : Act T) : Prop :=
  a.Onward s.1 s.2 ∧ a.Late s.2 ∧ ∀ l ∈ a.looks, SlotServes s.2 l

instance (c : T) (s : StatusTracker T) (a : Act T) : Decidable (a.Onward c s) :=
  inferInstanceAs (Decidable (_ ∧ ∀ r ∈ a.readings.head?, _))

instance (s : StatusTracker T) (a : Act T) : Decidable (a.Late s) :=
  inferInstanceAs (Decidable (∀ d ∈ a.fired, _))

instance (s : StatusTracker T) (l : Look T) : Decidable (SlotServes s l) :=
  inferInstanceAs (Decidable (HeldOver s l → ∀ secs ∈ l.secs, ∀ sec ∈ l.sec, _))

instance (s : T × StatusTracker T) (a : Act T) : Decidable (InTime s a) :=
  inferInstanceAs (Decidable (_ ∧ _ ∧ ∀ l ∈ a.looks, _))

theorem SlotServes.of_sameDoor {u : StatusTracker T} (h : SlotServes s l)
    (hheld : HeldOver u l → HeldOver s l) (htimeout : u.timerTimeout = s.timerTimeout) :
    SlotServes u l := by
  intro hu
  rw [htimeout]
  exact h (hheld hu)

/-! ## The steps -/

theorem checkAgainIn_timers (s : StatusTracker T) (sec : T) (l : Look T) :
    s.timers ⊆ (s.checkAgainIn sec l).timers := by
  unfold StatusTracker.checkAgainIn
  split
  · exact List.Subset.refl _
  · split
    · exact List.subset_append_left ..
    · exact List.Subset.refl _

variable [IsOrderedAddMonoid T]

/-- **Asking for another look keeps the slot covered.** -/
theorem checkAgainIn_covered (h : Covered c s) (hc : c ≤ l.checked)
    (hstarted : l.checked ≤ l.started) (hset : l.started ≤ l.set) :
    Covered l.set (s.checkAgainIn sec l) := by
  have hlast : c ≤ l.set := hc.trans (hstarted.trans hset)
  unfold StatusTracker.checkAgainIn
  split
  · exact h.later hlast
  · rename_i hsec
    split
    · rename_i hfree
      refine ⟨fun due hdue => ?_, fun _ => by simp, h.rechecked.mono (List.subset_append_left ..)⟩
      rcases List.mem_append.mp hdue with hdue | hdue
      -- an older one is due before the slot was free
      · have hpos : 0 ≤ sec := le_of_lt (not_le.mp hsec)
        calc due ≤ s.timerTimeout := h.due_le due hdue
          _ ≤ l.checked := le_of_lt hfree
          _ ≤ l.set := hstarted.trans hset
          _ ≤ l.set + sec := le_add_of_nonneg_right hpos
      · rw [List.mem_singleton.mp hdue]
        exact add_le_add_left hset sec
    · exact h.later hlast

/-- **A slot that serves the wait gives the timer**: the new one, or the one
the slot is taken by. -/
theorem exists_due_of_serves (h : Covered c s) (hc : c ≤ l.checked) (hset : l.started ≤ l.set)
    (hfree : s.timerTimeout < l.checked → 0 < sec ∧ sec ≤ secs)
    (htaken : l.checked ≤ s.timerTimeout → s.timerTimeout ≤ l.set + secs) :
    ∃ due ≤ l.set + secs, due ∈ (s.checkAgainIn sec l).timers := by
  by_cases hslot : s.timerTimeout < l.checked
  · obtain ⟨hpos, hle⟩ := hfree hslot
    refine ⟨l.started + sec, add_le_add hset hle, ?_⟩
    rw [StatusTracker.checkAgainIn, if_neg (not_le.mpr hpos), if_pos hslot]
    simp
  · have hle : l.checked ≤ s.timerTimeout := not_lt.mp hslot
    obtain ⟨due, hdue⟩ := List.exists_mem_of_ne_nil _ (h.pending (hc.trans hle))
    exact ⟨due, (h.due_le due hdue).trans (htaken hle), checkAgainIn_timers s sec l hdue⟩

theorem somebodyPresent_covered (h : Covered c s) (hc : c ≤ l.checked)
    (hstarted : l.checked ≤ l.started) (hset : l.started ≤ l.set) (hserves : SlotServes s l) :
    Covered l.set (s.somebodyPresent l).2 := by
  have hlast : c ≤ l.set := hc.trans (hstarted.trans hset)
  rcases somebodyPresent_cases s l with hsame | ⟨hheld, secs, sec, hsecs, hsec⟩
  · rw [hsame]
    exact h.later hlast
  · obtain ⟨hfree, htaken⟩ := hserves hheld secs hsecs sec hsec
    have hdue := exists_due_of_serves h hc hset hfree htaken
    rw [hheld.somebodyPresent hsecs hsec]
    refine (checkAgainIn_covered h hc hstarted hset).log fun deadline hdeadline => ?_
    obtain rfl : l.set + secs = deadline := Happening.heldOver.inj hdeadline
    exact hdue

theorem getPossibleWarning_covered (h : Covered c s) (hc : c ≤ l.checked)
    (hstarted : l.checked ≤ l.started) (hset : l.started ≤ l.set) :
    Covered l.set (s.getPossibleWarning l).2 := by
  rcases getPossibleWarning_cases s l with hsame | ⟨sec, -, hagain⟩
  · rw [hsame]
    exact h.later (hc.trans (hstarted.trans hset))
  · rw [hagain]
    exact checkAgainIn_covered h hc hstarted hset

/-- **A check keeps the slot covered.** -/
theorem check_covered {e : Evaluation T} (h : Covered c s) (he : e.Onward c)
    (hserves : SlotServes s e.present) :
    Covered e.warning.set (s.checkPresenceStateChangeAndNotify e).1 := by
  have hlast : e.present.set ≤ e.warning.set :=
    he.warning.trans (he.warningStarted.trans he.warningSet)
  exact check_keeps (P := Covered e.present.set) (Q := Covered e.warning.set)
    (somebodyPresent_covered h he.present he.presentStarted he.presentSet hserves)
    (fun _ present hu _ => notifyPresence_covered hu present)
    (fun _ hu => getPossibleWarning_covered hu he.warning he.warningStarted he.warningSet)
    (fun _ warning hu => notifyWarning_covered hu warning) fun _ hu => hu.later hlast

/-- **Every step that is in time keeps the slot covered.** -/
theorem trackerStep_covered (h : Covered c s) (ha : InTime (c, s) a)
    (ht : trackerStep a s = some t) : Covered (a.clock c) t := by
  obtain ⟨⟨honward, hback⟩, hlate, hserves⟩ := ha
  obtain ⟨hlooks, hquiet⟩ | ⟨e, rfl, hcheck⟩ | ⟨value, now, e, rfl, rfl⟩ | ⟨due, e, rfl, -, rfl⟩ |
    ⟨l, rfl, rfl⟩ := trackerStep_cases ht
  · refine hquiet.covered ?_
    rcases a.clock_of_looks_eq_none c hlooks with hclock | hclock
    · rw [hclock]
      exact h
    · exact h.at (hback _ hclock)
  · have he := onward_of_readings honward
    exact hcheck.covered (check_covered (h.at (hback _ rfl)) he (hserves _ rfl))
  · have hlight : Quiet s (s.noteLight value now) := ⟨rfl, rfl, rfl, rfl, rfl, rfl⟩
    have hchain : (now :: e.present.reading :: _).IsChain (· ≤ ·) := honward
    rw [List.isChain_cons_cons] at hchain
    exact check_covered (hlight.covered ((h.at (hback _ rfl)).later hchain.1))
      (onward_of_readings hchain.2) ((hserves _ rfl).of_sameDoor id rfl)
  · have he := onward_of_readings honward
    exact check_covered (fire_covered h (hlate _ rfl)) { he with present := le_rfl }
      ((hserves _ rfl).of_sameDoor id rfl)
  · have hchain : l.readings.IsChain (· ≤ ·) := honward
    simp only [Look.readings, List.isChain_cons_cons] at hchain
    obtain ⟨hchecked, hstarted, hset, -⟩ := hchain
    exact somebodyPresent_covered (h.at (hback _ rfl)) hchecked hstarted hset (hserves _ rfl)

/-! ## Over runs -/

/-- **A result that was held over is looked at again in time.** In every
state that is reached by steps that are in time, from a clock past the
epoch: whenever the last result was held over, a timer is pending that is
due no later than the wait behind that evaluation, or it has made its call
since. -/
theorem rechecked_in_time {c₀ : T} (h₀ : 0 < c₀)
    (h : Reach.Run clockedStep InTime (c₀, .init) (c, s)) : Rechecked s.timers s.history := by
  have hcovered : Covered c s := by
    refine h.invariant (I := fun u => Covered u.1 u.2) ?_ fun u i v _ hu hi hv => ?_
    · exact ⟨nofun, fun hle => absurd hle (not_le.mpr h₀), .nil⟩
    · obtain ⟨t, ht, rfl⟩ := Option.map_eq_some_iff.mp hv
      exact trackerStep_covered hu hi ht
  exact hcovered.rechecked

/-- A replay with a clock shows a reached state. -/
theorem clocked_of_replay (A : ℚ × StatusTracker ℚ → Act ℚ → Prop) [∀ u a, Decidable (A u a)]
    (acts : List (Act ℚ)) (c₀ : ℚ) (p : ℚ × StatusTracker ℚ → Bool)
    (h : (Reach.replay clockedStep (fun u a => decide (A u a)) acts (c₀, .init)).any p = true) :
    ∃ c s, Reach.Run clockedStep A (c₀, .init) (c, s) ∧ p (c, s) = true := by
  obtain ⟨⟨c, s⟩, hs, hp⟩ := Reach.exists_of_replay (fun _ _ => of_decide_eq_true) acts _ p h
  exact ⟨c, s, hs, hp⟩

/-- The door is locked by card, and the timer makes its call. -/
theorem rechecked_in_time_card :
    ∃ (c : ℚ) (s : StatusTracker ℚ), Reach.Run clockedStep InTime (1000, .init) (c, s) ∧
      .heldOver (1020 + 21 / 5) ∈ s.history ∧ presences s.history = [true, false] ∧
      Rechecked s.timers s.history := by
  obtain ⟨c, s, hs, hp⟩ := clocked_of_replay InTime
    (doorCall (.doorLocked none none) 1000 ++
      doorCall (.doorUnlocked (some "xro") (some "Card")) 1010 ++
      doorCall (.doorLocked (some "xro") (some "Card")) 1020 ++
      [.timer (1020 + 21 / 5) (.usual 1025)]) 1000
    (fun u => .heldOver (1020 + 21 / 5) ∈ u.2.history ∧ presences u.2.history = [true, false])
    (by decide +kernel)
  obtain ⟨hheld, hpresences⟩ := of_decide_eq_true hp
  exact ⟨c, s, hs, hheld, hpresences, rechecked_in_time (by decide +kernel) hs⟩

/-- **The slot may be taken for longer**, by the clock and the timers as
they should be: the door is opened by phone, which is warned of in a minute,
somebody moves and a light is reported, and then the door is locked by
phone. The presence is held over, and nobody looks again for fifty
seconds. -/
theorem rechecked_in_time_fails :
    ¬ ∀ (c : ℚ) (s : StatusTracker ℚ),
      Reach.Run clockedStep (fun u a => a.Onward u.1 u.2 ∧ a.Late u.2) (1000, .init) (c, s) →
      Rechecked s.timers s.history := by
  intro hall
  obtain ⟨c, s, hs, hp⟩ := clocked_of_replay (fun u a => a.Onward u.1 u.2 ∧ a.Late u.2)
    (doorCall (.doorLocked none none) 1000 ++
      doorCall (.doorUnlocked (some "xro") (some "Phone")) 1010 ++
      [.movementDetected 1015, .currentLightLevel 7 1016 (.usual 1016)] ++
      doorCall (.doorLocked (some "xro") (some "Phone")) 1020) 1000
    (fun u => u.2.timers = [1070] ∧ u.2.history.drop 6 =
      [.heldOver (1020 + 21 / 5), .computed none false false (some "xro")])
    (by decide +kernel)
  obtain ⟨htimers, hhistory⟩ := of_decide_eq_true hp
  obtain ⟨due, hdue, hpending⟩ := hall c s hs (s.history.take 6) _ _
    (by rw [← hhistory, List.take_append_drop])
  rw [show s.timers = [1070] from htimers] at hpending
  obtain rfl : due = 1070 := by simpa using hpending
  revert hdue
  decide +kernel

end Presence

end Realraum
