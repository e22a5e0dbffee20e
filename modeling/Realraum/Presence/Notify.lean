import Realraum.Common.Throttle
import Realraum.Presence.Helpers.Tracker
/-!
# What the presence tracker passes on

In every run the presence values that `status_change_handler` is called
with take turns, beginning with somebody's presence, and a warning that
stays the same is passed on three times at most. What is remembered of the
notifications is tied to their history: the last result is the last value
passed on, and the counter bounds the stretch of the last warning.
-/

namespace Realraum

namespace Presence

variable {T : Type*} {s t : StatusTracker T}

/-! ## The history of the notifications -/

/-- The presence values passed on. -/
def presences (h : List (Happening T)) : List Bool :=
  h.filterMap fun
    | .presence somebodyPresent _ _ => some somebodyPresent
    | _ => none

/-- The warnings computed, and whether each was passed on. -/
def warnings (h : List (Happening T)) : List (Option Warning × Bool) :=
  h.filterMap fun
    | .computed warning passed _ _ => some (warning, passed)
    | _ => none

/-- The values take turns, and the first is true. -/
def Alternates (values : List Bool) : Prop :=
  values = (List.range values.length).map fun i => decide (i % 2 = 0)

instance (values : List Bool) : Decidable (Alternates values) :=
  inferInstanceAs (Decidable (values = _))

example : Alternates [true, false, true] ∧ ¬ Alternates [false, true] := by decide

/-- The last value, false before the first. -/
def lastValue (values : List Bool) : Bool := values.getLast?.getD false

theorem presences_append (h h' : List (Happening T)) :
    presences (h ++ h') = presences h ++ presences h' := List.filterMap_append

theorem warnings_append (h h' : List (Happening T)) :
    warnings (h ++ h') = warnings h ++ warnings h' := List.filterMap_append

/-- Where values take turns the last one is told by their number. -/
theorem Alternates.lastValue {values : List Bool} (h : Alternates values) :
    lastValue values = decide (values.length % 2 = 1) := by
  rw [Presence.lastValue, h]
  simp only [List.length_map, List.length_range]
  cases values.length with
  | zero => rfl
  | succ n =>
      rw [List.range_succ, List.map_append, List.map_singleton, List.getLast?_concat,
        Option.getD_some]
      exact decide_eq_decide.mpr (by omega)

/-- **Another value goes on taking turns.** -/
theorem Alternates.concat {values : List Bool} {value : Bool} (h : Alternates values)
    (hne : value ≠ Presence.lastValue values) : Alternates (values ++ [value]) := by
  have hvalue : value = decide (values.length % 2 = 0) := by
    rw [h.lastValue] at hne
    rcases Nat.mod_two_eq_zero_or_one values.length with hmod | hmod
    · simpa [hmod] using hne
    · simpa [hmod] using hne
  rw [Alternates, List.length_append, List.length_singleton, List.range_succ, List.map_append,
    List.map_singleton, ← hvalue, ← h]

/-! ## The invariant -/

/-- **What is remembered is what was passed on.** -/
structure Notified (s : StatusTracker T) : Prop where
  result : s.lastSomebodyPresentResult = lastValue (presences s.history)
  alternates : Alternates (presences s.history)
  account : Throttle.Account 3 s.lastWarning s.countSameWarning (warnings s.history)

/-- Nothing is passed on, and nothing about it forgotten. -/
structure SameNotices (s t : StatusTracker T) : Prop where
  result : t.lastSomebodyPresentResult = s.lastSomebodyPresentResult
  warning : t.lastWarning = s.lastWarning
  count : t.countSameWarning = s.countSameWarning
  presences : presences t.history = presences s.history
  warnings : warnings t.history = warnings s.history

theorem SameNotices.refl (s : StatusTracker T) : SameNotices s s := ⟨rfl, rfl, rfl, rfl, rfl⟩

theorem SameNotices.notified (h : SameNotices s t) (hs : Notified s) : Notified t where
  result := by rw [h.result, h.presences, hs.result]
  alternates := h.presences ▸ hs.alternates
  account := by rw [h.warning, h.count, h.warnings]; exact hs.account

/-- Something else happens. -/
theorem SameNotices.log {x : Happening T} (hp : Presence.presences [x] = [])
    (hw : Presence.warnings [x] = []) : SameNotices s (s.log x) :=
  ⟨rfl, rfl, rfl, by rw [StatusTracker.log, presences_append, hp, List.append_nil],
    by rw [StatusTracker.log, warnings_append, hw, List.append_nil]⟩

theorem Quiet.notified (h : Quiet s t) (hs : Notified s) : Notified t := by
  have hsame : SameNotices s t :=
    ⟨h.result, h.warning, h.count, by rw [h.history], by rw [h.history]⟩
  exact hsame.notified hs

theorem init_notified [Zero T] : Notified (.init : StatusTracker T) := ⟨rfl, rfl, .nil⟩

/-! ## What a check passes on -/

theorem notifyPresence_notified {present : Bool} (hs : Notified s)
    (hne : present ≠ s.lastSomebodyPresentResult) : Notified (s.notifyPresence present) := by
  have hpresences : presences (s.notifyPresence present).history =
      presences s.history ++ [present] := presences_append ..
  have hwarnings : warnings (s.notifyPresence present).history = warnings s.history :=
    (warnings_append ..).trans (List.append_nil _)
  refine ⟨?_, ?_, ?_⟩
  · rw [hpresences, lastValue, List.getLast?_concat]
    rfl
  · rw [hpresences]
    exact hs.alternates.concat (hs.result ▸ hne)
  · rw [hwarnings]
    exact hs.account

theorem notifyWarning_notified (hs : Notified s) (warning : Option Warning) :
    Notified (s.notifyWarning warning) := by
  have hpresences : presences (s.notifyWarning warning).history = presences s.history :=
    (presences_append ..).trans (List.append_nil _)
  have hcount : (s.notifyWarning warning).countSameWarning =
      Throttle.next s.lastWarning s.countSameWarning warning := rfl
  have hwarnings : warnings (s.notifyWarning warning).history = warnings s.history ++
      [(warning, warning.isSome && (s.notifyWarning warning).countSameWarning < 3)] :=
    warnings_append ..
  refine ⟨?_, ?_, ?_⟩
  · rw [hpresences]
    exact hs.result
  · rw [hpresences]
    exact hs.alternates
  · rw [hwarnings, hcount]
    refine hs.account.concat fun hpassed => ?_
    exact of_decide_eq_true (Bool.and_eq_true_iff.mp hpassed).2

variable [Zero T] [Add T] [LE T] [LT T] [DecidableLE T] [DecidableLT T]

theorem checkAgainIn_same (sec : T) (l : Look T) : SameNotices s (s.checkAgainIn sec l) := by
  unfold StatusTracker.checkAgainIn
  split
  · exact .refl s
  · split
    · exact ⟨rfl, rfl, rfl, rfl, rfl⟩
    · exact .refl s

variable [Sub T]

theorem somebodyPresent_notified (hs : Notified s) (l : Look T) :
    Notified (s.somebodyPresent l).2 := by
  rcases somebodyPresent_cases s l with hsame | ⟨hheld, secs, sec, hsecs, hsec⟩
  · rw [hsame]
    exact hs
  · have hlog : SameNotices (s.checkAgainIn sec l)
        ((s.checkAgainIn sec l).log (.heldOver (l.set + secs))) := .log rfl rfl
    rw [hheld.somebodyPresent hsecs hsec]
    exact hlog.notified ((checkAgainIn_same sec l).notified hs)

theorem getPossibleWarning_notified (hs : Notified s) (l : Look T) :
    Notified (s.getPossibleWarning l).2 := by
  rcases getPossibleWarning_cases s l with hsame | ⟨sec, -, hagain⟩
  · rw [hsame]
    exact hs
  · rw [hagain]
    exact (checkAgainIn_same sec l).notified hs

/-- **A check keeps the account of what was passed on.** -/
theorem check_notified (hs : Notified s) (e : Evaluation T) :
    Notified (s.checkPresenceStateChangeAndNotify e).1 :=
  check_keeps (somebodyPresent_notified hs e.present) (fun _ _ => notifyPresence_notified)
    (fun _ hu => getPossibleWarning_notified hu e.warning)
    (fun _ warning hu => notifyWarning_notified hu warning) fun _ hu => hu

/-! ## Over runs -/

variable [DecidableEq T] {A : StatusTracker T → Act T → Prop}

/-- **Every step keeps it.** -/
theorem trackerStep_notified {a : Act T} (hs : Notified s) (ht : trackerStep a s = some t) :
    Notified t := by
  obtain ⟨-, hquiet⟩ | ⟨e, -, hcheck⟩ | ⟨value, now, e, -, rfl⟩ | ⟨due, e, -, -, rfl⟩ |
    ⟨l, -, rfl⟩ := trackerStep_cases ht
  · exact hquiet.notified hs
  · exact hcheck.notified (check_notified hs e)
  · have hlight : Quiet s (s.noteLight value now) := ⟨rfl, rfl, rfl, rfl, rfl, rfl⟩
    exact check_notified (hlight.notified hs) e
  · have htimer : SameNotices s { s with timers := s.timers.erase due } :=
      ⟨rfl, rfl, rfl, rfl, rfl⟩
    have hfire : SameNotices { s with timers := s.timers.erase due } (s.fire due) := .log rfl rfl
    exact check_notified (hfire.notified (htimer.notified hs)) e
  · exact somebodyPresent_notified hs l

theorem Tracked.notified (h : Tracked A s) : Notified s :=
  h.invariant init_notified fun _ _ _ _ hs _ ht => trackerStep_notified hs ht

/-- **Presence is passed on in turns, and a warning three times at most.**
In every state that is reached, whatever happened and whatever the clock
said: the presence values passed on take turns beginning with true, the last
of them is the last result, and over any stretch of the warnings computed in
which the warning is the same it was passed on at most three times. -/
theorem notices_alternate (h : Tracked A s) :
    Alternates (presences s.history) ∧
      s.lastSomebodyPresentResult = lastValue (presences s.history) ∧
      ∀ stretch warning, stretch <:+: warnings s.history →
        (∀ x ∈ stretch, x.1 = some warning) → Throttle.passed stretch ≤ 3 :=
  ⟨h.notified.alternates, h.notified.result,
    fun stretch warning => h.notified.account.bounded stretch (some warning)⟩

/-- The door is opened by phone and four lights are reported: the warning
that nobody is there is passed on three times, and then somebody locks the
door from inside. -/
theorem notices_alternate_warned :
    ∃ s : StatusTracker ℚ, Tracked (fun _ _ => True) s ∧ presences s.history = [true] ∧
      warnings s.history = [(some .unlockedButNobody, true), (some .unlockedButNobody, true),
        (some .unlockedButNobody, true), (some .unlockedButNobody, false), (none, false)] ∧
      s.lastSomebodyPresentResult = true := by
  obtain ⟨s, hs, hp⟩ := Reach.exists_of_replay (A := fun _ _ => True) (fun _ _ _ => trivial)
    (doorCall (.doorUnlocked (some "xro") (some "Phone")) 1000 ++
      [.currentLightLevel 7 1001 (.usual 1001), .currentLightLevel 7 1002 (.usual 1002),
        .currentLightLevel 7 1003 (.usual 1003)] ++ doorCall (.doorLocked none none) 1004)
    (StatusTracker.init : StatusTracker ℚ)
    (fun s => presences s.history = [true] ∧
      warnings s.history = [(some .unlockedButNobody, true), (some .unlockedButNobody, true),
        (some .unlockedButNobody, true), (some .unlockedButNobody, false), (none, false)])
    (by decide +kernel : (Reach.replay trackerStep (fun _ _ => true) _ _).any _ = true)
  obtain ⟨hpresences, hwarnings⟩ := of_decide_eq_true hp
  obtain ⟨-, hresult, -⟩ := notices_alternate hs
  rw [hpresences] at hresult
  exact ⟨s, hs, hpresences, hwarnings, hresult⟩

end Presence

end Realraum
