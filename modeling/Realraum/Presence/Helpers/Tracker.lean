import Mathlib.Algebra.Order.Ring.Rat
import Realraum.Presence.Model.Tracker
/-!
# Helpers — what the calls of the tracker do

`somebodyPresent` leaves the tracker as it was, unless it holds the last
result over, and `getPossibleWarning` unless it asks to be called again. A
check is these two with the notifications between and behind them.
-/

namespace Realraum

namespace Presence

variable {T : Type*} {s t : StatusTracker T} {secs sec : T} {l : Look T} {e : Evaluation T}
/-- Timers, notifications and history stay as they are. -/
structure Quiet (s t : StatusTracker T) : Prop where
  result : t.lastSomebodyPresentResult = s.lastSomebodyPresentResult
  warning : t.lastWarning = s.lastWarning
  count : t.countSameWarning = s.countSameWarning
  timerTimeout : t.timerTimeout = s.timerTimeout
  timers : t.timers = s.timers
  history : t.history = s.history

/-- Reporting the door plays no part in these. -/
theorem Quiet.reportChange {u : StatusTracker T} (h : Quiet s u) (who how : Option String) :
    Quiet s (u.reportChange who how) := by
  rw [StatusTracker.reportChange]
  split
  · exact h
  · exact ⟨h.result, h.warning, h.count, h.timerTimeout, h.timers, h.history⟩

theorem doorUnlocked_quiet (who how : Option String) : Quiet s (doorUnlocked who how s) := by
  have hset : Quiet s { s with doorUnlocked := true, doorClosed := true } :=
    ⟨rfl, rfl, rfl, rfl, rfl, rfl⟩
  exact hset.reportChange who how

theorem doorLocked_quiet (who how : Option String) : Quiet s (doorLocked who how s) := by
  have hset : Quiet s { s with doorUnlocked := false } := ⟨rfl, rfl, rfl, rfl, rfl, rfl⟩
  exact hset.reportChange who how

/-- The look of a step at the presence, if it takes one. -/
def Act.looks : Act T → Option (Look T)
  | .doorChecks e => some e.present
  | .currentLightLevel _ _ e => some e.present
  | .timer _ e => some e.present
  | .connects l => some l
  | _ => none

variable [Sub T] [LE T] [DecidableLE T]

/-- **The last result is held over**: the door was closed with card or
phone within the wait. -/
def HeldOver (s : StatusTracker T) (l : Look T) : Prop :=
  s.doorUnlocked = false ∧ s.doorClosed = true ∧ s.recentlyByCardOrPhone l = some true

instance (s : StatusTracker T) (l : Look T) : Decidable (HeldOver s l) :=
  inferInstanceAs (Decidable (_ ∧ _ ∧ _))

variable [Add T] [Zero T] [LT T] [DecidableLT T]

theorem HeldOver.somebodyPresent (h : HeldOver s l) (hsecs : l.secs = some secs)
    (hsec : l.sec = some sec) :
    s.somebodyPresent l =
      (some s.lastSomebodyPresentResult,
        (s.checkAgainIn sec l).log (.heldOver (l.set + secs))) := by
  obtain ⟨hlocked, hclosed, hrecently⟩ := h
  rw [StatusTracker.somebodyPresent, hrecently, hsecs, hsec]
  simp [hlocked, hclosed]

/-- **Otherwise `somebodyPresent` only looks.** -/
theorem somebodyPresent_cases (s : StatusTracker T) (l : Look T) :
    (s.somebodyPresent l).2 = s ∨
      HeldOver s l ∧ ∃ secs sec, l.secs = some secs ∧ l.sec = some sec := by
  unfold StatusTracker.somebodyPresent
  split
  · refine .inl ?_
    split
    · rfl
    · split
      · rfl
      · split <;> rfl
  · rename_i hlocked
    split
    · exact .inl rfl
    · rename_i hclosed
      split
      · exact .inl rfl
      · rename_i hrecently
        split
        · rename_i secs sec hsecs hsec
          exact .inr ⟨⟨by simpa using hlocked, by simpa using hclosed, hrecently⟩, secs, sec, hsecs,
            hsec⟩
        · exact .inl rfl
      · exact .inl rfl

/-- **`getPossibleWarning` only looks**, or asks to be called again. -/
theorem getPossibleWarning_cases (s : StatusTracker T) (l : Look T) :
    (s.getPossibleWarning l).2 = s ∨
      ∃ sec, l.sec = some sec ∧ (s.getPossibleWarning l).2 = s.checkAgainIn sec l := by
  rw [StatusTracker.getPossibleWarning]
  split
  · exact .inl rfl
  · split
    · cases l.secs with
      | none => exact .inl rfl
      | some secs =>
          simp only
          split
          · exact .inl rfl
          · cases hsec : l.sec with
            | none => exact .inl rfl
            | some sec => exact .inr ⟨sec, rfl, rfl⟩
    · exact .inl rfl

/-- **What a check keeps**: `P` up to `getPossibleWarning`, and `Q` from
there on. -/
theorem check_keeps {P Q : StatusTracker T → Prop} (hpresent : P (s.somebodyPresent e.present).2)
    (hnotify : ∀ u present, P u → present ≠ u.lastSomebodyPresentResult →
      P (u.notifyPresence present))
    (hwarning : ∀ u, P u → Q (u.getPossibleWarning e.warning).2)
    (hcompute : ∀ u warning, Q u → Q (u.notifyWarning warning)) (hraise : ∀ u, P u → Q u) :
    Q (s.checkPresenceStateChangeAndNotify e).1 := by
  unfold StatusTracker.checkPresenceStateChangeAndNotify
  rcases hp : s.somebodyPresent e.present with ⟨_ | present, u⟩
  · rw [hp] at hpresent
    exact hraise u hpresent
  · rw [hp] at hpresent
    simp only
    have hv : P (if present = u.lastSomebodyPresentResult then u
        else u.notifyPresence present) := by
      split
      · exact hpresent
      · rename_i hne
        exact hnotify u present hpresent hne
    generalize (if present = u.lastSomebodyPresentResult then u else u.notifyPresence present) = v
      at hv
    have hw := hwarning v hv
    rcases hg : v.getPossibleWarning e.warning with ⟨_ | warning, w⟩
    · rw [hg] at hw
      exact hw
    · rw [hg] at hw
      exact hcompute w warning hw

/-! ## The steps -/

variable [DecidableEq T] {a : Act T}

/-- **What a step is**: quiet, or a check, by a thread or by a timer, or a
look for a client. -/
theorem trackerStep_cases (h : trackerStep a s = some t) :
    (a.looks = none ∧ Quiet s t) ∨
      (∃ e, a = .doorChecks e ∧ Quiet (s.checkPresenceStateChangeAndNotify e).1 t) ∨
      (∃ value now e, a = .currentLightLevel value now e ∧
        t = ((s.noteLight value now).checkPresenceStateChangeAndNotify e).1) ∨
      (∃ due e, a = .timer due e ∧ due ∈ s.timers ∧
        t = ((s.fire due).checkPresenceStateChangeAndNotify e).1) ∨
      ∃ l, a = .connects l ∧ t = (s.somebodyPresent l).2 := by
  have hquiet : ∀ {u : StatusTracker T}, some u = some t → Quiet s u → Quiet s t :=
    fun heq hu => Option.some.inj heq ▸ hu
  unfold trackerStep at h
  split at h
  · exact .inl ⟨rfl, hquiet h ⟨rfl, rfl, rfl, rfl, rfl, rfl⟩⟩
  · exact .inl ⟨rfl, hquiet h ⟨rfl, rfl, rfl, rfl, rfl, rfl⟩⟩
  · exact .inl ⟨rfl, hquiet h (doorUnlocked_quiet _ _)⟩
  · exact .inl ⟨rfl, hquiet h (doorLocked_quiet _ _)⟩
  · exact .inl ⟨rfl, hquiet h ⟨rfl, rfl, rfl, rfl, rfl, rfl⟩⟩
  · exact .inl ⟨rfl, hquiet h ⟨rfl, rfl, rfl, rfl, rfl, rfl⟩⟩
  · rename_i e _
    refine .inr (.inl ⟨e, rfl, ?_⟩)
    rw [← Option.some.inj h]
    exact ⟨rfl, rfl, rfl, rfl, rfl, rfl⟩
  · exact .inl ⟨rfl, hquiet h ⟨rfl, rfl, rfl, rfl, rfl, rfl⟩⟩
  · exact .inl ⟨rfl, hquiet h ⟨rfl, rfl, rfl, rfl, rfl, rfl⟩⟩
  · rename_i value now e
    exact .inr (.inr (.inl ⟨value, now, e, rfl, (Option.some.inj h).symm⟩))
  · rename_i due e
    split at h
    · rename_i hdue
      exact .inr (.inr (.inr (.inl ⟨due, e, rfl, hdue, (Option.some.inj h).symm⟩)))
    · cases h
  · rename_i l
    exact .inr (.inr (.inr (.inr ⟨l, rfl, (Option.some.inj h).symm⟩)))
  · cases h

/-! ## Replays -/

/-- An evaluation that takes no time, with the waits that `__init__` sets. -/
def Evaluation.usual (now : ℚ) : Evaluation ℚ where
  present := ⟨now, some (21 / 5), some (21 / 5), now, now, now⟩
  warning := ⟨now, some 60, some 60, now, now, now⟩

/-- A report of the door that finds a change. -/
def doorCall (report : Act ℚ) (now : ℚ) : List (Act ℚ) :=
  [report, .doorNames, .doorOperates now, .doorChecks (.usual now), .doorReturns]

end Presence

end Realraum
