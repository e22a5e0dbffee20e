import Mathlib.Data.List.Induction
import Realraum.Presence.Helpers.Tracker
import Realraum.Presence.Model.DoorThread
/-!
# What the tracker knows of the door

The two flags `door_closed` and `door_unlocked` are written by the door's
thread only: what a timer, a sensor or a client does in between leaves them
alone (`trackerStep_flags`). So what is left to call for the line at hand
takes them to what the lines handled say (`Tracks`). That is the lines'
word, except that `doorUnlocked` sets `door_closed` after `doorOpen` has
unset it.
-/

namespace Realraum

namespace Presence

variable {T : Type*} {s t : DoorThread T} {a : Act T} {m : Status}

/-- `door_closed` and `door_unlocked`. -/
def StatusTracker.flags (s : StatusTracker T) : Bool × Bool := (s.doorClosed, s.doorUnlocked)

/-- What an act makes of the flags. -/
def Act.report : Act T → Bool × Bool → Bool × Bool
  | .doorOpen, flags => (false, flags.2)
  | .doorClosed, flags => (true, flags.2)
  | .doorUnlocked _ _, _ => (true, true)
  | .doorLocked _ _, flags => (flags.1, false)
  | _, flags => flags

/-- What a status line makes of the flags. -/
def Status.report (m : Status) (flags : Bool × Bool) : Bool × Bool :=
  if m.currentOperation = "idle" ∧ m.status = "opened" then (true, true)
  else (m.ajarStatus ≠ "ajar",
    if m.currentOperation = "idle" ∧ m.status = "closed" then false else flags.2)

/-- The calls for a line do to the flags what the line does. -/
theorem foldl_calls (m : Status) (who how : Option String) (flags : Bool × Bool) :
    (m.calls who how : List (Act T)).foldl (fun flags a => a.report flags) flags =
      m.report flags := by
  -- the ajar word is reported first, so an opening behind it has the last word
  have hajar : (if m.ajarStatus = "ajar" then Act.doorOpen else Act.doorClosed : Act T).report
      flags = (decide (m.ajarStatus ≠ "ajar"), flags.2) := by
    split
    · rename_i h
      rw [Act.report, decide_eq_false (not_not.mpr h)]
    · rename_i h
      rw [Act.report, decide_eq_true h]
  rw [Status.calls, List.foldl_cons, hajar, Status.report]
  by_cases hidle : m.currentOperation = "idle"
  · rw [if_pos hidle]
    by_cases hopened : m.status = "opened"
    · rw [if_pos hopened, if_pos ⟨hidle, hopened⟩]
      rfl
    · have hnot : ¬ (m.currentOperation = "idle" ∧ m.status = "opened") := fun h => hopened h.2
      rw [if_neg hopened, if_neg hnot]
      by_cases hclosed : m.status = "closed"
      · rw [if_pos hclosed, if_pos ⟨hidle, hclosed⟩]
        rfl
      · have hnot : ¬ (m.currentOperation = "idle" ∧ m.status = "closed") := fun h => hclosed h.2
        rw [if_neg hclosed, if_neg hnot]
        rfl
  · have hnot : ∀ status, ¬ (m.currentOperation = "idle" ∧ m.status = status) :=
      fun _ h => hidle h.1
    rw [if_neg hidle, if_neg (hnot _), if_neg (hnot _)]
    rfl

/-! ## The steps -/

theorem reportChange_flags (u : StatusTracker T) (who how : Option String) :
    (u.reportChange who how).flags = u.flags := by
  rw [StatusTracker.reportChange]
  split
  · rfl
  · rfl

/-- An act that is no report leaves the flags as they are. -/
theorem report_of_not_isReport (h : a.isReport = false) (flags : Bool × Bool) :
    a.report flags = flags := by
  cases a with
  | doorOpen => cases h
  | doorClosed => cases h
  | doorUnlocked who how => cases h
  | doorLocked who how => cases h
  | _ => rfl

variable [Zero T] [Add T] [LE T] [LT T] [DecidableLE T] [DecidableLT T]

theorem checkAgainIn_flags (u : StatusTracker T) (sec : T) (l : Look T) :
    (u.checkAgainIn sec l).flags = u.flags := by
  rw [StatusTracker.checkAgainIn]
  split
  · rfl
  · split
    · rfl
    · rfl

variable [Sub T]

theorem somebodyPresent_flags (u : StatusTracker T) (l : Look T) :
    (u.somebodyPresent l).2.flags = u.flags := by
  rcases somebodyPresent_cases u l with hsame | ⟨hheld, secs, sec, hsecs, hsec⟩
  · rw [hsame]
  · rw [hheld.somebodyPresent hsecs hsec]
    exact checkAgainIn_flags u sec l

/-- A check leaves the flags alone. -/
theorem check_flags (u : StatusTracker T) (e : Evaluation T) :
    (u.checkPresenceStateChangeAndNotify e).1.flags = u.flags := by
  refine check_keeps (P := fun v => v.flags = u.flags) (Q := fun v => v.flags = u.flags)
    (somebodyPresent_flags u e.present) (fun v present hv _ => hv) (fun v hv => ?_)
    (fun v warning hv => hv) fun v hv => hv
  rcases getPossibleWarning_cases v e.warning with hsame | ⟨sec, -, hagain⟩
  · rwa [hsame]
  · rw [hagain, checkAgainIn_flags]
    exact hv

variable [DecidableEq T]

/-- **Only the door's reports touch the flags.** -/
theorem trackerStep_flags {u v : StatusTracker T} (h : trackerStep a u = some v) :
    v.flags = a.report u.flags := by
  unfold trackerStep at h
  split at h
  · rw [← Option.some.inj h]
    rfl
  · rw [← Option.some.inj h]
    rfl
  · rw [← Option.some.inj h]
    exact reportChange_flags _ _ _
  · rw [← Option.some.inj h]
    exact reportChange_flags _ _ _
  · rw [← Option.some.inj h]
    rfl
  · rw [← Option.some.inj h]
    rfl
  · rename_i e _
    rw [← Option.some.inj h]
    exact check_flags u e
  · rw [← Option.some.inj h]
    rfl
  · rw [← Option.some.inj h]
    rfl
  · rename_i value now e
    rw [← Option.some.inj h]
    exact check_flags (u.noteLight value now) e
  · rename_i due e
    split at h
    · rw [← Option.some.inj h]
      exact check_flags (u.fire due) e
    · cases h
  · rename_i l
    rw [← Option.some.inj h]
    exact somebodyPresent_flags u l
  · cases h

/-- **The calls that are left take the flags to what the lines handled
say.** -/
def Tracks (s : DoorThread T) : Prop :=
  s.calls.foldl (fun flags a => a.report flags) s.tracker.flags =
    s.handled.foldl (fun flags m => m.report flags) (true, false)

/-- Every step keeps them so. -/
theorem Tracks.step {i : DoorAct T} (hs : Tracks s) (ht : doorStep i s = some t) : Tracks t := by
  cases i with
  | line text =>
      rw [doorStep] at ht
      split at ht
      · rename_i hreading
        rw [Tracks, hreading.1] at hs
        -- a status line adds its calls and is handled; no other line does either
        rw [← Option.some.inj ht, DoorThread.handleLine]
        split
        · rw [Tracks, foldl_calls, List.foldl_append, ← hs]
          rfl
        · rw [← hreading.1] at hs
          split
          · exact hs
          · exact hs
      · cases ht
  | lost =>
      rw [doorStep] at ht
      split at ht
      · rw [← Option.some.inj ht]
        exact hs
      · cases ht
  | call =>
      rw [doorStep] at ht
      cases hcalls : s.calls with
      | nil => rw [hcalls] at ht; cases ht
      | cons call calls =>
          rw [hcalls] at ht
          obtain ⟨tracker, hstep, rfl⟩ := Option.map_eq_some_iff.mp ht
          rw [Tracks, hcalls, List.foldl_cons, ← trackerStep_flags hstep] at hs
          exact hs
  | other a =>
      rw [doorStep] at ht
      split at ht
      · cases ht
      · rename_i hreport
        obtain ⟨tracker, hstep, rfl⟩ := Option.map_eq_some_iff.mp ht
        rw [Tracks, trackerStep_flags hstep, report_of_not_isReport (by simpa using hreport)]
        exact hs

/-! ## Over runs -/

/-- A status line in lower case. -/
def Status.Lower (m : Status) : Prop :=
  (m.status = "closed" ∨ m.status = "opened") ∧
    m.currentOperation ∈ ["opening", "waiting", "closing", "idle"] ∧
    (m.ajarStatus = "ajar" ∨ m.ajarStatus = "shut")

instance (m : Status) : Decidable m.Lower := inferInstanceAs (Decidable (_ ∧ _))

/-- The status lines that are read are in lower case; any other line may
stand between them. -/
def LowerLines (_ : DoorThread T) (i : DoorAct T) : Prop :=
  match i with
  | .line text => ∀ m ∈ reStatus text, m.Lower
  | _ => True

/-- **Every run tracks its lines**, which are in lower case. -/
theorem tracks_of_run (h : Reach.Run doorStep LowerLines .init s) :
    Tracks s ∧ ∀ m ∈ s.handled, m.Lower := by
  refine h.invariant (I := fun s => Tracks s ∧ ∀ m ∈ s.handled, m.Lower) ⟨rfl, nofun⟩
    fun s i t _ ⟨htracks, hlower⟩ hi ht => ⟨htracks.step ht, ?_⟩
  cases i with
  | line text =>
      rw [doorStep] at ht
      split at ht
      · rw [← Option.some.inj ht, DoorThread.handleLine]
        split
        · rename_i m hm
          intro m' hm'
          rcases List.mem_append.mp hm' with hm' | hm'
          · exact hlower m' hm'
          · rw [List.mem_singleton.mp hm']
            exact hi m hm
        · split
          · exact hlower
          · exact hlower
      · cases ht
  | lost =>
      rw [doorStep] at ht
      split at ht
      · rw [← Option.some.inj ht]
        exact hlower
      · cases ht
  | call =>
      rw [doorStep] at ht
      split at ht
      · cases ht
      · obtain ⟨tracker, -, rfl⟩ := Option.map_eq_some_iff.mp ht
        exact hlower
  | other a =>
      rw [doorStep] at ht
      split at ht
      · cases ht
      · obtain ⟨tracker, -, rfl⟩ := Option.map_eq_some_iff.mp ht
        exact hlower

/-- The last status line whose operation was `idle`. -/
def lastIdle (handled : List Status) : Option Status :=
  (handled.filter fun m => m.currentOperation = "idle").getLast?

omit [Zero T] [Add T] [LE T] [LT T] [DecidableLE T] [DecidableLT T] [Sub T] [DecidableEq T] in
/-- The lock is as the last line behind an operation says. -/
theorem foldl_report_snd (handled : List Status) (hlower : ∀ m ∈ handled, m.Lower) :
    (handled.foldl (fun flags m => m.report flags) (true, false)).2 =
      (lastIdle handled).any fun m => m.status = "opened" := by
  induction handled using List.reverseRecOn with
  | nil => rfl
  | append_singleton handled m ih =>
      have hm := (hlower m (by simp)).1
      have hrest := ih fun m' hm' => hlower m' (List.mem_append_left _ hm')
      rw [List.foldl_append, List.foldl_cons, List.foldl_nil, lastIdle, List.filter_append,
        Status.report]
      by_cases hidle : m.currentOperation = "idle"
      · rw [List.filter_cons_of_pos (by simpa using hidle), List.filter_nil,
          List.getLast?_concat, Option.any_some]
        rcases hm with hclosed | hopened
        · simp [hidle, hclosed]
        · simp [hidle, hopened]
      · rw [List.filter_cons_of_neg (by simpa using hidle), List.filter_nil, List.append_nil,
          ← lastIdle, ← hrest]
        simp [hidle]

/-- The acts of a status line that reports a change of the lock. -/
def lineActs (line : String) (now : ℚ) : List (DoorAct ℚ) :=
  [.line line, .call, .call, .other .doorNames, .other (.doorOperates now),
    .other (.doorChecks (.usual now)), .other .doorReturns]

/-- A run of lines in lower case, replayed. -/
theorem run_of_lines (acts : List (DoorAct ℚ)) (p : DoorThread ℚ → Bool)
    (h : (Reach.replay doorStep (fun _ i => match i with
      | .line text => (reStatus text).all fun m => decide m.Lower
      | _ => true) acts .init).any p = true) :
    ∃ s : DoorThread ℚ, Reach.Run doorStep LowerLines .init s ∧ p s = true := by
  refine Reach.exists_of_replay (fun s i hi => ?_) acts .init p h
  cases i with
  | line text =>
      intro m hm
      rw [Option.mem_def] at hm
      dsimp only at hi
      rw [hm] at hi
      exact of_decide_eq_true hi
  | _ => trivial

end Presence

end Realraum
