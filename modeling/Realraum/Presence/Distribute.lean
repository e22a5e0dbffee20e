import Realraum.Presence.Helpers.Tracker
import Realraum.Presence.Model.Listener
/-!
# Passing presence updates on to the clients

A line that is reported is sent to one client after the other, and the first
`send` that raises ends it: the clients behind that one get nothing, and the
exception goes out through `updateStatus` and the check of the tracker,
which has remembered the new presence by then. So the lines of a report
arrive, and the report returns, where no peer is gone or nothing is to be
said.
-/

namespace Realraum

namespace Presence

variable {l : ConnectionListener} {gone : Finset ℕ} {data : String} {socks : List ℕ}
variable {r r' : Report} {lines : List String}

/-! ## What a client gets -/

/-- The lines a socket was handed. -/
def Report.received (r : Report) (sock : ℕ) : List String :=
  (r.handed.filter fun h => h.1 = sock).map Prod.snd

/-- **The lines arrive**: every client whose peer is there was handed them,
each once and in order, and no exception was raised. -/
def Arrives (l : ConnectionListener) (gone : Finset ℕ) (lines : List String) (r : Report) : Prop :=
  (∀ sock ∈ l.clientSockets, sock ∉ gone → r.received sock = lines) ∧ r.returned = true

/-- No client's peer is gone. -/
def ConnectionListener.AllThere (l : ConnectionListener) (gone : Finset ℕ) : Prop :=
  ∀ sock ∈ l.clientSockets, sock ∉ gone

@[simp] theorem received_nothing (sock : ℕ) : Report.nothing.received sock = [] := rfl

theorem received_andThen (h : r.returned = true) (r' : Report) (sock : ℕ) :
    (r.andThen r').received sock = r.received sock ++ r'.received sock := by
  rw [Report.andThen, if_pos h, Report.received, List.filter_append, List.map_append]
  rfl

theorem returned_andThen :
    (r.andThen r').returned = true ↔ r.returned = true ∧ r'.returned = true := by
  rw [Report.andThen]
  split
  · rename_i h
    simp [h]
  · rename_i h
    simp [h]

theorem andThen_nothing (r : Report) : r.andThen .nothing = r := by
  rw [Report.andThen]
  split
  · rename_i h
    rw [Report.nothing, List.append_nil, ← h]
  · rfl

/-- An exception raised first is all that is seen of both. -/
theorem andThen_of_raised (h : r.returned = false) (r' : Report) : r.andThen r' = r := by
  rw [Report.andThen, if_neg (by simp [h])]

/-! ## One line -/

theorem sendToAll_returned :
    (sendToAll gone data socks).returned = true ↔ ∀ sock ∈ socks, sock ∉ gone := by
  induction socks with
  | nil => simp [sendToAll]
  | cons sock socks ih =>
      rw [sendToAll]
      split
      · rename_i h
        simp [h]
      · rename_i h
        simp [h, ih]

theorem sendToAll_handed (h : ∀ sock ∈ socks, sock ∉ gone) :
    (sendToAll gone data socks).handed = socks.map fun sock => (sock, data) := by
  induction socks with
  | nil => rfl
  | cons sock socks ih =>
      rw [sendToAll, if_neg (h sock (List.mem_cons_self ..)), List.map_cons]
      simp only
      rw [ih fun other hother => h other (List.mem_cons_of_mem _ hother)]

/-- **With every peer there each client gets the line once.** -/
theorem distributeData_received (h : l.AllThere gone) {sock : ℕ} (hsock : sock ∈ l.clientSockets) :
    (l.distributeData gone data).received sock = [data] := by
  have hhanded : (l.distributeData gone data).handed =
      l.clientSockets.map fun sock => (sock, data) := sendToAll_handed h
  have hone : l.clientSockets.filter (· = sock) = [sock] := by
    rw [List.filter_eq, List.count_eq_one_of_mem l.nodup hsock]
    rfl
  rw [Report.received, hhanded, List.filter_map, List.map_map]
  change (l.clientSockets.filter (· = sock)).map (fun _ => data) = [data]
  rw [hone]
  rfl

/-- One line is a report that may be followed by nothing. -/
theorem distributeData_returned :
    (l.distributeData gone data).returned = true ↔ l.AllThere gone := sendToAll_returned

/-! ## Several lines -/

/-- The lines one after the other, up to one that raises. -/
def ConnectionListener.passOn (l : ConnectionListener) (gone : Finset ℕ) : List String → Report
  | [] => .nothing
  | data :: lines => (l.distributeData gone data).andThen (l.passOn gone lines)

theorem passOn_returned :
    (l.passOn gone lines).returned = true ↔ lines = [] ∨ l.AllThere gone := by
  induction lines with
  | nil => simp [ConnectionListener.passOn, Report.nothing]
  | cons data lines ih =>
      rw [ConnectionListener.passOn, returned_andThen, distributeData_returned, ih]
      simpa using Or.inr

theorem andThen_assoc (r r' r'' : Report) :
    (r.andThen r').andThen r'' = r.andThen (r'.andThen r'') := by
  by_cases h : r.returned = true
  · by_cases h' : r'.returned = true <;> simp [Report.andThen, h, h']
  · simp [Report.andThen, h]

theorem passOn_append (lines more : List String) :
    l.passOn gone (lines ++ more) = (l.passOn gone lines).andThen (l.passOn gone more) := by
  induction lines with
  | nil => rfl
  | cons data lines ih =>
      rw [List.cons_append, ConnectionListener.passOn, ConnectionListener.passOn, ih,
        andThen_assoc]

/-- What a call of `updateStatus` for a warning has to say. -/
theorem updateStatus_warning (doorOpen : Bool) (who : Option String) (warning : Warning) :
    l.updateStatus gone none doorOpen who (some warning) =
      l.passOn gone ["Warning: " ++ warning.text ++ "\n"] := by
  change Report.nothing.andThen (l.distributeData gone _) = (l.distributeData gone _).andThen _
  rw [ConnectionListener.passOn, andThen_nothing]
  rfl

/-- **A report arrives where there is nothing to say or no peer is gone.** -/
theorem arrives_passOn :
    Arrives l gone lines (l.passOn gone lines) ↔ lines = [] ∨ l.AllThere gone := by
  constructor
  · rintro ⟨-, hreturned⟩
    exact passOn_returned.mp hreturned
  · intro h
    refine ⟨fun sock hsock hthere => ?_, passOn_returned.mpr h⟩
    rcases h with rfl | h
    · rfl
    · induction lines with
      | nil => rfl
      | cons data lines ih =>
          rw [ConnectionListener.passOn, received_andThen (distributeData_returned.mpr h),
            distributeData_received h hsock, ih]
          rfl

/-! ## The lines of a check -/

/-- The line for something that happened, where the handler was called. -/
def Happening.line {T : Type*} : Happening T → Option String
  | .presence somebodyPresent doorOpen who => some (statusString somebodyPresent doorOpen who)
  | .computed (some warning) true _ _ => some ("Warning: " ++ warning.text ++ "\n")
  | _ => none

/-- A computed warning is reported by the line of its entry in the history. -/
theorem notifyWarning_report {T : Type*} (l : ConnectionListener) (gone : Finset ℕ)
    (s : StatusTracker T) (warning : Option Warning) :
    ∃ entry, (s.notifyWarning warning).history = s.history ++ [entry] ∧
      (if warning.isSome && (s.notifyWarning warning).countSameWarning < 3 then
          l.updateStatus gone none (s.notifyWarning warning).doorUnlocked
            (s.notifyWarning warning).whoMightBeHere warning
        else Report.nothing) = l.passOn gone ([entry].filterMap Happening.line) := by
  refine ⟨_, rfl, ?_⟩
  cases warning with
  | none => rfl
  | some warning =>
      generalize hfew : decide ((s.notifyWarning (some warning)).countSameWarning < 3) = few
      change (if few then _ else _) = l.passOn gone
        ([Happening.computed (some warning)
          (decide ((s.notifyWarning (some warning)).countSameWarning < 3)) _ _].filterMap _)
      rw [hfew]
      cases few with
      | false => rfl
      | true =>
          exact updateStatus_warning (s.notifyWarning (some warning)).doorUnlocked
            (s.notifyWarning (some warning)).whoMightBeHere warning

section Check

variable {T : Type*} [Zero T] [Add T] [Sub T] [LE T] [LT T] [DecidableLE T] [DecidableLT T]

/-- The lines a check has for its clients, when its handler returns. -/
def checkLines (s : StatusTracker T) (e : Evaluation T) : List String :=
  ((s.checkPresenceStateChangeAndNotify e).1.history.drop s.history.length).filterMap
    Happening.line

omit [Sub T] in
theorem checkAgainIn_history (s : StatusTracker T) (sec : T) (look : Look T) :
    (s.checkAgainIn sec look).history = s.history := by
  rw [StatusTracker.checkAgainIn]
  split
  · rfl
  · split <;> rfl

/-- `somebodyPresent` has no line for anybody. -/
theorem somebodyPresent_history (s : StatusTracker T) (look : Look T) :
    ∃ more, (s.somebodyPresent look).2.history = s.history ++ more ∧
      more.filterMap Happening.line = [] := by
  rcases somebodyPresent_cases s look with hsame | ⟨hheld, secs, sec, hsecs, hsec⟩
  · exact ⟨[], by rw [hsame, List.append_nil], rfl⟩
  · refine ⟨[.heldOver (look.set + secs)], ?_, rfl⟩
    rw [hheld.somebodyPresent hsecs hsec, StatusTracker.log, checkAgainIn_history]

theorem getPossibleWarning_history (s : StatusTracker T) (look : Look T) :
    (s.getPossibleWarning look).2.history = s.history := by
  rcases getPossibleWarning_cases s look with hsame | ⟨sec, -, hagain⟩
  · rw [hsame]
  · rw [hagain, checkAgainIn_history]

/-- **A check passes its lines on**, one after the other. -/
theorem checkAndUpdate_report (s : StatusTracker T) (e : Evaluation T) :
    (s.checkAndUpdate l gone e).2 = l.passOn gone (checkLines s e) := by
  obtain ⟨held, hheld, hnoline⟩ := somebodyPresent_history s e.present
  unfold checkLines StatusTracker.checkAndUpdate StatusTracker.checkPresenceStateChangeAndNotify
  rcases hp : s.somebodyPresent e.present with ⟨_ | present, u⟩
  · rw [hp] at hheld
    simp only at hheld ⊢
    rw [hheld, List.drop_left, hnoline]
    rfl
  · rw [hp] at hheld
    simp only at hheld ⊢
    set lines : List String :=
      if present = u.lastSomebodyPresentResult then []
      else [statusString present u.doorUnlocked u.whoMightBeHere] with hlines
    have hreport : (if present = u.lastSomebodyPresentResult then Report.nothing
        else l.updateStatus gone (some present) u.doorUnlocked u.whoMightBeHere none) =
          l.passOn gone lines := by
      rw [hlines]
      split <;> rfl
    set v := if present = u.lastSomebodyPresentResult then u else u.notifyPresence present with hv
    obtain ⟨said, hsaid, hsaidLines⟩ : ∃ said, v.history = u.history ++ said ∧
        said.filterMap Happening.line = lines := by
      rw [hv, hlines]
      split
      · exact ⟨[], by simp, rfl⟩
      · exact ⟨_, rfl, rfl⟩
    have hwarn := getPossibleWarning_history v e.warning
    rw [hreport]
    rcases hg : v.getPossibleWarning e.warning with ⟨_ | warning, w⟩
    · rw [hg] at hwarn
      simp only at hwarn ⊢
      rw [hwarn, hsaid, hheld, List.append_assoc, List.drop_left, List.filterMap_append, hnoline,
        hsaidLines]
      split <;> rfl
    · rw [hg] at hwarn
      simp only at hwarn ⊢
      obtain ⟨entry, hentry, hcomputed⟩ := notifyWarning_report l gone w warning
      rw [hentry, hwarn, hsaid, hheld, List.append_assoc, List.append_assoc, List.drop_left,
        List.filterMap_append, hnoline, List.filterMap_append, hsaidLines, List.nil_append,
        passOn_append, hcomputed]
      split
      · rename_i hraised
        rw [andThen_of_raised (by simpa using hraised)]
      · rfl

/-! ## The result -/

/-- **Lines arrive where every peer is there.** A line that is distributed
reaches every client whose peer is there, once, and raises no exception, if
and only if no client's peer is gone; the same holds of the lines of a
check, unless it has none. -/
theorem lines_arrive_iff (l : ConnectionListener) (gone : Finset ℕ) :
    (∀ data, Arrives l gone [data] (l.distributeData gone data) ↔ l.AllThere gone) ∧
      ∀ (s : StatusTracker T) (e : Evaluation T),
        Arrives l gone (checkLines s e) (s.checkAndUpdate l gone e).2 ↔
          checkLines s e = [] ∨ l.AllThere gone := by
  constructor
  · intro data
    have hone : l.distributeData gone data = l.passOn gone [data] := (andThen_nothing _).symm
    rw [hone, arrives_passOn]
    simp
  · intro s e
    rw [checkAndUpdate_report]
    exact arrives_passOn

/-- **The new presence is remembered** whatever becomes of the report, so
that a line that was lost is not sent by a later check. -/
theorem checkAndUpdate_remembers {s : StatusTracker T} {e : Evaluation T} {present : Bool}
    (h : (s.somebodyPresent e.present).1 = some present) :
    (s.checkAndUpdate l gone e).1.lastSomebodyPresentResult = present := by
  unfold StatusTracker.checkAndUpdate
  rcases hp : s.somebodyPresent e.present with ⟨_ | present', u⟩
  · rw [hp] at h
    cases h
  · rw [hp] at h
    obtain rfl : present' = present := Option.some.inj h
    simp only
    generalize (if present' = u.lastSomebodyPresentResult then Report.nothing
      else l.updateStatus gone (some present') u.doorUnlocked u.whoMightBeHere none) = first
    split
    · rfl
    · set v := if present' = u.lastSomebodyPresentResult then u else u.notifyPresence present'
        with hv
      have hresult : v.lastSomebodyPresentResult = present' := by
        rw [hv]
        split
        · rename_i heq
          exact heq.symm
        · rfl
      have hwarn : (v.getPossibleWarning e.warning).2.lastSomebodyPresentResult = present' := by
        rcases getPossibleWarning_cases v e.warning with hsame | ⟨sec, -, hagain⟩
        · rw [hsame, hresult]
        · rw [hagain, StatusTracker.checkAgainIn]
          split
          · exact hresult
          · split <;> exact hresult
      rcases hg : v.getPossibleWarning e.warning with ⟨_ | warning, w⟩
      · rw [hg] at hwarn
        exact hwarn
      · rw [hg] at hwarn
        exact hwarn

end Check

/-- **The first client is gone, and the second gets nothing.** -/
theorem lines_arrive_fails :
    ¬ ∀ (l : ConnectionListener) (gone : Finset ℕ) (data : String),
      Arrives l gone [data] (l.distributeData gone data) := by
  intro hall
  obtain ⟨hhanded, -⟩ := hall ConnectionListener.init.accept.accept {0} "Presence: yes\n"
  exact absurd (hhanded 1 (by decide) (by decide)) (by decide)

end Presence

end Realraum
