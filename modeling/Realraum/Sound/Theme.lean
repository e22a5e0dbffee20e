import Mathlib.Algebra.Ring.Int.Defs
import Mathlib.Data.Int.Notation
import Realraum.Sound.Model.MainLoop
/-!
# The theme is played once per presence

The presence message looks back for a movement, and every movement looks
back for the presence message; the first clears the time of the movement
only. So a movement before and one after play the theme twice. What the
loop does between two presence messages is given exactly.
-/

namespace Realraum

namespace Sound

variable {T : Type*} {a m p : Arrival T} {s : State T} {rest : List (Arrival T)}

/-- The theme of the last user. -/
def Theme.ofUser : Theme → Bool
  | of _ => true
  | _ => false

/-- A `PresenceUpdate` with `Present` true. -/
def Arrival.arrives (a : Arrival T) : Bool := a.message = .presenceUpdate (some true)

/-- `MovementSensorUpdate` or `DoorAjarUpdate`. -/
def Arrival.moves (a : Arrival T) : Bool :=
  a.message = .movementSensorUpdate ∨ a.message = .doorAjarUpdate

/-- Nobody is present any more, or the message raises an exception, played
themes of the last user apart. -/
def Arrival.leaves (a : Arrival T) : Bool :=
  match a.message with
  | .presenceUpdate (some present) => !present || a.secs.isNone
  | .doorCommandEvent none => true
  | .movementSensorUpdate | .doorAjarUpdate => a.secs.isNone
  | .boreDoomButtonPressEvent | .doorProblemEvent true => a.raises
  | _ => false

/-- The movements the loop sees while somebody is present. -/
def movements (rest : List (Arrival T)) : List (Arrival T) :=
  (rest.takeWhile fun a => !a.leaves).filter Arrival.moves

theorem movements_cons_of_leaves (ha : a.leaves = true) : movements (a :: rest) = [] := by
  rw [movements, List.takeWhile_cons_of_neg (by simp [ha])]
  rfl

theorem movements_cons (ha : a.leaves = false) :
    movements (a :: rest) = if a.moves then a :: movements rest else movements rest := by
  rw [movements, List.takeWhile_cons_of_pos (by simp [ha]), List.filter_cons]
  rfl

theorem secs_of_moves (ha : a.leaves = false) (hm : a.moves = true) : a.secs ≠ none := by
  intro hsecs
  have hmessage : a.message = .movementSensorUpdate ∨ a.message = .doorAjarUpdate := by
    simpa [Arrival.moves] using hm
  rcases hmessage with heq | heq <;> simp [Arrival.leaves, heq, hsecs] at ha

section Loop

variable [Zero T] [Sub T] [LE T] [DecidableLE T]

/-- How often the theme of the last user is played. -/
def launches (ms : List (Arrival T)) (s : State T) : ℕ := (played ms s).countP Theme.ofUser

/-- The message comes at most its seconds behind this time. -/
def Arrival.shortlyAfter (a : Arrival T) (t : T) : Bool :=
  match a.secs with
  | none => false
  | some secs => a.reading - t ≤ secs

/-- How often movements behind a presence message play the theme, with this
time as the last presence. -/
def spree (t : T) : List (Arrival T) → ℕ
  | [] => 0
  | m :: ms =>
    if m.shortlyAfter t then if m.raises then 1 else spree 0 ms + 1 else spree t ms

/-- **The condition on a presence message and what follows it**, up to the
next. Where a movement came shortly before it, none comes shortly after.
Where none did, the first that comes shortly after it has no movement
behind it that would be shortly after the clock's zero. -/
def Calm (s : State T) (p : Arrival T) (rest : List (Arrival T)) : Prop :=
  if p.shortlyAfter s.unixtsLastMovement then
    p.raises = true ∨ ∀ m ∈ movements rest, m.shortlyAfter p.stamp = false
  else
    p.secs = none ∨
      match (movements rest).dropWhile fun m => !m.shortlyAfter p.stamp with
      | [] => True
      | m :: later => m.raises = true ∨ ∀ m' ∈ later, m'.shortlyAfter 0 = false

theorem launches_cons (a : Arrival T) (ms : List (Arrival T)) (s : State T) :
    launches (a :: ms) s = (handle a s).1.countP Theme.ofUser + launches ms (after a s) := by
  rw [launches, played, List.countP_append]
  rfl

/-! ## One message -/

theorem after_of_handle {t : State T} (h : (handle a s).2 = some t) : after a s = t := by
  rw [after, h]
  rfl

theorem after_of_raise (h : (handle a s).2 = none) : after a s = .init := by
  rw [after, h]
  rfl

theorem handle_moves (hm : m.moves = true) (s : State T) :
    handle m s =
      if m.shortlyAfter s.unixtsLastPresence then
        playIfPresent m { s with unixtsLastMovement := m.stamp, unixtsLastPresence := 0 }
      else ([], if m.secs = none then none else some { s with unixtsLastMovement := m.stamp }) := by
  have hmessage : m.message = .movementSensorUpdate ∨ m.message = .doorAjarUpdate := by
    simpa [Arrival.moves] using hm
  unfold handle Arrival.shortlyAfter
  rcases hmessage with heq | heq <;> rw [heq] <;> simp only <;>
    cases m.secs with
    | none => rfl
    | some secs => simp

/-- Who is present leaves, or the loop starts anew. -/
theorem handle_leaves (ha : a.leaves = true) (hno : a.arrives = false) (s : State T) :
    (handle a s).1.countP Theme.ofUser = 0 ∧ (after a s).lastStatus ≠ some true := by
  obtain ⟨message, stamp, reading, secs, raises⟩ := a
  unfold after handle
  cases message with
  | presenceUpdate present =>
      match present with
      | none => cases ha
      | some true => cases hno
      | some false =>
          cases secs with
          | none => exact ⟨rfl, nofun⟩
          | some secs =>
              simp only
              split <;> exact ⟨rfl, nofun⟩
  | doorCommandEvent who =>
      cases who with
      | none => exact ⟨rfl, nofun⟩
      | some who => cases ha
  | boreDoomButtonPressEvent =>
      cases (show raises = true from ha)
      exact ⟨rfl, nofun⟩
  | movementSensorUpdate | doorAjarUpdate =>
      cases secs with
      | none => exact ⟨rfl, nofun⟩
      | some secs => cases ha
  | doorProblemEvent severity =>
      cases severity with
      | false => cases ha
      | true =>
          cases (show raises = true from ha)
          exact ⟨rfl, nofun⟩
  | other => cases ha

/-- Any other message plays no theme of the last user, and leaves the
presence alone. -/
theorem handle_other (ha : a.leaves = false) (hm : a.moves = false) (hno : a.arrives = false)
    (s : State T) :
    (handle a s).1.countP Theme.ofUser = 0 ∧ (after a s).lastStatus = s.lastStatus ∧
      (after a s).unixtsLastPresence = s.unixtsLastPresence := by
  obtain ⟨message, stamp, reading, secs, raises⟩ := a
  unfold after handle
  cases message with
  | presenceUpdate present =>
      match present with
      | none => exact ⟨rfl, rfl, rfl⟩
      | some true => cases hno
      | some false => cases ha
  | doorCommandEvent who =>
      cases who with
      | none => cases ha
      | some who => exact ⟨rfl, rfl, rfl⟩
  | boreDoomButtonPressEvent =>
      cases (show raises = false from ha)
      exact ⟨rfl, rfl, rfl⟩
  | movementSensorUpdate | doorAjarUpdate => cases hm
  | doorProblemEvent severity =>
      cases severity with
      | false => exact ⟨rfl, rfl, rfl⟩
      | true =>
          cases (show raises = false from ha)
          exact ⟨rfl, rfl, rfl⟩
  | other => exact ⟨rfl, rfl, rfl⟩

/-! ## A sequence of messages -/

/-- While nobody is present no message plays the theme. -/
theorem handle_absent (hs : s.lastStatus ≠ some true) (hno : a.arrives = false) :
    (handle a s).1.countP Theme.ofUser = 0 ∧ (after a s).lastStatus ≠ some true := by
  cases hleaves : a.leaves with
  | true => exact handle_leaves hleaves hno s
  | false =>
      cases hmoves : a.moves with
      | true =>
          rw [after, handle_moves hmoves]
          split
          · rw [playIfPresent, if_neg hs]
            exact ⟨rfl, hs⟩
          · refine ⟨rfl, ?_⟩
            split
            · exact nofun
            · exact hs
      | false =>
          obtain ⟨hcount, hstatus, -⟩ := handle_other hleaves hmoves hno s
          exact ⟨hcount, by rw [hstatus]; exact hs⟩

theorem launches_absent (hs : s.lastStatus ≠ some true)
    (hno : ∀ a ∈ rest, a.arrives = false) : launches rest s = 0 := by
  induction rest generalizing s with
  | nil => rfl
  | cons a rest ih =>
      obtain ⟨hcount, hstatus⟩ := handle_absent hs (hno a (List.mem_cons_self ..))
      rw [launches_cons, hcount, ih hstatus fun b hb => hno b (List.mem_cons_of_mem _ hb)]

/-- **While somebody is present the movements play the theme**, until the
presence is used or over. -/
theorem launches_present (hs : s.lastStatus = some true)
    (hno : ∀ a ∈ rest, a.arrives = false) :
    launches rest s = spree s.unixtsLastPresence (movements rest) := by
  induction rest generalizing s with
  | nil => rfl
  | cons a rest ih =>
      have hhead : a.arrives = false := hno a (List.mem_cons_self ..)
      have htail : ∀ b ∈ rest, b.arrives = false := fun b hb => hno b (List.mem_cons_of_mem _ hb)
      rw [launches_cons]
      cases hleaves : a.leaves with
      | true =>
          obtain ⟨hcount, hstatus⟩ := handle_leaves hleaves hhead s
          rw [hcount, launches_absent hstatus htail, movements_cons_of_leaves hleaves]
          rfl
      | false =>
          rw [movements_cons hleaves]
          cases hmoves : a.moves with
          | true =>
              have hhandle := handle_moves hmoves s
              rw [if_pos rfl, spree]
              split
              · rename_i hshort
                rw [if_pos hshort, playIfPresent, if_pos hs, playThemeOf] at hhandle
                split
                · rename_i hraises
                  rw [if_pos hraises] at hhandle
                  rw [after_of_raise (by rw [hhandle]), hhandle,
                    launches_absent (s := .init) nofun htail]
                  rfl
                · rename_i hraises
                  rw [if_neg hraises] at hhandle
                  rw [after_of_handle (by rw [hhandle]), hhandle,
                    ih (s := { s with unixtsLastMovement := a.stamp, unixtsLastPresence := 0 }) hs
                      htail, Nat.add_comm]
                  rfl
              · rename_i hshort
                rw [if_neg hshort, if_neg (secs_of_moves hleaves hmoves)] at hhandle
                rw [after_of_handle (by rw [hhandle]), hhandle,
                  ih (s := { s with unixtsLastMovement := a.stamp }) hs htail]
                exact Nat.zero_add _
          | false =>
              obtain ⟨hcount, hstatus, hpresence⟩ := handle_other hleaves hmoves hhead s
              rw [hcount, ih (hstatus.trans hs) htail, hpresence, Nat.zero_add]
              rfl

theorem spree_eq_zero (t : T) (ms : List (Arrival T)) :
    spree t ms = 0 ↔ ∀ m ∈ ms, m.shortlyAfter t = false := by
  induction ms with
  | nil => simp [spree]
  | cons m ms ih =>
      rw [List.forall_mem_cons, ← ih, spree]
      cases hm : m.shortlyAfter t with
      | true =>
          simp only [if_true]
          split <;> simp
      | false => simp

theorem spree_le_one (t : T) (ms : List (Arrival T)) :
    spree t ms ≤ 1 ↔
      match ms.dropWhile fun m => !m.shortlyAfter t with
      | [] => True
      | m :: later => m.raises = true ∨ ∀ m' ∈ later, m'.shortlyAfter 0 = false := by
  induction ms with
  | nil => simp [spree]
  | cons m ms ih =>
      rw [spree]
      cases hm : m.shortlyAfter t with
      | true =>
          rw [List.dropWhile_cons_of_neg (by simp [hm]), if_pos rfl]
          simp only
          rw [← spree_eq_zero]
          cases hraises : m.raises with
          | true => simp
          | false => simp
      | false =>
          rw [List.dropWhile_cons_of_pos (by simp [hm])]
          simpa using ih

/-! ## From one presence message to the next -/

theorem handle_arrives (hp : p.arrives = true) (s : State T) :
    handle p s =
      if p.shortlyAfter s.unixtsLastMovement then
        playThemeOf p (.of s.lastUser)
          { s with
            unixtsLastPresence := p.stamp
            lastStatus := some true
            unixtsLastMovement := 0 }
      else
        ([], if p.secs = none then none
          else some { s with unixtsLastPresence := p.stamp, lastStatus := some true }) := by
  have hmessage : p.message = .presenceUpdate (some true) := of_decide_eq_true hp
  unfold handle Arrival.shortlyAfter
  rw [hmessage]
  simp only
  cases p.secs with
  | none => rfl
  | some secs => simp [playIfPresent]

/-- **At most one theme a presence**, exactly where the messages are calm. -/
theorem launches_le_one (hp : p.arrives = true) (hno : ∀ a ∈ rest, a.arrives = false)
    (s : State T) : launches (p :: rest) s ≤ 1 ↔ Calm s p rest := by
  have hhandle := handle_arrives hp s
  rw [launches_cons, Calm]
  split
  · rename_i hshort
    rw [if_pos hshort, playThemeOf] at hhandle
    cases hraises : p.raises with
    | true =>
        rw [hraises, if_pos rfl] at hhandle
        rw [after_of_raise (by rw [hhandle]), hhandle,
          launches_absent (s := .init) nofun hno]
        exact ⟨fun _ => .inl rfl, fun _ => Nat.le_refl _⟩
    | false =>
        rw [hraises, if_neg nofun] at hhandle
        rw [after_of_handle (by rw [hhandle]), hhandle, launches_present rfl hno, ← spree_eq_zero]
        show 1 + spree p.stamp (movements rest) ≤ 1 ↔ _
        simp only [Bool.false_eq_true, false_or]
        omega
  · rename_i hshort
    rw [if_neg hshort] at hhandle
    cases hsecs : p.secs with
    | none =>
        rw [if_pos hsecs] at hhandle
        rw [after_of_raise (by rw [hhandle]), hhandle, launches_absent (s := .init) nofun hno]
        exact ⟨fun _ => .inl rfl, fun _ => Nat.zero_le _⟩
    | some secs =>
        rw [if_neg (by rw [hsecs]; nofun)] at hhandle
        rw [after_of_handle (by rw [hhandle]), hhandle, launches_present rfl hno, ← spree_le_one]
        show 0 + spree p.stamp (movements rest) ≤ 1 ↔ _
        simp

/-- A presence message and all up to the next, or to any moment before it,
in a sequence of messages. -/
def Presence (ms before : List (Arrival T)) (p : Arrival T) (rest : List (Arrival T)) : Prop :=
  (∃ later, ms = before ++ p :: (rest ++ later)) ∧ p.arrives = true ∧
    ∀ a ∈ rest, a.arrives = false

/-- **The theme is played at most once per presence**, exactly where each
presence message and what follows it are calm. -/
theorem theme_once_per_presence (ms : List (Arrival T)) :
    (∀ before p rest, Presence ms before p rest →
        launches (p :: rest) (afterAll before .init) ≤ 1) ↔
      ∀ before p rest, Presence ms before p rest → Calm (afterAll before .init) p rest := by
  constructor
  · intro h before p rest hpres
    exact (launches_le_one hpres.2.1 hpres.2.2 _).mp (h before p rest hpres)
  · intro h before p rest hpres
    exact (launches_le_one hpres.2.1 hpres.2.2 _).mpr (h before p rest hpres)

end Loop

/-- A message at a time, with the seconds the configuration allows. -/
def Message.at (m : Message) (time secs : ℤ) : Arrival ℤ := ⟨m, time, time, some secs, false⟩

/-- **The theme is played twice for one presence**, with a door that moves
a second before the presence message and again a minute after. -/
theorem theme_once_per_presence_fails :
    ¬ ∀ ms : List (Arrival ℤ), (ms.flatMap fun a => [a.stamp, a.reading]).Pairwise (· ≤ ·) →
      ∀ before p rest, Presence ms before p rest →
        launches (p :: rest) (afterAll before .init) ≤ 1 := by
  intro hall
  let before := [Message.at (.doorCommandEvent (some (some "xro"))) 1000000 0,
    Message.at .doorAjarUpdate 1000000 120]
  let p := Message.at (.presenceUpdate (some true)) 1000001 1
  let rest := [Message.at .doorAjarUpdate 1000061 120]
  have htwice := hall (before ++ p :: (rest ++ [])) (by decide) before p rest
    ⟨⟨[], rfl⟩, by decide, by decide⟩
  revert htwice
  decide

end Sound

end Realraum
