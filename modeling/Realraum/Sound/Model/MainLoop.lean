import Mathlib.Order.Defs.PartialOrder
/-!
# The sound player — the main loop

`play-sound-status.py` hears of presence, of door commands and of movement,
and plays the theme of the last user when somebody is present and moved
shortly before or after. Times are of any type that can be subtracted and
compared, so nothing here rests on how they round.
-/

namespace Realraum

namespace Sound

variable {T : Type*}

/-- A message as `decodeR3Message` gives it. A key may be missing. -/
inductive Message
  /-- With the truth of `Present`. -/
  | presenceUpdate (present : Option Bool)
  /-- With `Who`, which may be null. -/
  | doorCommandEvent (who : Option (Option String))
  | boreDoomButtonPressEvent
  | movementSensorUpdate
  | doorAjarUpdate
  | doorProblemEvent (severity : Bool)
  | other
  deriving DecidableEq

/-- **A message arrives**: what the clock says when the loop stores it and
when it compares, the seconds the configuration allows, if they are a
number, and whether `playThemeOf` would raise an exception. -/
structure Arrival (T : Type*) where
  message : Message
  stamp : T
  reading : T
  secs : Option T
  raises : Bool

/-- The variables of the main loop. -/
structure State (T : Type*) where
  lastStatus : Option Bool
  lastUser : Option String
  unixtsLastMovement : T
  unixtsLastPresence : T

/-- A call of `playThemeOf`: for the last user, or one of the other two. -/
inductive Theme
  | of (user : Option String)
  | panic
  | error
  deriving DecidableEq

section Loop

variable [Zero T] [Sub T] [LE T] [DecidableLE T]

/-- As set behind every connect. -/
def State.init : State T := ⟨none, none, 0, 0⟩

/-- A call of `playThemeOf`, and the state if it returns. -/
def playThemeOf (a : Arrival T) (theme : Theme) (s : State T) : List Theme × Option (State T) :=
  ([theme], if a.raises then none else some s)

/-- `if last_status: playThemeOf(user=last_user, …)`. -/
def playIfPresent (a : Arrival T) (s : State T) : List Theme × Option (State T) :=
  if s.lastStatus = some true then playThemeOf a (.of s.lastUser) s else ([], some s)

/-- The branches of the loop: the calls made, and the state unless an
exception was raised. -/
def handle (a : Arrival T) (s : State T) : List Theme × Option (State T) :=
  match a.message with
  | .presenceUpdate (some present) =>
    let s := { s with unixtsLastPresence := a.stamp, lastStatus := some present }
    match a.secs with
    | none => ([], none)
    | some secs =>
      if a.reading - s.unixtsLastMovement ≤ secs then
        playIfPresent a { s with unixtsLastMovement := 0 }
      else ([], some s)
  | .doorCommandEvent (some who) => ([], some { s with lastUser := who })
  | .doorCommandEvent none => ([], none)
  | .boreDoomButtonPressEvent => playThemeOf a .panic s
  | .movementSensorUpdate | .doorAjarUpdate =>
    let s := { s with unixtsLastMovement := a.stamp }
    match a.secs with
    | none => ([], none)
    | some secs =>
      if a.reading - s.unixtsLastPresence ≤ secs then
        playIfPresent a { s with unixtsLastPresence := 0 }
      else ([], some s)
  | .doorProblemEvent true => playThemeOf a .error s
  | .presenceUpdate none | .doorProblemEvent false | .other => ([], some s)

/-- Behind a message. An exception makes the loop connect anew. -/
def after (a : Arrival T) (s : State T) : State T := (handle a s).2.getD .init

/-- Behind a sequence of messages. -/
def afterAll (ms : List (Arrival T)) (s : State T) : State T := ms.foldl (fun s a => after a s) s

/-- The calls of `playThemeOf` over a sequence of messages. -/
def played : List (Arrival T) → State T → List Theme
  | [], _ => []
  | a :: ms, s => (handle a s).1 ++ played ms (after a s)

end Loop

end Sound

end Realraum
