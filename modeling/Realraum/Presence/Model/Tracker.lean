import Mathlib.Data.Int.Notation
import Mathlib.Data.Nat.Notation
import Mathlib.Order.Defs.LinearOrder
import Realraum.Common.Reach
/-!
# The presence tracker — `StatusTracker`

What `track-presence.py` knows of the door, and what it tells its clients.
`checkPresenceStateChangeAndNotify` is one step, taken under
`presence_notify_lock`; the door's thread is cut where it gives up
`self.lock`, so that a timer or a light reading may come in between. Times
are of any type that can be added and compared. A float that cannot be read
from the configuration raises an exception, which ends the call. What is
only written (`self.timer`, the count of movements, which is always set to
zero) is left out.
-/

namespace Realraum

namespace Presence

variable {T : Type*}

/-! ## What a call finds -/

/-- **One look at the clock and the configuration**: the reading and the
wait that are compared, the wait that is asked for in `checkAgainIn`, and
its three readings of the clock. A wait that is no number is none. -/
structure Look (T : Type*) where
  reading : T
  secs : Option T
  sec : Option T
  checked : T
  started : T
  set : T

/-- The looks of one `checkPresenceStateChangeAndNotify`: in
`somebodyPresent` and in `getPossibleWarning`. -/
structure Evaluation (T : Type*) where
  present : Look T
  warning : Look T

/-! ## The state -/

/-- The results of `getPossibleWarning`. -/
inductive Warning
  /-- "Nobody here but door ajar !" -/
  | nobodyButAjar
  /-- "Door unlocked recently but nobody present" -/
  | unlockedButNobody
  deriving DecidableEq

/-- Where the door's thread is inside `doorUnlocked` or `doorLocked`. -/
inductive DoorPlace
  | idle
  /-- Behind the first block, which found a change. -/
  | changed (who how : Option String)
  /-- Behind `updateWhoMightBeHere`. -/
  | named (who how : Option String)
  /-- Behind the second block. -/
  | operated
  /-- Behind `checkPresenceStateChangeAndNotify`. -/
  | notified
  deriving DecidableEq

/-- What happens, as far as it shows outside. -/
inductive Happening (T : Type*)
  /-- `status_change_handler(somebody_present, door_open=…, who=…)`. -/
  | presence (somebodyPresent doorOpen : Bool) (who : Option String)
  /-- `getPossibleWarning` gave this, and `status_change_handler` was
  called with it or was not. -/
  | computed (warning : Option Warning) (passed doorOpen : Bool) (who : Option String)
  /-- `somebodyPresent` returned the last result, to be looked at again
  until then. -/
  | heldOver (deadline : T)
  /-- The timer that was due then makes its call. -/
  | fires (due : T)
  deriving DecidableEq

/-- **The tracker.** Apart from its attributes there are the timers that
are started and have not made their call, by when they are due, the place
of the door's thread, and what happened. -/
structure StatusTracker (T : Type*) where
  doorUnlockedPreviously : Option Bool
  doorUnlocked : Bool
  doorClosed : Bool
  doorManualSwitchUsed : Bool
  doorPhysicallyPresent : Bool
  doorWho : Option String
  lastDoorOperationUnixts : T
  lastMovementUnixts : T
  lastLightValue : ℤ
  lastLightUnixts : T
  lastSomebodyPresentResult : Bool
  lastWarning : Option Warning
  countSameWarning : ℕ
  whoMightBeHere : Option String
  timerTimeout : T
  timers : List T
  doorPlace : DoorPlace
  history : List (Happening T)
  deriving DecidableEq

namespace StatusTracker

/-- `__init__`, and the handler that `ConnectionListener` sets. -/
def init [Zero T] : StatusTracker T where
  doorUnlockedPreviously := none
  doorUnlocked := false
  doorClosed := true
  doorManualSwitchUsed := false
  doorPhysicallyPresent := true
  doorWho := none
  lastDoorOperationUnixts := 0
  lastMovementUnixts := 0
  lastLightValue := 0
  lastLightUnixts := 0
  lastSomebodyPresentResult := false
  lastWarning := none
  countSameWarning := 0
  whoMightBeHere := none
  timerTimeout := 0
  timers := []
  doorPlace := .idle
  history := []

variable (s : StatusTracker T)

/-- Something happens. -/
def log (h : Happening T) : StatusTracker T := { s with history := s.history ++ [h] }

/-- The rest of the first block of `doorUnlocked` and `doorLocked`: is it a
change? -/
def reportChange (who how : Option String) : StatusTracker T :=
  if s.doorUnlockedPreviously = some s.doorUnlocked then s
  else { s with doorWho := who, doorPlace := .changed who how }

/-- `updateWhoMightBeHere`. -/
def updateWhoMightBeHere (who how : Option String) : StatusTracker T :=
  { s with whoMightBeHere := who, doorPlace := .named who how }

/-- The second block: how the door was operated, and when. -/
def operate (who how : Option String) (now : T) : StatusTracker T :=
  let manual : Bool := who = none ∨ who = some ""
  { s with
    doorManualSwitchUsed := manual
    doorPhysicallyPresent := manual || how.any fun h => "Card".toList.isPrefixOf h.toList
    lastDoorOperationUnixts :=
      if s.doorUnlockedPreviously.isSome then now else s.lastDoorOperationUnixts
    doorPlace := .operated }

/-- What follows `checkPresenceStateChangeAndNotify` in `doorUnlocked` and
`doorLocked`. -/
def returnFromDoor : StatusTracker T :=
  { s with doorUnlockedPreviously := some s.doorUnlocked, doorPlace := .idle }

/-- `movementDetected`, which returns in front of its check. -/
def movementDetected (now : T) : StatusTracker T := { s with lastMovementUnixts := now }

variable [Zero T] [Add T] [Sub T] [LE T] [LT T] [DecidableLE T] [DecidableLT T]

/-- `checkAgainIn`. -/
def checkAgainIn (sec : T) (l : Look T) : StatusTracker T :=
  if sec ≤ 0 then s
  else if s.timerTimeout < l.checked then
    { s with timers := s.timers ++ [l.started + sec], timerTimeout := l.set + sec }
  else s

/-- The door was operated with card or phone, and this within the wait. None
where the wait is no number. -/
def recentlyByCardOrPhone (l : Look T) : Option Bool :=
  if s.doorManualSwitchUsed then some false
  else l.secs.map fun secs => l.reading - s.lastDoorOperationUnixts ≤ secs

/-- `somebodyPresent`. None where an exception is raised. -/
def somebodyPresent (l : Look T) : Option Bool × StatusTracker T :=
  if s.doorUnlocked then
    if s.doorPhysicallyPresent then (some true, s)
    else if s.doorClosed = false then (some true, s)
    else if s.lastDoorOperationUnixts < s.lastMovementUnixts then (some true, s)
    else (some false, s)
  else if s.doorClosed = false then (some true, s)
  else
    match s.recentlyByCardOrPhone l with
    | none => (none, s)
    | some true =>
      match l.secs, l.sec with
      | some secs, some sec =>
        (some s.lastSomebodyPresentResult, (s.checkAgainIn sec l).log (.heldOver (l.set + secs)))
      | _, _ => (none, s)
    | some false => (some (s.doorManualSwitchUsed && s.doorClosed), s)

/-- `getPossibleWarning`. None where an exception is raised. -/
def getPossibleWarning (l : Look T) : Option (Option Warning) × StatusTracker T :=
  if !s.lastSomebodyPresentResult && !s.doorClosed then (some (some .nobodyButAjar), s)
  else if s.doorUnlocked && !s.lastSomebodyPresentResult then
    match l.secs with
    | none => (none, s)
    | some secs =>
      if secs ≤ l.reading - s.lastDoorOperationUnixts then (some (some .unlockedButNobody), s)
      else
        match l.sec with
        | none => (none, s)
        | some sec => (some none, s.checkAgainIn sec l)
  else (some none, s)

/-- The presence has changed: it is remembered and passed on, and nobody
might be here where nobody is. -/
def notifyPresence (somebodyPresent : Bool) : StatusTracker T :=
  { s with
    lastSomebodyPresentResult := somebodyPresent
    whoMightBeHere := if somebodyPresent then s.whoMightBeHere else none
    history := s.history ++ [.presence somebodyPresent s.doorUnlocked s.whoMightBeHere] }

/-- The warning is counted, and passed on if it is not the same for the
fourth time. -/
def notifyWarning (warning : Option Warning) : StatusTracker T :=
  let count := if warning = s.lastWarning then s.countSameWarning + 1 else 0
  { s with
    lastWarning := warning
    countSameWarning := count
    history := s.history ++
      [.computed warning (warning.isSome && count < 3) s.doorUnlocked s.whoMightBeHere] }

/-- `checkPresenceStateChangeAndNotify`, and whether it returns. -/
def checkPresenceStateChangeAndNotify (e : Evaluation T) : StatusTracker T × Bool :=
  match s.somebodyPresent e.present with
  | (none, s) => (s, false)
  | (some somebodyPresent, s) =>
    let s :=
      if somebodyPresent = s.lastSomebodyPresentResult then s else s.notifyPresence somebodyPresent
    match s.getPossibleWarning e.warning with
    | (none, s) => (s, false)
    | (some warning, s) => (s.notifyWarning warning, true)

/-- A timer makes its call, and is not pending any more. -/
def fire [DecidableEq T] (due : T) : StatusTracker T :=
  ({ s with timers := s.timers.erase due }).log (.fires due)

/-- `currentLightLevel`, in front of its check. -/
def noteLight (value : ℤ) (now : T) : StatusTracker T :=
  { s with lastLightUnixts := now, lastLightValue := value }

/-- `currentLightLevel`. -/
def currentLightLevel (value : ℤ) (now : T) (e : Evaluation T) : StatusTracker T :=
  ((s.noteLight value now).checkPresenceStateChangeAndNotify e).1

end StatusTracker

/-! ## The door's reports -/

/-- `doorOpen`. -/
def doorOpen (s : StatusTracker T) : StatusTracker T := { s with doorClosed := false }

/-- `doorClosed`. -/
def doorClosed (s : StatusTracker T) : StatusTracker T := { s with doorClosed := true }

/-- The first block of `doorUnlocked`. -/
def doorUnlocked (who how : Option String) (s : StatusTracker T) : StatusTracker T :=
  ({ s with doorUnlocked := true, doorClosed := true }).reportChange who how

/-- The first block of `doorLocked`. -/
def doorLocked (who how : Option String) (s : StatusTracker T) : StatusTracker T :=
  ({ s with doorUnlocked := false }).reportChange who how

/-! ## The steps -/

/-- What comes next. -/
inductive Act (T : Type*)
  | doorOpen
  | doorClosed
  | doorUnlocked (who how : Option String)
  | doorLocked (who how : Option String)
  /-- The door's thread goes on, four times. -/
  | doorNames
  | doorOperates (now : T)
  | doorChecks (e : Evaluation T)
  | doorReturns
  | movementDetected (now : T)
  | currentLightLevel (value : ℤ) (now : T) (e : Evaluation T)
  /-- The timer that is due then makes its call. -/
  | timer (due : T) (e : Evaluation T)
  /-- A client connects, and is told what `somebodyPresent` returns. -/
  | connects (l : Look T)

variable [DecidableEq T] [Zero T] [Add T] [Sub T] [LE T] [LT T] [DecidableLE T] [DecidableLT T]

/-- **One step of the tracker.** An exception in the door's thread ends its
call. -/
def trackerStep (a : Act T) (s : StatusTracker T) : Option (StatusTracker T) :=
  match a, s.doorPlace with
  | .doorOpen, .idle => some (doorOpen s)
  | .doorClosed, .idle => some (doorClosed s)
  | .doorUnlocked who how, .idle => some (doorUnlocked who how s)
  | .doorLocked who how, .idle => some (doorLocked who how s)
  | .doorNames, .changed who how => some (s.updateWhoMightBeHere who how)
  | .doorOperates now, .named who how => some (s.operate who how now)
  | .doorChecks e, .operated =>
    let r := s.checkPresenceStateChangeAndNotify e
    some { r.1 with doorPlace := if r.2 then .notified else .idle }
  | .doorReturns, .notified => some s.returnFromDoor
  | .movementDetected now, _ => some (s.movementDetected now)
  | .currentLightLevel value now e, _ => some (s.currentLightLevel value now e)
  | .timer due e, _ =>
    if due ∈ s.timers then some ((s.fire due).checkPresenceStateChangeAndNotify e).1 else none
  | .connects l, _ => some (s.somebodyPresent l).2
  | _, _ => none

/-- The states that are reached by steps that meet an assumption. -/
def Tracked (A : StatusTracker T → Act T → Prop) (s : StatusTracker T) : Prop :=
  Reach.Run trackerStep A .init s

end Presence

end Realraum
