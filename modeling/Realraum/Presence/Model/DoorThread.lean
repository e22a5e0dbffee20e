import Mathlib.Data.List.Basic
import Realraum.Presence.Model.Tracker
/-!
# The presence tracker — `trackDoorStatusThread`

The thread that reads the door daemon's lines. A status line makes it call
two methods of the tracker at most, one after the other; other threads and
the timers may come in between, and inside of these calls where they give
up `self.lock`. Between two lines the thread may lose its connection: at
the end of the stream, or by an exception of `distributeData`, with which
nothing is done about the line. `checkConfigUpdates` returns here.
-/

namespace Realraum

namespace Presence

variable {T : Type*}

/-! ## The regular expressions -/

/-- These characters, whatever their case: they, as they stand there, and
what follows. -/
def matchWord (word : String) (line : List Char) : Option (List Char × List Char) :=
  let front := line.take word.length
  if front.map Char.toLower = word.toList.map Char.toLower then
    some (front, line.drop word.length)
  else none

/-- The first of the words that matches. -/
def matchOne (words : List String) (line : List Char) : Option (List Char × List Char) :=
  words.findSome? fun word => matchWord word line

/-- The groups of `RE_STATUS`. -/
structure Status where
  status : String
  currentOperation : String
  ajarStatus : String
  deriving DecidableEq

/-- `RE_STATUS.match`. No alternative is the beginning of another, so the
first that matches is the only one. -/
def reStatus (line : String) : Option Status := do
  let (_, line) ← matchWord "Status: " line.toList
  let (status, line) ← matchOne ["closed", "opened"] line
  let (_, line) ← matchWord ", " line
  let (operation, line) ← matchOne ["opening", "waiting", "closing", "idle"] line
  let (_, line) ← matchWord ", " line
  let (ajar, _) ← matchOne ["ajar", "shut"] line
  some ⟨.ofList status, .ofList operation, .ofList ajar⟩

/-- `\w`. -/
def isWordChar (c : Char) : Bool := c.isAlphanum || c = '_'

/-- `(.+)`, up to the end of the line. -/
def matchRest (line : List Char) : Option String :=
  let rest := line.takeWhile (· ≠ '\n')
  if rest = [] then none else some (.ofList rest)

/-- The groups `how` and `who` of `RE_REQUEST`: the first is left out if
nothing would be left for the second. -/
def reRequest (line : String) : Option (Option String × String) := do
  let (_, line) ← matchWord "Request: " line.toList
  if line.takeWhile isWordChar = [] then none
  let (_, line) ← matchWord " " (line.dropWhile isWordChar)
  let withHow : Option (Option String × String) := do
    let (how, line) ← matchOne ["Card", "Phone", "SSH"] line
    let (_, line) ← matchWord " " line
    let who ← matchRest line
    some (some (.ofList how), who)
  withHow <|> (matchRest line).map fun who => (none, who)

/-! ## The thread -/

/-- **The tracker and the door's thread.** The thread has `calls` left to
make for the line at hand, and handled these status lines before and with
it. -/
structure DoorThread (T : Type*) where
  tracker : StatusTracker T
  lastWho : Option String
  lastHow : Option String
  calls : List (Act T)
  handled : List Status

/-- What the thread calls for a status line. -/
def Status.calls (m : Status) (lastWho lastHow : Option String) : List (Act T) :=
  (if m.ajarStatus = "ajar" then .doorOpen else .doorClosed) ::
    if m.currentOperation = "idle" then
      if m.status = "opened" then [.doorUnlocked lastWho lastHow]
      else if m.status = "closed" then [.doorLocked lastWho lastHow]
      else []
    else []

/-- What comes next: a line is read and distributed, the connection is lost
and set up again, the thread makes its next call, or anything else goes on
in the tracker. -/
inductive DoorAct (T : Type*)
  | line (text : String)
  | lost
  | call
  | other (a : Act T)

/-- The acts the thread begins a call with. -/
def Act.isReport : Act T → Bool
  | .doorOpen => true
  | .doorClosed => true
  | .doorUnlocked _ _ => true
  | .doorLocked _ _ => true
  | _ => false

namespace DoorThread

/-- `__init__`, in front of the first line. -/
def init [Zero T] : DoorThread T := ⟨.init, none, none, [], []⟩

/-- The thread waits for the next line. -/
def Reading (s : DoorThread T) : Prop := s.calls = [] ∧ s.tracker.doorPlace = .idle

instance (s : DoorThread T) : Decidable s.Reading := inferInstanceAs (Decidable (_ ∧ _))

/-- What the thread makes of a line. -/
def handleLine (line : String) (s : DoorThread T) : DoorThread T :=
  match reStatus line with
  | some m =>
    { s with
      calls := m.calls s.lastWho s.lastHow
      handled := s.handled ++ [m]
      lastWho := if m.currentOperation = "idle" then none else s.lastWho
      lastHow := if m.currentOperation = "idle" then none else s.lastHow }
  | none =>
    match reRequest line with
    | some (how, who) => { s with lastWho := some who, lastHow := how }
    | none => s

end DoorThread

variable [DecidableEq T] [Zero T] [Add T] [Sub T] [LE T] [LT T] [DecidableLE T] [DecidableLT T]

/-- **One step of the thread or of the tracker.** -/
def doorStep (i : DoorAct T) (s : DoorThread T) : Option (DoorThread T) :=
  match i with
  | .line text => if s.Reading then some (s.handleLine text) else none
  | .lost => if s.Reading then some { s with lastWho := none, lastHow := none } else none
  | .call =>
    match s.calls with
    | [] => none
    | call :: calls =>
      (trackerStep call s.tracker).map fun tracker => { s with tracker := tracker, calls := calls }
  | .other a =>
    if a.isReport then none
    else (trackerStep a s.tracker).map fun tracker => { s with tracker := tracker }

end Presence

end Realraum
