import Mathlib.Data.Finset.Basic
import Realraum.Presence.Model.Tracker
/-!
# The connection listener

`ConnectionListener` of `track-presence.py`, and a check of the tracker with
`updateStatus` for its `status_change_handler`. A socket is named by how
many were accepted before it. The peers that are gone are a set: a `send` to
one of them raises an exception, and nobody on the way catches it.
-/

namespace Realraum

namespace Presence

/-! ## The sockets -/

/-- **`ConnectionListener`**: how many sockets were accepted, and
`client_sockets`. -/
structure ConnectionListener where
  accepted : ℕ
  clientSockets : List ℕ
  nodup : clientSockets.Nodup
  lt_accepted : ∀ sock ∈ clientSockets, sock < accepted

namespace ConnectionListener

/-- `__init__`. -/
def init : ConnectionListener := ⟨0, [], List.nodup_nil, by simp⟩

/-- The branch of `serve` that accepts. -/
def accept (l : ConnectionListener) : ConnectionListener where
  accepted := l.accepted + 1
  clientSockets := l.clientSockets ++ [l.accepted]
  nodup := by
    rw [List.nodup_append]
    refine ⟨l.nodup, List.pairwise_singleton _ _, fun sock hsock other hother => ?_⟩
    rw [List.mem_singleton.mp hother]
    exact Nat.ne_of_lt (l.lt_accepted sock hsock)
  lt_accepted sock hsock := by
    rcases List.mem_append.mp hsock with hsock | hsock
    · exact Nat.lt_succ_of_lt (l.lt_accepted sock hsock)
    · rw [List.mem_singleton.mp hsock]
      exact Nat.lt_succ_self _

end ConnectionListener

/-! ## Passing lines on -/

/-- What was handed to the sockets, and whether no exception was raised. -/
structure Report where
  handed : List (ℕ × String)
  returned : Bool
  deriving DecidableEq

/-- Nothing was to be passed on. -/
def Report.nothing : Report := ⟨[], true⟩

/-- One call behind another: an exception in the first is one of both. -/
def Report.andThen (r r' : Report) : Report :=
  if r.returned then ⟨r.handed ++ r'.handed, r'.returned⟩ else r

/-- The loop of `distributeData`. -/
def sendToAll (gone : Finset ℕ) (data : String) : List ℕ → Report
  | [] => ⟨[], true⟩
  | sock :: socks =>
    -- the sockets behind one that raises are not reached
    if sock ∈ gone then ⟨[], false⟩
    else
      let r := sendToAll gone data socks
      ⟨(sock, data) :: r.handed, r.returned⟩

/-- `statusString`. -/
def statusString (somebodyPresent doorOpen : Bool) (who : Option String) : String :=
  let details :=
    match who with
    | none => ""
    | some who => (if doorOpen then ", opened, " else ", closed, ") ++ who
  if somebodyPresent then "Presence: yes" ++ details ++ "\n"
  else "Presence: no" ++ details ++ "\n"

/-- The text of a warning. -/
def Warning.text : Warning → String
  | nobodyButAjar => "Nobody here but door ajar !"
  | unlockedButNobody => "Door unlocked recently but nobody present"

namespace ConnectionListener

variable (l : ConnectionListener) (gone : Finset ℕ)

/-- `distributeData`. -/
def distributeData (data : String) : Report := sendToAll gone data l.clientSockets

/-- `updateStatus`. -/
def updateStatus (somebodyPresent : Option Bool) (doorOpen : Bool) (who : Option String)
    (warning : Option Warning) : Report :=
  let presence : Report :=
    match somebodyPresent with
    | none => .nothing
    | some somebodyPresent => l.distributeData gone (statusString somebodyPresent doorOpen who)
  presence.andThen <|
    match warning with
    | none => .nothing
    | some warning => l.distributeData gone ("Warning: " ++ warning.text ++ "\n")

end ConnectionListener

/-! ## A check that reports to the listener -/

namespace StatusTracker

variable {T : Type*} [Zero T] [Add T] [Sub T] [LE T] [LT T] [DecidableLE T] [DecidableLT T]

/-- `checkPresenceStateChangeAndNotify` with `updateStatus` for its handler:
the tracker, and what its clients were handed. -/
def checkAndUpdate (l : ConnectionListener) (gone : Finset ℕ) (e : Evaluation T)
    (s : StatusTracker T) : StatusTracker T × Report :=
  match s.somebodyPresent e.present with
  | (none, s) => (s, .nothing)
  | (some somebodyPresent, s) =>
    let presence : Report :=
      if somebodyPresent = s.lastSomebodyPresentResult then .nothing
      else l.updateStatus gone (some somebodyPresent) s.doorUnlocked s.whoMightBeHere none
    -- the new result is remembered before the handler is called
    if !presence.returned then
      ({ s with lastSomebodyPresentResult := somebodyPresent }, presence)
    else
      let s :=
        if somebodyPresent = s.lastSomebodyPresentResult then s
        else s.notifyPresence somebodyPresent
      match s.getPossibleWarning e.warning with
      | (none, s) => (s, presence)
      | (some warning, s) =>
        let s := s.notifyWarning warning
        let passed := warning.isSome && s.countSameWarning < 3
        (s, presence.andThen <|
          if passed then l.updateStatus gone none s.doorUnlocked s.whoMightBeHere warning
          else .nothing)

end StatusTracker

end Presence

end Realraum
