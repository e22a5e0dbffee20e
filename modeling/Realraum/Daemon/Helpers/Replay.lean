import Realraum.Daemon.Helpers.Iteration
/-!
# Helpers — replayed runs

What the kernel answers in the plain cases, and the state a list of such
answers leads to. Witnesses and counterexamples of the results about runs
are read off a replay.
-/

namespace Realraum

namespace Daemon

/-- **A replay shows a reached state.** -/
theorem reachable_of_replay (cfg : Setup) (A : State → Env → Prop) [∀ s e, Decidable (A s e)]
    (es : List Env) (p : State → Bool)
    (h : (Reach.replay (loopStep cfg) (fun s e => decide (e.Fresh cfg s ∧ A s e)) es
      (entry cfg (fun _ => 0) fun _ => 0)).any p = true) :
    ∃ s, Reachable cfg A s ∧ p s = true := by
  obtain ⟨s, hs, hp⟩ := Reach.exists_of_replay (fun _ _ => of_decide_eq_true) es _ p h
  exact ⟨s, ⟨_, _, hs⟩, hp⟩

/-- Every allocation succeeds. -/
def CmdMem.plenty : CmdMem := ⟨⟨true, true⟩, true⟩

/-- A call that reads these bytes and then nothing. -/
def Feed.bytesThenNothing (bytes : List UInt8) : Feed := ⟨bytes, .error .again, .plenty⟩

namespace Env

/-- Nothing is readable, and it is this many seconds after the epoch. -/
def idle (sec : ℕ) : Env where
  select := .returned ∅
  selectAt := Timeval.zero.addSec sec
  now := Timeval.zero.addSec sec
  sentAt := Timeval.zero.addSec sec
  clock := ⟨Nat.le_refl _, Nat.le_refl _⟩
  signals := []
  tty := ⟨[], .quiet⟩
  accept := none
  clientMem := true
  stale := fun _ => 0
  autosample := .bytesThenNothing []
  clients := fun _ => .bytesThenNothing []
  ttyWrites := [.accepted 60]
  childWrites := [.accepted 1]

/-- A client connects and is given this descriptor. -/
def connect (cfg : Setup) (fd sec : ℕ) : Env :=
  { idle sec with select := .returned {cfg.cmdListenFd}, accept := some fd }

/-- The client on this descriptor sends a line. -/
def command (fd : ℕ) (line : String) (sec : ℕ) : Env :=
  { idle sec with
    select := .returned {fd}
    clients := fun _ => .bytesThenNothing (ascii line ++ [linefeed]) }

/-- The client on this descriptor closes its end. -/
def disconnect (fd sec : ℕ) : Env :=
  { idle sec with
    select := .returned {fd}
    clients := fun _ => ⟨[], .eof, .plenty⟩ }

/-- The tty is at its end. -/
def ttyGone (cfg : Setup) (sec : ℕ) : Env :=
  { idle sec with
    select := .returned {cfg.ttyFd}
    tty := ⟨[], .eof⟩ }

/-- The firmware sends a line, as `Serial.println` does. -/
def firmware (cfg : Setup) (line : String) (sec : ℕ) : Env :=
  { idle sec with
    select := .returned {cfg.ttyFd}
    tty := ⟨ascii line ++ [carriageReturn, linefeed], .quiet⟩ }

end Env

/-- A daemon with two power ids and one sample device. -/
def Setup.sample : Setup where
  ttyFd := 3
  cmdListenFd := 4
  sigFd := 5
  autosample := none
  opt :=
    { powerids := ⟨[ascii "lamp", ascii "fan"], [ascii "b", ascii "c"]⟩
      sampledevs := ⟨[ascii "temp"], [ascii "*"]⟩ }
  nodup := by decide

/-- A setup with an autosample process. -/
def Setup.sampling : Setup :=
  { Setup.sample with
    autosample := some ⟨6, 9⟩
    nodup := by decide }

/-- What the first client, on descriptor 7, asks for with `power on lamp`. -/
def lampRequest : Request := ⟨0, .client 0, 7, .powerOn, some (ascii "b")⟩

end Daemon

end Realraum
