import Realraum.Daemon.Model.Strings
import Mathlib.Data.Int.Notation
/-!
# The daemon — `command_queue.c`

The queue is a list, head first. A node is the request it was made for,
which never changes, and the two fields `cmd_sent` sets. Two fields of a
request are not in the source: `serial` stands for the node's identity,
which the source has as its address, and `port` for where the command was
read. No definition branches on either.
-/

namespace Realraum

namespace Daemon

/-- `cmd_id_t`. -/
inductive CmdId
  | powerOn | powerOff | sample | log | listen
  deriving DecidableEq

/-- What the event loop reads lines from: the tty, the pipe of the
autosample process, or a connection, named by how many were accepted
before it. -/
inductive Port
  | tty
  | autosample
  | client (conn : ℕ)
  deriving DecidableEq

/-- A `struct timeval`, normalised. -/
structure Timeval where
  sec : ℕ
  usec : ℕ
  usec_lt : usec < 1000000
  deriving DecidableEq

namespace Timeval

/-- The time in microseconds. -/
def micros (t : Timeval) : ℕ := t.sec * 1000000 + t.usec

/-- What `timerclear` sets. -/
def zero : Timeval := ⟨0, 0, by decide⟩

/-- `tv.tv_sec += s`. -/
def addSec (t : Timeval) (s : ℕ) : Timeval := { t with sec := t.sec + s }

/-- `timercmp(a, b, <)`. -/
def cmpLt (a b : Timeval) : Bool :=
  if a.sec = b.sec then a.usec < b.usec else a.sec < b.sec

end Timeval

/-- The part of a `cmd_t` that `cmd_push` fills in for good. -/
structure Request where
  serial : ℕ
  port : Port
  fd : ℕ
  cmd : CmdId
  param : Option CStr
  deriving DecidableEq

/-- `cmd_t`. -/
structure Cmd extends Request where
  sent : Bool
  tvStart : Timeval
  deriving DecidableEq

/-- Whether the two allocations of `cmd_push` succeed. -/
structure PushMem where
  malloc : Bool
  strdup : Bool

/-- `cmd_push`: `-2` and an unchanged queue where memory runs out; the
`strdup` is made for a non-NULL value only. -/
def cmdPush (q : List Cmd) (r : Request) (mem : PushMem) : ℤ × List Cmd :=
  if !mem.malloc then (-2, q)
  else if r.param.isSome && !mem.strdup then (-2, q)
  else (0, q ++ [{ r with sent := false, tvStart := .zero }])

/-- `cmd_sent`, at the time `gettimeofday` gives. -/
def cmdSent (c : Cmd) (now : Timeval) : Cmd :=
  { c with sent := true, tvStart := now }

/-- `cmd_has_expired`: more than two seconds since `tv_start`. -/
def cmdHasExpired (c : Cmd) (now : Timeval) : Bool :=
  (c.tvStart.addSec 2).cmpLt now

/-- `cmd_pop`. -/
def cmdPop (q : List Cmd) : List Cmd := q.tail

end Daemon

end Realraum
