import Realraum.Daemon.Model.Clients
import Mathlib.Data.Finset.Basic
/-!
# The daemon — the state of `main_loop`

The locals of `main_loop`, the connections the kernel holds open for it,
and the history of what it did. The history is read by no branch; two
counts of it name new things, the number of commands pushed (`serial`)
and of connections accepted (`conn`).
-/

namespace Realraum

namespace Daemon

/-- What the loop does to the world and to its own data. -/
inductive Event
  /-- `read()` put this byte at this index of the port's buffer. -/
  | read (p : Port) (index : ℕ) (b : UInt8)
  /-- There was no byte to read for this index of the port's buffer. -/
  | dry (p : Port) (index : ℕ)
  /-- The code itself stored at this index of the port's buffer. -/
  | store (p : Port) (index : ℕ)
  /-- A line of this text was taken from the port: handed to
  `process_cmd`, or, from the tty, acted on by `process_tty`. -/
  | line (p : Port) (text : CStr)
  | push (r : Request)
  /-- `cmd_pop`, of a node with this `sent`, in the expiry branch or
  after a firmware line. -/
  | pop (r : Request) (sent expired : Bool)
  /-- `send_command` wrote the command: the bytes the tty took. -/
  | write (r : Request) (bytes : List UInt8)
  /-- `send_response` to the descriptor in the head of the queue, and
  the connection that has the descriptor now. -/
  | answer (r : Request) (conn : Option ℕ) (text : CStr)
  /-- Any other `send_response`. -/
  | respond (fd : ℕ) (conn : Option ℕ) (text : CStr)
  | accept (fd conn : ℕ)
  | close (fd conn : ℕ)
  /-- `nonblock_readline` was called on a client. -/
  | serve (fd conn : ℕ)
  /-- The pipe from the child was taken out of `readfds`. -/
  | hangup
  /-- `autosample_enabled` was written to the child. -/
  | enable (b ok : Bool)
  deriving DecidableEq

/-- A connection the kernel holds open: its descriptor, and how many were
accepted before it. -/
structure Conn where
  fd : ℕ
  serial : ℕ
  deriving DecidableEq

/-- The connection of a client. -/
def Client.toConn (c : Client) : Conn := ⟨c.fd, c.conn⟩

/-- The pipes to a running autosample process. -/
structure Autosample where
  writeFd : ℕ
  readFd : ℕ
  deriving DecidableEq

/-- The descriptors `main_loop` works with from the start; `autosample`
is `none` where `pid_ <= 0`. The kernel gave them while all of them were
open, so no two are equal. -/
structure Setup where
  ttyFd : ℕ
  cmdListenFd : ℕ
  sigFd : ℕ
  autosample : Option Autosample
  opt : Options
  nodup : (ttyFd :: cmdListenFd :: sigFd ::
    autosample.toList.flatMap fun a => [a.writeFd, a.readFd]).Nodup

/-- The descriptors of a setup. -/
def Setup.fds (cfg : Setup) : List ℕ :=
  cfg.ttyFd :: cfg.cmdListenFd :: cfg.sigFd ::
    cfg.autosample.toList.flatMap fun a => [a.writeFd, a.readFd]

/-- The state of `main_loop`. -/
structure State where
  readfds : Finset ℕ
  maxFd : ℕ
  autosampleEnabled : Bool
  cmdQ : List Cmd
  clientLst : List Client
  ttyBuffer : ReadBuffer
  autosampleBuffer : ReadBuffer
  returnValue : ℤ
  /-- The connections that are open, in order of acceptance. -/
  conns : List Conn
  /-- What has happened so far. -/
  trace : List Event

namespace State

/-- Append to the history. -/
def log (s : State) (es : List Event) : State := { s with trace := s.trace ++ es }

/-- The buffer a port's bytes go to. -/
def buffer (s : State) : Port → ReadBuffer
  | .tty => s.ttyBuffer
  | .autosample => s.autosampleBuffer
  | .client k => ((s.clientLst.find? fun c => c.conn = k).map Client.buffer).getD default

/-- Change the buffer of a port. -/
def setBuffer (s : State) (p : Port) (b : ReadBuffer) : State :=
  match p with
  | .tty => { s with ttyBuffer := b }
  | .autosample => { s with autosampleBuffer := b }
  | .client k =>
    { s with
      clientLst := s.clientLst.map fun c => if c.conn = k then { c with buffer := b } else c }

/-- The connection that has a descriptor. -/
def connAt (s : State) (fd : ℕ) : Option ℕ :=
  (s.conns.find? fun c => c.fd = fd).map Conn.serial

/-- How many commands were pushed. -/
def pushed (s : State) : ℕ :=
  (s.trace.filter fun | .push _ => true | _ => false).length

/-- How many connections were accepted. -/
def accepted (s : State) : ℕ :=
  (s.trace.filter fun | .accept _ _ => true | _ => false).length

end State

/-- `max_fd = (max_fd < fd) ? fd : max_fd`. -/
def raiseMax (maxFd fd : ℕ) : ℕ := if maxFd < fd then fd else maxFd

/-- The state in which `main_loop` reaches its `while` for the first
time; `staleTty` and `stalePipe` are what the stack held where the two
buffers are. -/
def entry (cfg : Setup) (staleTty stalePipe : ℕ → UInt8) : State :=
  let fds : Finset ℕ := {cfg.ttyFd, cfg.cmdListenFd}
  let maxFd := if cfg.ttyFd > cfg.cmdListenFd then cfg.ttyFd else cfg.cmdListenFd
  let (fds, maxFd) := match cfg.autosample with
    | some a => (insert a.writeFd fds, raiseMax maxFd a.writeFd)
    | none => (fds, maxFd)
  { readfds := insert cfg.sigFd fds
    maxFd := raiseMax maxFd cfg.sigFd
    autosampleEnabled := false
    cmdQ := []
    clientLst := []
    ttyBuffer := ⟨0, staleTty⟩
    autosampleBuffer := ⟨0, stalePipe⟩
    returnValue := 0
    conns := []
    trace := [] }

end Daemon

end Realraum
