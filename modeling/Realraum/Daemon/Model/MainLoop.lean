import Realraum.Common.Flow
import Realraum.Common.Reach
import Realraum.Daemon.Model.Lines
/-!
# The daemon — one iteration of `main_loop`

An iteration is a function of the state at the head of the loop and of
what the kernel answers during it (`Env`). Its pieces follow the source
in order; `continue` and `break` are the outcomes `again` and `leave` of
`Flow`, and a write loop that does not end is `hang`.
-/

namespace Realraum

namespace Daemon

/-- What `select` gives: an error, `EINTR`, or its wait ended with these
descriptors readable, none of them after a timeout. -/
inductive Select
  | failed
  | interrupted
  | returned (readable : Finset ℕ)

/-- The wait ended, with descriptors or without. -/
def Select.ended : Select → Bool
  | .returned _ => true
  | _ => false

/-- The signals `sig_handler` is installed for. -/
inductive Signal
  | int | quit | term | hup | usr1 | usr2
  deriving DecidableEq

/-- `signal_handle`, on the set read from the pipe: whether one of the
signals ends the daemon. -/
def signalHandle (set : List Signal) : Bool :=
  set.any fun sig => sig = .int ∨ sig = .quit ∨ sig = .term

/-- What the kernel answers in one iteration: `select`, the time it
returned and the two later readings of the clock, the signals in the
pipe, the input of each call that reads, the new descriptor of `accept`
(`none` for its error) and the memory for its client, and the results of
the writes to the tty and to the child. -/
structure Env where
  select : Select
  selectAt : Timeval
  now : Timeval
  sentAt : Timeval
  clock : selectAt.micros ≤ now.micros ∧ now.micros ≤ sentAt.micros
  signals : List Signal
  tty : TtyFeed
  accept : Option ℕ
  clientMem : Bool
  stale : ℕ → UInt8
  autosample : Feed
  clients : ℕ → Feed
  ttyWrites : List WriteResult
  childWrites : List WriteResult

/-- The descriptors `select` leaves in `tmpfds`. -/
def tmpfds (s : State) (readable : Finset ℕ) : Finset ℕ :=
  s.readfds.filter fun fd => fd ≤ s.maxFd ∧ fd ∈ readable

/-- The descriptors an iteration finds ready: none where `select` does not
end its wait. -/
def Env.fds (e : Env) (s : State) : Finset ℕ :=
  match e.select with
  | .returned readable => tmpfds s readable
  | _ => ∅

/-- `if(!ret)`: after a timeout the head of the queue is dropped when it
has expired, and otherwise the iteration is over. -/
def expiryStep (e : Env) (fds : Finset ℕ) (s : State) : Flow State :=
  if fds = ∅ then
    -- the head is not asked whether it was sent: an unsent one counts from the epoch
    if s.cmdQ.head?.any fun c => cmdHasExpired c e.now then .next (s.popCmd true) else .again s
  else .next s

/-- The signal pipe. -/
def signalStep (cfg : Setup) (e : Env) (fds : Finset ℕ) (s : State) : Flow State :=
  if cfg.sigFd ∈ fds ∧ signalHandle e.signals then .leave { s with returnValue := 1 }
  else .next s

/-- The tty. -/
def ttyStep (cfg : Setup) (e : Env) (fds : Finset ℕ) (s : State) : Flow State :=
  if cfg.ttyFd ∈ fds then
    let r := processTty cfg.opt e.tty s
    if r.1 = 0 then .next r.2 else .leave { r.2 with returnValue := r.1 }
  else .next s

/-- A new connection: `FD_SET`, `max_fd` and `client_add`, whose result
is ignored. -/
def addClient (fd : ℕ) (malloc : Bool) (stale : ℕ → UInt8) (s : State) : State :=
  { s with
    readfds := insert fd s.readfds
    maxFd := raiseMax s.maxFd fd
    clientLst := (clientAdd s.clientLst fd s.accepted malloc stale).2
    conns := s.conns ++ [{ fd := fd, serial := s.accepted }]
    trace := s.trace ++ [.accept fd s.accepted] }

/-- The listen socket. -/
def acceptStep (cfg : Setup) (e : Env) (fds : Finset ℕ) (s : State) : Flow State :=
  if cfg.cmdListenFd ∈ fds then
    match e.accept with
    | none => .leave { s with returnValue := -1 }
    | some fd => .next (addClient fd e.clientMem e.stale s)
  else .next s

/-- The pipe from the autosample process. Its end takes it out of
`readfds` and ends the iteration. -/
def autosampleStep (cfg : Setup) (e : Env) (fds : Finset ℕ) (s : State) : Flow State :=
  match cfg.autosample with
  | none => .next s
  | some a =>
    if a.writeFd ∈ fds then
      let r := nonblockReadline cfg.opt .autosample a.writeFd e.autosample s
      if r.1 = 2 then
        -- `continue`: neither the clients nor the send step come in this iteration
        .again
          { r.2 with
            readfds := r.2.readfds.erase a.writeFd
            trace := r.2.trace ++ [.hangup] }
      else if r.1 = 0 then .next r.2
      else .leave { r.2 with returnValue := r.1 }
    else .next s

/-- The removal of a client: `FD_CLR` and `client_remove`, which closes
the descriptor. -/
def dropClient (c : Client) (s : State) : State :=
  { s with
    readfds := s.readfds.erase c.fd
    clientLst := clientRemove s.clientLst c.fd
    conns := s.conns.eraseP fun k => k.fd = c.fd
    trace := s.trace ++ [.close c.fd c.conn] }

/-- The walk over the clients, from this node on. A node ahead keeps its
descriptor whatever is done on the way; everything else is looked up in
the state. -/
def serveClients (cfg : Setup) (e : Env) (fds : Finset ℕ) : List Client → State → State
  | [], s => s
  | c :: lst, s =>
    if c.fd ∈ fds then
      let r := nonblockReadline cfg.opt (.client c.conn) c.fd (e.clients c.fd)
        (s.log [.serve c.fd c.conn])
      if r.1 = 2 then serveClients cfg e fds lst (dropClient c r.2)
      else if r.1 = 0 then serveClients cfg e fds lst r.2
      -- `break`, with the return value that ends `main_loop` too
      else { r.2 with returnValue := r.1 }
    else serveClients cfg e fds lst s

/-- The clients. A `break` in the walk leaves the walk only. -/
def clientStep (cfg : Setup) (e : Env) (fds : Finset ℕ) (s : State) : Flow State :=
  .next (serveClients cfg e fds s.clientLst s)

/-- `if(cmd_q && !cmd_q->sent) send_command(tty_fd, cmd_q);` -/
def sendStep (e : Env) (s : State) : Flow State :=
  match s.cmdQ with
  | [] => .next s
  | c :: q =>
    if c.sent then .next s
    else
      match sendCommand c e.ttyWrites with
      | .skipped => .next s
      | .failed => .next s
      | .wrote bytes =>
        .next
          { s with
            cmdQ := cmdSent c e.sentAt :: q
            trace := s.trace ++ [.write c.toRequest bytes] }
      | .hang => .hang

/-- The child is told when the need for its samples has changed. -/
def enableStep (cfg : Setup) (e : Env) (s : State) : Flow State :=
  match cfg.autosample with
  | none => .next s
  | some _ =>
    let listenerCnt := (s.clientLst.filter fun c => c.listeners.sensor).length
    if (!s.autosampleEnabled && 0 < listenerCnt) || (s.autosampleEnabled && listenerCnt = 0) then
      let enabled := !s.autosampleEnabled
      match writeLoop e.childWrites with
      | none => .hang
      | some r =>
        .next
          { s with
            autosampleEnabled := enabled
            trace := s.trace ++ [.enable enabled (r ≠ WriteResult.failed)] }
    else .next s

/-- The iteration up to `accept`. -/
def beforeAccept (cfg : Setup) (e : Env) (fds : Finset ℕ) (s : State) : Flow State :=
  ((expiryStep e fds s).bind (signalStep cfg e fds)).bind (ttyStep cfg e fds)

/-- The iteration up to the clients. -/
def beforeClients (cfg : Setup) (e : Env) (fds : Finset ℕ) (s : State) : Flow State :=
  ((beforeAccept cfg e fds s).bind (acceptStep cfg e fds)).bind (autosampleStep cfg e fds)

/-- The rest of the iteration. -/
def fromClients (cfg : Setup) (e : Env) (fds : Finset ℕ) (s : State) : Flow State :=
  ((clientStep cfg e fds s).bind (sendStep e)).bind (enableStep cfg e)

/-- **One iteration of `main_loop`.** -/
def iteration (cfg : Setup) (e : Env) (s : State) : Flow State :=
  match e.select with
  | .failed => .leave { s with returnValue := -1 }
  | .interrupted => .again s
  | .returned readable =>
    (beforeClients cfg e (tmpfds s readable) s).bind (fromClients cfg e (tmpfds s readable))

/-- `while(!return_value)`: the iteration, where the loop makes one. -/
def loopStep (cfg : Setup) (e : Env) (s : State) : Option State :=
  if s.returnValue = 0 then (iteration cfg e s).result else none

/-! ## What an iteration meets

Conditions on the state at the head of the loop and the iteration's
inputs. -/

/-- The wait ended and nothing is ready. -/
def TimesOut (e : Env) (s : State) : Prop :=
  e.select.ended = true ∧ e.fds s = ∅

/-- A signal ends the loop. -/
def Stopped (cfg : Setup) (e : Env) (s : State) : Prop :=
  cfg.sigFd ∈ e.fds s ∧ signalHandle e.signals = true

/-- **The iteration takes a firmware line.** -/
def TakesLine (cfg : Setup) (e : Env) (s : State) : Prop :=
  cfg.ttyFd ∈ e.fds s ∧ ¬ Stopped cfg e s ∧ Completes s.ttyBuffer e.tty.bytes

/-- **The iteration finds the end of the pipe from the child.** -/
def LosesPipe (cfg : Setup) (e : Env) (s : State) : Prop :=
  (∃ a ∈ cfg.autosample, a.writeFd ∈ e.fds s) ∧ ¬ Stopped cfg e s ∧
    (cfg.cmdListenFd ∈ e.fds s → e.accept.isSome = true) ∧
    RunsDry s.autosampleBuffer e.autosample.bytes ∧
    (e.autosample.stop = .eof ∨ e.autosample.stop = .error .badf)

instance (e : Env) (s : State) : Decidable (TimesOut e s) :=
  inferInstanceAs (Decidable (_ ∧ _))

instance (cfg : Setup) (e : Env) (s : State) : Decidable (Stopped cfg e s) :=
  inferInstanceAs (Decidable (_ ∧ _))

instance (cfg : Setup) (e : Env) (s : State) : Decidable (TakesLine cfg e s) :=
  inferInstanceAs (Decidable (_ ∧ _))

instance (cfg : Setup) (e : Env) (s : State) : Decidable (LosesPipe cfg e s) :=
  inferInstanceAs (Decidable (_ ∧ _))

/-- The descriptor `accept` gives is not open: not one of the loop's own
and not that of a connection. -/
def Env.Fresh (cfg : Setup) (s : State) (e : Env) : Prop :=
  ∀ fd ∈ e.accept, fd ∉ cfg.fds ∧ fd ∉ s.conns.map Conn.fd

instance (cfg : Setup) (s : State) (e : Env) : Decidable (e.Fresh cfg s) :=
  inferInstanceAs (Decidable (∀ fd ∈ e.accept, fd ∉ cfg.fds ∧ fd ∉ s.conns.map Conn.fd))

/-- **A run of `main_loop`** whose iterations all meet an assumption,
with a kernel that never gives out a descriptor twice. -/
abbrev Runs (cfg : Setup) (A : State → Env → Prop) : State → State → Prop :=
  Reach.Run (loopStep cfg) fun s e => e.Fresh cfg s ∧ A s e

/-- **The states `main_loop` reaches** by such a run, whatever the stack
held where its buffers are. -/
def Reachable (cfg : Setup) (A : State → Env → Prop) (s : State) : Prop :=
  ∃ staleTty stalePipe, Runs cfg A (entry cfg staleTty stalePipe) s

end Daemon

end Realraum
