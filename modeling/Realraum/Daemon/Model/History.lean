import Realraum.Common.Dispatch
import Realraum.Daemon.Model.MainLoop
/-!
# The daemon — what is read off the history

The projections of a history the results are stated with. The queue's
part of it is a trace of the abstract dispatcher.
-/

namespace Realraum

namespace Daemon

/-- What an event is to the dispatcher. -/
def Event.act : Event → Option (Dispatch.Act Request)
  | .push r => some (.push r)
  | .write r _ => some (.write r)
  | .pop r sent _ => some (.pop r sent)
  | _ => none

/-- The dispatcher's trace in a history. -/
def acts (tr : List Event) : List (Dispatch.Act Request) := tr.filterMap Event.act

/-- The dispatcher's queue in a state's. -/
def entries (q : List Cmd) : List (Request × Bool) := q.map fun c => (c.toRequest, c.sent)

/-- The bytes read from a port. -/
def bytesOf (p : Port) (tr : List Event) : List UInt8 :=
  tr.filterMap fun
    | .read q _ b => if q = p then some b else none
    | _ => none

/-- The lines taken from a port. -/
def linesOf (p : Port) (tr : List Event) : List CStr :=
  tr.filterMap fun
    | .line q text => if q = p then some text else none
    | _ => none

/-- A line as it is taken from a port: from the tty without the carriage
return that ends it. -/
def withoutReturn : Port → List UInt8 → List UInt8
  | .tty, l => if l.getLast? = some carriageReturn then l.dropLast else l
  | _, l => l

/-- The string that is taken where these bytes stand in the port's
buffer. -/
def lineText (p : Port) (bs : List UInt8) : CStr := cstring (withoutReturn p bs)

/-- Every access to a buffer is inside it: a byte read, a read that gave
none, a store of the code's own. -/
def Event.Inside : Event → Prop
  | .read _ i _ => i < sizeofBuf
  | .dry _ i => i < sizeofBuf
  | .store _ i => i < sizeofBuf
  | _ => True

/-- The connections that were accepted. -/
def accepts (tr : List Event) : List Conn :=
  tr.filterMap fun
    | .accept fd k => some ⟨fd, k⟩
    | _ => none

/-- The connections that were closed. -/
def closes (tr : List Event) : List Conn :=
  tr.filterMap fun
    | .close fd k => some ⟨fd, k⟩
    | _ => none

/-- The connections that were accepted and are not closed yet, in order
of acceptance. -/
def openConns (tr : List Event) : List Conn :=
  (accepts tr).filter fun c => c ∉ closes tr

/-- The pipe from the child, until it was taken out. -/
def pipeFds (cfg : Setup) (tr : List Event) : Finset ℕ :=
  if .hangup ∈ tr then ∅ else (cfg.autosample.toList.map Autosample.writeFd).toFinset

/-- **What `readfds` ought to be** after a history: the tty, the listen
socket, the signal pipe, the connections that are open, and the child's
pipe. -/
def watched (cfg : Setup) (tr : List Event) : Finset ℕ :=
  {cfg.ttyFd, cfg.cmdListenFd, cfg.sigFd} ∪ ((openConns tr).map Conn.fd).toFinset ∪ pipeFds cfg tr

/-- The connection an answer to a request ought to reach: the one the
request was read on, while it is open. -/
def issuerConn (r : Request) (conns : List Conn) : Option ℕ :=
  match r.port with
  | .client k => if ⟨r.fd, k⟩ ∈ conns then some k else none
  | _ => none

/-- **Every answer reaches the connection its request was read on**, or
none when that is closed. -/
def AnswersReachIssuer (tr : List Event) : Prop :=
  ∀ past r conn text, past ++ [.answer r conn text] <+: tr →
    conn = issuerConn r (openConns past)

/-- The calls of `nonblock_readline` on clients. -/
def serves (tr : List Event) : List Conn :=
  tr.filterMap fun
    | .serve fd k => some ⟨fd, k⟩
    | _ => none

end Daemon

end Realraum
