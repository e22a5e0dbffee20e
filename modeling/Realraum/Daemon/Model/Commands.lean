import Realraum.Daemon.Model.State
/-!
# The daemon — `process_cmd` and `send_command`

`send_response` shows here as the call it is: its result is ignored by
every caller, so what it gets through changes nothing in the loop.
`log_printf` is left out.
-/

namespace Realraum

namespace Daemon

namespace State

/-- `send_response(fd, text)`, called from `process_cmd`. -/
def sendResponse (s : State) (fd : ℕ) (text : CStr) : State :=
  s.log [.respond fd (s.connAt fd) text]

/-- `SEND_TO_LISTENER`: the text goes to every client that has the flag
and is not on the excepted descriptor, which is `none` for `-1`. -/
def sendToListener (s : State) (flag : Listeners → Bool) (except : Option ℕ) (text : CStr) :
    State :=
  s.log ((s.clientLst.filter fun c => flag c.listeners && some c.fd ≠ except).map
    fun c => .respond c.fd (s.connAt c.fd) text)

/-- `cmd_pop(&cmd_q)`. -/
def popCmd (s : State) (expired : Bool) : State :=
  match s.cmdQ with
  | [] => s
  | c :: _ =>
    { s with cmdQ := cmdPop s.cmdQ, trace := s.trace ++ [.pop c.toRequest c.sent expired] }

/-- Change the flags of the first client with this descriptor, as
assignments through what `client_find` returns do. -/
def setListeners (s : State) (fd : ℕ) (f : Listeners → Listeners) : State :=
  { s with clientLst := s.clientLst.map fun c =>
      if (clientFind s.clientLst fd).any (fun l => l.conn = c.conn) then
        { c with listeners := f c.listeners } else c }

end State

/-- The command a line begins with, and the line after `cmd[5] = '_'`
joined the two words of a power command. -/
def recognise (cmd : CStr) : Option (CmdId × CStr) :=
  if startsWith cmd "power on" then some (.powerOn, cmd.set 5 underscore)
  else if startsWith cmd "power off" then some (.powerOff, cmd.set 5 underscore)
  else if startsWith cmd "sample" then some (.sample, cmd)
  else if startsWith cmd "log" then some (.log, cmd)
  else if startsWith cmd "listen" then some (.listen, cmd)
  else none

/-- The allocations one `process_cmd` makes: `asprintf` for the text to
the request listeners, and those of `cmd_push`. -/
structure CmdMem extends PushMem where
  asprintf : Bool

/-- The value a request is queued with. -/
def findValue (opt : Options) (id : CmdId) (param : Option CStr) : Option CStr :=
  match id with
  | .powerOn | .powerOff => keyValueStorageFind opt.powerids param
  | .sample => keyValueStorageFind opt.sampledevs param
  | .log | .listen => param

/-- The answer to a request nothing is configured for. -/
def invalidText : CmdId → CStr
  | .sample => ascii "Error: invalid sample device"
  | _ => ascii "Error: invalid power id"

/-- What the request listeners get: the line up to a line feed. -/
def requestText (cmd : CStr) : CStr :=
  (ascii "Request: " ++ cmd).takeWhile (· ≠ linefeed)

/-- The `POWER_ON`, `POWER_OFF` and `SAMPLE` branches of `process_cmd`:
answer an invalid request, tell the request listeners, and queue the
request whether it is valid or not. -/
def processRequest (opt : Options) (mem : CmdMem) (p : Port) (fd : ℕ) (id : CmdId) (cmd : CStr)
    (s : State) : ℤ × State :=
  let value := findValue opt id (behindBlank cmd)
  let s := if value.isNone then s.sendResponse fd (invalidText id) else s
  let s := if mem.asprintf then s.sendToListener Listeners.request (some fd) (requestText cmd)
    else s
  -- queued without a value too: `send_command` skips such an entry
  let r : Request := ⟨s.pushed, p, fd, id, value⟩
  let (ret, q) := cmdPush s.cmdQ r mem.toPushMem
  if ret = 0 then (0, { s with cmdQ := q, trace := s.trace ++ [.push r] }) else (ret, s)

/-- The flags after a `listen` with this parameter. -/
def listenFlags (param : Option CStr) (l : Listeners) : Listeners :=
  match param with
  | none => .all
  | some p =>
    if startsWith p "all" then .all
    else if startsWith p "none" then .none
    else if startsWith p "request" then { l with request := true }
    else if startsWith p "error" then { l with error := true }
    else if startsWith p "sensor" then { l with sensor := true }
    else if startsWith p "movement" then { l with movement := true }
    else if startsWith p "button" then { l with button := true }
    else l

/-- `process_cmd`, on a line from this port and descriptor. The edit of
the line is a store into the buffer it stands in. -/
def processCmd (opt : Options) (mem : CmdMem) (p : Port) (fd : ℕ) (cmd : CStr) (s : State) :
    ℤ × State :=
  match recognise cmd with
  | none => (0, s)
  | some (.listen, cmd) => (0, s.setListeners fd (listenFlags (behindBlank cmd)))
  | some (.log, _) => (0, s)
  | some (.sample, cmd) => processRequest opt mem p fd .sample cmd s
  | some (id, cmd) => processRequest opt mem p fd id cmd (s.log [.store p 5])

/-! ## `send_command` -/

/-- What one `write()` gives: how many bytes were taken, or an error. -/
inductive WriteResult
  | accepted (n : ℕ)
  | interrupted
  | failed
  deriving DecidableEq

/-- `do ret = write(..); while(!ret || (ret == -1 && errno == EINTR))`:
the first result that ends the loop, or none where the results given do
not end it. -/
def writeLoop : List WriteResult → Option WriteResult
  | [] => none
  | .accepted 0 :: rest => writeLoop rest
  | .interrupted :: rest => writeLoop rest
  | r :: _ => some r

/-- The bytes `send_command` writes for a value: the first sixty, in the
case that tells the firmware on from off. -/
def commandBytes (id : CmdId) (param : CStr) : List UInt8 :=
  match id with
  | .powerOn => (param.take 60).map toupper
  | .powerOff => (param.take 60).map tolower
  | _ => param.take 60

/-- What `send_command` did: nothing, a write that failed, or a write
that took these bytes; `hang` where its loop does not end. -/
inductive Sent
  | skipped
  | failed
  | wrote (bytes : List UInt8)
  | hang
  deriving DecidableEq

/-- `send_command`, up to the `cmd_sent` that follows a write that
worked. -/
def sendCommand (c : Cmd) (results : List WriteResult) : Sent :=
  match c.param, c.cmd with
  | none, _ => .skipped
  | some _, .log => .skipped
  | some _, .listen => .skipped
  | some param, id =>
    match writeLoop results with
    | none => .hang
    | some (.accepted n) => .wrote ((commandBytes id param).take n)
    | some _ => .failed

/-! ## `send_response`

What `write` gives in the call is one list, which a loop for the text and
one for the line feed behind it go through one after the other. -/

/-- The first loop of `send_response` for `len` bytes, behind `offset`
bytes that were written: whether it was left by its `break`, how far it
came and the results it did not use, or none where they do not end it. -/
def responseLoop (len : ℕ) : ℕ → List WriteResult → Option (Bool × ℕ × List WriteResult)
  | _, [] => none
  | offset, .failed :: rest => some (false, offset, rest)
  | offset, .interrupted :: rest =>
    if len ≤ offset + 1 then some (true, offset, rest) else responseLoop len offset rest
  | offset, .accepted n :: rest =>
    let offset := offset + min n (len - offset)
    if len ≤ offset + 1 then some (true, offset, rest) else responseLoop len offset rest

/-- `send_response`: what it returns and what it wrote. -/
def sendResponse (response : Option CStr) (results : List WriteResult) :
    Option (ℤ × List UInt8) :=
  match response with
  | none => some (-1, [])
  | some response =>
    match responseLoop response.length 0 results with
    | none => none
    | some (false, offset, _) => some (-1, response.take offset)
    | some (true, offset, rest) =>
      match writeLoop rest with
      | none => none
      | some (.accepted _) => some (0, response.take offset ++ [linefeed])
      | some _ => some (-1, response.take offset)

end Daemon

end Realraum
