import Realraum.Daemon.Model.Commands
/-!
# The daemon — `nonblock_readline` and `process_tty`

Both read one byte at a time into the buffer until a line is complete,
the buffer is full or there is nothing to read, and share that loop here
(`readLoop`). One call's input is the bytes its `read()`s give and what
the next one gives after them. The offset is reset before the line is
acted on, which no callee can tell: none of them looks at it.
-/

namespace Realraum

namespace Daemon

/-- How the reading loop is left. -/
inductive LineExit
  | dry | overflow | newline
  deriving DecidableEq

/-- The reading loop: where it is left, the buffer there, and the reads
on the way. -/
def readLoop (p : Port) : ReadBuffer → List UInt8 → LineExit × ReadBuffer × List Event
  | b, [] => (.dry, b, [.dry p b.offset])
  | b, x :: xs =>
    let stored := b.store b.offset x
    if x = linefeed then (.newline, stored, [.read p b.offset x])
    -- the offset goes back to the start in the middle of the line
    else if sizeofBuf ≤ b.offset + 1 then (.overflow, stored.reset, [.read p b.offset x])
    else
      let r := readLoop p { stored with offset := b.offset + 1 } xs
      (r.1, r.2.1, .read p b.offset x :: r.2.2)

/-- **A line ends in this input**: there is a line feed, and the buffer
is not full before it. -/
def Completes (b : ReadBuffer) (xs : List UInt8) : Prop :=
  linefeed ∈ xs ∧ b.offset + (xs.takeWhile (· ≠ linefeed)).length < sizeofBuf

/-- **The input runs dry**: there is no line feed, and the buffer does
not fill up. -/
def RunsDry (b : ReadBuffer) (xs : List UInt8) : Prop :=
  linefeed ∉ xs ∧ b.offset + xs.length < sizeofBuf

instance (b : ReadBuffer) (xs : List UInt8) : Decidable (Completes b xs) :=
  inferInstanceAs (Decidable (_ ∧ _))

instance (b : ReadBuffer) (xs : List UInt8) : Decidable (RunsDry b xs) :=
  inferInstanceAs (Decidable (_ ∧ _))

/-- The errors of `read()` the code tells apart, and some it does not. -/
inductive Errno
  | again | badf | intr | connreset | other (n : ℕ)
  deriving DecidableEq

/-- What `read()` gives after the bytes. -/
inductive ReadStop
  | eof
  | error (e : Errno)
  deriving DecidableEq

/-- What `nonblock_readline` returns when `read()` gives no byte: `2` at
the end of the stream, `0` when there is nothing yet, else the `-1` of
`read()`. -/
def ReadStop.code : ReadStop → ℤ
  | .eof => 2
  | .error .badf => 2
  | .error .again => 0
  | .error _ => -1

/-- The input of one call of `nonblock_readline`: bytes, what follows
them, and whether the allocations for a line among them succeed. -/
structure Feed where
  bytes : List UInt8
  stop : ReadStop
  mem : CmdMem

/-- `nonblock_readline`. -/
def nonblockReadline (opt : Options) (p : Port) (fd : ℕ) (f : Feed) (s : State) : ℤ × State :=
  match readLoop p (s.buffer p) f.bytes with
  | (.dry, b, es) => (f.stop.code, (s.setBuffer p b).log es)
  | (.overflow, b, es) => (0, (s.setBuffer p b).log es)
  | (.newline, b, es) =>
    let b := b.store b.offset 0
    let s := (s.setBuffer p b.reset).log (es ++ [.store p b.offset, .line p b.text])
    processCmd opt f.mem p fd b.text s

/-- What ends the reading in `process_tty`: `select` with nothing to
read or an error, or a `read()` that gives no byte. -/
inductive TtyStop
  | quiet
  | selectError
  | eof
  | error (e : Errno)
  deriving DecidableEq

/-- What `process_tty` returns there. -/
def TtyStop.code : TtyStop → ℤ
  | .quiet => 0
  | .selectError => -1
  | .eof => 2
  | .error .again => 0
  | .error _ => -1

/-- The input of one call of `process_tty`. -/
structure TtyFeed where
  bytes : List UInt8
  stop : TtyStop

/-- The end of a firmware line: NUL for the line feed, and for a carriage
return in front of it. -/
def endTtyLine (b : ReadBuffer) : ReadBuffer × List Event :=
  let ended := b.store b.offset 0
  if b.offset > 0 ∧ ended.buf (b.offset - 1) = carriageReturn then
    (ended.store (b.offset - 1) 0, [.store .tty b.offset, .store .tty (b.offset - 1)])
  else (ended, [.store .tty b.offset])

/-- The line as clients see it: `Sensor c` becomes the name of the first
sample device with the value `c`, where there is one. -/
def responseData (opt : Options) (text : CStr) : CStr :=
  if startsWith text "Sensor " then
    match text.drop 7 with
    | [] => text
    | c :: rest =>
      match keyValueStorageFindFirstStringvalue opt.sampledevs [c] with
      | some name => name ++ rest
      | none => text
  else text

/-- `send_response` to the descriptor in the head of the queue. -/
def State.sendAnswer (s : State) (text : CStr) : State :=
  match s.cmdQ with
  | [] => s
  | c :: _ => s.log [.answer c.toRequest (s.connAt c.fd) text]

/-- The text goes to the listeners of a category when the line begins
with the category's word. -/
def State.sendCategory (s : State) (line : CStr) (word : String) (flag : Listeners → Bool)
    (except : Option ℕ) (text : CStr) : State :=
  if startsWith line word then s.sendToListener flag except text else s

/-- What `process_tty` does with a complete line: one answer, the
listeners of the line's category, and the head of the queue is popped. -/
def handleTtyLine (opt : Options) (line : CStr) (s : State) : State :=
  let text := responseData opt line
  let cmdFd := s.cmdQ.head?.map fun c => c.fd
  ((((((s.sendAnswer text).sendCategory line "Error:" Listeners.error cmdFd text).sendCategory
    line "movement" Listeners.movement cmdFd text).sendCategory
    line "PanicButton" Listeners.button cmdFd text).sendCategory
    line "Sensor " Listeners.sensor cmdFd text)).popCmd false

/-- `process_tty`. -/
def processTty (opt : Options) (f : TtyFeed) (s : State) : ℤ × State :=
  match readLoop .tty s.ttyBuffer f.bytes with
  | (.dry, b, es) => (f.stop.code, (s.setBuffer .tty b).log es)
  | (.overflow, b, es) => (0, (s.setBuffer .tty b).log es)
  | (.newline, b, es) =>
    let (b, es') := endTtyLine b
    let s := (s.setBuffer .tty b.reset).log (es ++ es' ++ [.line .tty b.text])
    (0, handleTtyLine opt b.text s)

end Daemon

end Realraum
