import Realraum.Common.Framing
import Realraum.Daemon.Model.History
/-!
# The daemon and the firmware

The system of the daemon and what is at the other end of the tty. The
firmware answers each command that was written with one line, and prints
`movement` and `PanicButton` when it likes; the daemon reads what was
printed byte by byte, as far as it has got. A line that answers a command
says nothing of which.
-/

namespace Realraum

namespace Daemon

/-- A line as `Serial.println` prints it, without the line feed: the
firmware's lines fit the daemon's buffer. -/
structure Line where
  bytes : List UInt8
  whole : linefeed ∉ bytes
  fits : bytes.length < sizeofBuf
  deriving DecidableEq

/-- What the firmware prints: the answer to a command, or a line of its
own. -/
inductive Printed
  | reply (l : Line)
  | movement
  | panicButton
  deriving DecidableEq

namespace Printed

/-- The line of it. -/
def line : Printed → Line
  | reply l => l
  | movement => ⟨ascii "movement" ++ [carriageReturn], by decide, by decide⟩
  | panicButton => ⟨ascii "PanicButton" ++ [carriageReturn], by decide, by decide⟩

/-- Whether it answers a command. -/
def isReply : Printed → Bool
  | reply _ => true
  | _ => false

/-- The line as the daemon takes it. -/
def text (l : Printed) : CStr := lineText .tty l.line.bytes

end Printed

/-- The answers among what was printed. -/
def replies (printed : List Printed) : List Printed := printed.filter Printed.isReply

/-- The bytes that were printed. -/
def stream (printed : List Printed) : List UInt8 :=
  Framing.encode linefeed (printed.map fun l => l.line.bytes)

/-- The commands written to the tty. -/
def written (tr : List Event) : List Request := Dispatch.writes (acts tr)

/-- Of what was printed, the lines the daemon has taken so far. -/
def taken (printed : List Printed) (tr : List Event) : List Printed :=
  printed.take (linesOf .tty tr).length

/-- **The state of the system**: the daemon, and all that the firmware
printed. -/
structure World where
  daemon : State
  printed : List Printed

/-- What happens in the system: the firmware prints a line, or the daemon
goes through its loop once. -/
inductive Happening
  | prints (l : Printed)
  | iterates (e : Env)

/-- **One step of the system.** The firmware answers only a command it has
not answered yet. -/
def worldStep (cfg : Setup) : Happening → World → Option World
  | .prints l, w =>
    if l.isReply ∧ (written w.daemon.trace).length ≤ (replies w.printed).length then none
    else some { w with printed := w.printed ++ [l] }
  | .iterates e, w => (loopStep cfg e w.daemon).map fun s => { w with daemon := s }

/-- **What is assumed of a step**: a descriptor that is accepted is new,
the bytes the tty gives are the next of those printed, and no command
that was sent expires. -/
def Assumed (cfg : Setup) (w : World) : Happening → Prop
  | .prints _ => True
  | .iterates e =>
    e.Fresh cfg w.daemon ∧ bytesOf .tty w.daemon.trace ++ e.tty.bytes <+: stream w.printed ∧
      (TimesOut e w.daemon → ∀ c ∈ w.daemon.cmdQ.head?,
        cmdHasExpired c e.now = true → c.sent = false)

/-- **A line that answers nothing is taken while nothing is queued.** -/
def TakenIdle (cfg : Setup) (w : World) : Happening → Prop
  | .prints _ => True
  | .iterates e =>
    TakesLine cfg e w.daemon →
      (∀ l ∈ w.printed[(linesOf .tty w.daemon.trace).length]?, l.isReply = false →
        w.daemon.cmdQ = [])

instance (cfg : Setup) (w : World) : (i : Happening) → Decidable (Assumed cfg w i)
  | .prints _ => inferInstanceAs (Decidable True)
  | .iterates _ => inferInstanceAs (Decidable (_ ∧ _ ∧ _))

instance (cfg : Setup) (w : World) : (i : Happening) → Decidable (TakenIdle cfg w i)
  | .prints _ => inferInstanceAs (Decidable True)
  | .iterates _ => inferInstanceAs (Decidable (_ → _))

/-- **The worlds the system reaches** by steps that meet the assumptions
and a condition. -/
def World.Reached (cfg : Setup) (B : World → Happening → Prop) (w : World) : Prop :=
  ∃ staleTty stalePipe, Reach.Run (worldStep cfg) (fun w i => Assumed cfg w i ∧ B w i)
    ⟨entry cfg staleTty stalePipe, []⟩ w

/-! ## What a line of the firmware did -/

/-- What became of one line: its text, the answers it was sent as, and
the commands it removed from the queue. -/
structure Handled where
  text : CStr
  answers : List (Request × CStr)
  pops : List Request
  deriving DecidableEq

/-- One event more. -/
def handle (hs : List Handled) : Event → List Handled
  | .line .tty text => hs ++ [⟨text, [], []⟩]
  | .answer r _ text => hs.modifyLast fun h => { h with answers := h.answers ++ [(r, text)] }
  | .pop r _ false => hs.modifyLast fun h => { h with pops := h.pops ++ [r] }
  | _ => hs

/-- **What every line did**, read off a history. -/
def handled (tr : List Event) : List Handled := tr.foldl handle []

/-- **What every line ought to do**: the `k`-th answer goes to the `k`-th
command written and removes it, any other line does neither. -/
def expected (opt : Options) : List Printed → List Request → List Handled
  | .reply l :: ls, r :: rs =>
    ⟨(Printed.reply l).text, [(r, responseData opt (Printed.reply l).text)], [r]⟩ ::
      expected opt ls rs
  | l :: ls, rs => ⟨l.text, [], []⟩ :: expected opt ls rs
  | [], _ => []

/-- **Every line did what it ought to.** -/
def RepliesMatch (cfg : Setup) (w : World) : Prop :=
  handled w.daemon.trace =
    expected cfg.opt (taken w.printed w.daemon.trace) (written w.daemon.trace)

instance (cfg : Setup) (w : World) : Decidable (RepliesMatch cfg w) :=
  inferInstanceAs (Decidable (_ = _))

end Daemon

end Realraum
