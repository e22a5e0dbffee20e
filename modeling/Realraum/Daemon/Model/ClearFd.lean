import Realraum.Daemon.Model.State
/-!
# The daemon — `clear_fd`

What `main_loop` does before it starts: the tty and the pipe of the
autosample process are read until nothing is there. `clear_fd` fills its
descriptor set and its timeout once, and `select` changes both, so the
kernel may answer with a timeout at any round; what it may not do is the
subject here.
-/

namespace Realraum

namespace Daemon

/-- What comes behind the bytes of a descriptor. -/
inductive Ending
  | silence
  | eof
  deriving DecidableEq

/-- What a descriptor still has to give. -/
structure Input where
  bytes : List UInt8
  ending : Ending
  deriving DecidableEq

/-- One round of `clear_fd`: `select` times out or fails, or the
descriptor is ready and `read()` returns this. -/
inductive Poll
  | timedOut
  | failed
  | ready (ret : ℕ)
  deriving DecidableEq

namespace Input

/-- What is left after a `read()`. -/
def afterRead (d : Input) (ret : ℕ) : Input := { d with bytes := d.bytes.drop ret }

/-- **What the kernel may answer.** Bytes may be late, and a signal may
come at any time. At the end of the stream the descriptor is ready and
`read()` returns 0; in silence it is not ready. -/
def Allows (d : Input) : Poll → Prop
  | .timedOut => d.bytes ≠ [] ∨ d.ending = .silence
  | .failed => True
  | .ready ret =>
    if d.bytes = [] then d.ending = .eof ∧ ret = 0
    else 0 < ret ∧ ret ≤ min 100 d.bytes.length

/-- And in one round after the other, as long as the loop goes on. -/
def AllowsAll : Input → List Poll → Prop
  | _, [] => True
  | d, .timedOut :: _ => d.Allows .timedOut
  | d, .failed :: _ => d.Allows .failed
  | d, .ready ret :: polls => d.Allows (.ready ret) ∧ (d.afterRead ret).AllowsAll polls

/-- **A kernel for this descriptor**: what it answers in each round. -/
def Kernel (d : Input) (k : ℕ → Poll) : Prop := ∀ n, d.AllowsAll ((List.range n).map k)

end Input

/-- `clear_fd`: what it leaves on the descriptor, or none where the
answers given do not end it. -/
def clearFd : List Poll → Input → Option Input
  | [], _ => none
  | .timedOut :: _, d => some d
  | .failed :: _, d => some d
  -- the result of `read()` is not looked at
  | .ready ret :: polls, d => clearFd polls (d.afterRead ret)

/-- `main_loop` up to `signal_init`: the tty is cleared, and the pipe
where `pid_ > 0`. -/
def mainLoopSetup (autosample : Option Autosample) (ttyPolls pipePolls : List Poll)
    (tty pipe : Input) : Option (Input × Input) :=
  (clearFd ttyPolls tty).bind fun tty =>
    match autosample with
    | none => some (tty, pipe)
    | some _ => (clearFd pipePolls pipe).map fun pipe => (tty, pipe)

end Daemon

end Realraum
