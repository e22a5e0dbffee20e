import Realraum.Daemon.Model.Main
/-!
# The daemon — signals in a call of `main_loop`

`sig_handler` can run between any two pieces of an iteration, and after
the loop until `signal_stop` closes the pipe. A call is cut into these
pieces here; the pipe holds at most one `sigset_t`, because the handler
reads what is in it before it writes. What the call has caught, and what
of it came after the last `select`, is kept for the statements.
-/

namespace Realraum

namespace Daemon

/-- A `sigset_t`, as the list of its members. -/
abbrev SigSet := List Signal

/-- `sig_handler`, on what is in the pipe. -/
def sigHandler (sig : Signal) (pipe : Option SigSet) : Option SigSet :=
  some (sig :: pipe.getD [])

/-- `SIGINT`, `SIGQUIT` and `SIGTERM`. -/
def Signal.Ends (sig : Signal) : Prop := signalHandle [sig] = true

instance : DecidablePred Signal.Ends :=
  fun sig => inferInstanceAs (Decidable (signalHandle [sig] = true))

/-- The pieces of an iteration behind `select`. -/
inductive Piece
  | expiry | signals | tty | accept | autosample | clients | send | enable
  deriving DecidableEq

namespace Piece

/-- What a piece does. -/
def run (cfg : Setup) (e : Env) (fds : Finset ℕ) : Piece → State → Flow State
  | expiry => expiryStep e fds
  | signals => signalStep cfg e fds
  | tty => ttyStep cfg e fds
  | accept => acceptStep cfg e fds
  | autosample => autosampleStep cfg e fds
  | clients => clientStep cfg e fds
  | send => sendStep e
  | enable => enableStep cfg e

/-- The piece that follows, unless it is the last. -/
def next : Piece → Option Piece
  | expiry => some signals
  | signals => some tty
  | tty => some accept
  | accept => some autosample
  | autosample => some clients
  | clients => some send
  | send => some enable
  | enable => none

end Piece

/-- Where control is in a call of `main_loop`. -/
inductive Point
  /-- At the head of the loop. -/
  | head
  /-- Before a piece, in an iteration with these inputs and these
  descriptors ready. -/
  | before (k : Piece) (e : Env) (fds : Finset ℕ)
  /-- Out of the loop, before `signal_stop`. -/
  | leaving
  /-- `main_loop` has returned. -/
  | returned (ret : ℤ)

/-- **A call of `main_loop`.** -/
structure Call where
  point : Point
  state : State
  pipe : Option SigSet
  /-- The signals caught in this call. -/
  caught : List Signal
  /-- Those of them that came after `select` last returned. -/
  late : List Signal

/-- The call behind `signal_init`. -/
def Call.start (cfg : Setup) (staleTty stalePipe : ℕ → UInt8) : Call :=
  ⟨.head, entry cfg staleTty stalePipe, none, [], []⟩

/-- What happens next: a signal arrives, or the call goes on. The inputs
of an iteration are fixed at its head. -/
inductive CallAct
  | arrives (sig : Signal)
  | goesOn (e : Env)

/-- The head of the loop: `while(!return_value)` and `select`. -/
def callHead (e : Env) (c : Call) : Call :=
  if c.state.returnValue = 0 then
    match e.select with
    | .failed => { c with point := .leaving, state := { c.state with returnValue := -1 } }
    | .interrupted => c
    | .returned readable =>
      { c with point := .before .expiry e (tmpfds c.state readable), late := [] }
  else { c with point := .leaving }

/-- Where a piece leaves the call. -/
def callAfter (k : Piece) (e : Env) (fds : Finset ℕ) (c : Call) : Flow State → Option Call
  | .next t => some { c with state := t, point := k.next.elim .head fun k' => .before k' e fds }
  | .again t => some { c with state := t, point := .head }
  | .leave t => some { c with state := t, point := .leaving }
  | .hang => none

/-- One piece. `signal_handle` takes the set out of the pipe. -/
def callPiece (cfg : Setup) (k : Piece) (e : Env) (fds : Finset ℕ) (c : Call) : Option Call :=
  if k = .signals then
    let e := { e with signals := c.pipe.getD [] }
    callAfter k e fds { c with pipe := if cfg.sigFd ∈ fds then none else c.pipe }
      (k.run cfg e fds c.state)
  else callAfter k e fds c (k.run cfg e fds c.state)

/-- **One step of a call.** -/
def callStep (cfg : Setup) (a : CallAct) (c : Call) : Option Call :=
  match a, c.point with
  | .arrives _, .returned _ => none
  | .arrives sig, _ =>
    some { c with
      pipe := sigHandler sig c.pipe
      caught := sig :: c.caught
      late := sig :: c.late }
  | .goesOn e, .head => some (callHead e c)
  | .goesOn _, .before k e fds => callPiece cfg k e fds c
  -- `signal_stop` closes the pipe with what is in it
  | .goesOn _, .leaving => some { c with point := .returned c.state.returnValue, pipe := none }
  | .goesOn _, .returned _ => none

/-- `select` tells of a descriptor just when it is ready. -/
def Select.Shows (sel : Select) (fd : ℕ) (ready : Bool) : Prop :=
  match sel with
  | .returned readable => fd ∈ readable ↔ ready = true
  | _ => True

namespace Point

/-- Control is at the head of the loop. -/
def atHead : Point → Bool
  | head => true
  | _ => false

/-- Control is behind the loop, before `signal_stop`. -/
def behindLoop : Point → Bool
  | leaving => true
  | _ => false

/-- The inputs of the iteration, where the tty is looked at next. -/
def atTty : Point → Option (Env × Finset ℕ)
  | before .tty e fds => some (e, fds)
  | _ => none

end Point

/-- **What is known of the kernel**: `accept` gives a descriptor that is
not open, and `select` shows the signal pipe when there is a set in it. -/
def Call.Kernel (cfg : Setup) (c : Call) : CallAct → Prop
  | .arrives _ => True
  | .goesOn e =>
    c.point.atHead = true → e.Fresh cfg c.state ∧ e.select.Shows cfg.sigFd c.pipe.isSome

/-- **The calls that are reached** by steps that meet a condition. -/
def Call.Reached (cfg : Setup) (B : Call → CallAct → Prop) (c : Call) : Prop :=
  ∃ staleTty stalePipe, Reach.Run (callStep cfg) (fun c a => c.Kernel cfg a ∧ B c a)
    (.start cfg staleTty stalePipe) c

/-- The tty is at its end when it is read. -/
def LosesTty (cfg : Setup) (e : Env) (fds : Finset ℕ) (s : State) : Prop :=
  cfg.ttyFd ∈ fds ∧ RunsDry s.ttyBuffer e.tty.bytes ∧ e.tty.stop = .eof

/-- **No request to end comes too late**: none after the `select` of an
iteration that loses the tty. -/
def InTime (cfg : Setup) (c : Call) : CallAct → Prop
  | .arrives sig => c.point.behindLoop = true → c.state.returnValue = 2 → ¬ sig.Ends
  | .goesOn _ =>
    ∀ p ∈ c.point.atTty, LosesTty cfg p.1 p.2 c.state → ∀ sig ∈ c.late, ¬ sig.Ends

instance (sel : Select) (fd : ℕ) (ready : Bool) : Decidable (sel.Shows fd ready) :=
  match sel with
  | .returned readable => inferInstanceAs (Decidable (fd ∈ readable ↔ ready = true))
  | .failed => inferInstanceAs (Decidable True)
  | .interrupted => inferInstanceAs (Decidable True)

instance (cfg : Setup) (e : Env) (fds : Finset ℕ) (s : State) : Decidable (LosesTty cfg e fds s) :=
  inferInstanceAs (Decidable (_ ∧ _ ∧ _))

instance (cfg : Setup) (c : Call) : (a : CallAct) → Decidable (c.Kernel cfg a)
  | .arrives _ => inferInstanceAs (Decidable True)
  | .goesOn _ => inferInstanceAs (Decidable (_ → _ ∧ _))

instance (cfg : Setup) (c : Call) : (a : CallAct) → Decidable (InTime cfg c a)
  | .arrives _ => inferInstanceAs (Decidable (_ → _ → ¬ _))
  | .goesOn _ => inferInstanceAs (Decidable (∀ p ∈ c.point.atTty,
      LosesTty cfg p.1 p.2 c.state → ∀ sig ∈ c.late, ¬ sig.Ends))

end Daemon

end Realraum
