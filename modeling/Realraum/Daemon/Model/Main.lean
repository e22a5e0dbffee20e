import Realraum.Daemon.Model.MainLoop
/-!
# The daemon — `main` around `main_loop`

`main` opens the tty and enters `main_loop` until that returns something
other than `2`. The listen socket and the autosample process live through
all calls; the locals of `main_loop` and its clients do not. The pipe to
the child is the list of all bytes written to it, of which the child has
read so many.
-/

namespace Realraum

namespace Daemon

/-- What every call of `main_loop` is given: the listen socket, the pipes
to the autosample process, and the options. -/
structure Service where
  cmdListenFd : ℕ
  autosample : Option Autosample
  opt : Options
  deriving DecidableEq

/-- The service a setup belongs to. -/
def Setup.service (cfg : Setup) : Service := ⟨cfg.cmdListenFd, cfg.autosample, cfg.opt⟩

/-- Where `main` is. -/
inductive Phase
  /-- At the top of its `for(;;)`. -/
  | opening
  /-- In `main_loop`, at the head of its loop. -/
  | looping (cfg : Setup) (s : State)
  /-- Behind the loop, with this `ret`. -/
  | ended (ret : ℤ)

/-- `if(ret == 2) .. else break;` -/
def afterMainLoop (ret : ℤ) : Phase :=
  if ret = 2 then .opening else .ended ret

/-- What `autosample_process` keeps of its pipe: how many bytes it has
read, and the last of them. -/
structure Child where
  read : ℕ
  sampleEnabled : Bool
  deriving DecidableEq

/-- The daemon: where `main` is, every enable byte written to the child
in all calls of `main_loop`, and the child. -/
structure Main where
  phase : Phase
  written : List Bool
  child : Child

namespace Main

/-- The last enable byte written, 0 if there is none. -/
def lastEnable (m : Main) : Bool := m.written.getLastD false

/-- The bytes in the pipe to the child. -/
def pipe (m : Main) : List Bool := m.written.drop m.child.read

/-- `main` behind `init_command_socket`, the child just started. -/
def start : Main := ⟨.opening, [], ⟨0, false⟩⟩

end Main

/-- The enable bytes the child's pipe took. -/
def enables (tr : List Event) : List Bool :=
  tr.filterMap fun
    | .enable b true => some b
    | _ => none

/-- What happens next. -/
inductive Act
  /-- `open` or `setup_tty` fails. -/
  | cannotOpen
  /-- `signal_init` fails. -/
  | cannotInit
  /-- `main_loop` is entered. -/
  | enter (cfg : Setup) (staleTty stalePipe : ℕ → UInt8)
  /-- `main_loop` goes through its loop once. -/
  | iterates (e : Env)
  /-- The child reads a byte. -/
  | childReads

/-- The end of an iteration: round again, or out of `main_loop`. -/
def afterIteration (cfg : Setup) (t : State) : Phase :=
  if t.returnValue = 0 then .looping cfg t else afterMainLoop t.returnValue

/-- **One step of the daemon.** -/
def mainStep (svc : Service) (a : Act) (m : Main) : Option Main :=
  match a, m.phase with
  | .cannotOpen, .opening => some m
  | .cannotInit, .opening => some { m with phase := afterMainLoop (-1) }
  | .enter cfg staleTty stalePipe, .opening =>
    if cfg.service = svc then
      -- the locals start afresh, whatever the child was told last
      some { m with phase := .looping cfg (entry cfg staleTty stalePipe) }
    else none
  | .iterates e, .looping cfg s =>
    (loopStep cfg e s).map fun t =>
      { m with
        phase := afterIteration cfg t
        written := m.written ++ enables (t.trace.drop s.trace.length) }
  | .childReads, _ =>
    m.written[m.child.read]?.map fun b => { m with child := ⟨m.child.read + 1, b⟩ }
  | _, _ => none

/-- **Writes to the child succeed.** -/
def PipeWorks : Act → Prop
  | .iterates e => (writeLoop e.childWrites).any (· ≠ WriteResult.failed) = true
  | _ => True

instance : DecidablePred PipeWorks
  | .iterates _ => inferInstanceAs (Decidable (_ = true))
  | .cannotOpen => inferInstanceAs (Decidable True)
  | .cannotInit => inferInstanceAs (Decidable True)
  | .enter _ _ _ => inferInstanceAs (Decidable True)
  | .childReads => inferInstanceAs (Decidable True)

/-- **The states the daemon reaches** by steps that meet a condition,
while writes to the child succeed. -/
def Main.Reached (svc : Service) (B : Main → Act → Prop) (m : Main) : Prop :=
  Reach.Run (mainStep svc) (fun m a => PipeWorks a ∧ B m a) .start m

end Daemon

end Realraum
