import Mathlib.Data.Int.Notation
import Mathlib.Data.Nat.Notation
import Realraum.Common.Raising
import Realraum.Common.Replacing
import Realraum.Common.Text
/-!
# The sound player — actions

An action of `play-sound-status.py` is a section of its configuration. Its
type is a registered one, or `random`, or the name of another action, which
is executed in its place with the arguments collected so far. The options
are fetched in two ways: by section and option, and by a name that is cut
into the two. Everything in the configuration is a byte string; the user
may be a decoded one, which is put together with them only where they are
ASCII. What the functions return is left out; nothing uses it.
-/

namespace Realraum

namespace Sound

namespace Actions

/-- What the functions may raise. -/
inductive PyException
  | attributeError
  /-- A `%(` in an option that `ConfigParser` cannot put a value in for. -/
  | interpolationError
  /-- Also `OverflowError`, for an infinite number. -/
  | valueError
  | ioError
  | unicodeEncodeError
  | unicodeDecodeError
  /-- The recursion is too deep. -/
  | runtimeError
  deriving DecidableEq

/-- What the functions use of Python, where its floating point numbers are
an `F`. -/
structure Python (F : Type) where
  /-- `float` of a text. -/
  float : String → Option F
  /-- `time.sleep` takes it: it is not negative. -/
  sleeps : F → Bool
  gt45 : F → Bool
  int : F → Option ℤ

/-! ## Texts -/

def ascii (text : String) : Bool := text.toList.all (·.toNat < 128)

/-- A text of the source, as `PANIC` is, is a byte string; one that came
with a message may be decoded. -/
inductive BaseString
  | str (text : String)
  | unicode (text : String)
  deriving DecidableEq

/-- `str` of a text. -/
def str : BaseString → Except PyException String
  | .str text => .ok text
  | .unicode text => if ascii text then .ok text else .error .unicodeEncodeError

/-- **Byte strings can be put together with a text**: a decoded one has them
decoded, too, which is as ASCII. -/
def BaseString.decodes (user : BaseString) (texts : List String) : Bool :=
  match user with
  | .str _ => true
  | .unicode _ => texts.all ascii

/-- Byte strings are put together with a text. -/
def decode (user : BaseString) (texts : List String) : Except PyException Unit :=
  if user.decodes texts then .ok () else .error .unicodeDecodeError

/-! ## The configuration -/

/-- **The options of the sections**, those of `DEFAULT` in every section:
each is a text, or nothing where it cannot be interpolated. -/
abbrev Config := List ((String × String) × Option String)

/-- `getSectionValue`. A missing section or option is `None`. -/
def getSectionValue (c : Config) (sec name : String) : Except PyException (Option String) :=
  match c.lookup (sec, name) with
  | none => .ok none
  | some none => .error .interpolationError
  | some (some value) => .ok (some value)

/-- `getValue`. The section is what is in front of the first underscore. -/
def getValue (c : Config) (name : String) : Except PyException (Option String) :=
  match Text.cut '_' name with
  | none => .error .attributeError
  | some (sec, option) => getSectionValue c sec option

/-! ## Registered actions -/

/-- The registered types. -/
inductive Registered
  | remotecmd
  | shellcmd
  | nothing
  deriving DecidableEq

/-- What the type of an action says. -/
inductive ActionType
  | registered (kind : Registered)
  | random
  /-- The name of another action. -/
  | action (name : String)
  deriving DecidableEq

/-- The branches at the end of `executeAction`. -/
def ActionType.of (actionType : String) : ActionType :=
  if actionType = "remotecmd" then .registered .remotecmd
  else if actionType = "shellcmd" then .registered .shellcmd
  else if actionType = "nothing" then .registered .nothing
  else if actionType = "random" then .random
  else .action actionType

/-- A registered action that is executed, up to the process. What becomes of
that is caught by the functions that start it. -/
inductive Executed
  | remotecmd (remoteHost remoteShell : String) (user : BaseString) (args : List String)
  | shellcmd (cmd : String) (ptimeout : ℤ) (stdinput : Option String) (user : BaseString)
      (args : List String)
  | nothing
  deriving DecidableEq

/-- `cmd.replace(placeholder, value)`. -/
def replace (placeholder value cmd : String) : String :=
  .ofList (Replacing.replace placeholder.toList value.toList cmd.toList)

/-- `cmd.replace("%ARG%", " ".join(args))`. -/
def withArgs (args : List String) (cmd : String) : String :=
  replace "%ARG%" (String.intercalate " " args) cmd

/-- `runRemoteCommand`, up to the process. Whatever is raised is caught. -/
def runRemoteCommand (remoteHost remoteShell : Option String) (user : BaseString)
    (args : List String) : Option Executed :=
  match remoteHost, remoteShell with
  | some remoteHost, some remoteShell =>
    let cmd := "ssh -i /flash/tuer/id_rsa -o PasswordAuthentication=no " ++
      "-o StrictHostKeyChecking=no %RHOST% %RSHELL%"
    -- `%USER%` comes last
    if user.decodes [withArgs args (replace "%RSHELL%" remoteShell
      (replace "%RHOST%" remoteHost cmd))] then
      some (.remotecmd remoteHost remoteShell user args)
    else none
  | _, _ => none

variable {F : Type}

/-- `float` of an option, where it is a number. -/
def toFloat (py : Python F) (value : String) : Except PyException F :=
  match py.float value with
  | none => .error .valueError
  | some x => .ok x

/-- The seconds a command may take: at most 45. -/
def seconds (py : Python F) : Option String → Except PyException ℤ
  | none => .ok 45
  | some ptimeout => do
    let x ← toFloat py ptimeout
    if py.gt45 x then return 45
    match py.int x with
    | none => throw .valueError
    | some secs => return secs

/-- `runShellCommand`, up to the process. -/
def runShellCommand (py : Python F) (cmd ptimeout stdinput : Option String) (user : BaseString)
    (args : List String) : Except PyException Executed :=
  match cmd with
  | none => .error .attributeError
  | some cmd => do
    decode user [withArgs args cmd]
    let secs ← seconds py ptimeout
    return .shellcmd cmd secs stdinput user args

/-- The call `executeAction` makes for a registered type: what it executes,
unless an exception is caught. -/
def executeRegistered (py : Python F) (c : Config) (kind : Registered) (actionName : String)
    (user : BaseString) (args : List String) : Except PyException (Option Executed) :=
  match kind with
  | .remotecmd => do
    let remoteHost ← getSectionValue c actionName "remote_host"
    let remoteShell ← getSectionValue c actionName "remote_shell"
    return runRemoteCommand remoteHost remoteShell user args
  | .shellcmd => do
    let cmd ← getSectionValue c actionName "cmd"
    let ptimeout ← getSectionValue c actionName "timeout"
    let stdinput ← getSectionValue c actionName "stdinput"
    some <$> runShellCommand py cmd ptimeout stdinput user args
  | .nothing => return some .nothing

/-! ## Executing an action -/

/-- What was done: the names `executeAction` was called with, and the
registered actions executed. -/
structure Trace where
  calls : List String
  executed : List Executed
  deriving DecidableEq

def Trace.call (w : Trace) (actionName : String) : Trace :=
  { w with calls := w.calls ++ [actionName] }

def Trace.execute (w : Trace) (action : Option Executed) : Trace :=
  { w with executed := w.executed ++ action.toList }

/-- `time.sleep(float(action_delay))`, unless that is `None`. -/
def sleep (py : Python F) : Option String → Except PyException Unit
  | none => .ok ()
  | some actionDelay => do
    let x ← toFloat py actionDelay
    if py.sleeps x then return () else throw .ioError

/-- What `executeAction` finds out first: the type, if there is one, and the
argument, with the delay behind it. -/
def lookUp (py : Python F) (c : Config) (user : BaseString) (actionName : String) :
    Except PyException (Option (String × Option String)) := do
  match ← getValue c (actionName ++ "_type") with
  | none => return none
  | some actionType =>
    let actionDelay ← getValue c (actionName ++ "_delay")
    -- the line for the log has the user in it
    decode user (actionName :: actionType :: actionDelay.toList)
    sleep py actionDelay
    let actionArg ← getValue c (actionName ++ "_arg")
    return some (actionType, actionArg)

/-- The members of `one_of`. -/
def oneOf (c : Config) (actionName : String) : Except PyException (List String) := do
  match ← getSectionValue c actionName "one_of" with
  | none => throw .attributeError
  | some names => return Text.split ' ' names

/-- `random.choice`, by the number drawn. -/
def choice (draw : ℕ) (names : List String) : String := names.getD (draw % names.length) ""

/-- **`executeAction`, as deep as the interpreter allows**: `frames` is how
many calls of it and of `runRandomAction` may be nested, and `draws` are the
numbers drawn by `random.choice`. -/
def executeAction (py : Python F) (c : Config) :
    ℕ → (ℕ → ℕ) → Option String → BaseString → List String → EStateM PyException Trace Unit
  | 0, _, _, _, _ => throw .runtimeError
  | _ + 1, _, none, _, _ => pure ()
  | frames + 1, draws, some actionName, user, args => do
    modify (·.call actionName)
    match ← Raising.fromExcept (lookUp py c user actionName) with
    | none => pure ()
    | some (actionType, actionArg) =>
      let args := args ++ actionArg.toList
      match ActionType.of actionType with
      | .registered kind => do
        let action ← Raising.fromExcept (executeRegistered py c kind actionName user args)
        modify (·.execute action)
      | .random => do
        let names ← Raising.fromExcept (oneOf c actionName)
        -- `runRandomAction` is a call of its own
        match frames with
        | 0 => throw .runtimeError
        | frames + 1 =>
          executeAction py c frames (fun i => draws (i + 1)) (some (choice (draws 0) names)) user
            args
      | .action name => executeAction py c frames draws (some name) user args

/-- The action for a user, or the other one. -/
def mapping (c : Config) (user fallbackDefault : BaseString) :
    Except PyException (Option String) := do
  match ← getValue c ("mapping_" ++ (← str user)) with
  | none => getValue c ("mapping_" ++ (← str fallbackDefault))
  | some config => return some config

/-- `playThemeOf`, with the configuration `checkConfigUpdates` has left. -/
def playThemeOf (py : Python F) (c : Config) (frames : ℕ) (draws : ℕ → ℕ)
    (user : Option BaseString) (fallbackDefault : BaseString) :
    EStateM PyException Trace Unit := do
  let user := user.getD (.str "")
  let config ← Raising.fromExcept (mapping c user fallbackDefault)
  Raising.fromExcept (decode user config.toList)
  executeAction py c frames draws config user []

end Actions

end Sound

end Realraum
