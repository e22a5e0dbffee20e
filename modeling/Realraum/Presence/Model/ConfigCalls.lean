import Realraum.Presence.Model.Config
/-!
# The presence tracker — `checkConfigUpdates` and `__getattr__`

The two methods of `UWSConfig` that the threads call, each as the guards it
passes around its calls of the library. What such a call comes to is an
input: a value, or an exception of Python 2. A method that has to wait for
the other threads at a guard has no result here; it ends as it would have,
had it been called when they are done.
-/

namespace Realraum

namespace Presence

/-- What a call of the library raises. -/
inductive PyException
  /-- The exceptions of `ConfigParser`. -/
  | error
  | noSectionError
  | duplicateSectionError
  | noOptionError
  | interpolationError
  | interpolationMissingOptionError
  | interpolationSyntaxError
  | interpolationDepthError
  | parsingError
  | missingSectionHeaderError
  | ioError
  | osError
  | attributeError
  | other (name : String)
  deriving DecidableEq

/-- `except (ConfigParser.ParsingError, IOError)`. A missing section header
is a parsing error. -/
def PyException.caughtByCheck : PyException → Bool
  | .parsingError => true
  | .missingSectionHeaderError => true
  | .ioError => true
  | _ => false

/-- `except (ConfigParser.NoOptionError, ConfigParser.NoSectionError)`. -/
def PyException.caughtByGetattr : PyException → Bool
  | .noOptionError => true
  | .noSectionError => true
  | _ => false

variable {ι T : Type*} [DecidableEq ι]

/-- The place is a `wait()`. -/
def Place.waits : Place → Bool
  | .awaitsWriters _ => true
  | .awaitsReaders _ => true
  | _ => false

/-- A thread passes a guard or an unguard, unless it has to wait. -/
def passes (t : ι) (op : Op) (c : UWSConfig ι) : Option (UWSConfig ι) :=
  (guardStep (t, op) c).filter fun d => !(d.place t).waits

/-- The calls of the library in `checkConfigUpdates`, in order. -/
structure CheckCalls (T : Type*) where
  /-- `os.path.getmtime`. -/
  getmtime : Except PyException T
  /-- `config_parser.read`. -/
  read : Except PyException Unit
  /-- `os.path.getmtime`, behind it. -/
  getmtimeAgain : Except PyException T
  /-- `config_parser.get('debug','enabled')`. -/
  get : Except PyException String

/-- The body of the `try` in `checkConfigUpdates`: the time remembered. -/
def CheckCalls.tried (o : CheckCalls T) : Except PyException T :=
  match o.read with
  | .error e => .error e
  | .ok _ => o.getmtimeAgain

/-- What follows the `try` in `checkConfigUpdates`. -/
def leaveWriting (t : ι) (configMtime : T) (get : Except PyException String) (c : UWSConfig ι) :
    Option (Except PyException Unit × T × UWSConfig ι) :=
  (passes t .unguardWriting c).bind fun c =>
  (passes t .guardReading c).bind fun c =>
    match get with
    | .error e => some (.error e, configMtime, c)
    | .ok _ => (passes t .unguardReading c).bind fun c => some (.ok (), configMtime, c)

/-- What `checkConfigUpdates` does for a newer file: whether it returns or
raises, `config_mtime`, and the guards. -/
def updateConfig (t : ι) (configMtime : T) (o : CheckCalls T) (c : UWSConfig ι) :
    Option (Except PyException Unit × T × UWSConfig ι) :=
  (passes t .guardWriting c).bind fun c =>
    match o.tried with
    | .ok mtime => leaveWriting t mtime o.get c
    | .error e =>
      if e.caughtByCheck then leaveWriting t configMtime o.get c
      else some (.error e, configMtime, c)

/-- `checkConfigUpdates`. -/
def checkConfigUpdates [LT T] [DecidableLT T] (t : ι) (configfile : Option String)
    (configMtime : T) (o : CheckCalls T) (c : UWSConfig ι) :
    Option (Except PyException Unit × T × UWSConfig ι) :=
  if configfile = none then some (.ok (), configMtime, c)
  else
    match o.getmtime with
    | .error e =>
      if e = .ioError ∨ e = .osError then some (.ok (), configMtime, c)
      else some (.error e, configMtime, c)
    | .ok mtime =>
      if configMtime < mtime then updateConfig t configMtime o c
      else some (.ok (), configMtime, c)

/-- A name is a section, and an option behind the first underscore. -/
def splitName (name : String) : Option (String × String) :=
  match name.toList.dropWhile (· ≠ '_') with
  | [] => none
  | _ :: option => some (.ofList (name.toList.takeWhile (· ≠ '_')), .ofList option)

/-- `__getattr__`, where `get` is what `config_parser.get` comes to for a
section and an option. -/
def getattr (t : ι) (get : String → String → Except PyException String) (name : String)
    (c : UWSConfig ι) : Option (Except PyException String × UWSConfig ι) :=
  match splitName name with
  | none => some (.error .attributeError, c)
  | some (sec, option) =>
    (passes t .guardReading c).bind fun c =>
      match get sec option with
      | .error e =>
        if e.caughtByGetattr then
          (passes t .unguardReading c).bind fun c => some (.error .attributeError, c)
        else some (.error e, c)
      | .ok rv => (passes t .unguardReading c).bind fun c => some (.ok rv, c)

end Presence

end Realraum
