import Realraum.Power.Model.Panic
/-!
# The power switch — the main loop

`switch-power.py` hears of presence, of the panic button, of movement and of
the light in the room. What a handler raises ends the connection to the
broker and not the script: the globals stay as they are, and the loop goes on
behind a new connection.
-/

namespace Realraum

namespace Power

open Raising

variable {F : Type}

/-- The options read, with those that `UWSConfig` leaves out. -/
structure Config extends UWSConfig where
  slugIdsNonpresentOff : Option String
  slugLightThresholdBrightness : Option String
  powerswitchingSecsPresenceBeforeMovementToLaunchEvent : Option String

/-- What the constructor sets. -/
def Config.default : Config :=
  { UWSConfig.default with
    slugIdsNonpresentOff := some ("ymhvoldown ymhvoldown ymhvoldown ymhvoldown ymhvoldown " ++
      "ymhvoldown ymhvoldown ymhvoldown ymhvoldown ymhvoldown ymhvoldown ymhvoldown " ++
      "lichter ymhpoweroff lichter")
    slugLightThresholdBrightness := some "400"
    powerswitchingSecsPresenceBeforeMovementToLaunchEvent := some "120" }

/-- And what the main loop uses of Python besides. -/
structure Interpreter (F : Type) extends Python F where
  geInt : F → ℤ → Bool

/-- `key in dictdata` and `dictdata[key]`. -/
inductive Lookup (α : Type)
  | missing
  | found (a : α)
  /-- Where `json.loads` made no dictionary. -/
  | raises

/-- A message as `decodeR3Message` gives it. -/
inductive Message (F : Type)
  /-- With the truth of `Present`. -/
  | presenceUpdate (present : Lookup Bool)
  | boreDoomButtonPressEvent
  | movementSensorUpdate
  | doorAjarUpdate
  /-- With `Value`. -/
  | illuminationSensorUpdate (value : Lookup (JsonValue F))
  | other

/-- **A message arrives**: whether `checkConfigUpdates` returns, the options
behind it, and what the handler finds out. -/
structure Arrival (F : Type) where
  message : Message F
  checked : Bool
  cfg : Config
  env : Env F

/-! ## The events -/

/-- `value >= n`. A text, an array and an object are larger than every number
in Python 2, and `None` is smaller. -/
def JsonValue.geInt (py : Interpreter F) : JsonValue F → ℤ → Bool
  | .null, _ => false
  | .bool b, n => n ≤ b.toInt
  | .int m, n => n ≤ m
  | .float x, n => py.geInt x n
  | .other, _ => true

def eventRoomGotBright : Handler F Unit := modify fun s => { s with roomIsBright := some true }

def eventRoomGotDark : Handler F Unit := modify fun s => { s with roomIsBright := some false }

/-- `float(uwscfg.powerswitching_…)`. -/
def secsPresenceBeforeMovement (py : Python F) (cfg : Config) : Handler F F := do
  orRaise .valueError
    (py.float (← getattr cfg.powerswitchingSecsPresenceBeforeMovementToLaunchEvent))

def eventMovement [Zero F] (py : Python F) (cfg : Config) (env : Env F) : Handler F Unit := do
  modify fun s => { s with unixtsLastMovement := env.now }
  let s ← get
  let secs ← secsPresenceBeforeMovement py cfg
  if py.le (py.sub env.later s.unixtsLastPresence) secs then
    eventPresentAndMoved
    modify fun s => { s with unixtsLastPresence := 0 }

def eventNobodyHere (cfg : Config) (env : Env F) : Handler F Unit := do
  modify fun s => { s with statusPresence := some false }
  let presentIdList := split (← getattr cfg.slugIdsNonpresentOff)
  switchAll cfg.toUWSConfig false presentIdList
  switchLogo cfg.toUWSConfig env false
  switchAll cfg.toUWSConfig false presentIdList.reverse

/-- The branch of the loop for a light level. -/
def eventIllumination (py : Interpreter F) (cfg : Config) (value : JsonValue F) :
    Handler F Unit := do
  modify fun s => { s with lightValue := value }
  let lightThreshold ← orRaise .valueError
    (py.int (← getattr cfg.slugLightThresholdBrightness))
  if value.geInt py lightThreshold then eventRoomGotBright else eventRoomGotDark

/-! ## The loop -/

/-- The branches of the loop. -/
def dispatch [Zero F] (py : Interpreter F) (a : Arrival F) : Handler F Unit :=
  if a.checked then
    match a.message with
    | .presenceUpdate (.found true) => eventPresent py.toPython a.cfg.toUWSConfig a.env
    | .presenceUpdate (.found false) => eventNobodyHere a.cfg a.env
    | .boreDoomButtonPressEvent => eventPanic py.toPython a.cfg.toUWSConfig a.env
    | .movementSensorUpdate | .doorAjarUpdate => eventMovement py.toPython a.cfg a.env
    | .illuminationSensorUpdate (.found value) => eventIllumination py a.cfg value
    | .presenceUpdate .raises | .illuminationSensorUpdate .raises => throw .typeError
    | .presenceUpdate .missing | .illuminationSensorUpdate .missing | .other => pure ()
  else throw .interpolationError

/-- Behind a message. -/
def after [Zero F] (py : Interpreter F) (s : State F) (a : Arrival F) : State F :=
  state ((dispatch py a).run s)

/-- Behind some messages. -/
def afterAll [Zero F] (py : Interpreter F) (s : State F) (ms : List (Arrival F)) : State F :=
  ms.foldl (after py) s

end Power

end Realraum
