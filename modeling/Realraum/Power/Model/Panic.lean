import Mathlib.Data.Int.Notation
import Mathlib.Data.Nat.Notation
import Realraum.Common.Raising
import Realraum.Common.Text
/-!
# The power switch — the panic button

`switch-power.py` switches lamps and sockets over a CGI script. The events
here are those of the panic button: the ceiling lights are switched off to
see by how much the room gets darker, everything flashes, and the room is
set up as for somebody present. What `time.sleep` waits is left out.
-/

namespace Realraum

namespace Power

/-- What the handlers may raise. -/
inductive PyException
  | typeError
  | valueError
  | overflowError
  /-- A `%(` in an option that `ConfigParser` cannot put a value in for. -/
  | interpolationError
  deriving DecidableEq

/-- What the handlers use of Python, where its floating point numbers are an
`F`. -/
structure Python (F : Type) where
  /-- `int` of a text. -/
  int : String → Option ℤ
  /-- `float` of a text. -/
  float : String → Option F
  /-- A difference, unless the integer is too large for a float. -/
  subInt : F → ℤ → Option F
  gtInt : F → ℤ → Bool
  /-- Neither infinite nor a NaN. -/
  isFinite : F → Bool
  sub : F → F → F
  le : F → F → Bool

/-- The options read, each as `config_parser.get` gives it: a text, or none
where it raises. -/
structure UWSConfig where
  slugCgiuri : Option String
  slugLightleveluri : Option String
  slugIdsLogo : Option String
  slugIdsPresentDayBrightRoom : Option String
  slugIdsPresentDayDarkRoom : Option String
  slugIdsPresentNight : Option String
  slugIdsPanic : Option String
  slugIdsDecke : Option String
  slugLightDifferenceDecke : Option String
  powerswitchingSecsMovementBeforePresenceToLaunchEvent : Option String

/-- What the constructor sets. -/
def UWSConfig.default : UWSConfig where
  slugCgiuri := some "http://slug.realraum.at/cgi-bin/switch.cgi?id=%ID%&power=%ONOFF%"
  slugLightleveluri := some "http://slug.realraum.at/cgi-bin/lightlevel.cgi"
  slugIdsLogo := some "logo"
  slugIdsPresentDayBrightRoom := some "ymhpoweron werkzeug ymhcd"
  slugIdsPresentDayDarkRoom := some "ymhpoweron decke werkzeug ymhcd"
  slugIdsPresentNight := some "ymhpoweron werkzeug schreibtisch spots1 labor ymhcd"
  slugIdsPanic := some "spots1 ymhmute labor werkzeug deckevorne deckehinten"
  slugIdsDecke := some "deckevorne deckehinten"
  slugLightDifferenceDecke := some "100"
  powerswitchingSecsMovementBeforePresenceToLaunchEvent := some "1"

/-- A value of a message, as `json.loads` makes it. -/
inductive JsonValue (F : Type)
  | null
  | bool (b : Bool)
  | int (n : ℤ)
  | float (x : F)
  /-- A text, an array or an object. -/
  | other

/-- A number of Python. -/
inductive Number (F : Type)
  | int (n : ℤ)
  | float (x : F)

/-- The globals of the script, and what was requested of the CGI script:
which id, and whether on. -/
structure State (F : Type) where
  lightValue : JsonValue F
  unixtsLastMovement : F
  unixtsLastPresence : F
  statusPresence : Option Bool
  roomIsBright : Option Bool
  requests : List (String × Bool)

/-- As the script sets them at its start. -/
def State.init {F : Type} [Zero F] : State F := ⟨.int 0, 0, 0, none, none, []⟩

/-- **What a handler finds out**: what the clock says when `eventPresent`
stores it and when it compares, the hour and the month, and the answer of
the light level URL, if `touchURL` gets one. -/
structure Env (F : Type) where
  now : F
  later : F
  hour : Fin 24
  /-- January is 0. -/
  month : Fin 12
  lightlevel : Option String

abbrev Handler (F α : Type) := EStateM PyException (State F) α

section Handlers

open Raising

variable {F : Type}

/-- `uwscfg.…`. -/
def getattr (option : Option String) : Handler F String := orRaise .interpolationError option

/-- `split(" ")`. -/
def split (ids : String) : List String := Text.split ' ' ids

/-- Requests are only ever added. -/
def State.request (s : State F) (l : List (String × Bool)) : State F :=
  { s with requests := s.requests ++ l }

/-- `switchPower`. Whatever becomes of the request, `touchURL` returns. -/
def switchPower (cfg : UWSConfig) (powerid : String) (turnOn : Bool) : Handler F Unit := do
  let _ ← getattr cfg.slugCgiuri
  modify fun s => s.request [(powerid, turnOn)]

/-- `for id in ids: switchPower(id, turn_on)`. -/
def switchAll (cfg : UWSConfig) (turnOn : Bool) : List String → Handler F Unit
  | [] => pure ()
  | id :: ids => do
    switchPower cfg id turnOn
    switchAll cfg turnOn ids

/-- `getLightValueNow`. No answer, or one that is not a number, is `None`. -/
def getLightValueNow (py : Python F) (cfg : UWSConfig) (env : Env F) :
    Handler F (Option ℤ) := do
  let _ ← getattr cfg.slugLightleveluri
  pure (env.lightlevel.bind py.int)

def dawnPerMonth : Fin 12 → ℕ := [8, 7, 6, 6, 5, 5, 5, 6, 7, 8, 8, 8].get

def duskPerMonth : Fin 12 → ℕ := [15, 16, 17, 19, 20, 20, 20, 19, 17, 17, 16, 15].get

def haveDaylight (env : Env F) : Bool :=
  dawnPerMonth env.month ≤ env.hour.val && env.hour.val < duskPerMonth env.month

def isWolfHour (env : Env F) : Bool := 2 ≤ env.hour.val && env.hour.val < 6

/-! ## Presence -/

def switchLogo (cfg : UWSConfig) (env : Env F) (statusPresence : Bool) : Handler F Unit := do
  let logoAction :=
    if statusPresence then true
    else if haveDaylight env then false
    else if isWolfHour env then false
    else true
  switchAll cfg logoAction (split (← getattr cfg.slugIdsLogo))

/-- The option `eventPresent` takes the ids from. -/
def presentIds (cfg : UWSConfig) (env : Env F) (roomIsBright : Option Bool) : Option String :=
  if haveDaylight env then
    if roomIsBright = some false then cfg.slugIdsPresentDayDarkRoom
    else cfg.slugIdsPresentDayBrightRoom
  else cfg.slugIdsPresentNight

def eventPresentAndMoved : Handler F Unit := pure ()

/-- `float(uwscfg.powerswitching_…)`. -/
def secsMovementBeforePresence (py : Python F) (cfg : UWSConfig) : Handler F F := do
  orRaise .valueError
    (py.float (← getattr cfg.powerswitchingSecsMovementBeforePresenceToLaunchEvent))

def eventPresent [Zero F] (py : Python F) (cfg : UWSConfig) (env : Env F) :
    Handler F Unit := do
  modify fun s => { s with unixtsLastPresence := env.now, statusPresence := some true }
  let s ← get
  switchAll cfg true (split (← getattr (presentIds cfg env s.roomIsBright)))
  switchLogo cfg env true
  let secs ← secsMovementBeforePresence py cfg
  if py.le (py.sub env.later s.unixtsLastMovement) secs then
    modify fun s => { s with unixtsLastMovement := 0 }
    eventPresentAndMoved

/-! ## Panic -/

/-- A truth value counts as 0 or 1. -/
def JsonValue.toNumber : JsonValue F → Option (Number F)
  | .bool b => some (.int b.toInt)
  | .int n => some (.int n)
  | .float x => some (.float x)
  | .null => none
  | .other => none

/-- `x - n`. -/
def Number.subInt (py : Python F) : Number F → ℤ → Option (Number F)
  | .int m, n => some (.int (m - n))
  | .float x, n => (py.subInt x n).map .float

/-- `x > n`. -/
def Number.gtInt (py : Python F) : Number F → ℤ → Bool
  | .int m, n => n < m
  | .float x, n => py.gtInt x n

/-- `"%d"` has a text for it. -/
def Number.isFinite (py : Python F) : Number F → Bool
  | .int _ => true
  | .float x => py.isFinite x

/-- `"%d" % value`. -/
def formatD (py : Python F) (value : JsonValue F) : Handler F Unit :=
  -- Python 2 asks for a number where it is given a NaN, too
  orRaise .typeError ((value.toNumber.filter (·.isFinite py)).map fun _ => ())

/-- `(before - after) > int(uwscfg.slug_light_difference_decke)`. -/
def fellByDifference (py : Python F) (cfg : UWSConfig) (before : JsonValue F) (after : ℤ) :
    Handler F Bool := do
  let before ← orRaise .typeError before.toNumber
  let drop ← orRaise .overflowError (before.subInt py after)
  let difference ← orRaise .valueError (py.int (← getattr cfg.slugLightDifferenceDecke))
  pure (drop.gtInt py difference)

/-- False where a level is `None`. -/
def compareLevels (py : Python F) (cfg : UWSConfig) : JsonValue F → Option ℤ → Handler F Bool
  | .null, _ => pure false
  | _, none => pure false
  | before, some after => fellByDifference py cfg before after

/-- The ceiling lights are switched off, and they were on if the room gets
darker by enough. Then this is logged, with `"%d"` for both values. -/
def measureMainLight (py : Python F) (cfg : UWSConfig) (env : Env F)
    (deckenlichtIds : List String) : Handler F Bool := do
  let lightValueBefore := (← get).lightValue
  switchAll cfg false deckenlichtIds
  let lightValueAfter ← getLightValueNow py cfg env
  let ceilingLightWasOn ← compareLevels py cfg lightValueBefore lightValueAfter
  -- the log line formats both values, compared or not
  formatD py lightValueBefore
  formatD py (lightValueAfter.elim .null .int)
  pure ceilingLightWasOn

/-- **The state of the main light is guessed**, if some ceiling light is to
flash. -/
def guessMainLight (py : Python F) (cfg : UWSConfig) (env : Env F)
    (lst1 deckenlichtIds : List String) : Handler F Bool :=
  if deckenlichtIds.any (lst1.contains ·) then measureMainLight py cfg env deckenlichtIds
  else pure false

/-- A round of the flashing: every entry is toggled and switched. -/
def flashRound (cfg : UWSConfig) : List (String × Bool) → Handler F (List (String × Bool))
  | [] => pure []
  | (id, on) :: lst2 => do
    switchPower cfg id !on
    pure ((id, !on) :: (← flashRound cfg lst2))

/-- So many rounds. -/
def flash (cfg : UWSConfig) : ℕ → List (String × Bool) → Handler F Unit
  | 0, _ => pure ()
  | times + 1, lst2 => do flash cfg times (← flashRound cfg lst2)

def eventPanic [Zero F] (py : Python F) (cfg : UWSConfig) (env : Env F) : Handler F Unit := do
  let lst1 := split (← getattr cfg.slugIdsPanic)
  let lst2 := lst1.map (·, false)
  let deckenlichtIds := split (← getattr cfg.slugIdsDecke)
  let ceilingLightWasOn ← guessMainLight py cfg env lst1 deckenlichtIds
  switchAll cfg false lst1
  flash cfg 5 lst2
  switchAll cfg false lst1
  eventPresent py cfg env
  if ceilingLightWasOn then switchAll cfg true deckenlichtIds

end Handlers

end Power

end Realraum
