import Realraum.Common.Fields
import Realraum.Common.Replacing
import Realraum.Common.Text
/-!
# The power switch — the CGI script

`switchPower` asks for an address that the options give, with the id and the
state put in, and `switch.cgi` reads them from the query: it cuts the query
into words and goes through these one by one, so that a word says what the
next one is. If the id is one it knows, a line goes to the socket of the
daemon. The page that the script prints is left out.
-/

namespace Realraum

namespace Power

/-! ## The address -/

/-- `uwscfg.slug_cgiuri.replace("%ID%",powerid).replace("%ONOFF%",onoff)`. -/
def requestUrl (cgiuri powerid : String) (turnOn : Bool) : String :=
  let onoff := if turnOn then "on" else "off"
  .ofList (Replacing.replace "%ONOFF%".toList onoff.toList
    (Replacing.replace "%ID%".toList powerid.toList cgiuri.toList))

/-- `QUERY_STRING`, as the web server sets it. -/
def queryString (url : String) : String := ((Text.cut '?' url).map Prod.snd).getD ""

/-! ## The shell -/

/-- **What the script uses of the shell**: the file names for a pattern, or
the word itself, and what `echo` prints. -/
structure Shell where
  glob : String → List String
  echo : List String → String

/-- The blanks of `IFS`. -/
def ifs (c : Char) : Char := if c = '\t' ∨ c = '\n' then ' ' else c

/-- What a text without quotes is expanded to. -/
def Shell.expand (sh : Shell) (text : String) : List String :=
  (Fields.fields ' ' (text.toList.map ifs)).flatMap fun w => sh.glob (.ofList w)

/-- `tr c ' '`. -/
def tr (c : Char) (text : String) : String := .ofList (text.toList.map fun d =>
  if d = c then ' ' else d)

/-- The words of `echo $text | tr c ' '`. -/
def Shell.cut (sh : Shell) (c : Char) (text : String) : List String :=
  sh.expand (tr c (sh.echo (sh.expand text)))

/-! ## The query -/

/-- The variables of the script. -/
structure Vars where
  id : String
  power : String
  mobile : String
  nofloat : String
  deriving DecidableEq

/-- One round of the inner loop. -/
def Vars.assign (vars : Vars) (value : String) : Vars :=
  if value = "id" then { vars with id := "?" }
  else if vars.id = "?" then { vars with id := value }
  else if value = "power" then { vars with power := "?" }
  else if vars.power = "?" then { vars with power := value }
  else if value = "mobile" then { vars with mobile := "1", nofloat := "1" }
  else if value = "nofloat" then { vars with nofloat := "1" }
  else vars

/-- Both loops. -/
def readQuery (sh : Shell) (vars : Vars) (query : String) : Vars :=
  (sh.cut '&' query).foldl (fun vars query => (sh.cut '=' query).foldl Vars.assign vars) vars

/-- `VALID_ONOFF_IDS`. -/
def validOnoffIds : List String :=
  ["regalleinwand", "labortisch", "bluebar", "couchred", "couchwhite", "all", "lichter",
    "ambientlights", "cxleds", "mashadecke", "boiler", "abwasch"]

/-- `VALID_SEND_IDS_CUSTOM_DISPLAY`. -/
def validSendIdsCustomDisplay : List String := ["ymhpoweroff", "ymhpower", "ymhvolup", "ymhvoldown"]

/-- `VALID_SEND_IDS`. -/
def validSendIds : List String :=
  ["ymhpoweron", "ymhcd", "ymhwdtv", "ymhtuner", "ymhaux", "ymhsattv", "ymhvolmute", "ymhmenu",
    "ymhplus", "ymhminus", "ymhtest", "ymhtimelevel", "ymheffect", "ymhprgup", "ymhprgdown",
    "ymhtunplus", "ymhtunminus", "ymhtunabcde", "ymhtape", "ymhvcr", "ymhextdec", "ymhsleep",
    "ymhp5", "panicled", "blueled", "moviemode"]

/-- The ids that are checked. -/
def validIds : List String := validOnoffIds ++ validSendIds ++ validSendIdsCustomDisplay

/-- What goes to the socket of the daemon, if anything does. -/
def Vars.line (vars : Vars) : Option String :=
  let power := if vars.power = "send" then "on" else vars.power
  if power = "on" ∨ power = "off" then
    if vars.id ∈ validIds then some ("power " ++ power ++ " " ++ vars.id) else none
  else none

/-- **The script**, with the variables as its environment has them. -/
def switchCgi (sh : Shell) (vars : Vars) (query : String) : Option String :=
  (readQuery sh vars query).line

end Power

end Realraum
