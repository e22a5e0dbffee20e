import Realraum.Daemon.Model.Options
/-!
# The daemon — `log.c` and `log_targets.h`

The list of the log targets and the greatest priority one of them takes.
The table `facilitynames` of `<syslog.h>` is a parameter. What each
allocation and `fopen` of a call gives is part of the call; the files are
numbered in the order in which they are opened, and `none` is a NULL
`FILE*`.
-/

namespace Realraum

namespace Daemon

/-- `log_target_type_t`. -/
inductive LogTargetType
  | syslog
  | stdout
  | stderr
  | file
  | unknown
  deriving DecidableEq

/-- `param_`, which is NULL for some types. -/
inductive TargetParam
  | null
  | syslog (logname : CStr) (facility : ℤ)
  | file (logfilename : CStr) (file : Option ℕ)
  deriving DecidableEq

/-- `log_target_t`. Its functions are those of its type. -/
structure LogTarget where
  type : LogTargetType
  opened : Bool
  enabled : Bool
  maxPrio : ℕ
  param : TargetParam
  deriving DecidableEq

/-- `stdlog`, and how many files were opened. -/
structure StdLog where
  maxPrio : ℕ
  targets : List LogTarget
  files : ℕ

/-- The memory a call gets: for the target, for `param_` and for the name
in it. -/
structure LogMem where
  target : Bool
  param : Bool
  name : Bool

/-- A call of `log_add_target`. -/
structure AddTarget where
  conf : Option CStr
  mem : LogMem
  /-- Whether `fopen` gives a file. -/
  fopen : Bool

/-- The table of `<syslog.h>`, without the entry that ends it. -/
abbrev Facilities := List (CStr × ℤ)

/-- `LOG_DAEMON`. -/
def logDaemon : ℤ := 24

/-- `NOTICE`. -/
def notice : ℕ := 3

/-- `':'`. -/
def colon : UInt8 := 58

/-! ## A target's configuration -/

/-- `log_target_parse_type`. -/
def logTargetParseType (conf : CStr) : LogTargetType :=
  if startsWith conf "syslog" then .syslog
  else if startsWith conf "file" then .file
  else if startsWith conf "stdout" then .stdout
  else if startsWith conf "stderr" then .stderr
  else .unknown

/-- `log_target_*_new`. -/
def LogTarget.new (type : LogTargetType) : LogTarget := ⟨type, false, false, notice, .null⟩

/-- The name in front of the first comma, or `byDefault`, and what is
behind the comma, as both `init` functions find them. -/
def initName (byDefault : CStr) (mem : LogMem) (conf : Option CStr) :
    Except ℤ (CStr × Option CStr) :=
  if conf = some [] then .error (-1)
  else if !mem.param then .error (-2)
  else
    match conf with
    | none => if mem.name then .ok (byDefault, none) else .error (-2)
    | some conf =>
      match conf.dropWhile (· ≠ comma) with
      | [] => if mem.name then .ok (conf, none) else .error (-2)
      | _ :: rest =>
        if conf.takeWhile (· ≠ comma) = [] then .error (-1)
        else if mem.name then .ok (conf.takeWhile (· ≠ comma), some rest)
        else .error (-2)

/-- `log_target_syslog_init`. -/
def logTargetSyslogInit (facilitynames : Facilities) (mem : LogMem) (conf : Option CStr) :
    Except ℤ TargetParam :=
  match initName (ascii "uanytun") mem conf with
  | .error ret => .error ret
  | .ok (logname, none) => .ok (.syslog logname logDaemon)
  | .ok (logname, some start) =>
    if start = [] ∨ start.head? = some comma then .error (-1)
    else
      match facilitynames.find? fun facility => facility.1 = start.takeWhile (· ≠ comma) with
      | none => .error (-1)
      | some facility => .ok (.syslog logname facility.2)

/-- `log_target_file_init`. What is behind a second comma is not looked
at. -/
def logTargetFileInit (mem : LogMem) (conf : Option CStr) : Except ℤ TargetParam :=
  match initName (ascii "uanytun.log") mem conf with
  | .error ret => .error ret
  | .ok (logfilename, _) => .ok (.file logfilename none)

/-- `init`, where the type has one. -/
def LogTarget.init (facilitynames : Facilities) (mem : LogMem) (conf : Option CStr)
    (target : LogTarget) : Except ℤ LogTarget :=
  match target.type with
  | .syslog =>
    (logTargetSyslogInit facilitynames mem conf).map fun param => { target with param := param }
  | .file => (logTargetFileInit mem conf).map fun param => { target with param := param }
  | _ => .ok target

/-- `open`, where the type has one. -/
def LogTarget.open (fopen : Bool) (files : ℕ) (target : LogTarget) : LogTarget × ℕ :=
  match target.type, target.param with
  | .syslog, .syslog _ _ => ({ target with opened := true }, files)
  | .file, .file logfilename _ =>
    if fopen then
      ({ target with param := .file logfilename (some files), opened := true }, files + 1)
    else ({ target with param := .file logfilename none }, files)
  | _, _ => (target, files)

/-- The level behind the first colon, and the configuration behind the
comma that follows it. -/
def parseLevel (conf : CStr) : Option (ℕ × Option CStr) :=
  match conf.dropWhile (· ≠ colon) with
  | _ :: digit :: rest =>
    if 48 ≤ digit ∧ digit ≤ 57 ∧ (rest = [] ∨ rest.head? = some comma) then
      some (digit.toNat - 48, rest.tail?)
    else none
  | _ => none

/-- The target with its level, and initialised. -/
def LogTarget.configure (facilitynames : Facilities) (mem : LogMem) (conf : CStr)
    (target : LogTarget) : Except ℤ LogTarget :=
  match parseLevel conf with
  | none => .error (-1)
  | some (level, confptr) =>
    { target with
      maxPrio := level
      enabled := if 0 < level then true else target.enabled }.init facilitynames mem confptr

/-! ## The list of the targets -/

/-- `log_targets_target_exists`. -/
def logTargetsTargetExists (targets : List LogTarget) (type : LogTargetType) : Bool :=
  targets.any fun target => target.type = type

/-- `log_targets_add`. -/
def logTargetsAdd (facilitynames : Facilities) (mem : LogMem) (fopen : Bool) (conf : CStr)
    (log : StdLog) : ℤ × StdLog :=
  let type := logTargetParseType conf
  if type = .unknown then (-3, log)
  else if !mem.target then (-2, log)
  else if type ≠ .file ∧ logTargetsTargetExists log.targets type then (-4, log)
  else
    match (LogTarget.new type).configure facilitynames mem conf with
    | .error ret => (ret, log)
    | .ok target =>
      let opened := target.open fopen log.files
      (0, { log with targets := log.targets ++ [opened.1], files := opened.2 })

/-- `update_max_prio`. -/
def updateMaxPrio (log : StdLog) : StdLog :=
  { log with
    maxPrio := log.targets.foldl
      (fun maxPrio target =>
        if target.enabled ∧ maxPrio < target.maxPrio then target.maxPrio else maxPrio)
      log.maxPrio }

/-- `log_add_target`. -/
def logAddTarget (facilitynames : Facilities) (call : AddTarget) (log : StdLog) : ℤ × StdLog :=
  match call.conf with
  | none => (-1, log)
  | some conf =>
    match logTargetsAdd facilitynames call.mem call.fopen conf log with
    | (0, log) => (0, updateMaxPrio log)
    | (ret, log) => (ret, log)

/-- `log_init`. -/
def logInit : StdLog := ⟨0, [], 0⟩

/-- `stdlog` behind these calls. -/
def addTargets (facilitynames : Facilities) (calls : List AddTarget) : StdLog :=
  calls.foldl (fun log call => (logAddTarget facilitynames call log).2) logInit

/-! ## Messages -/

/-- `log_targets_log`: the targets whose `log` is called, with the
message. -/
def logTargetsLog (targets : List LogTarget) (prio : ℕ) (msg : CStr) : List (LogTarget × CStr) :=
  (targets.filter fun target => target.enabled ∧ prio ≤ target.maxPrio).map (·, msg)

/-- `log_printf`, of this text; `MSG_LENGTH_MAX` bytes hold the message. -/
def logPrintf (log : StdLog) (prio : ℕ) (text : CStr) : List (LogTarget × CStr) :=
  if log.maxPrio < prio then [] else logTargetsLog log.targets prio (text.take 149)

/-- Where a target's message goes. -/
inductive LogOutput
  | syslog (facility : ℤ)
  | stdout
  | stderr
  | fprintf (file : Option ℕ)
  deriving DecidableEq

/-- `log`. -/
def LogTarget.log (target : LogTarget) : Option LogOutput :=
  match target.type, target.param with
  | .syslog, .syslog _ facility => if target.opened then some (.syslog facility) else none
  | .file, .file _ file => if target.opened then some (.fprintf file) else none
  | .stdout, _ => some .stdout
  | .stderr, _ => some .stderr
  | _, _ => none

/-! ## The end -/

/-- What closing a target does. -/
inductive CloseEvent
  | closelog
  | fclose (file : Option ℕ)
  deriving DecidableEq

/-- `close`, where the type has one. -/
def LogTarget.close (target : LogTarget) : Option CloseEvent :=
  match target.type, target.param with
  | .syslog, _ => some .closelog
  | .file, .file _ file => some (.fclose file)
  | _, _ => none

/-- `log_targets_clear`. An `fclose(NULL)` does not return. -/
def logTargetsClear : List LogTarget → List CloseEvent
  | [] => []
  | target :: targets =>
    match target.close with
    | none => logTargetsClear targets
    | some (.fclose none) => [.fclose none]
    | some event => event :: logTargetsClear targets

/-- `log_close`. -/
def logClose (log : StdLog) : List CloseEvent := logTargetsClear log.targets

end Daemon

end Realraum
