import Mathlib.Algebra.Group.Int.Defs
import Mathlib.Algebra.Group.Nat.Defs
import Mathlib.Data.Int.Notation
import Realraum.Common.Chunks
import Realraum.Daemon.Model.Strings
/-!
# The daemon — `options.c`

The command line and the two key-value files. A file is its bytes, or none
where it cannot be opened. Whether memory runs out is a parameter, counted
by the argument or by the pair it is for; where it does, the daemon ends.
-/

namespace Realraum

namespace Daemon

/-! ## Storing -/

/-- The memory of one `key_value_storage_add`, or of one `strdup`. -/
structure AddMem where
  key : Bool
  value : Bool

/-- `string_list_add`. -/
def stringListAdd (list : List CStr) (string : CStr) (mem : Bool) : ℤ × List CStr :=
  if mem then (0, list ++ [string]) else (-2, list)

/-- `key_value_storage_add`. -/
def keyValueStorageAdd (stor : KeyValueStorage) (key value : CStr) (mem : AddMem) :
    ℤ × KeyValueStorage :=
  match stringListAdd stor.keys key mem.key with
  | (0, keys) =>
    match stringListAdd stor.values value mem.value with
    | (ret, values) => (ret, ⟨keys, values⟩)
  | (ret, keys) => (ret, { stor with keys := keys })

/-- `key_value_storage_init`. -/
def KeyValueStorage.empty : KeyValueStorage := ⟨[], []⟩

/-! ## A key-value file -/

/-- What the calls of `fgets(buf, 100, file)` give. -/
def fgetsAll (file : List UInt8) : List (List UInt8) := Chunks.chunks linefeed 99 [] file

/-- The key and the value in `buf`, unless the round is left with
`continue`. -/
def parseKeyValue (buf : List UInt8) : Option (CStr × CStr) :=
  let key := (cstring buf).dropWhile (· = blank)
  match behindBlank key with
  | none => none
  | some tmp =>
    let value := tmp.dropWhile (· = blank)
    -- the value may be empty, in front of a line feed
    if value = [] then none
    else some (key.takeWhile (· ≠ blank), value.takeWhile fun b => b ≠ blank ∧ b ≠ linefeed)

/-- The pairs a file has. -/
def filePairs (file : List UInt8) : List (CStr × CStr) := (fgetsAll file).filterMap parseKeyValue

/-- The pairs are added one after the other. -/
def addPairs : List (CStr × CStr) → (ℕ → AddMem) → KeyValueStorage → ℤ × KeyValueStorage
  | [], _, stor => (0, stor)
  | (key, value) :: pairs, mem, stor =>
    match keyValueStorageAdd stor key value (mem 0) with
    | (0, stor) => addPairs pairs (fun i => mem (i + 1)) stor
    | (_, stor) => (-2, stor)

/-- `options_parse_key_value_file`. It has no `return` at its end, which
its callers take for `0`. -/
def optionsParseKeyValueFile (file : Option (List UInt8)) (mem : ℕ → AddMem)
    (storage : KeyValueStorage) : ℤ × KeyValueStorage :=
  match file with
  | none => (-1, storage)
  | some bytes => addPairs (filePairs bytes) mem storage

/-! ## `options_t` -/

/-- `options_t`. -/
structure OptionsT where
  progname : CStr
  daemonize : Bool
  username : Option CStr
  groupname : Option CStr
  chrootDir : Option CStr
  pidFile : Option CStr
  logTargets : List CStr
  ttyDev : CStr
  commandSock : CStr
  poweridFile : Option CStr
  powerids : KeyValueStorage
  sampledevFile : Option CStr
  sampledevs : KeyValueStorage
  autosampledevs : KeyValueStorage

/-- `options_default`. -/
def optionsDefault : OptionsT where
  progname := ascii "powersensordaemon"
  daemonize := true
  username := none
  groupname := none
  chrootDir := none
  pidFile := none
  logTargets := []
  ttyDev := ascii "/dev/ttyUSB0"
  commandSock := ascii "/var/run/powersensordaemon/cmd.sock"
  poweridFile := none
  powerids := .empty
  sampledevFile := none
  sampledevs := .empty
  autosampledevs := .empty

/-- The event loop's part. -/
def OptionsT.toOptions (opt : OptionsT) : Options := ⟨opt.powerids, opt.sampledevs⟩

/-! ## The command line -/

/-- What an argument does: it prints the usage, sets something, or takes the
next argument. What it makes of that may be an error: `none` where it is
refused, a return value of `-2` where there is no memory for it. -/
inductive Param
  | help
  | flag (set : OptionsT → OptionsT)
  | value (store : AddMem → CStr → OptionsT → Option (ℤ × OptionsT))

/-- `PARSE_STRING_PARAM`. -/
def stringParam (set : CStr → OptionsT → OptionsT) : Param :=
  .value fun mem arg opt => some (if mem.key then (0, set arg opt) else (-2, opt))

/-- `PARSE_STRING_LIST`, for the log targets. -/
def stringListParam : Param :=
  .value fun mem arg opt =>
    let r := stringListAdd opt.logTargets arg mem.key
    some (r.1, { opt with logTargets := r.2 })

/-- `','`. -/
def comma : UInt8 := 44

/-- `PARSE_KEY_VALUE`, for the autosample devices: the key in front of the
first comma, and what follows it. -/
def keyValueParam : Param :=
  .value fun mem arg opt =>
    match arg.dropWhile (· ≠ comma) with
    | _ :: b :: value =>
      let r := keyValueStorageAdd opt.autosampledevs (arg.takeWhile (· ≠ comma)) (b :: value) mem
      some (if r.1 = 0 then 0 else -2, { opt with autosampledevs := r.2 })
    | _ => none

/-- The arguments `options_parse` knows. -/
def paramOf (str : CStr) : Option Param :=
  let names (short long : String) : Bool := str = ascii short ∨ str = ascii long
  if names "-h" "--help" then some .help
  else if names "-D" "--nodaemonize" then some (.flag fun opt => { opt with daemonize := false })
  else if names "-u" "--username" then
    some (stringParam fun arg opt => { opt with username := some arg })
  else if names "-g" "--groupname" then
    some (stringParam fun arg opt => { opt with groupname := some arg })
  else if names "-C" "--chroot" then
    some (stringParam fun arg opt => { opt with chrootDir := some arg })
  else if names "-P" "--write-pid" then
    some (stringParam fun arg opt => { opt with pidFile := some arg })
  else if names "-L" "--log" then some stringListParam
  else if names "-d" "--device" then some (stringParam fun arg opt => { opt with ttyDev := arg })
  else if names "-s" "--socket" then
    some (stringParam fun arg opt => { opt with commandSock := arg })
  else if names "-p" "--powerid-file" then
    some (stringParam fun arg opt => { opt with poweridFile := some arg })
  else if names "-a" "--sampledev-file" then
    some (stringParam fun arg opt => { opt with sampledevFile := some arg })
  else if names "-A" "--autosampledev" then some keyValueParam
  else none

/-- The loop of `options_parse`, at the `i`-th argument: the options, or
the value returned. -/
def parseArgs (mem : ℕ → AddMem) : ℕ → List CStr → OptionsT → Except ℤ OptionsT
  | _, [], opt => .ok opt
  | i, str :: rest, opt =>
    match paramOf str with
    | none => .error i
    | some .help => .error (-1)
    | some (.flag set) => parseArgs mem (i + 1) rest (set opt)
    | some (.value store) =>
      match rest with
      | [] => .error i
      | arg :: rest =>
        -- an argument that begins with '-' is no value
        if arg.head? = some 45 then .error i
        else
          match store (mem (i + 1)) arg opt with
          | none => .error (i + 1)
          | some (0, opt) => parseArgs mem (i + 2) rest opt
          | some (ret, _) => .error ret

/-- `options_parse`, on `argv[0]` and the other arguments. -/
def optionsParse (mem : ℕ → AddMem) (argv0 : CStr) (args : List CStr) : Except ℤ OptionsT :=
  if (mem 0).key then parseArgs mem 1 args { optionsDefault with progname := argv0 }
  else .error (-2)

/-! ## `options_parse_post` -/

/-- `isspace` of the C locale. -/
def isspace (b : UInt8) : Bool := b = blank ∨ 9 ≤ b ∧ b ≤ 13

/-- The number the digits at the start of a string make. -/
def digits (s : CStr) : ℤ :=
  (s.takeWhile fun b => 48 ≤ b ∧ b ≤ 57).foldl (fun n b => 10 * n + (b.toNat - 48)) 0

/-- The number at the start of a string, with its sign. -/
def number (s : CStr) : ℤ :=
  match s.dropWhile isspace with
  | 45 :: s => -digits s
  | 43 :: s => digits s
  | s => digits s

/-- `atoi`: `strtol` keeps the number inside a `long`, of which the low 32
bits are left. -/
def atoi (s : CStr) : ℤ := Int.bmod (max (-2 ^ 63) (min (2 ^ 63 - 1) (number s))) (2 ^ 32)

/-- A file is read into a storage if one is given. -/
def parseFile (fs : CStr → Option (List UInt8)) (mem : ℕ → AddMem) (filename : Option CStr)
    (storage : KeyValueStorage) : Except ℤ KeyValueStorage :=
  match filename with
  | none => .ok storage
  | some filename =>
    match optionsParseKeyValueFile (fs filename) mem storage with
    | (0, storage) => .ok storage
    | (ret, _) => .error ret

/-- Every autosample device is a sample device, at a positive rate. -/
def checkAutosample (sampledevs : KeyValueStorage) : List CStr → List CStr → Bool
  | k :: keys, v :: values =>
    (keyValueStorageFind sampledevs (some k)).isSome && 0 < atoi v &&
      checkAutosample sampledevs keys values
  | _, _ => true

/-- `options_parse_post`, over what can be read of each file. -/
def optionsParsePost (fs : CStr → Option (List UInt8)) (powerMem sampleMem : ℕ → AddMem)
    (opt : OptionsT) : Except ℤ OptionsT :=
  match parseFile fs powerMem opt.poweridFile opt.powerids with
  | .error ret => .error ret
  | .ok powerids =>
    match parseFile fs sampleMem opt.sampledevFile opt.sampledevs with
    | .error ret => .error ret
    | .ok sampledevs =>
      if checkAutosample sampledevs opt.autosampledevs.keys opt.autosampledevs.values then
        .ok { opt with powerids := powerids, sampledevs := sampledevs }
      else .error (-1)

/-- The devices the autosample process samples, with their delays. -/
def OptionsT.devices (opt : OptionsT) : List (CStr × ℤ) :=
  (opt.autosampledevs.keys.zip opt.autosampledevs.values).map fun d => (d.1, atoi d.2)

end Daemon

end Realraum
