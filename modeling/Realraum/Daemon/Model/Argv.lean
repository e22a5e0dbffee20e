import Realraum.Daemon.Model.Options
/-!
# The daemon — `options_parse` on `argv`

The loop of `options_parse` with its two counters: `argc`, the arguments
that are left, and `i`, the one at hand. The loop reads `argv` by index,
and a read where `argv` has no string ends it without a result. Every read
is recorded with what it is for.
-/

namespace Realraum

namespace Daemon

/-- What `argv[i]` is read for: as the program's name, as an option, in
`argv[i][0] == '-'` for the option in front of it, or as its value. -/
inductive ArgvUse
  | progname
  | option
  | ahead
  | value
  deriving DecidableEq

/-- What `options_parse` does to `argv`: the reads in order, and the
options or the value returned, unless a read is out of range. -/
structure ArgvRun where
  reads : List (ArgvUse × ℕ)
  result : Option (Except ℤ OptionsT)

/-- A run that reads no more. -/
def ArgvRun.ends (result : Except ℤ OptionsT) : ArgvRun := ⟨[], some result⟩

/-- `argv[i]` is read, and the run goes on with the string there. -/
def readArgv (argv : List CStr) (use : ArgvUse) (i : ℕ) (go : CStr → ArgvRun) : ArgvRun :=
  match argv[i]? with
  | none => ⟨[(use, i)], none⟩
  | some str => ⟨(use, i) :: (go str).reads, (go str).result⟩

/-- The loop of `options_parse`, with `argc` arguments left. -/
def argvLoop (mem : ℕ → AddMem) (argv : List CStr) : ℕ → ℕ → OptionsT → ArgvRun
  | 0, _, opt => .ends (.ok opt)
  | argc + 1, i, opt =>
    readArgv argv .option i fun str =>
      match paramOf str with
      | none => .ends (.error i)
      | some .help => .ends (.error (-1))
      | some (.flag set) => argvLoop mem argv argc (i + 1) (set opt)
      | some (.value store) =>
        match argc with
        | 0 => .ends (.error i)
        | argc + 1 =>
          readArgv argv .ahead (i + 1) fun arg =>
            if arg.head? = some 45 then .ends (.error i)
            else
              readArgv argv .value (i + 1) fun arg =>
                match store (mem (i + 1)) arg opt with
                | none => .ends (.error (i + 1))
                | some (0, opt) => argvLoop mem argv argc (i + 2) opt
                | some (ret, _) => .ends (.error ret)

/-- `options_parse`, on the whole of `argv`. -/
def optionsParseArgv (mem : ℕ → AddMem) (argv : List CStr) : ArgvRun :=
  readArgv argv .progname 0 fun progname =>
    if (mem 0).key then
      argvLoop mem argv (argv.length - 1) 1 { optionsDefault with progname := progname }
    else .ends (.error (-2))

/-- The value `options_parse` returns. -/
def returned : Except ℤ OptionsT → ℤ
  | .ok _ => 0
  | .error ret => ret

/-- What `main` prints of `argv` where `options_parse` returned this: the
argument at fault, for a positive value. -/
def syntaxErrorNear (argv : List CStr) (ret : ℤ) : Option CStr :=
  if 0 < ret then argv[ret.toNat]? else none

end Daemon

end Realraum
