import Mathlib.Data.List.Basic
/-!
# The daemon — bytes, C strings and the key-value storage

A C string is the list of its bytes without the terminating NUL, and a
NULL pointer is `none`. The comparisons below are the `strncmp`, `strcmp`
and `strchr` of the source at the arguments the daemon gives them.
-/

namespace Realraum

namespace Daemon

/-- A C string: its bytes, without the NUL that ends it. -/
abbrev CStr := List UInt8

/-- A string literal of the source. -/
def ascii (s : String) : CStr :=
  s.toList.map fun c => UInt8.ofNat c.toNat

/-- `'\n'`. -/
abbrev linefeed : UInt8 := 10

/-- `'\r'`. -/
abbrev carriageReturn : UInt8 := 13

/-- `' '`. -/
abbrev blank : UInt8 := 32

/-- `'_'`. -/
abbrev underscore : UInt8 := 95

/-- The string that starts at the first of these bytes: it ends at the
first NUL. -/
def cstring (bytes : List UInt8) : CStr :=
  bytes.takeWhile (· ≠ 0)

/-- `!strncmp(s, lit, strlen(lit))`. -/
def startsWith (s : CStr) (lit : String) : Bool :=
  (ascii lit).isPrefixOf s

/-- `strchr(s, ' ')`, moved on by one where there is a blank. -/
def behindBlank (s : CStr) : Option CStr :=
  match s.dropWhile (· ≠ blank) with
  | [] => none
  | _ :: param => some param

/-- `toupper` of the C locale. -/
def toupper (b : UInt8) : UInt8 :=
  if 97 ≤ b ∧ b ≤ 122 then b - 32 else b

/-- `tolower` of the C locale. -/
def tolower (b : UInt8) : UInt8 :=
  if 65 ≤ b ∧ b ≤ 90 then b + 32 else b

/-! ## `key_value_storage.c` -/

/-- Two lists, the `i`-th value belonging to the `i`-th key. -/
structure KeyValueStorage where
  keys : List CStr
  values : List CStr
  deriving DecidableEq

/-- Walk two lists side by side to the first place where the first list
has `x`, and give what the second has there. -/
def lookupBeside (x : CStr) : List CStr → List CStr → Option CStr
  | a :: as, b :: bs => if a = x then some b else lookupBeside x as bs
  | _, _ => none

/-- The value of the first pair with this key; NULL for a NULL key. -/
def keyValueStorageFind (stor : KeyValueStorage) (key : Option CStr) : Option CStr :=
  key.bind fun k => lookupBeside k stor.keys stor.values

/-- The key of the first pair with this value. -/
def keyValueStorageFindFirstStringvalue (stor : KeyValueStorage) (value : CStr) : Option CStr :=
  lookupBeside value stor.values stor.keys

/-- The two storages the event loop reads. -/
structure Options where
  powerids : KeyValueStorage
  sampledevs : KeyValueStorage
  deriving DecidableEq

end Daemon

end Realraum
