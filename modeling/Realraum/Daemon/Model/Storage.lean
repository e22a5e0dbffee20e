import Mathlib.Data.Int.Notation
import Realraum.Daemon.Model.Strings
/-!
# The daemon — adding to the key-value storage

`key_value_storage_add` and `string_list_add` with each allocation for
itself. A list is its strings in order, so its first link that is NULL is
where it ends.
-/

namespace Realraum

namespace Daemon

namespace Storage

/-- The two allocations of one `string_list_add`. -/
structure ListMem where
  malloc : Bool
  strdup : Bool
  deriving DecidableEq

/-- Both succeed. -/
def ListMem.Suffices (mem : ListMem) : Prop := mem.malloc = true ∧ mem.strdup = true

instance : DecidablePred ListMem.Suffices := fun _ => inferInstanceAs (Decidable (_ ∧ _))

/-- `string_list_add`, down the links to the one that is NULL. -/
def stringListAdd (mem : ListMem) (string : CStr) : List CStr → ℤ × List CStr
  | [] =>
    if mem.malloc then
      if mem.strdup then (0, [string])
      -- the element is freed, and its link is NULL again
      else (-2, [])
    else (-2, [])
  | string_ :: next =>
    let r := stringListAdd mem string next
    (r.1, string_ :: r.2)

/-- A call of `key_value_storage_add`: what it is given, and which of its
allocations succeed. -/
structure Call where
  key : Option CStr
  value : Option CStr
  keyMem : ListMem
  valueMem : ListMem
  deriving DecidableEq

/-- `key_value_storage_add`. -/
def keyValueStorageAdd (stor : KeyValueStorage) (call : Call) : ℤ × KeyValueStorage :=
  match call.key, call.value with
  | some key, some value =>
    let r := stringListAdd call.keyMem key stor.keys
    if r.1 ≠ 0 then (r.1, { stor with keys := r.2 })
    else
      -- the key is in the list by now, whatever becomes of the value
      let r' := stringListAdd call.valueMem value stor.values
      if r'.1 ≠ 0 then (r'.1, ⟨r.2, r'.2⟩) else (0, ⟨r.2, r'.2⟩)
  | _, _ => (-1, stor)

/-- `INT_MAX`. -/
def intMax : ℕ := 2147483647

/-- `length++` for every element, while an `int` can hold the number. -/
def countElements : ℕ → List CStr → Option ℕ
  | length, [] => some length
  | length, _ :: next => if length < intMax then countElements (length + 1) next else none

/-- `key_value_storage_length`, or none where an `int` is too small. -/
def keyValueStorageLength (stor : KeyValueStorage) : Option ℕ := countElements 0 stor.keys

/-! ## The calls of a run -/

/-- The storage behind some calls, and the pairs of those that returned
`0`. -/
structure Run where
  stor : KeyValueStorage
  added : List (CStr × CStr)
  deriving DecidableEq

/-- Behind `key_value_storage_init`. -/
def Run.init : Run := ⟨⟨[], []⟩, []⟩

/-- One call more. -/
def Run.call (run : Run) (call : Call) : Run where
  stor := (keyValueStorageAdd run.stor call).2
  added :=
    if (keyValueStorageAdd run.stor call).1 = 0 then
      run.added ++ (call.key.bind fun key => call.value.map fun value => (key, value)).toList
    else run.added

/-- Behind these calls. -/
def after (calls : List Call) : Run := calls.foldl Run.call .init

end Storage

end Daemon

end Realraum
