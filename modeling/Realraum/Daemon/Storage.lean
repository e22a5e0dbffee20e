import Mathlib.Data.List.Induction
import Realraum.Daemon.Helpers.Files
import Realraum.Daemon.Model.Storage
/-!
# The daemon — a pair that is torn

`string_list_add` takes back what it did where memory runs out, so a list
is either as it was or has one string more. `key_value_storage_add` adds
the key before the value and takes nothing back: where the value finds no
memory the key stays, and all pairs behind it are shifted against their
keys. A storage no call of which ends so is the list of its pairs.
-/

namespace Realraum

namespace Daemon

namespace Storage

variable {mem : ListMem} {string : CStr} {list : List CStr} {stor : KeyValueStorage} {call : Call}
variable {calls : List Call}

/-! ## One call -/

/-- **A string is added, or nothing happens.** -/
theorem stringListAdd_eq (mem : ListMem) (string : CStr) (list : List CStr) :
    stringListAdd mem string list =
      if mem.Suffices then (0, list ++ [string]) else (-2, list) := by
  obtain ⟨malloc, strdup⟩ := mem
  induction list with
  | nil => cases malloc <;> cases strdup <;> rfl
  | cons string_ next ih =>
      rw [stringListAdd, ih]
      split
      · rfl
      · rfl

/-- The key is stored, and there is no memory for the value. -/
def Call.Tears (call : Call) : Prop :=
  call.key.isSome ∧ call.value.isSome ∧ call.keyMem.Suffices ∧ ¬ call.valueMem.Suffices

instance : DecidablePred Call.Tears := fun _ => inferInstanceAs (Decidable (_ ∧ _ ∧ _ ∧ _))

/-- The pair is given, and there is memory for both. -/
def Call.Completes (call : Call) : Prop :=
  call.key.isSome ∧ call.value.isSome ∧ call.keyMem.Suffices ∧ call.valueMem.Suffices

instance : DecidablePred Call.Completes := fun _ => inferInstanceAs (Decidable (_ ∧ _ ∧ _ ∧ _))

/-- A call returns `0` where the pair is stored. -/
theorem keyValueStorageAdd_eq_zero_iff (stor : KeyValueStorage) (call : Call) :
    (keyValueStorageAdd stor call).1 = 0 ↔ call.Completes := by
  obtain ⟨key, value, keyMem, valueMem⟩ := call
  cases key with
  | none => exact iff_of_false (by decide : (-1 : ℤ) ≠ 0) fun h => Bool.false_ne_true h.1
  | some key =>
      cases value with
      | none => exact iff_of_false (by decide : (-1 : ℤ) ≠ 0) fun h => Bool.false_ne_true h.2.1
      | some value =>
          rw [keyValueStorageAdd]
          simp only [stringListAdd_eq]
          by_cases hkey : keyMem.Suffices
          · by_cases hvalue : valueMem.Suffices
            · simp [Call.Completes, hkey, hvalue]
            · simp [Call.Completes, hkey, hvalue]
          · simp [Call.Completes, hkey]

/-- **What a call can do**: it adds its pair, fails and leaves the storage as it
was, or leaves its key there. -/
theorem keyValueStorageAdd_cases (stor : KeyValueStorage) (call : Call) :
    (¬ call.Tears ∧ ∃ key value, call.key = some key ∧ call.value = some value ∧
        keyValueStorageAdd stor call = (0, ⟨stor.keys ++ [key], stor.values ++ [value]⟩)) ∨
      (¬ call.Tears ∧ ∃ ret, ret ≠ 0 ∧ keyValueStorageAdd stor call = (ret, stor)) ∨
      (call.Tears ∧ ∃ key, call.key = some key ∧
        keyValueStorageAdd stor call = (-2, ⟨stor.keys ++ [key], stor.values⟩)) := by
  obtain ⟨key, value, keyMem, valueMem⟩ := call
  cases key with
  | none => exact .inr (.inl ⟨fun h => Bool.false_ne_true h.1, -1, by decide, rfl⟩)
  | some key =>
      cases value with
      | none => exact .inr (.inl ⟨fun h => Bool.false_ne_true h.2.1, -1, by decide, rfl⟩)
      | some value =>
          rw [keyValueStorageAdd]
          simp only [stringListAdd_eq]
          by_cases hkey : keyMem.Suffices
          · by_cases hvalue : valueMem.Suffices
            · refine .inl ⟨fun h => h.2.2.2 hvalue, key, value, rfl, rfl, ?_⟩
              simp [hkey, hvalue]
            · refine .inr (.inr ⟨⟨rfl, rfl, hkey, hvalue⟩, key, rfl, ?_⟩)
              simp [hkey, hvalue]
          · refine .inr (.inl ⟨fun h => hkey h.2.2.1, -2, by decide, ?_⟩)
            simp [hkey]

/-- With a key and a value this is the addition of a pair that the options
are read with, at the memory both allocations of a string leave. -/
theorem keyValueStorageAdd_eq_daemon (stor : KeyValueStorage) (key value : CStr)
    (keyMem valueMem : ListMem) :
    keyValueStorageAdd stor ⟨some key, some value, keyMem, valueMem⟩ =
      Daemon.keyValueStorageAdd stor key value ⟨keyMem.Suffices, valueMem.Suffices⟩ := by
  rw [keyValueStorageAdd, Daemon.keyValueStorageAdd]
  simp only [stringListAdd_eq, Daemon.stringListAdd]
  by_cases hkey : keyMem.Suffices
  · by_cases hvalue : valueMem.Suffices
    · simp [hkey, hvalue]
    · simp [hkey, hvalue]
  · simp [hkey]

theorem countElements_eq (list : List CStr) : ∀ length ≤ intMax,
    countElements length list =
      if length + list.length ≤ intMax then some (length + list.length) else none := by
  induction list with
  | nil =>
      intro length hlength
      exact (if_pos hlength).symm
  | cons string_ next ih =>
      intro length hlength
      rw [countElements, List.length_cons]
      by_cases hlt : length < intMax
      · rw [if_pos hlt, ih (length + 1) hlt, Nat.add_assoc, Nat.add_comm 1]
      · rw [if_neg hlt, if_neg (by omega)]

/-! ## Any calls -/

theorem after_append (calls : List Call) (call : Call) :
    after (calls ++ [call]) = (after calls).call call := by
  rw [after, List.foldl_append]
  rfl

/-- The pairs that were added are never taken back. -/
theorem prefix_added (past rest : List Call) :
    (after past).added <+: (after (past ++ rest)).added := by
  induction rest using List.reverseRecOn with
  | nil => rw [List.append_nil]
  | append_singleton rest call ih =>
      refine ih.trans ?_
      rw [← List.append_assoc, after_append, Run.call]
      split
      · exact List.prefix_append _ _
      · exact List.prefix_rfl

/-- As many pairs were added as calls were given one and the memory for
it. -/
theorem length_added (calls : List Call) :
    (after calls).added.length = calls.countP fun call => call.Completes := by
  induction calls using List.reverseRecOn with
  | nil => rfl
  | append_singleton calls call ih =>
      rw [after_append, Run.call, List.countP_append, List.countP_singleton]
      simp only [keyValueStorageAdd_eq_zero_iff, decide_eq_true_eq]
      split
      · rename_i hcompletes
        obtain ⟨key, hkey⟩ := Option.isSome_iff_exists.mp hcompletes.1
        obtain ⟨value, hvalue⟩ := Option.isSome_iff_exists.mp hcompletes.2.1
        rw [List.length_append, ih, hkey, hvalue]
        rfl
      · exact ih

/-- **The storage is right behind these calls**: there is a value for each
key, the last call has changed nothing unless it returned `0`, a key finds
the value of the first call that added it, and the length is the number of
such calls. -/
structure Sound (calls : List Call) : Prop where
  paired : (after calls).stor.keys.length = (after calls).stor.values.length
  kept : ∀ past call, calls = past ++ [call] →
    (keyValueStorageAdd (after past).stor call).1 ≠ 0 → (after calls).stor = (after past).stor
  found : ∀ key, keyValueStorageFind (after calls).stor (some key) =
    ((after calls).added.find? fun pair => pair.1 = key).map Prod.snd
  length : keyValueStorageLength (after calls).stor = some (after calls).added.length

/-- **Without a torn pair the storage is its pairs.** -/
theorem stor_eq_of_not_tears (h : ∀ call ∈ calls, ¬ call.Tears) :
    (after calls).stor =
      ⟨(after calls).added.map Prod.fst, (after calls).added.map Prod.snd⟩ := by
  induction calls using List.reverseRecOn with
  | nil => rfl
  | append_singleton calls call ih =>
      have hpast := ih fun c hc => h c (List.mem_append_left _ hc)
      have hlast := h call (by simp)
      rw [after_append, Run.call]
      rcases keyValueStorageAdd_cases (after calls).stor call with
        ⟨-, key, value, hkey, hvalue, hadd⟩ | ⟨-, ret, hret, hadd⟩ | ⟨htears, -⟩
      · simp only [hadd, hkey, hvalue, if_true]
        rw [hpast]
        simp
      · simp only [hadd, hret, if_false]
        exact hpast
      · exact absurd htears hlast

/-- Without a torn pair a call that does not return `0` changes nothing. -/
theorem kept_of_not_tears (h : ¬ call.Tears) (hret : (keyValueStorageAdd stor call).1 ≠ 0) :
    (keyValueStorageAdd stor call).2 = stor := by
  rcases keyValueStorageAdd_cases stor call with
    ⟨-, key, value, -, -, hadd⟩ | ⟨-, ret, -, hadd⟩ | ⟨htears, -⟩
  · exact absurd (congrArg Prod.fst hadd) hret
  · rw [hadd]
  · exact absurd htears h

/-- **A torn pair leaves more keys than values.** -/
theorem not_paired_of_tears (h : call.Tears) (hpaired : stor.keys.length = stor.values.length) :
    (keyValueStorageAdd stor call).2.keys.length ≠
      (keyValueStorageAdd stor call).2.values.length := by
  rcases keyValueStorageAdd_cases stor call with ⟨hnot, -⟩ | ⟨hnot, -⟩ | ⟨-, key, -, hadd⟩
  · exact absurd h hnot
  · exact absurd h hnot
  · rw [hadd]
    simp only [List.length_append, List.length_singleton]
    omega

/-- **When the storage is right.** For any calls of
`key_value_storage_add` on an initialised storage, whichever of their
allocations succeed: the storage is right behind each of them if and only if
none stores its key and has no memory for its value, and an `int` can count
those that store their pair. -/
theorem storage_sound_iff (calls : List Call) :
    (∀ past, past <+: calls → Sound past) ↔
      (∀ call ∈ calls, ¬ call.Tears) ∧ (calls.countP fun call => call.Completes) ≤ intMax := by
  rw [← length_added]
  constructor
  · intro h
    refine ⟨fun call hcall htears => ?_, ?_⟩
    · obtain ⟨past, rest, rfl⟩ := List.append_of_mem hcall
      have hpast := (h past (List.prefix_append _ _)).paired
      have hnext := (h (past ++ [call]) (by simp)).paired
      rw [after_append] at hnext
      exact not_paired_of_tears htears hpast hnext
    · have hsound := h calls List.prefix_rfl
      have hlength := hsound.length
      rw [keyValueStorageLength, countElements_eq _ 0 (Nat.zero_le _), Nat.zero_add] at hlength
      split at hlength
      · rename_i hle
        rwa [← Option.some.inj hlength]
      · cases hlength
  · rintro ⟨htears, hmax⟩ past ⟨rest, rfl⟩
    have hpast : ∀ call ∈ past, ¬ call.Tears := fun c hc => htears c (List.mem_append_left _ hc)
    have hstor := stor_eq_of_not_tears hpast
    have hle : (after past).added.length ≤ intMax :=
      Nat.le_trans (prefix_added past rest).length_le hmax
    refine ⟨?_, ?_, fun key => ?_, ?_⟩
    · rw [hstor, List.length_map, List.length_map]
    · rintro before call rfl hret
      rw [after_append]
      exact kept_of_not_tears (hpast call (by simp)) hret
    · rw [hstor]
      exact lookupBeside_pairs key _
    · rw [keyValueStorageLength, countElements_eq _ 0 (Nat.zero_le _), hstor, List.length_map,
        Nat.zero_add, if_pos hle]

/-- **A value that finds no memory** leaves its key, which is found with the
value of the next pair, and that pair's key is not found at all. -/
theorem storage_sound_fails :
    let torn : Call := ⟨some (ascii "temp0"), some (ascii "*"), ⟨true, true⟩, ⟨true, false⟩⟩
    let whole : Call := ⟨some (ascii "photo0"), some (ascii "?"), ⟨true, true⟩, ⟨true, true⟩⟩
    (keyValueStorageAdd (after []).stor torn).1 = -2 ∧
      (after [torn]).stor = ⟨[ascii "temp0"], []⟩ ∧
      (after [torn, whole]).added = [(ascii "photo0", ascii "?")] ∧
      keyValueStorageFind (after [torn, whole]).stor (some (ascii "temp0")) = some (ascii "?") ∧
      keyValueStorageFind (after [torn, whole]).stor (some (ascii "photo0")) = none := by
  decide

end Storage

end Daemon

end Realraum
