import Mathlib.Data.List.Count
import Mathlib.Data.List.Nodup
import Realraum.Daemon.Log
/-!
# The daemon — closing the log files

Whether a log file is open is kept in `opened_` and in `file_`. The log
path asks `opened_`, so nothing is ever printed to a NULL file
(`fprintf_opened`). The close path asks neither and hands `file_` to
`fclose`, so `log_close` ends well exactly if every `fopen` did.
-/

namespace Realraum

namespace Daemon

variable {facilitynames : Facilities} {call : AddTarget} {log : StdLog} {target : LogTarget}
variable {targets : List LogTarget}

/-! ## `file_` -/

/-- `file_`, of a target for a file. -/
def LogTarget.handle (target : LogTarget) : Option (Option ℕ) :=
  match target.type, target.param with
  | .file, .file _ file => some file
  | _, _ => none

/-- The `file_`s of a list. -/
def handles (targets : List LogTarget) : List (Option ℕ) := targets.filterMap LogTarget.handle

theorem handles_nil : handles [] = [] := rfl

theorem handles_cons_some {file : Option ℕ} (h : target.handle = some file) :
    handles (target :: targets) = file :: handles targets := List.filterMap_cons_some h

theorem handles_cons_none (h : target.handle = none) :
    handles (target :: targets) = handles targets := List.filterMap_cons_none h

/-- A target's `file_` is closed, and nothing else is an `fclose`. -/
theorem close_cases (target : LogTarget) :
    (∃ file, target.handle = some file ∧ target.close = some (.fclose file)) ∨
      target.handle = none ∧ (target.close = none ∨ target.close = some .closelog) := by
  rw [LogTarget.handle, LogTarget.close]
  cases target.type with
  | file =>
      cases target.param with
      | file _ file => exact .inl ⟨file, rfl, rfl⟩
      | _ => exact .inr ⟨rfl, .inl rfl⟩
  | syslog => exact .inr ⟨rfl, .inr rfl⟩
  | _ => exact .inr ⟨rfl, .inl rfl⟩

/-- **What `log_targets_clear` closes**: each `file_` of the list, up to
the first that is NULL. -/
theorem logTargetsClear_fclose (targets : List LogTarget) :
    (.fclose none ∈ logTargetsClear targets ↔ none ∈ handles targets) ∧
      (none ∉ handles targets →
        ∀ file, (logTargetsClear targets).count (.fclose file) = (handles targets).count file) := by
  induction targets with
  | nil => exact ⟨by simp [logTargetsClear, handles], fun _ _ => rfl⟩
  | cons target targets ih =>
      obtain ⟨hmem, hcount⟩ := ih
      rcases close_cases target with ⟨file, hhandle, hclose⟩ | ⟨hhandle, hclose | hclose⟩
      · rw [handles_cons_some hhandle, logTargetsClear, hclose]
        cases file with
        -- the clearing ends in `fclose(NULL)`, with the rest of the list open
        | none => exact ⟨by simp, fun hnone => absurd List.mem_cons_self hnone⟩
        | some file =>
            refine ⟨by simpa using hmem, fun hnone file' => ?_⟩
            have hrest := hcount (fun h => hnone (List.mem_cons_of_mem _ h)) file'
            rw [List.count_cons, List.count_cons, hrest]
            simp
      · rw [handles_cons_none hhandle, logTargetsClear, hclose]
        exact ⟨hmem, hcount⟩
      · rw [handles_cons_none hhandle, logTargetsClear, hclose]
        refine ⟨by simpa using hmem, fun hnone file' => ?_⟩
        rw [List.count_cons_of_ne (by simp)]
        exact hcount hnone file'

/-! ## `fopen` -/

/-- The call gets as far as `fopen`: it names a file, in a configuration
that is accepted, and has memory for it. -/
def AddTarget.opensFile (facilitynames : Facilities) (call : AddTarget) : Bool :=
  (call.configured facilitynames).any fun target => target.type = .file

/-- `open` gives a file to a target for one, and to no other. -/
theorem handle_open (h : call.configured facilitynames = some target) (files : ℕ) :
    (target.type = .file → (target.open call.fopen files).1.handle =
        some (if call.fopen then some files else none) ∧
      (target.open call.fopen files).2 = if call.fopen then files + 1 else files) ∧
    (target.type ≠ .file → (target.open call.fopen files).1.handle = none ∧
      (target.open call.fopen files).2 = files) := by
  obtain ⟨conf, -, hconfigured⟩ := configured_of_call h
  refine ⟨fun htype => ?_, fun htype => ?_⟩
  · obtain ⟨logfilename, hparam⟩ := hconfigured.file htype
    rw [LogTarget.open, htype, hparam]
    dsimp only
    split
    · exact ⟨rfl, rfl⟩
    · exact ⟨rfl, rfl⟩
  · have hhandle : (target.open call.fopen files).1.handle = none := by
      rw [LogTarget.handle, (open_frame call.fopen files target).1]
      split
      · rename_i hfile _
        exact absurd hfile htype
      · rfl
    refine ⟨hhandle, ?_⟩
    rw [LogTarget.open]
    split
    · rfl
    · rename_i hfile _
      exact absurd hfile htype
    · rfl

theorem opensFile_eq (h : call.configured facilitynames = some target) :
    call.opensFile facilitynames = true ↔ target.type = .file := by
  rw [AddTarget.opensFile, h, Option.any_some, decide_eq_true_eq]

/-- **Each `file_` is what its `fopen` gave.** -/
theorem handles_addTargets (facilitynames : Facilities) (calls : List AddTarget) :
    (handles (addTargets facilitynames calls).targets).filterMap id =
        List.range (addTargets facilitynames calls).files ∧
      (none ∈ handles (addTargets facilitynames calls).targets ↔
        ∃ call ∈ calls, call.opensFile facilitynames = true ∧ call.fopen = false) := by
  refine addTargets_rule (P := fun calls log => (handles log.targets).filterMap id =
      List.range log.files ∧ (none ∈ handles log.targets ↔
        ∃ call ∈ calls, call.opensFile facilitynames = true ∧ call.fopen = false))
    ⟨rfl, by simp [handles, logInit]⟩ (fun calls call log h hfile => ?_)
    (fun calls call log target h hconf _ => ?_) calls
  · have hopens : call.opensFile facilitynames ≠ true := by
      intro hopens
      cases hconf : call.configured facilitynames with
      | none =>
          rw [AddTarget.opensFile, hconf] at hopens
          cases hopens
      | some target => exact hfile target hconf ((opensFile_eq hconf).mp hopens)
    refine ⟨h.1, h.2.trans ?_⟩
    simp [hopens]
  · obtain ⟨hfile, hother⟩ := handle_open hconf log.files
    have hopens := opensFile_eq hconf
    have happend : handles (log.targets ++ [(target.open call.fopen log.files).1]) =
        handles log.targets ++ handles [(target.open call.fopen log.files).1] :=
      List.filterMap_append
    -- a file's handle goes to the end, and no other target has one
    rw [link_targets, link_files, happend]
    by_cases htype : target.type = .file
    · obtain ⟨hhandle, hfiles⟩ := hfile htype
      rw [handles_cons_some hhandle, handles_nil, hfiles]
      rw [iff_true_intro htype, iff_true] at hopens
      cases hfopen : call.fopen with
      | true =>
          refine ⟨?_, ?_⟩
          · rw [List.filterMap_append, h.1]
            exact List.range_succ.symm
          · simpa [hfopen] using h.2
      | false =>
          refine ⟨?_, ?_⟩
          · rw [List.filterMap_append, h.1]
            exact List.append_nil _
          · simp [hopens, hfopen]
    · obtain ⟨hhandle, hfiles⟩ := hother htype
      rw [handles_cons_none hhandle, handles_nil, List.append_nil, hfiles]
      refine ⟨h.1, h.2.trans ?_⟩
      simp [hopens, htype]

/-- Handles of which none is NULL are those of the files opened. -/
theorem eq_map_some {l : List (Option ℕ)} (h : none ∉ l) : l = (l.filterMap id).map some := by
  induction l with
  | nil => rfl
  | cons file l ih =>
      rw [List.mem_cons, not_or] at h
      cases file with
      | none => exact absurd rfl h.1
      | some file => exact congrArg (some file :: ·) (ih h.2)

/-- **`log_close` is right exactly where every file could be opened.** After
any calls of `log_add_target`, whatever `fopen` gave in each, `log_close`
closes every file that was opened once, and calls no `fclose(NULL)`, if and
only if `fopen` gave a file in each call that gets as far. -/
theorem logClose_iff (facilitynames : Facilities) (calls : List AddTarget) :
    ((∀ file < (addTargets facilitynames calls).files,
        (logClose (addTargets facilitynames calls)).count (.fclose (some file)) = 1) ∧
      .fclose none ∉ logClose (addTargets facilitynames calls)) ↔
    ∀ call ∈ calls, call.opensFile facilitynames = true → call.fopen = true := by
  obtain ⟨hopened, hnull⟩ := handles_addTargets facilitynames calls
  obtain ⟨hmem, hcount⟩ := logTargetsClear_fclose (addTargets facilitynames calls).targets
  rw [logClose, hmem, hnull]
  constructor
  · rintro ⟨-, hnone⟩ call hcall hopens
    by_contra hfopen
    exact hnone ⟨call, hcall, hopens, by simpa using hfopen⟩
  · intro h
    have hnone : ¬ ∃ call ∈ calls, call.opensFile facilitynames = true ∧ call.fopen = false := by
      rintro ⟨call, hcall, hopens, hfopen⟩
      rw [h call hcall hopens] at hfopen
      cases hfopen
    refine ⟨fun file hfile => ?_, hnone⟩
    rw [hcount (mt hnull.mp hnone), eq_map_some (mt hnull.mp hnone), hopened,
      List.count_map_of_injective _ _ fun _ _ => Option.some.inj]
    exact List.count_eq_one_of_mem List.nodup_range (List.mem_range.mpr hfile)

/-- **A log file that cannot be opened is closed all the same.** -/
theorem logClose_fails : CloseEvent.fclose none ∈
    logClose (addTargets [] [⟨some (ascii "file:3,/x"), ⟨true, true, true⟩, false⟩]) := by
  decide

/-! ## The log path -/

/-- **Nothing is printed to a file that could not be opened**: the log path
asks `opened_`, which is set where there is a file. -/
theorem fprintf_opened (calls : List AddTarget) :
    ∀ t ∈ (addTargets facilitynames calls).targets, ∀ file, t.log = some (.fprintf file) →
      file.isSome = true := by
  refine addTargets_rule (P := fun _ log => ∀ t ∈ log.targets, ∀ file,
    t.log = some (.fprintf file) → file.isSome = true) nofun (fun _ _ _ h _ => h)
    (fun _ call log target h hconf _ t ht file hlog => ?_) calls
  rw [link_targets] at ht
  rcases List.mem_append.mp ht with ht | ht
  · exact h t ht file hlog
  · rw [List.mem_singleton.mp ht] at hlog
    obtain ⟨conf, -, hconfigured⟩ := configured_of_call hconf
    by_cases htype : target.type = .file
    · obtain ⟨logfilename, hparam⟩ := hconfigured.file htype
      rw [LogTarget.open, htype, hparam] at hlog
      dsimp only at hlog
      split at hlog
      · obtain rfl : some log.files = file := by simpa [LogTarget.log] using hlog
        rfl
      · simp [LogTarget.log, hconfigured.opened] at hlog
    · rw [LogTarget.log, (open_frame call.fopen log.files target).1] at hlog
      split at hlog
      · split at hlog <;> cases hlog
      · rename_i hfile _
        exact absurd hfile htype
      · cases hlog
      · cases hlog
      · cases hlog

end Daemon

end Realraum
