import Mathlib.Data.List.Induction
import Realraum.Daemon.Model.Log
/-!
# The daemon — the log targets

A call of `log_add_target` either changes nothing or links in one target at
the end (`logAddTarget_cases`); everything about the calls of a run is read
off that. `stdlog.max_prio_` is the greatest priority of an enabled target,
so the short cut of `log_printf` drops nothing. A file that could not be
opened is closed all the same.
-/

namespace Realraum

namespace Daemon

variable {facilitynames : Facilities} {mem : LogMem} {conf : Option CStr} {name : CStr}
variable {call : AddTarget} {log : StdLog} {target : LogTarget} {targets : List LogTarget}

/-! ## One target -/

/-- A result that is no error `0`. -/
def NonzeroError {α : Type} : Except ℤ α → Prop
  | .ok _ => True
  | .error ret => ret ≠ 0

theorem nonzeroError_error {α : Type} {ret : ℤ} (h : ret ≠ 0) :
    NonzeroError (.error ret : Except ℤ α) := h

theorem initName_nonzeroError (byDefault : CStr) (mem : LogMem) (conf : Option CStr) :
    NonzeroError (initName byDefault mem conf) := by
  unfold initName
  split
  · exact nonzeroError_error (by decide)
  · split
    · exact nonzeroError_error (by decide)
    · split
      · split
        · trivial
        · exact nonzeroError_error (by decide)
      · split
        · split
          · trivial
          · exact nonzeroError_error (by decide)
        · split
          · exact nonzeroError_error (by decide)
          · split
            · trivial
            · exact nonzeroError_error (by decide)

theorem logTargetSyslogInit_nonzeroError (facilitynames : Facilities) (mem : LogMem)
    (conf : Option CStr) : NonzeroError (logTargetSyslogInit facilitynames mem conf) := by
  have hname := initName_nonzeroError (ascii "uanytun") mem conf
  rw [logTargetSyslogInit]
  split
  · rename_i ret hret
    rwa [hret] at hname
  · trivial
  · split
    · exact nonzeroError_error (by decide)
    · split
      · exact nonzeroError_error (by decide)
      · trivial

theorem logTargetFileInit_nonzeroError (mem : LogMem) (conf : Option CStr) :
    NonzeroError (logTargetFileInit mem conf) := by
  have hname := initName_nonzeroError (ascii "uanytun.log") mem conf
  rw [logTargetFileInit]
  split
  · rename_i ret hret
    rwa [hret] at hname
  · trivial

theorem nonzeroError_map {α β : Type} {f : α → β} {r : Except ℤ α} (h : NonzeroError r) :
    NonzeroError (r.map f) := by
  cases r with
  | ok a => trivial
  | error ret => exact h

/-- A target that is not configured fails with a value that is not `0`. -/
theorem configure_nonzeroError (facilitynames : Facilities) (mem : LogMem) (conf : CStr)
    (target : LogTarget) : NonzeroError (target.configure facilitynames mem conf) := by
  rw [LogTarget.configure]
  split
  · exact nonzeroError_error (by decide)
  · rw [LogTarget.init]
    split
    · exact nonzeroError_map (logTargetSyslogInit_nonzeroError _ _ _)
    · exact nonzeroError_map (logTargetFileInit_nonzeroError _ _)
    · trivial

/-- **A target as it is configured**: of its type and level, enabled just
in case the level is positive, and not opened. -/
structure Configured (conf : CStr) (target : LogTarget) : Prop where
  type : target.type = logTargetParseType conf
  level : (parseLevel conf).map Prod.fst = some target.maxPrio
  enabled : target.enabled = true ↔ 0 < target.maxPrio
  opened : target.opened = false
  file : target.type = .file → ∃ logfilename, target.param = .file logfilename none

theorem configured_of_configure {conf : CStr}
    (h : (LogTarget.new (logTargetParseType conf)).configure facilitynames mem conf =
      .ok target) : Configured conf target := by
  rw [LogTarget.configure] at h
  split at h
  · cases h
  · rename_i level confptr hlevel
    have hfst : (parseLevel conf).map Prod.fst = some level := by rw [hlevel]; rfl
    have henabled : (if 0 < level then true else false) = true ↔ 0 < level := by simp
    rw [LogTarget.init] at h
    split at h
    · rename_i htype
      cases hinit : logTargetSyslogInit facilitynames mem confptr with
      | error ret => rw [hinit] at h; cases h
      | ok param =>
          rw [hinit] at h
          obtain rfl := Except.ok.inj h
          refine ⟨rfl, hfst, henabled, rfl, fun hfile => ?_⟩
          rw [show logTargetParseType conf = .syslog from htype] at hfile
          cases hfile
    · cases hinit : logTargetFileInit mem confptr with
      | error ret => rw [hinit] at h; cases h
      | ok param =>
          rw [hinit] at h
          obtain rfl := Except.ok.inj h
          refine ⟨rfl, hfst, henabled, rfl, fun _ => ?_⟩
          rw [logTargetFileInit] at hinit
          split at hinit
          · cases hinit
          · exact ⟨_, (Except.ok.inj hinit).symm⟩
    · rename_i hfile
      obtain rfl := Except.ok.inj h
      exact ⟨rfl, hfst, henabled, rfl, fun htype => absurd htype hfile⟩

theorem toOption_eq_some {α : Type} {r : Except ℤ α} {a : α} (h : r.toOption = some a) :
    r = .ok a := by
  cases r with
  | ok b => rw [← Option.some.inj h]
  | error ret => cases h

/-- The target that is linked in, and the files opened by then. -/
theorem open_frame (fopen : Bool) (files : ℕ) (target : LogTarget) :
    (target.open fopen files).1.type = target.type ∧
      (target.open fopen files).1.enabled = target.enabled ∧
      (target.open fopen files).1.maxPrio = target.maxPrio := by
  rw [LogTarget.open]
  split
  · exact ⟨rfl, rfl, rfl⟩
  · split
    · exact ⟨rfl, rfl, rfl⟩
    · exact ⟨rfl, rfl, rfl⟩
  · exact ⟨rfl, rfl, rfl⟩

/-! ## A call -/

/-- The target a call configures, whatever is in the list. -/
def AddTarget.configured (facilitynames : Facilities) (call : AddTarget) : Option LogTarget :=
  match call.conf with
  | none => none
  | some conf =>
    if logTargetParseType conf = .unknown ∨ call.mem.target = false then none
    else ((LogTarget.new (logTargetParseType conf)).configure facilitynames call.mem conf).toOption

/-- `stdlog` with one target more. -/
def StdLog.link (log : StdLog) (fopen : Bool) (target : LogTarget) : StdLog :=
  let opened := target.open fopen log.files
  updateMaxPrio { log with targets := log.targets ++ [opened.1], files := opened.2 }

/-- **What a call can do**: it fails and changes nothing, or the target it
configures, which is no duplicate, is linked in. A call that configures a
file does not fail. -/
theorem logAddTarget_cases (facilitynames : Facilities) (call : AddTarget) (log : StdLog) :
    ((∃ ret, ret ≠ 0 ∧ logAddTarget facilitynames call log = (ret, log)) ∧
        ∀ target, call.configured facilitynames = some target → target.type ≠ .file) ∨
      ∃ target, call.configured facilitynames = some target ∧
        (target.type = .file ∨ ∀ t ∈ log.targets, t.type ≠ target.type) ∧
        logAddTarget facilitynames call log = (0, log.link call.fopen target) := by
  obtain ⟨conf, mem, fopen⟩ := call
  cases conf with
  | none => exact .inl ⟨⟨-1, by decide, rfl⟩, nofun⟩
  | some conf =>
      -- where `log_targets_add` fails, the maximum is not updated either
      have hfail : ∀ ret, ret ≠ 0 → logTargetsAdd facilitynames mem fopen conf log = (ret, log) →
          logAddTarget facilitynames ⟨some conf, mem, fopen⟩ log = (ret, log) := by
        intro ret hret hadd
        unfold logAddTarget
        dsimp only
        rw [hadd]
        split
        · rename_i heq
          exact absurd (congrArg Prod.fst heq) hret
        · rename_i heq
          exact heq.symm
      have hnone : logTargetParseType conf = .unknown ∨ mem.target = false →
          (AddTarget.mk (some conf) mem fopen).configured facilitynames = none := fun h => if_pos h
      by_cases htype : logTargetParseType conf = .unknown
      · refine .inl ⟨⟨-3, by decide, hfail _ (by decide) (if_pos htype)⟩, ?_⟩
        rw [hnone (.inl htype)]
        exact nofun
      · cases hmem : mem.target with
        | false =>
            refine .inl ⟨⟨-2, by decide, hfail _ (by decide) ?_⟩, ?_⟩
            · rw [logTargetsAdd, if_neg htype, if_pos (by rw [hmem]; rfl)]
            · rw [hnone (.inr hmem)]
              exact nofun
        | true =>
            have hnotmem : ¬ (!mem.target) = true := by rw [hmem]; decide
            have hconfigured : (AddTarget.mk (some conf) mem fopen).configured facilitynames =
                ((LogTarget.new (logTargetParseType conf)).configure facilitynames mem
                  conf).toOption := if_neg (by simp [htype, hmem])
            by_cases hdup : logTargetParseType conf ≠ .file ∧
                logTargetsTargetExists log.targets (logTargetParseType conf) = true
            · refine .inl ⟨⟨-4, by decide, hfail _ (by decide) ?_⟩, fun target htarget => ?_⟩
              · rw [logTargetsAdd, if_neg htype, if_neg hnotmem, if_pos hdup]
              · rw [hconfigured] at htarget
                rw [(configured_of_configure (toOption_eq_some htarget)).type]
                exact hdup.1
            · cases hconf : (LogTarget.new (logTargetParseType conf)).configure facilitynames mem
                  conf with
              | error ret =>
                  have hret := configure_nonzeroError facilitynames mem conf
                    (.new (logTargetParseType conf))
                  rw [hconf] at hret
                  refine .inl ⟨⟨ret, hret, hfail _ hret ?_⟩, ?_⟩
                  · rw [logTargetsAdd, if_neg htype, if_neg hnotmem, if_neg hdup, hconf]
                  · rw [hconfigured, hconf]
                    exact nofun
              | ok target =>
                  refine .inr ⟨target, ?_, ?_, ?_⟩
                  · rw [hconfigured, hconf]
                    rfl
                  · rw [(configured_of_configure hconf).type]
                    rw [not_and_or, not_not] at hdup
                    refine hdup.imp_right fun hexists t ht heq => hexists ?_
                    exact List.any_eq_true.mpr ⟨t, ht, decide_eq_true heq⟩
                  · unfold logAddTarget
                    dsimp only
                    rw [logTargetsAdd, if_neg htype, if_neg hnotmem, if_neg hdup, hconf]
                    rfl

/-- The target a call configures is one as its configuration says. -/
theorem configured_of_call (h : call.configured facilitynames = some target) :
    ∃ conf, call.conf = some conf ∧ Configured conf target := by
  rw [AddTarget.configured] at h
  split at h
  · cases h
  · rename_i conf hconf
    split at h
    · cases h
    · exact ⟨conf, hconf, configured_of_configure (toOption_eq_some h)⟩

/-! ## The calls of a run -/

theorem addTargets_append (calls : List AddTarget) (call : AddTarget) :
    addTargets facilitynames (calls ++ [call]) =
      (logAddTarget facilitynames call (addTargets facilitynames calls)).2 := by
  rw [addTargets, List.foldl_append]
  rfl

/-- **The rule of the calls.** What holds at first, and is kept both where
nothing changes and where a target is linked in, holds behind every run of
calls. -/
theorem addTargets_rule {P : List AddTarget → StdLog → Prop} (hinit : P [] logInit)
    (hfail : ∀ calls call log, P calls log →
      (∀ target, call.configured facilitynames = some target → target.type ≠ .file) →
      P (calls ++ [call]) log)
    (hlink : ∀ calls call log target, P calls log →
      call.configured facilitynames = some target →
      (target.type = .file ∨ ∀ t ∈ log.targets, t.type ≠ target.type) →
      P (calls ++ [call]) (log.link call.fopen target))
    (calls : List AddTarget) : P calls (addTargets facilitynames calls) := by
  induction calls using List.reverseRecOn with
  | nil => exact hinit
  | append_singleton calls call ih =>
      rw [addTargets_append]
      rcases logAddTarget_cases facilitynames call (addTargets facilitynames calls) with
        ⟨⟨ret, -, heq⟩, hfile⟩ | ⟨target, hconf, hdup, heq⟩
      · rw [heq]
        exact hfail calls call _ ih hfile
      · rw [heq]
        exact hlink calls call _ target ih hconf hdup

@[simp] theorem link_targets (log : StdLog) (fopen : Bool) (target : LogTarget) :
    (log.link fopen target).targets = log.targets ++ [(target.open fopen log.files).1] := rfl

@[simp] theorem link_files (log : StdLog) (fopen : Bool) (target : LogTarget) :
    (log.link fopen target).files = (target.open fopen log.files).2 := rfl

/-! ## The cached maximum -/

/-- The maximum is never below what it was, nor below an enabled target. -/
theorem foldl_maxPrio (targets : List LogTarget) : ∀ maxPrio : ℕ,
    maxPrio ≤ targets.foldl (fun maxPrio target =>
        if target.enabled ∧ maxPrio < target.maxPrio then target.maxPrio else maxPrio) maxPrio ∧
    ∀ t ∈ targets, t.enabled = true → t.maxPrio ≤ targets.foldl (fun maxPrio target =>
        if target.enabled ∧ maxPrio < target.maxPrio then target.maxPrio else maxPrio) maxPrio := by
  induction targets with
  | nil => exact fun maxPrio => ⟨Nat.le_refl _, nofun⟩
  | cons target targets ih =>
      intro maxPrio
      rw [List.foldl_cons]
      obtain ⟨hle, htargets⟩ := ih
        (if target.enabled ∧ maxPrio < target.maxPrio then target.maxPrio else maxPrio)
      refine ⟨Nat.le_trans ?_ hle, fun t ht henabled => ?_⟩
      · split
        · rename_i h
          exact Nat.le_of_lt h.2
        · exact Nat.le_refl _
      -- the maximum behind this target is at least its own, and only grows from there
      · rcases List.mem_cons.mp ht with rfl | ht
        · refine Nat.le_trans ?_ hle
          split
          · exact Nat.le_refl _
          · rename_i h
            exact Nat.le_of_not_lt fun hlt => h ⟨henabled, hlt⟩
        · exact htargets t ht henabled

/-- **The cached maximum is at least every enabled target's.** -/
theorem le_maxPrio (calls : List AddTarget) :
    ∀ t ∈ (addTargets facilitynames calls).targets, t.enabled = true →
      t.maxPrio ≤ (addTargets facilitynames calls).maxPrio := by
  refine addTargets_rule (P := fun _ log => ∀ t ∈ log.targets, t.enabled = true →
    t.maxPrio ≤ log.maxPrio) nofun (fun _ _ _ h _ => h) (fun _ call log target _ _ _ => ?_) calls
  exact (foldl_maxPrio _ _).2

/-- **The short cut of `log_printf` suppresses nothing**: after any calls
of `log_add_target`, whatever became of them, a message of any priority is
handed to the targets `log_targets_log` would hand it to. -/
theorem logPrintf_eq_logTargetsLog (facilitynames : Facilities) (calls : List AddTarget)
    (prio : ℕ) (text : CStr) :
    logPrintf (addTargets facilitynames calls) prio text =
      logTargetsLog (addTargets facilitynames calls).targets prio (text.take 149) := by
  rw [logPrintf]
  split
  · rename_i hlt
    rw [logTargetsLog, List.filter_eq_nil_iff.mpr, List.map_nil]
    intro t ht htakes
    rw [decide_eq_true_eq] at htakes
    have hle := le_maxPrio calls t ht htakes.1
    omega
  · rfl

/-! ## The list of the targets -/

/-- **There is one target of a type at most, files apart.** -/
theorem length_filter_type_le_one (calls : List AddTarget) {type : LogTargetType}
    (htype : type ≠ .file) :
    ((addTargets facilitynames calls).targets.filter fun t => t.type = type).length ≤ 1 := by
  refine addTargets_rule (P := fun _ log =>
    (log.targets.filter fun t => t.type = type).length ≤ 1) (Nat.zero_le _) (fun _ _ _ h _ => h)
    (fun _ call log target h _ hdup => ?_) calls
  rw [link_targets, List.filter_append, List.length_append]
  by_cases heq : target.type = type
  · have hempty : (log.targets.filter fun t => t.type = type) = [] := by
      rw [List.filter_eq_nil_iff]
      intro t ht hteq
      rw [decide_eq_true_eq] at hteq
      exact (hdup.resolve_left (heq ▸ htype)) t ht (hteq.trans heq.symm)
    rw [hempty, List.length_nil, Nat.zero_add]
    exact List.length_filter_le _ _
  · rw [List.filter_cons_of_neg, List.filter_nil]
    · exact h
    · simpa [(open_frame call.fopen log.files target).1] using heq

/-- **The list of the targets.** After any calls of `log_add_target` the
list has at most one target of each type that is not a file. A further call
that does not return `0` leaves all of `stdlog` as it was, and one that does
appends one target, of the level its configuration says, which is enabled
just in case the level is positive. -/
theorem logAddTarget_list (facilitynames : Facilities) (calls : List AddTarget) :
    (∀ type, type ≠ .file →
      ((addTargets facilitynames calls).targets.filter fun t => t.type = type).length ≤ 1) ∧
    ∀ call,
      ((logAddTarget facilitynames call (addTargets facilitynames calls)).1 ≠ 0 →
        (logAddTarget facilitynames call (addTargets facilitynames calls)).2 =
          addTargets facilitynames calls) ∧
      ((logAddTarget facilitynames call (addTargets facilitynames calls)).1 = 0 →
        ∃ conf t, call.conf = some conf ∧
          (logAddTarget facilitynames call (addTargets facilitynames calls)).2.targets =
            (addTargets facilitynames calls).targets ++ [t] ∧
          (parseLevel conf).map Prod.fst = some t.maxPrio ∧
          (t.enabled = true ↔ 0 < t.maxPrio)) := by
  refine ⟨fun type htype => length_filter_type_le_one calls htype, fun call => ?_⟩
  rcases logAddTarget_cases facilitynames call (addTargets facilitynames calls) with
    ⟨⟨ret, hret, heq⟩, -⟩ | ⟨target, hconf, -, heq⟩ <;> rw [heq]
  · exact ⟨fun _ => rfl, fun hzero => absurd hzero hret⟩
  · obtain ⟨conf, hcall, hconfigured⟩ := configured_of_call hconf
    obtain ⟨-, henabled, hmax⟩ :=
      open_frame call.fopen (addTargets facilitynames calls).files target
    refine ⟨fun hne => absurd rfl hne, fun _ => ⟨conf, _, hcall, rfl, ?_, ?_⟩⟩
    · rw [hmax]
      exact hconfigured.level
    · rw [hmax, henabled]
      exact hconfigured.enabled

end Daemon

end Realraum
