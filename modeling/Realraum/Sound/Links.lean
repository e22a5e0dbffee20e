import Realraum.Common.Walk
import Realraum.Sound.Actions
/-!
# Actions that lead back to themselves

`executeAction` follows the type of an action, or a member of its `one_of`,
without remembering where it was. The names it is called with are a walk
along these links. Where the links from the action of a theme have no
cycle, the walk passes every name at most once and ends; round a cycle it
goes on until the interpreter stops it.
-/

namespace Realraum

namespace Sound

namespace Actions

open Raising Relation

variable {F : Type} {py : Python F} {c : Config} {w w' : Trace} {frames : ℕ} {draws : ℕ → ℕ}
  {name next type : String} {user : BaseString} {args : List String} {arg : Option String}

/-- **A link**, as `executeAction` sees it: the type names the other action,
or is random and has it among its members. -/
inductive Links (c : Config) : String → String → Prop
  | action {name type next : String} (htype : getValue c (name ++ "_type") = .ok (some type))
      (hof : ActionType.of type = .action next) : Links c name next
  | random {name type next : String} {names : List String}
      (htype : getValue c (name ++ "_type") = .ok (some type))
      (hof : ActionType.of type = .random) (hone : oneOf c name = .ok names)
      (hmem : next ∈ names) : Links c name next

/-- Round a cycle of links one can get to from an action. -/
def Cyclic (c : Config) (name : String) : Prop :=
  ∃ a, ReflTransGen (Links c) name a ∧ TransGen (Links c) a a

/-! ## What the parts raise

The recursion is too deep in a call of `executeAction` only. -/

theorem getSectionValue_ne_runtimeError (c : Config) (sec name : String) :
    getSectionValue c sec name ≠ .error .runtimeError := by
  rw [getSectionValue]
  cases c.lookup (sec, name) with
  | none => exact ok_ne_error _ _
  | some value =>
      cases value with
      | none => exact error_ne_error (by decide)
      | some text => exact ok_ne_error _ _

theorem getValue_ne_runtimeError (c : Config) (name : String) :
    getValue c name ≠ .error .runtimeError := by
  rw [getValue]
  cases Text.cut '_' name with
  | none => exact error_ne_error (by decide)
  | some k => exact getSectionValue_ne_runtimeError c k.1 k.2

theorem toFloat_ne_runtimeError (py : Python F) (value : String) :
    toFloat py value ≠ .error .runtimeError := by
  rw [toFloat]
  cases py.float value with
  | none => exact error_ne_error (by decide)
  | some x => exact ok_ne_error _ _

theorem decode_ne_runtimeError (user : BaseString) (texts : List String) :
    decode user texts ≠ .error .runtimeError := by
  rw [decode]
  cases user.decodes texts with
  | false => exact error_ne_error (by decide)
  | true => exact ok_ne_error _ _

theorem sleep_ne_runtimeError (py : Python F) (delay : Option String) :
    sleep py delay ≠ .error .runtimeError := by
  cases delay with
  | none => exact ok_ne_error _ _
  | some delay =>
      refine bind_ne_error (toFloat_ne_runtimeError py delay) fun x => ?_
      cases py.sleeps x with
      | false => exact error_ne_error (by decide)
      | true => exact ok_ne_error _ _

theorem lookUp_ne_runtimeError (py : Python F) (c : Config) (user : BaseString) (name : String) :
    lookUp py c user name ≠ .error .runtimeError := by
  refine bind_ne_error (getValue_ne_runtimeError c _) fun found => ?_
  cases found with
  | none => exact ok_ne_error _ _
  | some type =>
      refine bind_ne_error (getValue_ne_runtimeError c _) fun delay => ?_
      refine bind_ne_error (decode_ne_runtimeError user _) fun _ => ?_
      refine bind_ne_error (sleep_ne_runtimeError py delay) fun _ => ?_
      exact bind_ne_error (getValue_ne_runtimeError c _) fun arg => ok_ne_error _ _

theorem oneOf_ne_runtimeError (c : Config) (name : String) :
    oneOf c name ≠ .error .runtimeError := by
  refine bind_ne_error (getSectionValue_ne_runtimeError c _ _) fun found => ?_
  cases found with
  | none => exact error_ne_error (by decide)
  | some names => exact ok_ne_error _ _

theorem seconds_ne_runtimeError (py : Python F) (ptimeout : Option String) :
    seconds py ptimeout ≠ .error .runtimeError := by
  cases ptimeout with
  | none => exact ok_ne_error _ _
  | some ptimeout =>
      refine bind_ne_error (toFloat_ne_runtimeError py _) fun x => ?_
      cases py.gt45 x with
      | true => exact ok_ne_error _ _
      | false =>
          cases py.int x with
          | none => exact error_ne_error (by decide)
          | some secs => exact ok_ne_error _ _

theorem runShellCommand_ne_runtimeError (py : Python F) (cmd ptimeout stdinput : Option String)
    (user : BaseString) (args : List String) :
    runShellCommand py cmd ptimeout stdinput user args ≠ .error .runtimeError := by
  cases cmd with
  | none => exact error_ne_error (by decide)
  | some cmd =>
      refine bind_ne_error (decode_ne_runtimeError user _) fun _ => ?_
      exact bind_ne_error (seconds_ne_runtimeError py ptimeout) fun secs => ok_ne_error _ _

theorem executeRegistered_ne_runtimeError (py : Python F) (c : Config) (kind : Registered)
    (name : String) (user : BaseString) (args : List String) :
    executeRegistered py c kind name user args ≠ .error .runtimeError := by
  cases kind with
  | remotecmd =>
      refine bind_ne_error (getSectionValue_ne_runtimeError c _ _) fun host => ?_
      exact bind_ne_error (getSectionValue_ne_runtimeError c _ _) fun shell => ok_ne_error _ _
  | shellcmd =>
      refine bind_ne_error (getSectionValue_ne_runtimeError c _ _) fun cmd => ?_
      refine bind_ne_error (getSectionValue_ne_runtimeError c _ _) fun ptimeout => ?_
      refine bind_ne_error (getSectionValue_ne_runtimeError c _ _) fun stdinput => ?_
      rw [map_eq_pure_bind]
      refine bind_ne_error (runShellCommand_ne_runtimeError py cmd ptimeout stdinput user args) ?_
      exact fun action => ok_ne_error _ _
  | nothing => exact ok_ne_error _ _

theorem str_ne_runtimeError (user : BaseString) : str user ≠ .error .runtimeError := by
  cases user with
  | str text => exact ok_ne_error _ _
  | unicode text =>
      rw [str]
      cases ascii text with
      | true => exact ok_ne_error _ _
      | false => exact error_ne_error (by decide)

theorem mapping_ne_runtimeError (c : Config) (user fallbackDefault : BaseString) :
    mapping c user fallbackDefault ≠ .error .runtimeError := by
  refine bind_ne_error (str_ne_runtimeError user) fun text => ?_
  refine bind_ne_error (getValue_ne_runtimeError c _) fun found => ?_
  cases found with
  | none =>
      exact bind_ne_error (str_ne_runtimeError fallbackDefault) fun text =>
        getValue_ne_runtimeError c _
  | some config => exact ok_ne_error _ _

/-! ## What a run calls -/

theorem type_of_lookUp (hlook : lookUp py c user name = .ok (some (type, arg))) :
    getValue c (name ++ "_type") = .ok (some type) := by
  obtain ⟨found, hfound, hrest⟩ := bind_eq_ok.mp hlook
  cases found with
  | none => cases hrest
  | some type' =>
      obtain ⟨delay, -, hrest⟩ := bind_eq_ok.mp hrest
      obtain ⟨_, -, hrest⟩ := bind_eq_ok.mp hrest
      obtain ⟨_, -, hrest⟩ := bind_eq_ok.mp hrest
      obtain ⟨arg', -, hrest⟩ := bind_eq_ok.mp hrest
      cases hrest
      exact hfound

theorem names_ne_nil {names : List String} (hone : oneOf c name = .ok names) : names ≠ [] := by
  obtain ⟨found, -, hrest⟩ := bind_eq_ok.mp hone
  cases found with
  | none => cases hrest
  | some text =>
      cases hrest
      exact Text.split_ne_nil ' ' text

theorem choice_mem (draw : ℕ) {names : List String} (hne : names ≠ []) :
    choice draw names ∈ names := by
  have hlt : draw % names.length < names.length :=
    Nat.mod_lt _ (List.length_pos_of_ne_nil hne)
  rw [choice, List.getD_eq_getElem?_getD, List.getElem?_eq_getElem hlt]
  exact List.getElem_mem hlt

/-- **The names of the calls are a walk along the links**, from the action a
run starts with. Where the recursion is too deep, every one of them has a
link, and there are at least half as many as calls may be nested. -/
structure Follows (c : Config) (frames : ℕ) (name : Option String) (w : Trace)
    (r : EStateM.Result PyException Trace Unit) (calls : List String) : Prop where
  trace : (state r).calls = w.calls ++ calls
  first : ∀ a ∈ calls.head?, name = some a
  chain : calls.IsChain (Links c)
  deep : ∀ w', r = .error .runtimeError w' →
    frames ≤ 2 * calls.length ∧ ∀ a ∈ calls, ∃ b, Links c a b

/-- Nothing is called. -/
theorem Follows.nil {a : Option String} {r : EStateM.Result PyException Trace Unit}
    (hstate : state r = w) (hdeep : ∀ w', r = .error .runtimeError w' → frames = 0) :
    Follows c frames a w r [] where
  trace := by rw [hstate, List.append_nil]
  first := nofun
  chain := .nil
  deep w' hr := ⟨by rw [hdeep w' hr]; exact Nat.zero_le _, nofun⟩

/-- Nothing more is called. -/
theorem Follows.single {r : EStateM.Result PyException Trace Unit}
    (hcalls : (state r).calls = (w.call name).calls) (hr : ∀ w', r ≠ .error .runtimeError w') :
    Follows c frames (some name) w r [name] where
  trace := hcalls
  first := by simp
  chain := .singleton name
  deep w' h := absurd h (hr w')

/-- A link is followed. -/
theorem Follows.cons {r : EStateM.Result PyException Trace Unit} {calls : List String} {m : ℕ}
    (hlink : Links c name next) (h : Follows c m (some next) (w.call name) r calls)
    (hframes : frames ≤ m + 2) : Follows c frames (some name) w r (name :: calls) where
  trace := h.trace.trans (calls_append w name calls)
  first := by simp
  chain := List.isChain_cons.mpr ⟨fun a ha => by cases h.first a ha; exact hlink, h.chain⟩
  deep w' hr := by
    obtain ⟨hm, hlinks⟩ := h.deep w' hr
    refine ⟨by rw [List.length_cons]; omega, ?_⟩
    rw [List.forall_mem_cons]
    exact ⟨⟨next, hlink⟩, hlinks⟩

/-- A section with a type: either nothing more is called, or a link is
followed with the frames that are left. -/
theorem exists_follows_found (hlook : lookUp py c user name = .ok (some (type, arg)))
    (ih : ∀ m < frames + 1, ∀ draws next args w, ∃ calls, Follows c m (some next) w
      ((executeAction py c m draws (some next) user args).run w) calls) :
    ∃ calls, Follows c (frames + 1) (some name) w
      ((executeAction py c (frames + 1) draws (some name) user args).run w) calls := by
  have htype := type_of_lookUp hlook
  cases hof : ActionType.of type with
  | registered kind =>
      rw [executeAction_registered hlook hof]
      cases hrun : executeRegistered py c kind name user (args ++ arg.toList) with
      | ok action => exact ⟨[name], .single rfl nofun⟩
      | error e =>
          refine ⟨[name], .single rfl fun w' h => ?_⟩
          cases h
          exact executeRegistered_ne_runtimeError py c kind name user _ hrun
  | action next =>
      rw [executeAction_action hlook hof]
      obtain ⟨calls, hcalls⟩ := ih frames (by omega) draws next (args ++ arg.toList) (w.call name)
      exact ⟨name :: calls, hcalls.cons (.action htype hof) (by omega)⟩
  | random =>
      cases hone : oneOf c name with
      | error e =>
          rw [executeAction_random_raises hlook hof hone]
          refine ⟨[name], .single rfl fun w' h => ?_⟩
          cases h
          exact oneOf_ne_runtimeError c name hone
      | ok names =>
          have hlink : Links c name (choice (draws 0) names) :=
            .random htype hof hone (choice_mem _ (names_ne_nil hone))
          cases frames with
          | zero =>
              rw [executeAction_random_last hlook hof hone]
              exact ⟨[name], .cons hlink (.nil rfl fun _ _ => rfl) (by omega)⟩
          | succ frames =>
              rw [executeAction_random hlook hof hone]
              obtain ⟨calls, hcalls⟩ := ih frames (by omega) (fun i => draws (i + 1))
                (choice (draws 0) names) (args ++ arg.toList) (w.call name)
              exact ⟨name :: calls, hcalls.cons hlink (by omega)⟩

/-- **Every run follows links**, and nothing else. -/
theorem exists_follows (py : Python F) (c : Config) (frames : ℕ) (draws : ℕ → ℕ)
    (name : Option String) (user : BaseString) (args : List String) (w : Trace) :
    ∃ calls, Follows c frames name w
      ((executeAction py c frames draws name user args).run w) calls := by
  -- a random action takes two frames at once
  induction frames using Nat.strongRecOn generalizing draws name args w with
  | ind frames ih =>
      cases frames with
      | zero => exact ⟨[], .nil rfl fun _ _ => rfl⟩
      | succ frames =>
          cases name with
          | none => exact ⟨[], .nil rfl nofun⟩
          | some name =>
              cases hlook : lookUp py c user name with
              | error e =>
                  rw [executeAction_raises hlook]
                  refine ⟨[name], .single rfl fun w' h => ?_⟩
                  cases h
                  exact lookUp_ne_runtimeError py c user name hlook
              | ok found =>
                  cases found with
                  | none =>
                      rw [executeAction_of_none hlook]
                      exact ⟨[name], .single rfl nofun⟩
                  | some found =>
                      exact exists_follows_found hlook fun m hm draws next args w =>
                        ih m hm draws (some next) args w

/-! ## Where there is no cycle -/

theorem mem_of_getSectionValue {sec option value : String}
    (h : getSectionValue c sec option = .ok (some value)) : (sec, option) ∈ c.map Prod.fst := by
  rw [getSectionValue] at h
  cases hlookup : c.lookup (sec, option) with
  | none => rw [hlookup] at h; cases h
  | some found =>
      obtain ⟨l₁, l₂, rfl, -⟩ := List.lookup_eq_some_iff.mp hlookup
      simp

/-- A name with a link is the name of an option. -/
theorem Links.key (h : Links c name next) :
    ∃ k ∈ c.map Prod.fst, Text.cut '_' (name ++ "_type") = some k := by
  obtain ⟨type, htype⟩ : ∃ type, getValue c (name ++ "_type") = .ok (some type) := by
    cases h with
    | action htype => exact ⟨_, htype⟩
    | random htype => exact ⟨_, htype⟩
  rw [getValue] at htype
  cases hcut : Text.cut '_' (name ++ "_type") with
  | none => rw [hcut] at htype; cases htype
  | some k =>
      rw [hcut] at htype
      exact ⟨k, mem_of_getSectionValue htype, rfl⟩

/-- **As many names have a type as options are there**, at most. -/
theorem length_le_of_links {calls : List String} (hnodup : calls.Nodup)
    (hlinks : ∀ a ∈ calls, ∃ b, Links c a b) : calls.length ≤ c.length := by
  have hkeys : calls.length ≤ (c.map Prod.fst).length := by
    refine Walk.length_le (fun a => Text.cut '_' (a ++ "_type")) hnodup ?_ ?_
    · intro a ha
      obtain ⟨b, hlink⟩ := hlinks a ha
      exact hlink.key
    · intro a b k ha hb
      have heq := congrArg String.toList (Text.eq_of_cut_eq_some ha hb)
      rw [String.toList_append, String.toList_append] at heq
      exact String.toList_inj.mp (List.append_cancel_right heq)
  rwa [List.length_map] at hkeys

/-- Where no cycle can be got to, the walk of the calls is short. -/
theorem Follows.short {r : EStateM.Result PyException Trace Unit} {calls : List String}
    {start : Option String} (h : Follows c frames start w r calls)
    (hacyclic : ∀ a, start = some a → ¬ Cyclic c a) :
    calls.Nodup ∧ calls.length ≤ c.length + 1 ∧
      (2 * c.length < frames → ∀ w', r ≠ .error .runtimeError w') := by
  have hnodup : calls.Nodup := by
    cases calls with
    | nil => exact .nil
    | cons a rest =>
        refine Walk.nodup h.chain fun x hx hcycle => ?_
        exact hacyclic a (h.first a rfl) ⟨x, hx, hcycle⟩
  -- every name but the last has a link, so an option of its own
  have hdrop := length_le_of_links (hnodup.sublist (List.dropLast_sublist calls))
    (Walk.exists_next h.chain)
  rw [List.length_dropLast] at hdrop
  refine ⟨hnodup, by omega, fun hframes w' hr => ?_⟩
  obtain ⟨hdeep, hlinks⟩ := h.deep w' hr
  have hlen := length_le_of_links hnodup hlinks
  omega

theorem playThemeOf_run {user : Option BaseString} {start : Option String}
    {fallbackDefault : BaseString}
    (hmapping : mapping c (user.getD (.str "")) fallbackDefault = .ok start)
    (hascii : decode (user.getD (.str "")) start.toList = .ok ()) :
    (playThemeOf py c frames draws user fallbackDefault).run w =
      (executeAction py c frames draws start (user.getD (.str "")) []).run w :=
  (run_bind_of_ok (run_fromExcept_ok hmapping w)).trans
    (run_bind_of_ok (run_fromExcept_ok hascii w))

/-- Either something is raised in front of the action, or the action of the
theme is executed. -/
theorem playThemeOf_cases (py : Python F) (c : Config) (frames : ℕ) (draws : ℕ → ℕ)
    (user : Option BaseString) (fallbackDefault : BaseString) (w : Trace) :
    (∃ e, e ≠ .runtimeError ∧
      (playThemeOf py c frames draws user fallbackDefault).run w = .error e w) ∨
    ∃ start, mapping c (user.getD (.str "")) fallbackDefault = .ok start ∧
      (playThemeOf py c frames draws user fallbackDefault).run w =
        (executeAction py c frames draws start (user.getD (.str "")) []).run w := by
  cases hmapping : mapping c (user.getD (.str "")) fallbackDefault with
  | error e =>
      refine .inl ⟨e, ?_, run_bind_of_error (run_fromExcept_error hmapping w)⟩
      rintro rfl
      exact mapping_ne_runtimeError c _ _ hmapping
  | ok start =>
      cases hascii : decode (user.getD (.str "")) start.toList with
      | error e =>
          refine .inl ⟨e, ?_, ?_⟩
          · rintro rfl
            exact decode_ne_runtimeError _ _ hascii
          · exact (run_bind_of_ok (run_fromExcept_ok hmapping w)).trans
              (run_bind_of_error (run_fromExcept_error hascii w))
      | ok _ => exact .inr ⟨start, rfl, playThemeOf_run hmapping hascii⟩

/-- **A theme without a cycle ends.** For every configuration, user and
draw: where the links from the action of the theme do not lead to a cycle,
`executeAction` is called at most once for every name, and so at most once
more than the configuration has options, and the recursion is not too deep
for an interpreter that allows twice as many calls as there are options. -/
theorem playThemeOf_ends (py : Python F) (c : Config) (frames : ℕ) (draws : ℕ → ℕ)
    (user : Option BaseString) (fallbackDefault : BaseString) (w : Trace)
    (hacyclic : ∀ a, mapping c (user.getD (.str "")) fallbackDefault = .ok (some a) →
      ¬ Cyclic c a) :
    ∃ calls, (state ((playThemeOf py c frames draws user fallbackDefault).run w)).calls =
        w.calls ++ calls ∧ calls.IsChain (Links c) ∧ calls.Nodup ∧ calls.length ≤ c.length + 1 ∧
      (2 * c.length < frames →
        ∀ w', (playThemeOf py c frames draws user fallbackDefault).run w ≠
          .error .runtimeError w') := by
  rcases playThemeOf_cases py c frames draws user fallbackDefault w with
    ⟨e, hne, hrun⟩ | ⟨start, hmapping, hrun⟩
  · rw [hrun]
    refine ⟨[], (List.append_nil _).symm, .nil, .nil, Nat.zero_le _, fun _ w' h => hne ?_⟩
    cases h
    rfl
  · obtain ⟨calls, hcalls⟩ := exists_follows py c frames draws start (user.getD (.str "")) [] w
    obtain ⟨hnodup, hlen, hends⟩ := hcalls.short fun a ha => hacyclic a (by rw [hmapping, ha])
    rw [hrun]
    exact ⟨calls, hcalls.trace, hcalls.chain, hnodup, hlen, hends⟩

/-- An action linked to one other is linked to no more. -/
theorem Links.eq_of_action {other : String} (h : Links c name next)
    (htype : getValue c (name ++ "_type") = .ok (some type))
    (hof : ActionType.of type = .action other) : next = other := by
  cases h with
  | action htype' hof' =>
      cases htype.symm.trans htype'
      cases hof.symm.trans hof'
      rfl
  | random htype' hof' =>
      cases htype.symm.trans htype'
      cases hof.symm.trans hof'

/-- A registered action is linked to none. -/
theorem not_links_of_registered {kind : Registered}
    (htype : getValue c (name ++ "_type") = .ok (some type))
    (hof : ActionType.of type = .registered kind) : ¬ Links c name next := by
  intro h
  cases h with
  | action htype' hof' =>
      cases htype.symm.trans htype'
      cases hof.symm.trans hof'
  | random htype' hof' =>
      cases htype.symm.trans htype'
      cases hof.symm.trans hof'

/-- One link to a registered action is no cycle. -/
theorem not_cyclic_of_registered {other : String} (hne : other ≠ name)
    (hnext : ∀ b, Links c name b → b = other) (hend : ∀ b, ¬ Links c other b) :
    ¬ Cyclic c name := by
  rintro ⟨a, hreach, hcycle⟩
  have hstays : ∀ b, ReflTransGen (Links c) other b → b = other := by
    intro b hb
    rcases hb.cases_head with heq | ⟨x, hx, -⟩
    · exact heq.symm
    · exact absurd hx (hend x)
  -- the cycle passes `name`, which `other` does not lead to, or `other`, which has no link
  obtain ⟨b, hab, hba⟩ := TransGen.head'_iff.mp hcycle
  rcases hreach.cases_head with rfl | ⟨x, hx, hxa⟩
  · rw [hnext b hab] at hba
    exact hne (hstays _ hba).symm
  · rw [hnext x hx] at hxa
    rw [hstays a hxa] at hab
    exact hend b hab

/-- A theme whose action is a registered one under another name. -/
theorem playThemeOf_ends_tardis :
    ∃ c : Config, c = [(("mapping", "stratos"), some "tardis"),
        (("tardis", "type"), some "slugplaymp3"), (("slugplaymp3", "type"), some "remotecmd")] ∧
      ∀ (py : Python ℤ) (draws : ℕ → ℕ), ∃ calls,
        (state ((playThemeOf py c 1000 draws (some (.unicode "stratos")) (.str "DEFAULT")).run
            ⟨[], []⟩)).calls =
          [] ++ calls ∧ calls.IsChain (Links c) ∧ calls.Nodup ∧ calls.length ≤ 3 + 1 ∧
        (2 * 3 < 1000 → ∀ w',
          (playThemeOf py c 1000 draws (some (.unicode "stratos")) (.str "DEFAULT")).run ⟨[], []⟩ ≠
            .error .runtimeError w') := by
  refine ⟨_, rfl, fun py draws => ?_⟩
  have htype : ActionType.of "slugplaymp3" = .action "slugplaymp3" := by decide
  have hregistered : ActionType.of "remotecmd" = .registered .remotecmd := by decide
  refine playThemeOf_ends py _ 1000 draws (some (.unicode "stratos")) (.str "DEFAULT") ⟨[], []⟩
    fun a ha => ?_
  cases ha
  exact not_cyclic_of_registered (by decide) (fun b hb => hb.eq_of_action rfl htype)
    fun b => not_links_of_registered rfl hregistered

/-! ## Round a cycle -/

/-- **An action of its own type** is executed until the interpreter stops
it. -/
theorem executeAction_round (hlook : lookUp py c user name = .ok (some (type, arg)))
    (hof : ActionType.of type = .action name) (frames : ℕ) (args : List String) (w : Trace) :
    (executeAction py c frames draws (some name) user args).run w =
      .error .runtimeError ⟨w.calls ++ List.replicate frames name, w.executed⟩ := by
  induction frames generalizing args w with
  | zero => rw [List.replicate_zero, List.append_nil]; rfl
  | succ frames ih =>
      rw [executeAction_action hlook hof, ih, calls_append, List.replicate_succ]
      rfl

/-- **A section that is its own type.** However many calls the interpreter
allows, all of them are made for this one section, and `playThemeOf` does
not return. -/
theorem playThemeOf_ends_fails :
    ∃ c : Config, c = [(("mapping", "DEFAULT"), some "a"), (("a", "type"), some "a")] ∧
      ∀ (py : Python ℤ) (draws : ℕ → ℕ) (frames : ℕ),
        (playThemeOf py c frames draws none (.str "DEFAULT")).run ⟨[], []⟩ =
          .error .runtimeError ⟨List.replicate frames "a", []⟩ := by
  refine ⟨_, rfl, fun py draws frames => ?_⟩
  have hof : ActionType.of "a" = .action "a" := by decide
  have hmapping : mapping [(("mapping", "DEFAULT"), some "a"), (("a", "type"), some "a")]
      (.str "") (.str "DEFAULT") = .ok (some "a") := rfl
  exact (playThemeOf_run hmapping rfl).trans (executeAction_round rfl hof frames [] ⟨[], []⟩)

end Actions

end Sound

end Realraum
