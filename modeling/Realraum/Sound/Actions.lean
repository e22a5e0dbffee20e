import Realraum.Sound.Model.Actions
/-!
# Names with an underscore

`executeAction` fetches the type, the delay and the argument of a section
by a joined name, and the options of a registered action by section and
option. A joined name is cut at its first underscore, so both ways agree on
a section exactly if its name has none. A chain of such sections executes
the action it leads to, unless an exception is raised on the way: by an
option that cannot be read, or by a byte string that cannot be put together
with a decoded user.
-/

namespace Realraum

namespace Sound

namespace Actions

open Raising

variable {F : Type} {py : Python F} {c : Config} {user : BaseString} {w w' : Trace}

/-! ## The two ways to an option -/

theorem getValue_append {name option t : String} (hname : '_' ∉ name.toList)
    (ht : t.toList = '_' :: option.toList) :
    getValue c (name ++ t) = getSectionValue c name option := by
  rw [getValue, Text.cut_append hname ht]

/-- A section with an underscore is looked for under another name. -/
theorem getValue_singleton {name : String} (hname : '_' ∈ name.toList) (option t : String)
    (value : Option String) : getValue [((name, option), value)] (name ++ t) = .ok none := by
  obtain ⟨sec, rest, hcut, hne⟩ := Text.cut_append_of_mem hname t
  have hlookup : List.lookup (sec, rest) [((name, option), value)] = none := by
    rw [List.lookup_cons, beq_false_of_ne fun h => hne (Prod.mk.inj h).1]
    rfl
  rw [getValue, hcut]
  show getSectionValue _ sec rest = _
  rw [getSectionValue, hlookup]

/-- **The two ways agree on the sections without an underscore.** -/
theorem getValue_eq_iff (name option : String) :
    (∀ c, getValue c (name ++ ("_" ++ option)) = getSectionValue c name option) ↔
      '_' ∉ name.toList := by
  constructor
  -- a configuration of one option tells the two ways apart
  · intro h hname
    have hvalue := h [((name, option), some "")]
    rw [getValue_singleton hname, getSectionValue, List.lookup_cons_self] at hvalue
    cases hvalue
  · intro hname c
    exact getValue_append hname (String.toList_append ..)

/-! ## What a chain needs -/

/-- An option of a section, if it has one. -/
def textOf (c : Config) (name option : String) : List String :=
  match getSectionValue c name option with
  | .ok value => value.toList
  | .error _ => []

theorem textOf_eq {name option : String} {value : Option String}
    (h : getSectionValue c name option = .ok value) : textOf c name option = value.toList := by
  rw [textOf, h]

/-- The argument of a section, if it has one. -/
def argOf (c : Config) (name : String) : List String := textOf c name "arg"

/-- The delay of a section can be slept, and its argument read. For a
decoded user its name, its type and the delay are ASCII. -/
structure Readable (py : Python F) (c : Config) (user : BaseString) (name : String) : Prop where
  delay : ∃ delay, getSectionValue c name "delay" = .ok delay ∧ sleep py delay = .ok ()
  arg : ∃ arg, getSectionValue c name "arg" = .ok arg
  ascii : user.decodes (name :: (textOf c name "type" ++ textOf c name "delay"))

/-- **A chain of types**, section by section up to a registered one: the
sections, the last of them, and how many calls are nested on the way. -/
inductive Chain (c : Config) : (ℕ → ℕ) → String → List String → String → ℕ → Registered → Prop
  | registered {draws : ℕ → ℕ} {name type : String} {kind : Registered}
      (htype : getSectionValue c name "type" = .ok (some type))
      (hof : ActionType.of type = .registered kind) : Chain c draws name [name] name 1 kind
  | random {draws : ℕ → ℕ} {name type last : String} {names σ : List String} {n : ℕ}
      {kind : Registered} (htype : getSectionValue c name "type" = .ok (some type))
      (hof : ActionType.of type = .random) (hone : oneOf c name = .ok names)
      (rest : Chain c (fun i => draws (i + 1)) (choice (draws 0) names) σ last n kind) :
      Chain c draws name (name :: σ) last (n + 2) kind
  | action {draws : ℕ → ℕ} {name type next last : String} {σ : List String} {n : ℕ}
      {kind : Registered} (htype : getSectionValue c name "type" = .ok (some type))
      (hof : ActionType.of type = .action next) (rest : Chain c draws next σ last n kind) :
      Chain c draws name (name :: σ) last (n + 1) kind

theorem decode_of_decodes {texts : List String} (h : user.decodes texts = true) :
    decode user texts = .ok () := by
  rw [decode, if_pos h]

theorem decode_of_not_decodes {texts : List String} (h : user.decodes texts = false) :
    decode user texts = .error .unicodeDecodeError := by
  rw [decode, h, if_neg Bool.false_ne_true]

/-- What is found out about a section, if nothing is raised. -/
theorem lookUp_cases (py : Python F) (user : BaseString) {name type : String}
    (hname : '_' ∉ name.toList) (htype : getSectionValue c name "type" = .ok (some type)) :
    (∃ arg, lookUp py c user name = .ok (some (type, arg)) ∧ argOf c name = arg.toList ∧
        Readable py c user name) ∨
      ∃ e, lookUp py c user name = .error e ∧ ¬ Readable py c user name := by
  have hget : ∀ option t : String, t.toList = '_' :: option.toList →
      getValue c (name ++ t) = getSectionValue c name option :=
    fun option t => getValue_append hname
  rw [lookUp, hget "type" _ rfl, htype, hget "delay" _ rfl, hget "arg" _ rfl]
  cases hdelay : getSectionValue c name "delay" with
  | error e =>
      refine .inr ⟨e, rfl, fun h => ?_⟩
      obtain ⟨delay, hok, -⟩ := h.delay
      cases hdelay.symm.trans hok
  | ok delay =>
      have htexts : textOf c name "type" ++ textOf c name "delay" = type :: delay.toList := by
        rw [textOf_eq htype, textOf_eq hdelay]
        rfl
      cases hascii : user.decodes (name :: type :: delay.toList) with
      | false =>
          refine .inr ⟨.unicodeDecodeError, ?_, fun h => ?_⟩
          · simp [bind, Except.bind, decode_of_not_decodes hascii]
          · exact Bool.false_ne_true (hascii.symm.trans (htexts ▸ h.ascii))
      | true =>
          have hdecode := decode_of_decodes hascii
          cases hsleep : sleep py delay with
          | error e =>
              refine .inr ⟨e, by simp [bind, Except.bind, hdecode, hsleep], fun h => ?_⟩
              obtain ⟨delay', hok, hslept⟩ := h.delay
              cases hdelay.symm.trans hok
              cases hsleep.symm.trans hslept
          | ok slept =>
              cases harg : getSectionValue c name "arg" with
              | error e =>
                  refine .inr ⟨e, by simp [bind, Except.bind, hdecode, hsleep], fun h => ?_⟩
                  obtain ⟨arg, hok⟩ := h.arg
                  cases harg.symm.trans hok
              | ok arg =>
                  refine .inl ⟨arg, ?_, textOf_eq harg,
                    ⟨delay, hdelay, hsleep⟩, ⟨arg, harg⟩, htexts ▸ hascii⟩
                  simp [bind, Except.bind, hdecode, hsleep, pure, Except.pure]

/-! ## One call -/

variable {frames : ℕ} {draws : ℕ → ℕ} {name type : String} {args : List String}
  {arg : Option String}

theorem executeAction_registered {kind : Registered}
    (hlook : lookUp py c user name = .ok (some (type, arg)))
    (hof : ActionType.of type = .registered kind) :
    (executeAction py c (frames + 1) draws (some name) user args).run w =
      match executeRegistered py c kind name user (args ++ arg.toList) with
      | .ok action => .ok () ((w.call name).execute action)
      | .error e => .error e (w.call name) := by
  rw [executeAction, run_bind_of_ok (EStateM.run_modify _ w),
    run_bind_of_ok (run_fromExcept_ok hlook _)]
  simp only [hof]
  cases hregistered : executeRegistered py c kind name user (args ++ arg.toList) with
  | error e => exact run_bind_of_error (run_fromExcept_error rfl _)
  | ok action => exact run_bind_of_ok (run_fromExcept_ok rfl _)

theorem executeAction_action {next : String}
    (hlook : lookUp py c user name = .ok (some (type, arg)))
    (hof : ActionType.of type = .action next) :
    (executeAction py c (frames + 1) draws (some name) user args).run w =
      (executeAction py c frames draws (some next) user (args ++ arg.toList)).run
        (w.call name) := by
  rw [executeAction, run_bind_of_ok (EStateM.run_modify _ w),
    run_bind_of_ok (run_fromExcept_ok hlook _)]
  simp only [hof]

theorem executeAction_random {names : List String}
    (hlook : lookUp py c user name = .ok (some (type, arg))) (hof : ActionType.of type = .random)
    (hone : oneOf c name = .ok names) :
    (executeAction py c (frames + 2) draws (some name) user args).run w =
      (executeAction py c frames (fun i => draws (i + 1)) (some (choice (draws 0) names)) user
        (args ++ arg.toList)).run (w.call name) := by
  rw [executeAction, run_bind_of_ok (EStateM.run_modify _ w),
    run_bind_of_ok (run_fromExcept_ok hlook _)]
  simp only [hof]
  exact run_bind_of_ok (run_fromExcept_ok hone _)

/-- What is raised on the way ends the call. -/
theorem executeAction_raises {e : PyException} (hlook : lookUp py c user name = .error e) :
    (executeAction py c (frames + 1) draws (some name) user args).run w =
      .error e (w.call name) := by
  rw [executeAction, run_bind_of_ok (EStateM.run_modify _ w)]
  exact run_bind_of_error (run_fromExcept_error hlook _)

/-- The last call the interpreter allows cannot make the random one. -/
theorem executeAction_random_last {names : List String}
    (hlook : lookUp py c user name = .ok (some (type, arg))) (hof : ActionType.of type = .random)
    (hone : oneOf c name = .ok names) :
    (executeAction py c 1 draws (some name) user args).run w =
      .error .runtimeError (w.call name) := by
  rw [executeAction, run_bind_of_ok (EStateM.run_modify _ w),
    run_bind_of_ok (run_fromExcept_ok hlook _)]
  simp only [hof]
  exact run_bind_of_ok (run_fromExcept_ok hone _)

theorem executeAction_random_raises {e : PyException}
    (hlook : lookUp py c user name = .ok (some (type, arg))) (hof : ActionType.of type = .random)
    (hone : oneOf c name = .error e) :
    (executeAction py c (frames + 1) draws (some name) user args).run w =
      .error e (w.call name) := by
  rw [executeAction, run_bind_of_ok (EStateM.run_modify _ w),
    run_bind_of_ok (run_fromExcept_ok hlook _)]
  simp only [hof]
  exact run_bind_of_error (run_fromExcept_error hone _)

/-! ## A whole chain -/

variable {σ : List String} {last : String} {n : ℕ} {kind : Registered}

theorem Chain.pos (h : Chain c draws name σ last n kind) : 0 < n := by
  cases h <;> omega

/-- The arguments of a section come in front of those behind it. -/
theorem args_append (hargs : argOf c name = arg.toList) (args σ : List String) :
    args ++ (name :: σ).flatMap (argOf c) = args ++ arg.toList ++ σ.flatMap (argOf c) := by
  rw [List.flatMap_cons, hargs, List.append_assoc]

theorem calls_append (w : Trace) (name : String) (σ : List String) :
    (w.call name).calls ++ σ = w.calls ++ name :: σ := List.append_assoc ..

/-- A call for a section with a type ends without raising only if the
interpreter allows it and the section can be read; there the rest of the
call decides. -/
theorem executeAction_section {u : Unit} {P : Prop} (hname : '_' ∉ name.toList)
    (htype : getSectionValue c name "type" = .ok (some type)) (hpos : P → 0 < frames)
    (hread : P → Readable py c user name)
    (hrest : ∀ m arg, frames = m + 1 → lookUp py c user name = .ok (some (type, arg)) →
      argOf c name = arg.toList → Readable py c user name →
      ((executeAction py c frames draws (some name) user args).run w = .ok u w' ↔ P)) :
    (executeAction py c frames draws (some name) user args).run w = .ok u w' ↔ P := by
  cases frames with
  | zero => exact iff_of_false nofun fun h => absurd (hpos h) (Nat.lt_irrefl 0)
  | succ frames =>
      rcases lookUp_cases py user hname htype with ⟨arg, hlook, harg, hreadable⟩ | ⟨e, hlook, hnot⟩
      · exact hrest frames arg rfl hlook harg hreadable
      · rw [executeAction_raises hlook]
        exact iff_of_false nofun fun h => hnot (hread h)

/-- **A chain without underscores is followed to its end** exactly if the
interpreter allows as many calls, every section can be read, and the
registered action executed. -/
theorem executeAction_eq_ok (h : Chain c draws name σ last n kind)
    (hσ : ∀ s ∈ σ, '_' ∉ s.toList) (frames : ℕ) (user : BaseString) (args : List String)
    (w : Trace) (u : Unit) (w' : Trace) :
    (executeAction py c frames draws (some name) user args).run w = .ok u w' ↔
      n ≤ frames ∧ (∀ s ∈ σ, Readable py c user s) ∧
        ∃ action, executeRegistered py c kind last user (args ++ σ.flatMap (argOf c)) = .ok action ∧
          w' = ⟨w.calls ++ σ, w.executed ++ action.toList⟩ := by
  induction h generalizing frames args w with
  | @registered draws name type kind htype hof =>
      refine executeAction_section (hσ name List.mem_cons_self) htype (fun h => h.1)
        (fun h => h.2.1 name List.mem_cons_self) fun m arg hframes hlook harg hread => ?_
      subst hframes
      rw [executeAction_registered hlook hof, args_append harg, List.flatMap_nil, List.append_nil]
      cases executeRegistered py c kind name user (args ++ arg.toList) with
      | error e => exact iff_of_false nofun fun ⟨_, _, _, h, _⟩ => nomatch h
      | ok action =>
          constructor
          · intro h
            cases h
            refine ⟨by omega, fun s hs => ?_, action, rfl, rfl⟩
            rwa [List.mem_singleton.mp hs]
          · rintro ⟨-, -, _, haction, rfl⟩
            cases haction
            rfl
  | @random draws name type last names σ n kind htype hof hone rest ih =>
      refine executeAction_section (hσ name List.mem_cons_self) htype (fun h => by omega)
        (fun h => h.2.1 name List.mem_cons_self) fun m arg hframes hlook harg hread => ?_
      subst hframes
      cases m with
      | zero =>
          have hpos := rest.pos
          rw [executeAction_random_last hlook hof hone]
          -- the random call leaves no frame for the member that was chosen
          exact iff_of_false nofun fun h => absurd h.1 (by omega)
      | succ m =>
          rw [executeAction_random hlook hof hone, args_append harg,
            ih fun s hs => hσ s (.tail _ hs), calls_append, List.forall_mem_cons,
            and_iff_right hread, Nat.add_le_add_iff_right (n := 2)]
          rfl
  | @action draws name type next last σ n kind htype hof rest ih =>
      refine executeAction_section (hσ name List.mem_cons_self) htype (fun h => by omega)
        (fun h => h.2.1 name List.mem_cons_self) fun m arg hframes hlook harg hread => ?_
      subst hframes
      rw [executeAction_action hlook hof, args_append harg, ih fun s hs => hσ s (.tail _ hs),
        calls_append, List.forall_mem_cons, and_iff_right hread, Nat.succ_le_succ_iff]
      rfl

/-! ## When the action is executed -/

/-- **The action at the end of a chain is executed**, and nothing else, with
the arguments of the chain in order. -/
def Executes (py : Python F) (c : Config) (frames : ℕ) (draws : ℕ → ℕ) (name : String)
    (user : BaseString) (σ : List String) (last : String) (kind : Registered) (w : Trace) : Prop :=
  ∃ action, executeRegistered py c kind last user (σ.flatMap (argOf c)) = .ok (some action) ∧
    (executeAction py c frames draws (some name) user []).run w =
      .ok () ⟨w.calls ++ σ, w.executed ++ [action]⟩

/-- **A chain can be used**: the interpreter allows as many calls, the
delays can be slept and the arguments read, the options of the registered
action are there, and the byte strings can be put together with the user. -/
structure Usable (py : Python F) (c : Config) (frames : ℕ) (user : BaseString) (σ : List String)
    (last : String) (n : ℕ) (kind : Registered) : Prop where
  deep : n ≤ frames
  readable : ∀ s ∈ σ, Readable py c user s
  registered : ∃ action,
    executeRegistered py c kind last user (σ.flatMap (argOf c)) = .ok (some action)

theorem executes_iff_usable (h : Chain c draws name σ last n kind) (hσ : ∀ s ∈ σ, '_' ∉ s.toList)
    (frames : ℕ) (user : BaseString) (w : Trace) :
    Executes py c frames draws name user σ last kind w ↔ Usable py c frames user σ last n kind := by
  constructor
  · rintro ⟨action, haction, hrun⟩
    obtain ⟨hdeep, hread, -⟩ := (executeAction_eq_ok h hσ ..).mp hrun
    exact ⟨hdeep, hread, action, haction⟩
  · rintro ⟨hdeep, hread, action, haction⟩
    exact ⟨action, haction, (executeAction_eq_ok h hσ ..).mpr ⟨hdeep, hread, action, haction, rfl⟩⟩

/-- A section without a type, as far as `getValue` sees, executes nothing. -/
theorem executeAction_of_none (hlook : lookUp py c user name = .ok none) :
    (executeAction py c (frames + 1) draws (some name) user args).run w = .ok () (w.call name) := by
  rw [executeAction, run_bind_of_ok (EStateM.run_modify _ w)]
  exact run_bind_of_ok (run_fromExcept_ok hlook _)

/-- An option there is not. -/
theorem getSectionValue_singleton {sec option other : String} (hne : other ≠ option)
    (value : Option String) : getSectionValue [((sec, option), value)] sec other = .ok none := by
  have hlookup : List.lookup (sec, other) [((sec, option), value)] = none := by
    rw [List.lookup_cons, beq_false_of_ne fun h => hne (Prod.mk.inj h).2]
    rfl
  rw [getSectionValue, hlookup]

/-- **A section with an underscore** that does nothing but exist. It can be
used for a user who is a byte string, and is not found. -/
theorem not_executes_singleton (py : Python F) (draws : ℕ → ℕ) (text : String)
    (hname : '_' ∈ name.toList) :
    ∃ c, Chain c draws name [name] name 1 .nothing ∧
      Usable py c 1 (.str text) [name] name 1 .nothing ∧
      ¬ Executes py c 1 draws name (.str text) [name] name .nothing ⟨[], []⟩ := by
  have hof : ActionType.of "nothing" = .registered .nothing := by decide
  refine ⟨[((name, "type"), some "nothing")], .registered ?_ hof,
    ⟨Nat.le_refl 1, ?_, .nothing, rfl⟩, ?_⟩
  · rw [getSectionValue, List.lookup_cons_self]
  · intro s hs
    rw [List.mem_singleton.mp hs]
    exact ⟨⟨none, getSectionValue_singleton (by decide) _, rfl⟩,
      ⟨none, getSectionValue_singleton (by decide) _⟩, rfl⟩
  · rintro ⟨action, -, hrun⟩
    have hlook : lookUp py [((name, "type"), some "nothing")] (.str text) name = .ok none := by
      rw [lookUp, getValue_singleton hname]
      rfl
    rw [executeAction_of_none hlook] at hrun
    cases hrun

end Actions

end Sound

end Realraum
