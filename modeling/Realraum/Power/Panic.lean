import Mathlib.Algebra.Ring.Int.Defs
import Realraum.Power.Model.Panic
/-!
# Where the panic sequence stops

Once the ceiling lights are off, `eventPanic` reads the light level and logs
what it read with `"%d"`. It provides for a level that is missing, but only
for the comparison: the text cannot be formatted then, and the exception
leaves with the lights off. So the sequence is run to its end exactly where
both levels are numbers, wherever they are read at all, and the options
behind that are usable.
-/

namespace Realraum

namespace Power

open Raising

variable {F : Type} {py : Python F} {cfg : UWSConfig} {env : Env F} {s t : State F}

theorem State.request_nil (s : State F) : s.request [] = s := by
  rw [State.request, List.append_nil]

theorem State.request_append (s : State F) (l l' : List (String × Bool)) :
    s.request (l ++ l') = (s.request l).request l' := by
  rw [State.request, State.request, State.request, List.append_assoc]

theorem split_ne_nil (ids : String) : split ids ≠ [] := Text.split_ne_nil ' ' ids

theorem getattr_eq_ok {o : Option String} {a : String} :
    (getattr o).run s = .ok a t ↔ o = some a ∧ s = t := run_orRaise_eq_ok

/-! ## Switching -/

theorem switchPower_eq_ok {id : String} {on : Bool} {u : Unit} :
    (switchPower cfg id on).run s = .ok u t ↔
      cfg.slugCgiuri.isSome ∧ t = s.request [(id, on)] := by
  rw [switchPower, run_bind_eq_ok]
  constructor
  · rintro ⟨uri, v, hget, h⟩
    obtain ⟨huri, rfl⟩ := getattr_eq_ok.mp hget
    cases h
    exact ⟨Option.isSome_of_eq_some huri, rfl⟩
  · rintro ⟨huri, rfl⟩
    obtain ⟨uri, huri⟩ := Option.isSome_iff_exists.mp huri
    exact ⟨uri, s, getattr_eq_ok.mpr ⟨huri, rfl⟩, rfl⟩

theorem switchPower_run (hcgi : cfg.slugCgiuri.isSome) (id : String) (on : Bool) (s : State F) :
    (switchPower cfg id on).run s = .ok () (s.request [(id, on)]) :=
  switchPower_eq_ok.mpr ⟨hcgi, rfl⟩

/-- **Every id is switched, one after the other.** -/
theorem switchAll_run (hcgi : cfg.slugCgiuri.isSome) (on : Bool) (ids : List String) (s : State F) :
    (switchAll cfg on ids).run s = .ok () (s.request (ids.map (·, on))) := by
  induction ids generalizing s with
  | nil => rw [List.map_nil, s.request_nil]; rfl
  | cons id ids ih =>
      rw [switchAll, run_bind_of_ok (switchPower_run hcgi id on s), ih, ← s.request_append]
      rfl

theorem switchAll_eq_ok {on : Bool} {ids : List String} {u : Unit} (hne : ids ≠ []) :
    (switchAll cfg on ids).run s = .ok u t ↔
      cfg.slugCgiuri.isSome ∧ t = s.request (ids.map (·, on)) := by
  constructor
  · intro h
    have hcgi : cfg.slugCgiuri.isSome := by
      cases ids with
      | nil => exact absurd rfl hne
      | cons id ids =>
          obtain ⟨_, _, hfirst, -⟩ := run_bind_eq_ok.mp h
          exact (switchPower_eq_ok.mp hfirst).1
    rw [switchAll_run hcgi] at h
    cases h
    exact ⟨hcgi, rfl⟩
  · rintro ⟨hcgi, rfl⟩
    exact switchAll_run hcgi on ids s

theorem flashRound_run (hcgi : cfg.slugCgiuri.isSome) (on : Bool) (ids : List String)
    (s : State F) :
    (flashRound cfg (ids.map (·, on))).run s =
      .ok (ids.map (·, !on)) (s.request (ids.map (·, !on))) := by
  induction ids generalizing s with
  | nil => rw [List.map_nil, List.map_nil, s.request_nil]; rfl
  | cons id ids ih =>
      rw [List.map_cons, flashRound, run_bind_of_ok (switchPower_run hcgi id (!on) s),
        run_bind_of_ok (ih _), ← s.request_append]
      rfl

/-- The rounds of the flashing: everything is toggled in each. -/
def flashing (ids : List String) : ℕ → Bool → List (String × Bool)
  | 0, _ => []
  | times + 1, on => ids.map (·, !on) ++ flashing ids times !on

theorem flash_run (hcgi : cfg.slugCgiuri.isSome) (ids : List String) (times : ℕ) (on : Bool)
    (s : State F) :
    (flash cfg times (ids.map (·, on))).run s = .ok () (s.request (flashing ids times on)) := by
  induction times generalizing on s with
  | zero => rw [flashing, s.request_nil]; rfl
  | succ times ih =>
      rw [flash, run_bind_of_ok (flashRound_run hcgi on ids s), ih, flashing, s.request_append]

/-! ## The guess -/

/-- What the light levels show: whether the fall is larger than the
difference, where both levels and the difference are numbers. -/
def lightsWereOn (py : Python F) (cfg : UWSConfig) (env : Env F) (lightValue : JsonValue F) :
    Option Bool :=
  lightValue.toNumber.bind fun before =>
  (env.lightlevel.bind py.int).bind fun after =>
  (before.subInt py after).bind fun drop =>
  (cfg.slugLightDifferenceDecke.bind py.int).map fun difference => drop.gtInt py difference

/-- **The guess can be made and logged**: the light level URL can be asked,
the last value is a finite number, and the levels show something. -/
structure Guessable (py : Python F) (cfg : UWSConfig) (env : Env F) (lightValue : JsonValue F) :
    Prop where
  asked : cfg.slugLightleveluri.isSome
  finite : ∃ before, lightValue.toNumber = some before ∧ before.isFinite py
  shown : (lightsWereOn py cfg env lightValue).isSome

theorem getLightValueNow_eq_ok {after : Option ℤ} :
    (getLightValueNow py cfg env).run s = .ok after t ↔
      cfg.slugLightleveluri.isSome ∧ after = env.lightlevel.bind py.int ∧ t = s := by
  rw [getLightValueNow, run_bind_eq_ok]
  constructor
  · rintro ⟨uri, v, hget, h⟩
    obtain ⟨huri, rfl⟩ := getattr_eq_ok.mp hget
    cases h
    exact ⟨Option.isSome_of_eq_some huri, rfl, rfl⟩
  · rintro ⟨huri, rfl, rfl⟩
    obtain ⟨uri, huri⟩ := Option.isSome_iff_exists.mp huri
    exact ⟨uri, t, getattr_eq_ok.mpr ⟨huri, rfl⟩, rfl⟩

theorem formatD_eq_ok {value : JsonValue F} {u : Unit} :
    (formatD py value).run s = .ok u t ↔
      (∃ n, value.toNumber = some n ∧ n.isFinite py) ∧ s = t := by
  rw [formatD, run_orRaise_eq_ok, Option.map_eq_some_iff]
  simp only [Option.filter_eq_some_iff, and_true]

theorem fellByDifference_eq_ok {before : JsonValue F} {after : ℤ} {b : Bool}
    (hafter : env.lightlevel.bind py.int = some after) :
    (fellByDifference py cfg before after).run s = .ok b t ↔
      lightsWereOn py cfg env before = some b ∧ s = t := by
  rw [fellByDifference, lightsWereOn, hafter]
  simp only [run_bind_eq_ok, run_orRaise_eq_ok, getattr_eq_ok, Option.bind_eq_some_iff,
    Option.map_eq_some_iff, EStateM.run_pure]
  constructor
  · rintro ⟨x, _, ⟨hx, rfl⟩, drop, _, ⟨hdrop, rfl⟩, text, _, ⟨htext, rfl⟩, d, _, ⟨hd, rfl⟩, h⟩
    cases h
    exact ⟨⟨x, hx, after, rfl, drop, hdrop, d, ⟨text, htext, hd⟩, rfl⟩, rfl⟩
  · rintro ⟨⟨x, hx, _, h, drop, hdrop, d, ⟨text, htext, hd⟩, rfl⟩, rfl⟩
    cases h
    exact ⟨x, s, ⟨hx, rfl⟩, drop, s, ⟨hdrop, rfl⟩, text, s, ⟨htext, rfl⟩, d, s, ⟨hd, rfl⟩, rfl⟩

/-- Where there are two levels, they are compared. -/
theorem compareLevels_of_some {before : JsonValue F} {after : ℤ} {n : Number F}
    (hbefore : before.toNumber = some n) :
    compareLevels py cfg before (some after) = fellByDifference py cfg before after := by
  cases before with
  | null => cases hbefore
  | _ => rfl

theorem measureMainLight_eq_ok {ids : List String} {b : Bool} (hne : ids ≠ []) :
    (measureMainLight py cfg env ids).run s = .ok b t ↔
      (cfg.slugCgiuri.isSome ∧ Guessable py cfg env s.lightValue ∧
        lightsWereOn py cfg env s.lightValue = some b) ∧ t = s.request (ids.map (·, false)) := by
  rw [measureMainLight]
  simp only [run_bind_eq_ok, switchAll_eq_ok hne, getLightValueNow_eq_ok, formatD_eq_ok]
  constructor
  · rintro ⟨_, _, hstate, _, _, ⟨hcgi, rfl⟩, after, _, ⟨hasked, hafter, rfl⟩, b', _, hcompare,
      _, _, ⟨hfinite, rfl⟩, _, _, ⟨⟨m, hm, -⟩, rfl⟩, h⟩
    cases hstate
    cases h
    -- it returned, so the log line was made, and of two numbers
    obtain ⟨n, hn, -⟩ := id hfinite
    cases after with
    | none => cases hm
    | some after =>
        rw [compareLevels_of_some hn] at hcompare
        obtain ⟨hshown, rfl⟩ := (fellByDifference_eq_ok hafter.symm).mp hcompare
        exact ⟨⟨hcgi, ⟨hasked, hfinite, Option.isSome_of_eq_some hshown⟩, hshown⟩, rfl⟩
  · rintro ⟨⟨hcgi, hguess, hshown⟩, rfl⟩
    obtain ⟨n, hn, hfinite⟩ := hguess.finite
    obtain ⟨after, hafter⟩ : ∃ after, env.lightlevel.bind py.int = some after := by
      cases hafter : env.lightlevel.bind py.int with
      | none => rw [lightsWereOn, hn, Option.bind_some, hafter] at hshown; cases hshown
      | some after => exact ⟨after, rfl⟩
    refine ⟨s, s, rfl, (), _, ⟨hcgi, rfl⟩, some after, _, ⟨hguess.asked, hafter.symm, rfl⟩, b, _,
      ?_, (), _, ⟨⟨n, hn, hfinite⟩, rfl⟩, (), _, ⟨⟨.int after, rfl, rfl⟩, rfl⟩, rfl⟩
    rw [compareLevels_of_some hn]
    exact (fellByDifference_eq_ok hafter).mpr ⟨hshown, rfl⟩

/-- The guess is left out where no ceiling light is among the ids to flash. -/
theorem guessMainLight_eq_ok {b : Bool} {lst1 ids : List String} (hne : ids ≠ [])
    (hcgi : cfg.slugCgiuri.isSome) :
    (guessMainLight py cfg env lst1 ids).run s = .ok b t ↔
      (ids.any (lst1.contains ·) → Guessable py cfg env s.lightValue) ∧
        b = (ids.any (lst1.contains ·) && (lightsWereOn py cfg env s.lightValue).getD false) ∧
        t = s.request (if ids.any (lst1.contains ·) then ids.map (·, false) else []) := by
  rw [guessMainLight]
  cases ids.any (lst1.contains ·) with
  | false =>
      rw [if_neg Bool.false_ne_true, if_neg Bool.false_ne_true, s.request_nil]
      constructor
      · intro h
        cases h
        exact ⟨nofun, rfl, rfl⟩
      · rintro ⟨-, rfl, rfl⟩
        rfl
  | true =>
      rw [if_pos rfl, if_pos rfl, measureMainLight_eq_ok hne]
      constructor
      · rintro ⟨⟨-, hguess, hshown⟩, rfl⟩
        exact ⟨fun _ => hguess, by rw [hshown]; rfl, rfl⟩
      · rintro ⟨hguess, rfl, rfl⟩
        obtain ⟨b, hb⟩ := Option.isSome_iff_exists.mp (hguess rfl).shown
        exact ⟨⟨hcgi, hguess rfl, by rw [hb]; rfl⟩, rfl⟩

/-! ## Presence -/

/-- **The options `eventPresent` reads are usable.** -/
structure Presentable (py : Python F) (cfg : UWSConfig) (env : Env F) (roomIsBright : Option Bool) :
    Prop where
  present : (presentIds cfg env roomIsBright).isSome
  logo : cfg.slugIdsLogo.isSome
  secs : (cfg.powerswitchingSecsMovementBeforePresenceToLaunchEvent.bind py.float).isSome

theorem secsMovementBeforePresence_eq_ok {secs : F} :
    (secsMovementBeforePresence py cfg).run s = .ok secs t ↔
      cfg.powerswitchingSecsMovementBeforePresenceToLaunchEvent.bind py.float = some secs ∧
        s = t := by
  rw [secsMovementBeforePresence, run_bind_eq_ok, Option.bind_eq_some_iff]
  simp only [getattr_eq_ok, run_orRaise_eq_ok]
  constructor
  · rintro ⟨text, _, ⟨htext, rfl⟩, hsecs, rfl⟩
    exact ⟨⟨text, htext, hsecs⟩, rfl⟩
  · rintro ⟨⟨text, htext, hsecs⟩, rfl⟩
    exact ⟨text, s, ⟨htext, rfl⟩, hsecs, rfl⟩

theorem switchLogo_eq_ok {u : Unit} :
    (switchLogo cfg env true).run s = .ok u t ↔
      cfg.slugCgiuri.isSome ∧ ∃ logo, cfg.slugIdsLogo = some logo ∧
        t = s.request ((split logo).map (·, true)) := by
  rw [switchLogo, run_bind_eq_ok]
  simp only [getattr_eq_ok, switchAll_eq_ok (split_ne_nil _), if_pos]
  constructor
  · rintro ⟨logo, _, ⟨hlogo, rfl⟩, hcgi, rfl⟩
    exact ⟨hcgi, logo, hlogo, rfl⟩
  · rintro ⟨hcgi, logo, hlogo, rfl⟩
    exact ⟨logo, s, ⟨hlogo, rfl⟩, hcgi, rfl⟩

/-- **Where `eventPresent` returns**, the ids of the option are switched on
and the logo is. -/
theorem eventPresent_eq_ok [Zero F] :
    (∃ u t, (eventPresent py cfg env).run s = .ok u t) ↔
      cfg.slugCgiuri.isSome ∧ Presentable py cfg env s.roomIsBright := by
  rw [eventPresent]
  simp only [run_bind_eq_ok, getattr_eq_ok, switchAll_eq_ok (split_ne_nil _), switchLogo_eq_ok,
    secsMovementBeforePresence_eq_ok]
  constructor
  · rintro ⟨u, t, _, _, hmodify, v, _, hget, present, _, ⟨hpresent, rfl⟩, _, _, ⟨hcgi, rfl⟩,
      _, _, ⟨-, logo, hlogo, rfl⟩, secs, _, ⟨hsecs, rfl⟩, -⟩
    cases hmodify
    cases hget
    exact ⟨hcgi, Option.isSome_of_eq_some hpresent, Option.isSome_of_eq_some hlogo,
      Option.isSome_of_eq_some hsecs⟩
  · rintro ⟨hcgi, hready⟩
    obtain ⟨present, hpresent⟩ := Option.isSome_iff_exists.mp hready.present
    obtain ⟨logo, hlogo⟩ := Option.isSome_iff_exists.mp hready.logo
    obtain ⟨secs, hsecs⟩ := Option.isSome_iff_exists.mp hready.secs
    -- the last branch returns, whether the movement was recent or not
    have hend : ∀ (c : Bool) (v : State F), ∃ t, (if c then do
        modify fun s : State F => { s with unixtsLastMovement := 0 }
        eventPresentAndMoved else pure () : Handler F Unit).run v = .ok () t := by
      intro c v
      cases c with
      | false => exact ⟨v, rfl⟩
      | true => exact ⟨_, rfl⟩
    obtain ⟨t, ht⟩ := hend (py.le (py.sub env.later s.unixtsLastMovement) secs) _
    exact ⟨(), t, (), _, rfl, _, _, rfl, present, _, ⟨hpresent, rfl⟩, (), _, ⟨hcgi, rfl⟩,
      (), _, ⟨hcgi, logo, hlogo, rfl⟩, secs, _, ⟨hsecs, rfl⟩, ht⟩

/-! ## The sequence -/

/-- Some ceiling light is among the ids to flash. -/
def flashesCeiling (panic decke : String) : Bool := (split decke).any ((split panic).contains ·)

/-- **What is requested up to `eventPresent`**: the ceiling lights off for
the guess, everything off, five rounds of flashing, and everything off once
more. -/
def panicRequests (panic decke : String) : List (String × Bool) :=
  (if flashesCeiling panic decke then (split decke).map (·, false) else []) ++
    (split panic).map (·, false) ++ flashing (split panic) 5 false ++
    (split panic).map (·, false)

/-- The ceiling lights on again, if they were on as far as one can see. -/
def ceilingRequests (py : Python F) (cfg : UWSConfig) (env : Env F) (lightValue : JsonValue F)
    (panic decke : String) : List (String × Bool) :=
  if flashesCeiling panic decke && (lightsWereOn py cfg env lightValue).getD false then
    (split decke).map (·, true)
  else []

/-- **The sequence is run to its end**, `eventPresent` in it, and nothing is
raised. -/
def Completes [Zero F] (py : Python F) (cfg : UWSConfig) (env : Env F) (s : State F) : Prop :=
  ∃ panic decke t, cfg.slugIdsPanic = some panic ∧ cfg.slugIdsDecke = some decke ∧
    (eventPresent py cfg env).run (s.request (panicRequests panic decke)) = .ok () t ∧
    (eventPanic py cfg env).run s =
      .ok () (t.request (ceilingRequests py cfg env s.lightValue panic decke))

/-- **Nothing the sequence reads makes it raise.** -/
structure Ready (py : Python F) (cfg : UWSConfig) (env : Env F) (s : State F) : Prop where
  cgiuri : cfg.slugCgiuri.isSome
  panic : cfg.slugIdsPanic.isSome
  decke : cfg.slugIdsDecke.isSome
  guess : ∀ panic decke, cfg.slugIdsPanic = some panic → cfg.slugIdsDecke = some decke →
    flashesCeiling panic decke → Guessable py cfg env s.lightValue
  presentable : Presentable py cfg env s.roomIsBright

/-- **When the panic sequence is run to its end.** For every configuration,
every last light value and every answer of the light level URL. -/
theorem eventPanic_completes_iff [Zero F] (py : Python F) (cfg : UWSConfig) (env : Env F)
    (s : State F) : Completes py cfg env s ↔ Ready py cfg env s := by
  constructor
  · rintro ⟨panic, decke, t, hpanic, hdecke, hpresent, hrun⟩
    obtain ⟨hcgi, hready⟩ := eventPresent_eq_ok.mp ⟨(), t, hpresent⟩
    rw [eventPanic] at hrun
    obtain ⟨_, _, hget, hrun⟩ := run_bind_eq_ok.mp hrun
    obtain ⟨hpanic', rfl⟩ := getattr_eq_ok.mp hget
    obtain ⟨_, _, hget, hrun⟩ := run_bind_eq_ok.mp hrun
    obtain ⟨hdecke', rfl⟩ := getattr_eq_ok.mp hget
    obtain ⟨b, _, hguess, -⟩ := run_bind_eq_ok.mp hrun
    refine ⟨hcgi, Option.isSome_of_eq_some hpanic, Option.isSome_of_eq_some hdecke, ?_, hready⟩
    intro panic' decke' hp hd
    cases hpanic'.symm.trans hp
    cases hdecke'.symm.trans hd
    exact ((guessMainLight_eq_ok (split_ne_nil _) hcgi).mp hguess).1
  · rintro ⟨hcgi, hpanic, hdecke, hguess, hready⟩
    obtain ⟨panic, hpanic⟩ := Option.isSome_iff_exists.mp hpanic
    obtain ⟨decke, hdecke⟩ := Option.isSome_iff_exists.mp hdecke
    obtain ⟨_, t, hpresent⟩ := eventPresent_eq_ok.mpr
      (⟨hcgi, hready⟩ : _ ∧ Presentable py cfg env
        (s.request (panicRequests panic decke)).roomIsBright)
    -- the requests are appended block by block, in the order of `panicRequests`
    refine ⟨panic, decke, t, hpanic, hdecke, hpresent, ?_⟩
    rw [eventPanic, run_bind_of_ok (getattr_eq_ok.mpr ⟨hpanic, rfl⟩),
      run_bind_of_ok (getattr_eq_ok.mpr ⟨hdecke, rfl⟩),
      run_bind_of_ok ((guessMainLight_eq_ok (split_ne_nil decke) hcgi).mpr
        ⟨hguess panic decke hpanic hdecke, rfl, rfl⟩),
      run_bind_of_ok (switchAll_run hcgi false _ _), run_bind_of_ok (flash_run hcgi _ _ false _),
      run_bind_of_ok (switchAll_run hcgi false _ _), ← s.request_append, ← s.request_append,
      ← s.request_append]
    refine (run_bind_of_ok hpresent).trans ?_
    rw [ceilingRequests, flashesCeiling]
    split
    · exact switchAll_run hcgi true _ t
    · rw [t.request_nil]
      rfl

/-! ## No answer -/

/-- A value that is no number cannot be logged. -/
theorem formatD_run_of_none {value : JsonValue F} (h : value.toNumber = none) (s : State F) :
    (formatD py value).run s = .error .typeError s := by
  rw [formatD, h]
  rfl

/-- **Without an answer the sequence is abandoned**, with the ceiling lights
switched off and nothing else done. -/
theorem eventPanic_abandoned [Zero F] {panic decke : String} {n : Number F}
    (hcgi : cfg.slugCgiuri.isSome) (hasked : cfg.slugLightleveluri.isSome)
    (hpanic : cfg.slugIdsPanic = some panic) (hdecke : cfg.slugIdsDecke = some decke)
    (hflashes : flashesCeiling panic decke) (hvalue : s.lightValue.toNumber = some n)
    (hfinite : n.isFinite py) (hanswer : env.lightlevel.bind py.int = none) :
    (eventPanic py cfg env).run s =
      .error .typeError (s.request ((split decke).map (·, false))) := by
  have hmeasure : (measureMainLight py cfg env (split decke)).run s =
      .error .typeError (s.request ((split decke).map (·, false))) := by
    have hcompare : compareLevels py cfg s.lightValue none = pure false := by
      cases s.lightValue <;> rfl
    rw [measureMainLight, run_bind_of_ok (EStateM.run_get s),
      run_bind_of_ok (switchAll_run hcgi false _ s),
      run_bind_of_ok (getLightValueNow_eq_ok.mpr ⟨hasked, hanswer.symm, rfl⟩), hcompare,
      run_bind_of_ok (EStateM.run_pure false _),
      run_bind_of_ok (formatD_eq_ok (u := ()) |>.mpr ⟨⟨n, hvalue, hfinite⟩, rfl⟩)]
    exact run_bind_of_error (formatD_run_of_none rfl _)
  rw [eventPanic, run_bind_of_ok (getattr_eq_ok.mpr ⟨hpanic, rfl⟩),
    run_bind_of_ok (getattr_eq_ok.mpr ⟨hdecke, rfl⟩)]
  refine run_bind_of_error ?_
  rw [guessMainLight]
  exact (congrArg (EStateM.run · s) (if_pos hflashes)).trans hmeasure

/-- **The light level URL does not answer**, and nothing else is wrong: the
script has just started, with the configuration its constructor sets. The
ceiling lights stay off. -/
theorem eventPanic_completes_fails :
    let py : Python ℤ := ⟨String.toInt?, String.toInt?, fun x n => some (x - n),
      fun x n => n < x, fun _ => true, (· - ·), fun x y => x ≤ y⟩
    let env : Env ℤ := ⟨0, 0, 12, 5, none⟩
    (eventPanic py .default env).run .init = .error .typeError
        (State.init.request [("deckevorne", false), ("deckehinten", false)]) ∧
      ¬ Completes py .default env .init := by
  intro py env
  have hflashes : flashesCeiling "spots1 ymhmute labor werkzeug deckevorne deckehinten"
      "deckevorne deckehinten" := by decide
  have hsplit : split "deckevorne deckehinten" = ["deckevorne", "deckehinten"] := by decide
  have hrun : (eventPanic py .default env).run .init = .error .typeError
      (State.init.request ((split "deckevorne deckehinten").map (·, false))) :=
    eventPanic_abandoned rfl rfl rfl rfl hflashes rfl rfl rfl
  refine ⟨by rwa [hsplit] at hrun, ?_⟩
  rintro ⟨panic, decke, t, -, -, -, h⟩
  rw [hrun] at h
  cases h

end Power

end Realraum
