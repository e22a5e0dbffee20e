import Realraum.Common.Latest
import Realraum.Power.Model.MainLoop
import Realraum.Power.Panic
/-!
# What a run of the power switch comes to

What was requested last for an id is what the lamp is. So a run is a walk on
a board of lamps: somebody present turns some of them on, nobody turns some
of them off, and the panic button does both. Movement and light never touch
it, whatever the clock says; light only chooses among the lamps of the day.
-/

namespace Realraum

namespace Power

open Latest Raising

variable {F : Type} {py : Interpreter F} {cfg : Config} {env : Env F} {s t : State F}
variable {a : Arrival F} {ms : List (Arrival F)}

/-! ## The board -/

/-- **The board**: who is there, as far as the script knows, the light, and
what each lamp was last told. -/
structure Board (F : Type) where
  present : Option Bool
  bright : Option Bool
  light : JsonValue F
  lamps : String → Option Bool

/-- What the globals and the requests show. -/
def State.board (s : State F) : Board F :=
  ⟨s.statusPresence, s.roomIsBright, s.lightValue, latest s.requests⟩

/-- The ids of an option are turned on or off. -/
def turn (on : Bool) (ids : Option String) (lamps : String → Option Bool) :
    String → Option Bool :=
  ids.elim lamps fun ids => write on (split ids) lamps

/-- Somebody is there. -/
def Board.somebody (cfg : UWSConfig) (env : Env F) (b : Board F) : Board F :=
  { b with
    present := some true
    lamps := turn true cfg.slugIdsLogo (turn true (presentIds cfg env b.bright) b.lamps) }

/-- Without anybody the logo is on in the dark, but for the wolf's hour. -/
def logoAlone (env : Env F) : Bool := !haveDaylight env && !isWolfHour env

/-- Nobody is there. -/
def Board.nobody (cfg : Config) (env : Env F) (b : Board F) : Board F :=
  { b with
    present := some false
    lamps := turn false cfg.slugIdsNonpresentOff (turn (logoAlone env) cfg.slugIdsLogo b.lamps) }

/-- **The guess whether the ceiling lights were on**, or none where it
cannot be made. -/
def guess (py : Python F) (cfg : UWSConfig) (env : Env F) (light : JsonValue F)
    (panic decke : String) : Option Bool :=
  if flashesCeiling panic decke then
    if cfg.slugLightleveluri.isSome && light.toNumber.any (·.isFinite py) then
      lightsWereOn py cfg env light
    else none
  else some false

/-- The ceiling lights are off behind the guess, if some are to flash. -/
def Board.darken (panic decke : String) (b : Board F) : Board F :=
  if flashesCeiling panic decke then { b with lamps := turn false (some decke) b.lamps } else b

/-- The panic button, with these ids. -/
def Board.panicWith (py : Python F) (cfg : UWSConfig) (env : Env F) (panic decke : String)
    (b : Board F) : Board F :=
  let dark := b.darken panic decke
  (guess py cfg env b.light panic decke).elim dark fun wereOn =>
    let b := { dark with lamps := turn false (some panic) dark.lamps }.somebody cfg env
    if wereOn then { b with lamps := turn true (some decke) b.lamps } else b

/-- The panic button. -/
def Board.panic (py : Python F) (cfg : UWSConfig) (env : Env F) (b : Board F) : Board F :=
  cfg.slugIdsPanic.elim b fun panic => cfg.slugIdsDecke.elim b fun decke =>
    b.panicWith py cfg env panic decke

/-- There is a light level, and it is compared with the threshold. -/
def Board.illuminate (py : Interpreter F) (cfg : Config) (value : JsonValue F) (b : Board F) :
    Board F :=
  { b with
    light := value
    bright := ((cfg.slugLightThresholdBrightness.bind py.int).map (value.geInt py)).or b.bright }

/-- **A message on the board.** -/
def Board.step (py : Interpreter F) (b : Board F) (a : Arrival F) : Board F :=
  if a.checked then
    match a.message with
    | .presenceUpdate (.found true) => b.somebody a.cfg.toUWSConfig a.env
    | .presenceUpdate (.found false) => b.nobody a.cfg a.env
    | .boreDoomButtonPressEvent => b.panic py.toPython a.cfg.toUWSConfig a.env
    | .illuminationSensorUpdate (.found value) => b.illuminate py a.cfg value
    | _ => b
  else b

/-! ## Requests on the board -/

theorem State.board_request (s : State F) (on : Bool) (ids : List String) :
    (s.request (ids.map (·, on))).board = { s.board with lamps := write on ids s.board.lamps } := by
  unfold State.board State.request
  rw [latest_append_map]

/-- The writes of the flashing are for its ids. -/
theorem mem_of_mem_flashing {ids : List String} {times : ℕ} {on : Bool} :
    ∀ x ∈ flashing ids times on, x.1 ∈ ids := by
  induction times generalizing on with
  | zero => intro x hx; cases hx
  | succ times ih =>
      intro x hx
      rw [flashing, List.mem_append] at hx
      obtain hx | hx := hx
      · obtain ⟨id, hid, rfl⟩ := List.mem_map.mp hx
        exact hid
      · exact ih x hx

/-- Requests for some ids do not show behind one for all of them. -/
theorem State.board_covered {l : List (String × Bool)} {ids : List String} (on : Bool)
    (h : ∀ x ∈ l, x.1 ∈ ids) :
    ((s.request l).request (ids.map (·, on))).board =
      { s.board with lamps := write on ids s.board.lamps } := by
  rw [State.board_request]
  unfold State.board State.request
  rw [write_latest_append on h]

/-! ## The events on the board -/

/-- **The options are usable**: `ConfigParser` gives each, and the numbers
are numbers. -/
structure Config.Usable (py : Interpreter F) (cfg : Config) : Prop where
  cgiuri : cfg.slugCgiuri.isSome
  logo : cfg.slugIdsLogo.isSome
  presentDayBrightRoom : cfg.slugIdsPresentDayBrightRoom.isSome
  presentDayDarkRoom : cfg.slugIdsPresentDayDarkRoom.isSome
  presentNight : cfg.slugIdsPresentNight.isSome
  nonpresentOff : cfg.slugIdsNonpresentOff.isSome
  panic : cfg.slugIdsPanic.isSome
  decke : cfg.slugIdsDecke.isSome
  secs : (cfg.powerswitchingSecsMovementBeforePresenceToLaunchEvent.bind py.float).isSome

theorem Config.Usable.presentable (h : cfg.Usable py) (env : Env F) (roomIsBright : Option Bool) :
    Presentable py.toPython cfg.toUWSConfig env roomIsBright := by
  refine ⟨?_, h.logo, h.secs⟩
  unfold presentIds
  split
  · split
    · exact h.presentDayDarkRoom
    · exact h.presentDayBrightRoom
  · exact h.presentNight

/-- The defaults are, where Python reads `1` as a number. -/
theorem Config.default_usable (h : (py.float "1").isSome) : Config.default.Usable py :=
  ⟨rfl, rfl, rfl, rfl, rfl, rfl, rfl, rfl, h⟩

/-- **Somebody present**, on the board. -/
theorem eventPresent_run [Zero F] {cfg : UWSConfig} (hcgi : cfg.slugCgiuri.isSome)
    (h : Presentable py.toPython cfg env s.roomIsBright) :
    ∃ t, (eventPresent py.toPython cfg env).run s = .ok () t ∧
      t.board = s.board.somebody cfg env := by
  obtain ⟨present, hpresent⟩ := Option.isSome_iff_exists.mp h.present
  obtain ⟨logo, hlogo⟩ := Option.isSome_iff_exists.mp h.logo
  obtain ⟨secs, hsecs⟩ := Option.isSome_iff_exists.mp h.secs
  let s₁ : State F := { s with unixtsLastPresence := env.now, statusPresence := some true }
  let s₂ := (s₁.request ((split present).map (·, true))).request ((split logo).map (·, true))
  have hboard : s₂.board = s.board.somebody cfg env := by
    rw [State.board_request, State.board_request, Board.somebody, hlogo]
    show _ = { s.board with
      present := some true
      lamps := turn true (some logo) (turn true (presentIds cfg env s.roomIsBright) s.board.lamps) }
    rw [hpresent]
    rfl
  have hpresent' : (getattr (presentIds cfg env s₁.roomIsBright)).run s₁ = .ok present s₁ :=
    getattr_eq_ok.mpr ⟨hpresent, rfl⟩
  have hlogo' : (switchLogo cfg env true).run (s₁.request ((split present).map (·, true))) =
      .ok () s₂ := switchLogo_eq_ok.mpr ⟨hcgi, logo, hlogo, rfl⟩
  have hsecs' : (secsMovementBeforePresence py.toPython cfg).run s₂ = .ok secs s₂ :=
    secsMovementBeforePresence_eq_ok.mpr ⟨hsecs, rfl⟩
  rw [eventPresent, run_bind_of_ok (EStateM.run_modify _ s), run_bind_of_ok (EStateM.run_get s₁),
    run_bind_of_ok hpresent', run_bind_of_ok (switchAll_run hcgi true _ s₁), run_bind_of_ok hlogo',
    run_bind_of_ok hsecs']
  split
  · exact ⟨{ s₂ with unixtsLastMovement := 0 }, rfl, hboard⟩
  · exact ⟨s₂, rfl, hboard⟩

theorem switchLogo_run {cfg : UWSConfig} {logo : String} (hcgi : cfg.slugCgiuri.isSome)
    (hlogo : cfg.slugIdsLogo = some logo) (s : State F) :
    (switchLogo cfg env false).run s =
      .ok () (s.request ((split logo).map (·, logoAlone env))) := by
  have haction : (if haveDaylight env then false else if isWolfHour env then false else true) =
      logoAlone env := by
    unfold logoAlone
    cases haveDaylight env <;> cases isWolfHour env <;> rfl
  rw [switchLogo, if_neg Bool.false_ne_true, haction,
    run_bind_of_ok (getattr_eq_ok.mpr ⟨hlogo, rfl⟩)]
  exact switchAll_run hcgi _ _ s

/-- **Nobody there**, on the board. -/
theorem eventNobodyHere_run (env : Env F) (hcgi : cfg.slugCgiuri.isSome)
    (hoff : cfg.slugIdsNonpresentOff.isSome) (hlogo : cfg.slugIdsLogo.isSome) :
    ∃ t, (eventNobodyHere cfg env).run s = .ok () t ∧ t.board = s.board.nobody cfg env := by
  obtain ⟨off, hoff⟩ := Option.isSome_iff_exists.mp hoff
  obtain ⟨logo, hlogo⟩ := Option.isSome_iff_exists.mp hlogo
  let s₁ : State F := { s with statusPresence := some false }
  let s₂ := (s₁.request ((split off).map (·, false))).request ((split logo).map (·, logoAlone env))
  refine ⟨s₂.request ((split off).reverse.map (·, false)), ?_, ?_⟩
  · rw [eventNobodyHere, run_bind_of_ok (EStateM.run_modify _ s),
      run_bind_of_ok (getattr_eq_ok.mpr ⟨hoff, rfl⟩),
      run_bind_of_ok (switchAll_run hcgi false _ s₁),
      run_bind_of_ok (switchLogo_run hcgi hlogo _)]
    exact switchAll_run hcgi false _ s₂
  · rw [State.board_request, State.board_request, State.board_request, write_reverse,
      write_write_write, Board.nobody, hoff, hlogo]
    rfl

/-! ## The panic button on the board -/

theorem guess_eq_some {cfg : UWSConfig} {light : JsonValue F} {panic decke : String} {b : Bool} :
    guess py.toPython cfg env light panic decke = some b ↔
      (flashesCeiling panic decke → Guessable py.toPython cfg env light) ∧
        b = (flashesCeiling panic decke &&
          (lightsWereOn py.toPython cfg env light).getD false) := by
  unfold guess
  by_cases hflashes : flashesCeiling panic decke
  · rw [if_pos hflashes, hflashes, Bool.true_and]
    constructor
    · intro h
      split at h
      · rename_i hasked
        rw [Bool.and_eq_true, Option.any_eq_true] at hasked
        exact ⟨fun _ => ⟨hasked.1, hasked.2, Option.isSome_of_eq_some h⟩, by rw [h]; rfl⟩
      · cases h
    · rintro ⟨hguess, rfl⟩
      obtain ⟨hasked, hfinite, hshown⟩ := hguess rfl
      have hasked' : (cfg.slugLightleveluri.isSome &&
          light.toNumber.any (·.isFinite py.toPython)) = true := by
        rw [Bool.and_eq_true, Option.any_eq_true]
        exact ⟨hasked, hfinite⟩
      obtain ⟨b, hb⟩ := Option.isSome_iff_exists.mp hshown
      rw [if_pos hasked', hb]
      rfl
  · rw [if_neg hflashes, Bool.eq_false_iff.mpr hflashes, Bool.false_and, Option.some_inj]
    exact ⟨fun h => ⟨nofun, h.symm⟩, fun h => h.2.symm⟩

/-- Logging a value leaves the globals alone. -/
theorem within_formatD {R : State F → State F → Prop} (hrefl : ∀ s, R s s)
    (value : JsonValue F) : Within R (formatD py.toPython value) :=
  within_orRaise hrefl _ _

/-- And so does comparing. -/
theorem within_compareLevels {R : State F → State F → Prop} (hrefl : ∀ s, R s s)
    (htrans : ∀ {s t u}, R s t → R t u → R s u) (cfg : UWSConfig) (before : JsonValue F)
    (after : Option ℤ) : Within R (compareLevels py.toPython cfg before after) := by
  have hfell : ∀ after, Within R (fellByDifference py.toPython cfg before after) := fun after =>
    (within_orRaise hrefl _ _).bind htrans fun _ =>
      (within_orRaise hrefl _ _).bind htrans fun _ =>
        (within_orRaise hrefl _ _).bind htrans fun _ =>
          (within_orRaise hrefl _ _).bind htrans fun _ => within_pure hrefl _
  cases before with
  | null => exact within_pure hrefl _
  | _ =>
      cases after with
      | none => exact within_pure hrefl _
      | some after => exact hfell after

/-- **Whatever becomes of the guess**, the ceiling lights are off behind it. -/
theorem state_guessMainLight {cfg : UWSConfig} {lst1 ids : List String}
    (hcgi : cfg.slugCgiuri.isSome) :
    state ((guessMainLight py.toPython cfg env lst1 ids).run s) =
      s.request (if ids.any (lst1.contains ·) then ids.map (·, false) else []) := by
  have hrefl : ∀ s : State F, s = s := fun s => rfl
  have htrans : ∀ {s t u : State F}, s = t → t = u → s = u := Eq.trans
  have hlight : Within Eq (getLightValueNow py.toPython cfg env) :=
    Within.bind (R := Eq) htrans (within_orRaise hrefl _ _) fun _ => within_pure hrefl _
  have hlog : ∀ on (after : Option ℤ), Within Eq (do
      formatD py.toPython s.lightValue
      formatD py.toPython (after.elim .null .int)
      pure on : Handler F Bool) := fun on after =>
    Within.bind (R := Eq) htrans (within_formatD hrefl _) fun _ =>
      Within.bind (R := Eq) htrans (within_formatD hrefl _) fun _ => within_pure hrefl _
  have hrest : Within Eq (do
      let after ← getLightValueNow py.toPython cfg env
      let on ← compareLevels py.toPython cfg s.lightValue after
      formatD py.toPython s.lightValue
      formatD py.toPython (after.elim .null .int)
      pure on : Handler F Bool) :=
    Within.bind (R := Eq) htrans hlight fun after =>
      Within.bind (R := Eq) htrans (within_compareLevels hrefl htrans _ _ _) fun on => hlog on after
  rw [guessMainLight]
  split
  · rw [measureMainLight, run_bind_of_ok (EStateM.run_get s),
      run_bind_of_ok (switchAll_run hcgi false ids s)]
    exact (hrest _).symm
  · rw [s.request_nil]
    rfl

/-- The ceiling lights behind the guess. -/
theorem board_darken (s : State F) (panic decke : String) :
    (s.request (if flashesCeiling panic decke then (split decke).map (·, false) else [])).board =
      s.board.darken panic decke := by
  unfold Board.darken
  split
  · exact s.board_request false (split decke)
  · rw [s.request_nil]

/-- **The flashing does not show**: everything is off behind it. -/
theorem board_flashing (s : State F) (panic : String) :
    ((s.request ((split panic).map (·, false) ++ flashing (split panic) 5 false)).request
        ((split panic).map (·, false))).board =
      { s.board with lamps := turn false (some panic) s.board.lamps } := by
  refine State.board_covered false fun x hx => ?_
  obtain hx | hx := List.mem_append.mp hx
  · obtain ⟨id, hid, rfl⟩ := List.mem_map.mp hx
    exact hid
  · exact mem_of_mem_flashing x hx

/-- **The panic button**, on the board. -/
theorem eventPanic_board [Zero F] (h : cfg.Usable py) (env : Env F) (s : State F) :
    (state ((eventPanic py.toPython cfg.toUWSConfig env).run s)).board =
      s.board.panic py.toPython cfg.toUWSConfig env := by
  obtain ⟨panic, hpanic⟩ := Option.isSome_iff_exists.mp h.panic
  obtain ⟨decke, hdecke⟩ := Option.isSome_iff_exists.mp h.decke
  have hcgi := h.cgiuri
  let s₁ := s.request (if flashesCeiling panic decke then (split decke).map (·, false) else [])
  have hguess : state ((guessMainLight py.toPython cfg.toUWSConfig env (split panic)
      (split decke)).run s) = s₁ := state_guessMainLight hcgi
  have hlight : s.board.light = s.lightValue := rfl
  rw [Board.panic, hpanic, hdecke, Option.elim_some, Option.elim_some, Board.panicWith, hlight,
    ← board_darken, eventPanic, run_bind_of_ok (getattr_eq_ok.mpr ⟨hpanic, rfl⟩),
    run_bind_of_ok (getattr_eq_ok.mpr ⟨hdecke, rfl⟩)]
  cases hrun : (guessMainLight py.toPython cfg.toUWSConfig env (split panic)
      (split decke)).run s with
  | error e t =>
      have hnone : guess py.toPython cfg.toUWSConfig env s.lightValue panic decke = none := by
        cases hsome : guess py.toPython cfg.toUWSConfig env s.lightValue panic decke with
        | none => rfl
        | some b =>
            obtain ⟨hguessable, hb⟩ := guess_eq_some.mp hsome
            have hok := (guessMainLight_eq_ok (split_ne_nil decke) hcgi).mpr ⟨hguessable, hb, rfl⟩
            cases hrun.symm.trans hok
      obtain rfl : t = s₁ := by rwa [hrun] at hguess
      rw [run_bind_of_error hrun, hnone]
      rfl
  | ok b t =>
      obtain rfl : t = s₁ := by rwa [hrun] at hguess
      obtain ⟨hguessable, hb, -⟩ := (guessMainLight_eq_ok (split_ne_nil decke) hcgi).mp hrun
      rw [guess_eq_some.mpr ⟨hguessable, hb⟩, Option.elim_some, ← board_flashing]
      let flashes := (split panic).map (·, false) ++ flashing (split panic) 5 false
      let s₂ := (s₁.request flashes).request ((split panic).map (·, false))
      obtain ⟨t, hpresent, ht⟩ :=
        eventPresent_run (s := s₂) hcgi (h.presentable env s₂.roomIsBright)
      rw [run_bind_of_ok hrun, run_bind_of_ok (switchAll_run hcgi false _ s₁),
        run_bind_of_ok (flash_run hcgi _ _ false _), run_bind_of_ok (switchAll_run hcgi false _ _),
        ← s₁.request_append, run_bind_of_ok hpresent, ← ht]
      cases b
      · rfl
      · rw [if_pos rfl, if_pos rfl, switchAll_run hcgi true _ t]
        exact t.board_request true (split decke)

/-! ## Movement and light -/

/-- **Movement never shows on the board**, also where it raises. -/
theorem within_eventMovement [Zero F] (cfg : Config) (env : Env F) :
    Within (fun s t => t.board = s.board) (eventMovement py.toPython cfg env) := by
  have hrefl : ∀ s : State F, s.board = s.board := fun s => rfl
  have htrans : ∀ {s t u : State F}, t.board = s.board → u.board = t.board →
      u.board = s.board := fun h h' => h'.trans h
  have hsecs : Within (fun s t : State F => t.board = s.board)
      (secsPresenceBeforeMovement py.toPython cfg) :=
    (within_orRaise hrefl _ _).bind htrans fun _ => within_orRaise hrefl _ _
  refine Within.bind htrans (fun s => rfl) fun _ => ?_
  refine Within.bind htrans (fun s => rfl) fun s => ?_
  refine Within.bind htrans hsecs fun secs => ?_
  split
  · exact fun s => rfl
  · exact fun s => rfl

/-- **A light level**, on the board. -/
theorem eventIllumination_board (cfg : Config) (value : JsonValue F) (s : State F) :
    (state ((eventIllumination py cfg value).run s)).board = s.board.illuminate py cfg value := by
  let s₁ : State F := { s with lightValue := value }
  rw [eventIllumination, run_bind_of_ok (EStateM.run_modify _ s)]
  unfold Board.illuminate
  cases hget : cfg.slugLightThresholdBrightness with
  | none => rfl
  | some text =>
      rw [run_bind_of_ok (getattr_eq_ok.mpr ⟨rfl, rfl⟩), Option.bind_some]
      cases hint : py.int text with
      | none => rfl
      | some threshold =>
          rw [run_bind_of_ok (run_orRaise_eq_ok.mpr ⟨rfl, rfl⟩)]
          cases hge : value.geInt py threshold with
          | true => simp only [Option.map_some, hge]; rfl
          | false => simp only [Option.map_some, hge]; rfl

/-! ## Runs -/

/-- The message turns no lamp on or off. -/
def Message.Quiet : Message F → Prop
  | .presenceUpdate (.found _) => False
  | .boreDoomButtonPressEvent => False
  | _ => True

/-- **A quiet message**, on the board, whatever the options are. -/
theorem board_after_quiet [Zero F] (h : a.message.Quiet) (s : State F) :
    (after py s a).board = s.board.step py a := by
  unfold after dispatch Board.step
  by_cases hchecked : a.checked
  · rw [if_pos hchecked, if_pos hchecked]
    cases hmessage : a.message with
    | presenceUpdate present =>
        rw [hmessage] at h
        cases present with
        | missing => rfl
        | found present => exact h.elim
        | raises => rfl
    | boreDoomButtonPressEvent =>
        rw [hmessage] at h
        exact h.elim
    | movementSensorUpdate => exact within_eventMovement a.cfg a.env s
    | doorAjarUpdate => exact within_eventMovement a.cfg a.env s
    | illuminationSensorUpdate value =>
        cases value with
        | missing => rfl
        | found value => exact eventIllumination_board a.cfg value s
        | raises => rfl
    | other => rfl
  · rw [if_neg hchecked, if_neg hchecked]
    rfl

/-- **Every message**, on the board, where the options are usable. -/
theorem board_after [Zero F] (h : a.cfg.Usable py) (s : State F) :
    (after py s a).board = s.board.step py a := by
  by_cases hquiet : a.message.Quiet
  · exact board_after_quiet hquiet s
  unfold after dispatch Board.step
  by_cases hchecked : a.checked
  · rw [if_pos hchecked, if_pos hchecked]
    cases hmessage : a.message with
    | presenceUpdate present =>
        cases present with
        | missing => rfl
        | raises => rfl
        | found present =>
            cases present with
            | true =>
                obtain ⟨t, hrun, ht⟩ :=
                  eventPresent_run (s := s) h.cgiuri (h.presentable a.env s.roomIsBright)
                simp only [hrun]
                exact ht
            | false =>
                obtain ⟨t, hrun, ht⟩ :=
                  eventNobodyHere_run (s := s) a.env h.cgiuri h.nonpresentOff h.logo
                simp only [hrun]
                exact ht
    | boreDoomButtonPressEvent => exact eventPanic_board h a.env s
    | movementSensorUpdate => exact absurd (by rw [hmessage]; trivial) hquiet
    | doorAjarUpdate => exact absurd (by rw [hmessage]; trivial) hquiet
    | illuminationSensorUpdate value => exact absurd (by rw [hmessage]; trivial) hquiet
    | other => rfl
  · rw [if_neg hchecked, if_neg hchecked]
    rfl

/-- **A run is a walk on the board.** -/
theorem board_afterAll [Zero F] (h : ∀ a ∈ ms, a.cfg.Usable py) (s : State F) :
    (afterAll py s ms).board = ms.foldl (Board.step py) s.board := by
  induction ms generalizing s with
  | nil => rfl
  | cons a ms ih =>
      have hrest := ih (fun a' hmem => h a' (List.mem_cons_of_mem _ hmem)) (after py s a)
      rw [board_after (h a List.mem_cons_self)] at hrest
      exact hrest

/-- A number in decimal digits. -/
def digits (text : String) : Option ℤ :=
  if text.toList.all Char.isDigit then
    some (text.toList.foldl (fun n c => 10 * n + (c.toNat - '0'.toNat : ℕ)) 0)
  else none

/-- Floating point numbers that are whole. -/
def wholeNumbers : Interpreter ℤ where
  int := digits
  float := digits
  subInt x n := some (x - n)
  gtInt x n := n < x
  isFinite _ := true
  sub x y := x - y
  le x y := x ≤ y
  geInt x n := n ≤ x

/-- A message at noon in June, with the defaults. -/
def atNoon (message : Message ℤ) : Arrival ℤ := ⟨message, true, .default, ⟨0, 0, 12, 5, none⟩⟩

/-- **It is dark in the room**, and somebody comes: the ceiling lights go on. -/
theorem board_afterAll_dark :
    (afterAll wholeNumbers .init [atNoon (.illuminationSensorUpdate (.found (.int 100))),
      atNoon (.presenceUpdate (.found true))]).board.lamps "decke" = some true := by
  rw [board_afterAll fun a ha => ?_]
  · decide
  · have hcfg : a.cfg = .default := by
      simp only [List.mem_cons, List.not_mem_nil, or_false] at ha
      obtain rfl | rfl := ha
      · rfl
      · rfl
    exact hcfg ▸ Config.default_usable rfl

/-- **Behind `eventNobodyHere`** every id of its option is off, also where
the logo cannot be read. -/
theorem eventNobodyHere_off {off : String} (env : Env F) (hcgi : cfg.slugCgiuri.isSome)
    (hoff : cfg.slugIdsNonpresentOff = some off) {id : String} (hid : id ∈ split off)
    (s : State F) :
    let b := (state ((eventNobodyHere cfg env).run s)).board
    b.present = some false ∧ b.lamps id = some false := by
  intro b
  cases hlogo : cfg.slugIdsLogo with
  | some logo =>
      obtain ⟨t, hrun, ht⟩ := eventNobodyHere_run (s := s) env hcgi
        (Option.isSome_of_eq_some hoff) (Option.isSome_of_eq_some hlogo)
      have hb : b = s.board.nobody cfg env := by
        rw [← ht]
        exact congrArg (fun r => (state r).board) hrun
      rw [hb, Board.nobody, hoff]
      exact ⟨rfl, if_pos hid⟩
  | none =>
      let s₁ : State F := { s with statusPresence := some false }
      have hb : b = (s₁.request ((split off).map (·, false))).board := by
        have hraise : (switchLogo cfg.toUWSConfig env false).run
            (s₁.request ((split off).map (·, false))) =
              .error .interpolationError (s₁.request ((split off).map (·, false))) := by
          rw [switchLogo, hlogo]
          rfl
        have hrun : (eventNobodyHere cfg env).run s =
            .error .interpolationError (s₁.request ((split off).map (·, false))) := by
          rw [eventNobodyHere, run_bind_of_ok (EStateM.run_modify _ s),
            run_bind_of_ok (getattr_eq_ok.mpr ⟨hoff, rfl⟩),
            run_bind_of_ok (switchAll_run hcgi false _ s₁)]
          exact run_bind_of_error hraise
        exact congrArg (fun r => (state r).board) hrun
      rw [hb, State.board_request]
      exact ⟨rfl, if_pos hid⟩

/-- A quiet message turns no lamp. -/
theorem step_quiet (py : Interpreter F) (h : a.message.Quiet) (b : Board F) :
    (b.step py a).lamps = b.lamps ∧ (b.step py a).present = b.present := by
  unfold Board.step
  split
  · cases hmessage : a.message with
    | presenceUpdate present =>
        rw [hmessage] at h
        cases present with
        | missing => exact ⟨rfl, rfl⟩
        | found present => exact h.elim
        | raises => exact ⟨rfl, rfl⟩
    | boreDoomButtonPressEvent =>
        rw [hmessage] at h
        exact h.elim
    | movementSensorUpdate => exact ⟨rfl, rfl⟩
    | doorAjarUpdate => exact ⟨rfl, rfl⟩
    | illuminationSensorUpdate value =>
        cases value with
        | missing => exact ⟨rfl, rfl⟩
        | found value => exact ⟨rfl, rfl⟩
        | raises => exact ⟨rfl, rfl⟩
    | other => exact ⟨rfl, rfl⟩
  · exact ⟨rfl, rfl⟩

/-- And so do any number of them. -/
theorem afterAll_quiet [Zero F] (py : Interpreter F) (h : ∀ a ∈ ms, a.message.Quiet) (s : State F) :
    (afterAll py s ms).board.lamps = s.board.lamps ∧
      (afterAll py s ms).board.present = s.board.present := by
  induction ms generalizing s with
  | nil => exact ⟨rfl, rfl⟩
  | cons a ms ih =>
      obtain ⟨hlamps, hpresent⟩ := ih (fun a' hmem => h a' (List.mem_cons_of_mem _ hmem))
        (after py s a)
      have hquiet := h a List.mem_cons_self
      have hstep := step_quiet py hquiet s.board
      rw [← board_after_quiet hquiet] at hstep
      exact ⟨hlamps.trans hstep.1, hpresent.trans hstep.2⟩

/-- **The lights stay out.** Whatever came before, and whatever movement and
light are reported behind it, also where that raises. -/
theorem lights_out [Zero F] {off id : String} (s : State F) (before : List (Arrival F))
    {behind : List (Arrival F)} (hmessage : a.message = .presenceUpdate (.found false))
    (hchecked : a.checked) (hcgi : a.cfg.slugCgiuri.isSome)
    (hoff : a.cfg.slugIdsNonpresentOff = some off) (hid : id ∈ split off)
    (hquiet : ∀ a' ∈ behind, a'.message.Quiet) :
    let b := (afterAll py s (before ++ a :: behind)).board
    b.present = some false ∧ b.lamps id = some false := by
  intro b
  have hafter : after py (afterAll py s before) a =
      state ((eventNobodyHere a.cfg a.env).run (afterAll py s before)) := by
    unfold after dispatch
    rw [if_pos hchecked, hmessage]
  have hb : b = (afterAll py (after py (afterAll py s before) a) behind).board := by
    show (afterAll py s (before ++ a :: behind)).board = _
    unfold afterAll
    rw [List.foldl_append, List.foldl_cons]
  obtain ⟨hlamps, hpresent⟩ := afterAll_quiet py hquiet (after py (afterAll py s before) a)
  obtain ⟨hnobody, hdark⟩ := eventNobodyHere_off a.env hcgi hoff hid (afterAll py s before)
  rw [hb, hlamps, hpresent, hafter]
  exact ⟨hnobody, hdark⟩

/-- **Everybody leaves**, and somebody is seen to move. -/
theorem lights_out_moving :
    (afterAll wholeNumbers .init [atNoon (.presenceUpdate (.found true)),
      atNoon (.presenceUpdate (.found false)), atNoon .movementSensorUpdate,
      atNoon (.illuminationSensorUpdate (.found .null))]).board.lamps "lichter" = some false := by
  refine (lights_out (a := atNoon (.presenceUpdate (.found false))) .init
    [atNoon (.presenceUpdate (.found true))] rfl rfl rfl rfl (by decide +kernel) fun a' ha' => ?_).2
  simp only [List.mem_cons, List.not_mem_nil, or_false] at ha'
  obtain rfl | rfl := ha'
  · trivial
  · trivial

end Power

end Realraum
