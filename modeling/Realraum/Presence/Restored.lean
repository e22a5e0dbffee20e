import Mathlib.Data.Nat.Notation
import Realraum.Presence.Model.ConfigCalls
/-!
# What a call leaves of the guards

`checkConfigUpdates` and `__getattr__` pass a guard, call the library and
pass the unguard behind it, also where the library raises what they catch.
An exception they do not catch leaves between the two: the flag stays set,
or the counter one too high. So a call leaves the guards as it found them,
whatever the state, exactly if no such exception is raised.
-/

namespace Realraum

namespace Presence

variable {ι T : Type*} [DecidableEq ι] {t u : ι} {c d : UWSConfig ι}

/-! ## Passing a guard -/

theorem goes_place (t : ι) (p : Place) (c : UWSConfig ι) : (c.goes t p).place t = p :=
  Function.update_self ..

/-- A step that does not end in a wait is a guard passed. -/
theorem passes_of_step {op : Op} (hstep : guardStep (t, op) c = some d)
    (hwaits : (d.place t).waits = false) : passes t op c = some d := by
  rw [passes, hstep, Option.filter_some, hwaits]
  rfl

theorem passes_guardReading (hplace : c.place t = .outside)
    (hwriting : c.currentlyWriting = false) :
    ∃ d, passes t .guardReading c = some d ∧ d.place t = .reading ∧
      d.currentlyReading = c.currentlyReading + 1 ∧ d.currentlyWriting = false := by
  have henter : c.guardReading t =
      { c.goes t .reading with currentlyReading := c.currentlyReading + 1 } :=
    if_neg (by rw [hwriting]; decide)
  have hd : (c.guardReading t).place t = .reading := by
    rw [henter]
    exact goes_place t _ c
  refine ⟨c.guardReading t, passes_of_step ?_ (by rw [hd]; rfl), hd, ?_, ?_⟩
  · simp [guardStep, hplace]
  · rw [henter]
  · rw [henter]
    exact hwriting

theorem passes_guardWriting (hplace : c.place t = .outside) (hreading : c.currentlyReading ≤ 0) :
    ∃ d, passes t .guardWriting c = some d ∧ d.place t = .writing ∧
      d.currentlyReading = c.currentlyReading ∧ d.currentlyWriting = true := by
  have henter : c.guardWriting t = ({ c with currentlyWriting := true }).goes t .writing :=
    if_neg (Int.not_lt.mpr hreading)
  have hd : (c.guardWriting t).place t = .writing := by
    rw [henter]
    exact goes_place t _ _
  refine ⟨c.guardWriting t, passes_of_step ?_ (by rw [hd]; rfl), hd, ?_, ?_⟩
  · simp [guardStep, hplace]
  · rw [henter]
    rfl
  · rw [henter]
    rfl

theorem passes_unguardReading (hplace : c.place t = .reading) :
    ∃ d, passes t .unguardReading c = some d ∧ d.place t = .outside ∧
      d.currentlyReading = c.currentlyReading - 1 ∧ d.currentlyWriting = c.currentlyWriting := by
  have hd : (c.unguardReading t).place t = .outside := by
    simp [UWSConfig.unguardReading, UWSConfig.notifyWriters, goes_place]
  refine ⟨c.unguardReading t, passes_of_step ?_ (by rw [hd]; rfl), hd, rfl, rfl⟩
  simp [guardStep, hplace]

theorem passes_unguardWriting (hplace : c.place t = .writing) :
    ∃ d, passes t .unguardWriting c = some d ∧ d.place t = .outside ∧
      d.currentlyReading = c.currentlyReading ∧ d.currentlyWriting = false := by
  have hd : (c.unguardWriting t).place t = .outside := by
    simp [UWSConfig.unguardWriting, UWSConfig.notifyReaders, goes_place]
  refine ⟨c.unguardWriting t, passes_of_step ?_ (by rw [hd]; rfl), hd, rfl, rfl⟩
  simp [guardStep, hplace]

/-- **Who passes `guardReading` found no writer.** -/
theorem of_guardReading (h : passes t .guardReading c = some d) :
    c.place t = .outside ∧ c.currentlyWriting = false := by
  obtain ⟨hstep, hwaits⟩ := Option.filter_eq_some_iff.mp h
  have hplace : c.place t = .outside := by
    cases hplace : c.place t with
    | outside => rfl
    | _ => simp [guardStep, hplace] at hstep
  refine ⟨hplace, Bool.eq_false_iff.mpr fun hwriting => ?_⟩
  have hd : c.guardReading t = d := by simpa [guardStep, hplace] using hstep
  rw [← hd, UWSConfig.guardReading, UWSConfig.enterReading, if_pos hwriting, goes_place] at hwaits
  cases hwaits

/-- Who passes `guardWriting` found no reader. -/
theorem of_guardWriting (h : passes t .guardWriting c = some d) :
    c.place t = .outside ∧ c.currentlyReading ≤ 0 := by
  obtain ⟨hstep, hwaits⟩ := Option.filter_eq_some_iff.mp h
  have hplace : c.place t = .outside := by
    cases hplace : c.place t with
    | outside => rfl
    | _ => simp [guardStep, hplace] at hstep
  refine ⟨hplace, Int.not_lt.mp fun hreading => ?_⟩
  have hd : c.guardWriting t = d := by simpa [guardStep, hplace] using hstep
  rw [← hd, UWSConfig.guardWriting, UWSConfig.enterWriting, if_pos hreading, goes_place] at hwaits
  cases hwaits

/-! ## What a call leaves -/

/-- **The guards are as they were**: no writer, as many readers as before,
and so a thread that is outside passes `guardReading`, and `guardWriting`
where there was no reader. -/
structure Restored (c d : UWSConfig ι) : Prop where
  writing : d.currentlyWriting = false
  reading : d.currentlyReading = c.currentlyReading
  reads : ∀ u, d.place u = .outside → (passes u .guardReading d).isSome
  writes : c.currentlyReading ≤ 0 → ∀ u, d.place u = .outside → (passes u .guardWriting d).isSome

theorem restored_of (hwriting : d.currentlyWriting = false)
    (hreading : d.currentlyReading = c.currentlyReading) : Restored c d := by
  refine ⟨hwriting, hreading, fun u hu => ?_, fun hzero u hu => ?_⟩
  · obtain ⟨e, he, -⟩ := passes_guardReading hu hwriting
    exact Option.isSome_iff_exists.mpr ⟨e, he⟩
  · obtain ⟨e, he, -⟩ := passes_guardWriting hu (hreading ▸ hzero)
    exact Option.isSome_iff_exists.mpr ⟨e, he⟩

/-- What follows the `try` leaves one reader too many if `get` raises. -/
theorem leaveWriting_eq (configMtime : T) (get : Except PyException String)
    (hplace : c.place t = .writing) :
    ∃ r m d, leaveWriting t configMtime get c = some (r, m, d) ∧ d.currentlyWriting = false ∧
      d.currentlyReading = c.currentlyReading + if get.isOk then 0 else 1 := by
  obtain ⟨d, hd, hout, hreading, hwriting⟩ := passes_unguardWriting hplace
  obtain ⟨e, he, hin, hreading', hwriting'⟩ := passes_guardReading hout hwriting
  rw [leaveWriting, hd, Option.bind_some, he, Option.bind_some]
  cases get with
  | error x =>
      refine ⟨_, _, e, rfl, hwriting', ?_⟩
      rw [hreading', hreading]
      rfl
  | ok value =>
      obtain ⟨f, hf, -, hreading'', hwriting''⟩ := passes_unguardReading hin
      refine ⟨_, _, f, by rw [hf]; rfl, hwriting''.trans hwriting', ?_⟩
      rw [hreading'', hreading', hreading]
      show _ = _ + (0 : ℤ)
      omega

/-- **Every exception is provided for**: the `except` clause catches what
the `try` raises, and the `get` behind it raises none. -/
def CheckCalls.Caught (o : CheckCalls T) : Prop :=
  (∀ e, o.tried = .error e → e.caughtByCheck = true) ∧ o.get.isOk = true

/-- An update that need not wait, and what it leaves. -/
theorem updateConfig_eq (configMtime : T) (o : CheckCalls T) (hplace : c.place t = .outside)
    (hreading : c.currentlyReading ≤ 0) :
    ∃ r m d, updateConfig t configMtime o c = some (r, m, d) ∧
      (d.currentlyWriting = false ∧ d.currentlyReading = c.currentlyReading ↔ o.Caught) := by
  obtain ⟨d, hd, hin, hsame, hflag⟩ := passes_guardWriting hplace hreading
  have hleave : ∀ m : T, ∃ r m' e, leaveWriting t m o.get d = some (r, m', e) ∧
      (e.currentlyWriting = false ∧ e.currentlyReading = c.currentlyReading ↔
        o.get.isOk = true) := by
    intro m
    obtain ⟨r, m', e, he, hwriting, hcount⟩ := leaveWriting_eq m o.get hin
    refine ⟨r, m', e, he, ?_⟩
    rw [iff_true_intro hwriting, true_and, hcount, hsame]
    cases o.get.isOk with
    | true => simp
    | false =>
        refine iff_of_false (fun h => ?_) Bool.false_ne_true
        rw [if_neg Bool.false_ne_true] at h
        omega
  rw [updateConfig, hd, Option.bind_some]
  cases htried : o.tried with
  | ok mtime =>
      obtain ⟨r, m, e, he, hiff⟩ := hleave mtime
      refine ⟨r, m, e, he, hiff.trans ⟨fun hget => ⟨fun x hx => ?_, hget⟩, fun h => h.2⟩⟩
      rw [htried] at hx
      cases hx
  | error x =>
      -- what the `except` clause does not catch skips the unguard
      by_cases hx : x.caughtByCheck = true
      · obtain ⟨r, m, e, he, hiff⟩ := hleave configMtime
        refine ⟨r, m, e, (if_pos hx).trans he, hiff.trans ⟨fun hget => ⟨fun y hy => ?_, hget⟩,
          fun h => h.2⟩⟩
        rw [htried] at hy
        rwa [← Except.error.inj hy]
      · refine ⟨_, _, d, if_neg hx, ?_⟩
        rw [hflag]
        exact ⟨fun h => absurd h.1 (by decide), fun h => absurd (h.1 x htried) hx⟩

/-- **An update leaves the guards as they were exactly where every exception
is provided for.** -/
theorem updateConfig_iff (t : ι) (configMtime : T) (o : CheckCalls T) :
    (∀ c r m d, c.currentlyWriting = false → updateConfig t configMtime o c = some (r, m, d) →
      Restored c d) ↔ o.Caught := by
  constructor
  · intro h
    obtain ⟨r, m, d, hd, hiff⟩ :=
      updateConfig_eq (t := t) (c := .init) configMtime o rfl (Int.le_refl 0)
    have hrestored := h .init r m d rfl hd
    exact hiff.mp ⟨hrestored.writing, hrestored.reading⟩
  · intro hcaught c r m d _ hupdate
    have hpass : ∃ e, passes t .guardWriting c = some e := by
      cases hpass : passes t .guardWriting c with
      | none => rw [updateConfig, hpass] at hupdate; cases hupdate
      | some e => exact ⟨e, rfl⟩
    obtain ⟨e, he⟩ := hpass
    obtain ⟨hplace, hreading⟩ := of_guardWriting he
    obtain ⟨r', m', d', hupdate', hiff⟩ := updateConfig_eq configMtime o hplace hreading
    rw [hupdate] at hupdate'
    cases hupdate'
    exact restored_of (hiff.mpr hcaught).1 (hiff.mpr hcaught).2

/-- **A look-up leaves the guards as they were exactly where its exceptions
are caught.** -/
theorem getattr_iff (t : ι) (get : String → String → Except PyException String) (name : String) :
    (∀ c r d, c.currentlyWriting = false → getattr t get name c = some (r, d) →
      Restored c d) ↔
    ∀ sec option, splitName name = some (sec, option) →
      ∀ e, get sec option = .error e → e.caughtByGetattr = true := by
  cases hname : splitName name with
  | none =>
      refine iff_of_true (fun c r d hwriting hget => ?_) nofun
      rw [getattr, hname] at hget
      cases hget
      exact restored_of hwriting rfl
  | some found =>
      obtain ⟨sec, option⟩ := found
      constructor
      · intro h sec' option' hsplit x hx
        cases hsplit
        -- left behind from the start, the counter would be one too high
        by_contra hcaught
        obtain ⟨d, hd, -, hreading, -⟩ :=
          passes_guardReading (t := t) (c := (.init : UWSConfig ι)) rfl rfl
        have hleft : getattr t get name .init = some (.error x, d) := by
          rw [getattr, hname]
          dsimp only
          rw [hd, Option.bind_some, hx]
          exact if_neg hcaught
        have hsame := (h .init _ d rfl hleft).reading
        rw [hreading] at hsame
        omega
      · intro h c r d hwriting hget
        rw [getattr, hname] at hget
        dsimp only at hget
        obtain ⟨e, he, hget⟩ := Option.bind_eq_some_iff.mp hget
        obtain ⟨hplace, -⟩ := of_guardReading he
        obtain ⟨e', he', hin, hreading, hflag⟩ := passes_guardReading hplace hwriting
        cases he.symm.trans he'
        obtain ⟨f, hf, -, hreading', hflag'⟩ := passes_unguardReading hin
        have hrestored : Restored c f :=
          restored_of (hflag'.trans hflag) (by rw [hreading', hreading]; omega)
        cases hvalue : get sec option with
        | error x =>
            rw [hvalue] at hget
            dsimp only at hget
            rw [if_pos (h sec option rfl x hvalue), hf] at hget
            cases hget
            exact hrestored
        | ok rv =>
            rw [hvalue] at hget
            dsimp only at hget
            rw [hf] at hget
            cases hget
            exact hrestored

/-! ## Both methods -/

/-- **When the guards are left as they were.** For any results of the calls
of the library: from every state without a writer `checkConfigUpdates`
leaves, when it returns or raises, no writer and the readers there were, if
and only if it finds no newer file or every exception behind that is
provided for; and `__getattr__` does if and only if the exception of `get`,
where there is one, is a missing section or option. Where they do, no guard
has to wait for them later on. -/
theorem guards_restored_iff [LT T] [DecidableLT T] (t : ι) (configfile : Option String)
    (configMtime : T) (o : CheckCalls T) (get : String → String → Except PyException String)
    (name : String) :
    ((∀ c r m d, c.currentlyWriting = false →
        checkConfigUpdates t configfile configMtime o c = some (r, m, d) → Restored c d) ↔
      (configfile ≠ none → ∀ mtime, o.getmtime = .ok mtime → configMtime < mtime → o.Caught)) ∧
    ((∀ c r d, c.currentlyWriting = false → getattr t get name c = some (r, d) →
        Restored c d) ↔
      ∀ sec option, splitName name = some (sec, option) →
        ∀ e, get sec option = .error e → e.caughtByGetattr = true) := by
  refine ⟨?_, getattr_iff t get name⟩
  have hsame : ∀ {c d : UWSConfig ι} {r r' : Except PyException Unit} {m m' : T},
      c.currentlyWriting = false → some (r, m, c) = some (r', m', d) → Restored c d := by
    intro c d r r' m m' hwriting h
    cases h
    exact restored_of hwriting rfl
  unfold checkConfigUpdates
  by_cases hfile : configfile = none
  · simp only [if_pos hfile]
    exact iff_of_true (fun c r m d hwriting h => hsame hwriting h) fun hne => absurd hfile hne
  · simp only [if_neg hfile]
    cases hmtime : o.getmtime with
    | error e =>
        refine iff_of_true (fun c r m d hwriting h => ?_) fun _ mtime h => by cases h
        dsimp only at h
        split at h
        · exact hsame hwriting h
        · exact hsame hwriting h
    | ok mtime =>
        dsimp only
        by_cases hlt : configMtime < mtime
        · simp only [if_pos hlt]
          rw [updateConfig_iff]
          refine ⟨fun h _ m hm _ => h, fun h => h hfile mtime rfl hlt⟩
        · simp only [if_neg hlt]
          refine iff_of_true (fun c r m d hwriting h => hsame hwriting h) fun _ m hm hlt' => ?_
          cases hm
          exact absurd hlt' hlt

/-- **The file vanishes while it is read.** The exception leaves the flag
set, and the next thread that reads the configuration has to wait. -/
theorem guards_restored_fails :
    ∃ (m : ℕ) (d : UWSConfig ℕ), checkConfigUpdates 0 (some "tracker.conf") 0
        ⟨.ok 1, .ok (), .error .osError, .ok "False"⟩ .init = some (.error .osError, m, d) ∧
      d.currentlyWriting = true ∧ d.place 1 = .outside ∧ passes 1 .guardReading d = none :=
  ⟨_, _, rfl, rfl, rfl, rfl⟩

end Presence

end Realraum
