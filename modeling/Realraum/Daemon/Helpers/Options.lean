import Realraum.Daemon.Helpers.Files
/-!
# The daemon — the configuration that is accepted

What `options_parse` and `options_parse_post` let through: the autosample
devices are keys of the sample device file, each at a positive rate, and
there are as many keys as values. `Accepted` is all the event loop and the
autosample process are started with.
-/

namespace Realraum

namespace Daemon

variable {opt opt' : OptionsT} {mem powerMem sampleMem : ℕ → AddMem} {argv0 name str : CStr}
variable {args : List CStr} {fs : CStr → Option (List UInt8)} {P : OptionsT → Prop}
variable {param : Param}

/-! ## What an argument does -/

/-- **The arguments, each by its kind.** Where one sets a flag or a string
the storages stay as they are. -/
theorem paramOf_induction {Q : Param → Prop} (hhelp : Q .help)
    (hflag : ∀ set : OptionsT → OptionsT, (∀ opt, (set opt).sampledevs = opt.sampledevs) →
      (∀ opt, (set opt).autosampledevs = opt.autosampledevs) → Q (.flag set))
    (hstring : ∀ set : CStr → OptionsT → OptionsT,
      (∀ arg opt, (set arg opt).sampledevs = opt.sampledevs) →
      (∀ arg opt, (set arg opt).autosampledevs = opt.autosampledevs) → Q (stringParam set))
    (hlist : Q stringListParam) (hpair : Q keyValueParam) : ∀ param ∈ paramOf str, Q param := by
  have hite : ∀ {c : Prop} [Decidable c] {param : Param} {rest : Option Param}, Q param →
      (∀ q ∈ rest, Q q) → ∀ q ∈ if c then some param else rest, Q q := by
    intro c _ param rest hparam hrest q hq
    split at hq
    · rwa [← Option.mem_some.mp hq]
    · exact hrest q hq
  have hset : ∀ {set : CStr → OptionsT → OptionsT} {c : Prop} [Decidable c]
      {rest : Option Param}, (∀ arg opt, (set arg opt).sampledevs = opt.sampledevs) →
      (∀ arg opt, (set arg opt).autosampledevs = opt.autosampledevs) →
      (∀ q ∈ rest, Q q) → ∀ q ∈ if c then some (stringParam set) else rest, Q q :=
    fun hsample hauto hrest => hite (hstring _ hsample hauto) hrest
  unfold paramOf
  refine hite hhelp (hite (hflag _ (fun _ => rfl) fun _ => rfl) ?_)
  refine hset (fun _ _ => rfl) (fun _ _ => rfl) (hset (fun _ _ => rfl) (fun _ _ => rfl) ?_)
  refine hset (fun _ _ => rfl) (fun _ _ => rfl) (hset (fun _ _ => rfl) (fun _ _ => rfl) ?_)
  refine hite hlist ?_
  refine hset (fun _ _ => rfl) (fun _ _ => rfl) (hset (fun _ _ => rfl) (fun _ _ => rfl) ?_)
  refine hset (fun _ _ => rfl) (fun _ _ => rfl) (hset (fun _ _ => rfl) (fun _ _ => rfl) ?_)
  exact hite hpair fun q hq => by cases hq

/-- The argument keeps this of the options, where it is not refused. -/
def Param.Preserves (P : OptionsT → Prop) : Param → Prop
  | .help => True
  | .flag set => ∀ opt, P opt → P (set opt)
  | .value store => ∀ mem arg opt opt', store mem arg opt = some (0, opt') → P opt → P opt'

/-- **What every argument keeps is kept by all of them.** -/
theorem parseArgs_invariant (hP : ∀ str, ∀ param ∈ paramOf str, param.Preserves P) :
    ∀ (args : List CStr) (i : ℕ) (opt : OptionsT), P opt →
      parseArgs mem i args opt = .ok opt' → P opt' := by
  intro args i opt
  fun_induction parseArgs mem i args opt with
  | case1 i opt =>
      intro hopt h
      cases h
      exact hopt
  | case2 | case3 | case5 | case6 | case7 | case9 => exact nofun
  | case4 i str rest opt set hparam ih => exact fun hopt h => ih (hP _ _ hparam opt hopt) h
  | case8 i str opt store hparam arg rest hdash opt₁ hstore ih =>
      exact fun hopt h => ih (hP _ _ hparam _ _ _ _ hstore hopt) h

theorem optionsParse_invariant (hP : ∀ str, ∀ param ∈ paramOf str, param.Preserves P)
    (hdefault : P { optionsDefault with progname := argv0 })
    (h : optionsParse mem argv0 args = .ok opt) : P opt := by
  rw [optionsParse] at h
  split at h
  · exact parseArgs_invariant hP args 1 _ hdefault h
  · cases h

/-- The argument leaves the sample devices alone. -/
def Param.KeepsSampledevs : Param → Prop
  | .help => True
  | .flag set => ∀ opt, (set opt).sampledevs = opt.sampledevs
  | .value store => ∀ mem arg opt r, store mem arg opt = some r → r.2.sampledevs = opt.sampledevs

theorem keepsSampledevs_stringParam {set : CStr → OptionsT → OptionsT}
    (h : ∀ arg opt, (set arg opt).sampledevs = opt.sampledevs) :
    (stringParam set).KeepsSampledevs := by
  intro mem arg opt r hr
  rw [← Option.some.inj hr]
  split
  · exact h arg opt
  · rfl

theorem keepsSampledevs_stringListParam : stringListParam.KeepsSampledevs := by
  intro mem arg opt r hr
  rw [← Option.some.inj hr]

theorem keepsSampledevs_keyValueParam : keyValueParam.KeepsSampledevs := by
  intro mem arg opt r hr
  dsimp only at hr
  split at hr
  · rw [← Option.some.inj hr]
  · cases hr

/-- **No argument names a sample device.** -/
theorem paramOf_keeps : ∀ param ∈ paramOf str, param.KeepsSampledevs :=
  paramOf_induction trivial (fun _ h _ => h) (fun _ h _ => keepsSampledevs_stringParam h)
    keepsSampledevs_stringListParam keepsSampledevs_keyValueParam

theorem Param.KeepsSampledevs.preserves {devs : KeyValueStorage} (h : param.KeepsSampledevs) :
    param.Preserves fun opt => opt.sampledevs = devs := by
  cases param with
  | help => trivial
  | flag set => exact fun opt hopt => (h opt).trans hopt
  | value store => exact fun mem arg opt opt' hstore hopt => (h mem arg opt _ hstore).trans hopt

theorem optionsParse_sampledevs (h : optionsParse mem argv0 args = .ok opt) :
    opt.sampledevs = .empty :=
  optionsParse_invariant (fun _ _ hparam => (paramOf_keeps _ hparam).preserves) rfl h

/-! ## The pairs of an argument -/

/-- As many keys as values. -/
def KeyValueStorage.Paired (stor : KeyValueStorage) : Prop :=
  stor.keys.length = stor.values.length

/-- A pair that is stored whole leaves the storage paired. -/
theorem KeyValueStorage.Paired.add {stor : KeyValueStorage} {key value : CStr} {m : AddMem}
    (h : stor.Paired) (hzero : (keyValueStorageAdd stor key value m).1 = 0) :
    (keyValueStorageAdd stor key value m).2.Paired := by
  obtain ⟨keyMem, valueMem⟩ := m
  cases keyMem <;> cases valueMem <;>
    simp_all [keyValueStorageAdd, stringListAdd, KeyValueStorage.Paired]

theorem paramOf_paired :
    ∀ param ∈ paramOf str, param.Preserves fun opt => opt.autosampledevs.Paired := by
  refine paramOf_induction trivial (fun set _ hset opt hopt => ?_) (fun set _ hset => ?_) ?_ ?_
  · change (set opt).autosampledevs.Paired
    rwa [hset opt]
  · intro mem arg opt opt' hstore hopt
    have heq := congrArg Prod.snd (Option.some.inj hstore)
    simp only at heq
    split at heq
    · rwa [← heq, hset arg opt]
    · rwa [← heq]
  · intro mem arg opt opt' hstore hopt
    obtain ⟨-, rfl⟩ := Prod.mk.inj (Option.some.inj hstore)
    exact hopt
  · intro mem arg opt opt' hstore hopt
    dsimp only at hstore
    split at hstore
    · obtain ⟨hret, rfl⟩ := Prod.mk.inj (Option.some.inj hstore)
      refine hopt.add (Decidable.byContradiction fun hne => ?_)
      rw [if_neg hne] at hret
      cases hret
    · cases hstore

theorem optionsParse_paired (h : optionsParse mem argv0 args = .ok opt) :
    opt.autosampledevs.Paired :=
  optionsParse_invariant (fun _ => paramOf_paired) rfl h

/-! ## The devices -/

/-- What is read of a file: its pairs, or nothing without a file. -/
theorem parseFile_empty {filename : Option CStr} {stor : KeyValueStorage}
    (h : parseFile fs mem filename .empty = .ok stor) :
    ∃ pairs : List (CStr × CStr), stor = ⟨pairs.map Prod.fst, pairs.map Prod.snd⟩ ∧
      ∀ pair ∈ pairs, blank ∉ pair.1 ∧ linefeed ∉ pair.1 ∧ 0 ∉ pair.1 := by
  cases filename with
  | none => exact ⟨[], by rw [← Except.ok.inj h]; rfl, by simp⟩
  | some filename =>
      rw [parseFile] at h
      split at h
      · rename_i stor' hfile
        obtain rfl := Except.ok.inj h
        cases hfs : fs filename with
        | none =>
            rw [hfs] at hfile
            cases congrArg Prod.fst hfile
        | some bytes =>
            rw [hfs] at hfile
            refine ⟨filePairs bytes, addPairs_eq_zero hfile, fun pair hpair => ?_⟩
            exact key_of_filePairs (k := pair.1) (v := pair.2) hpair
      · cases h

/-- A name is found among these pairs if one has it. -/
theorem exists_of_find_pairs {pairs : List (CStr × CStr)}
    (h : (keyValueStorageFind ⟨pairs.map Prod.fst, pairs.map Prod.snd⟩ (some name)).isSome) :
    ∃ pair ∈ pairs, pair.1 = name := by
  rw [keyValueStorageFind, Option.bind_some, lookupBeside_pairs, Option.isSome_map,
    List.find?_isSome] at h
  simpa using h

/-- Every device that was checked is found, and its rate is positive. -/
theorem of_checkAutosample {stor : KeyValueStorage} : ∀ keys values : List CStr,
    checkAutosample stor keys values = true → ∀ d ∈ keys.zip values,
      (keyValueStorageFind stor (some d.1)).isSome ∧ 0 < atoi d.2 := by
  intro keys values
  fun_induction checkAutosample stor keys values with
  | case1 k keys v values ih =>
      intro h d hd
      rw [Bool.and_eq_true, Bool.and_eq_true] at h
      rw [List.zip_cons_cons] at hd
      rcases List.mem_cons.mp hd with rfl | hd
      · exact ⟨h.1.1, of_decide_eq_true h.1.2⟩
      · exact ih h.2 d hd
  | case2 keys values hne =>
      intro _ d hd
      cases keys with
      | nil => cases hd
      | cons k keys =>
          cases values with
          | nil => cases hd
          | cons v values => exact absurd rfl (hne k keys v values rfl)

/-- **What `options_parse_post` did and checked** where it returned no
error. -/
theorem optionsParsePost_ok (h : optionsParsePost fs powerMem sampleMem opt = .ok opt') :
    parseFile fs sampleMem opt.sampledevFile opt.sampledevs = .ok opt'.sampledevs ∧
      opt'.autosampledevs = opt.autosampledevs ∧
      checkAutosample opt'.sampledevs opt'.autosampledevs.keys opt'.autosampledevs.values =
        true := by
  rw [optionsParsePost] at h
  split at h
  · cases h
  · split at h
    · cases h
    · rename_i sampledevs hfile
      split at h
      · rename_i hcheck
        obtain rfl := Except.ok.inj h
        exact ⟨hfile, rfl, hcheck⟩
      · cases h

/-- A device is checked with the name and the rate it was given. -/
theorem of_mem_devices {d : CStr × ℤ}
    (hpost : optionsParsePost fs powerMem sampleMem opt = .ok opt') (hd : d ∈ opt'.devices) :
    (keyValueStorageFind opt'.sampledevs (some d.1)).isSome ∧ 0 < d.2 := by
  obtain ⟨pair, hpair, rfl⟩ := List.mem_map.mp hd
  exact of_checkAutosample _ _ (optionsParsePost_ok hpost).2.2 pair hpair

/-- **The devices of an accepted configuration are keys of the sample
device file**: they are found, and their names are words. -/
theorem device_of_accepted (hparse : optionsParse mem argv0 args = .ok opt)
    (hpost : optionsParsePost fs powerMem sampleMem opt = .ok opt')
    (hname : name ∈ opt'.devices.map Prod.fst) :
    (keyValueStorageFind opt'.sampledevs (some name)).isSome ∧
      blank ∉ name ∧ linefeed ∉ name ∧ 0 ∉ name := by
  obtain ⟨d, hd, rfl⟩ := List.mem_map.mp hname
  have hfound := (of_mem_devices hpost hd).1
  have hfile := (optionsParsePost_ok hpost).1
  rw [optionsParse_sampledevs hparse] at hfile
  obtain ⟨pairs, hstor, hpairs⟩ := parseFile_empty hfile
  refine ⟨hfound, ?_⟩
  rw [hstor] at hfound
  obtain ⟨pair, hpair, heq⟩ := exists_of_find_pairs hfound
  rw [← heq]
  exact hpairs pair hpair

/-! ## What the daemon is started with -/

/-- **An accepted configuration**: some arguments and some files give these
options. -/
def Accepted (opt' : OptionsT) : Prop :=
  ∃ mem argv0 args opt fs powerMem sampleMem, optionsParse mem argv0 args = .ok opt ∧
    optionsParsePost fs powerMem sampleMem opt = .ok opt'

theorem Accepted.delay_pos {d : CStr × ℤ} (h : Accepted opt) (hd : d ∈ opt.devices) :
    0 < d.2 := by
  obtain ⟨_, _, _, _, _, _, _, -, hpost⟩ := h
  exact (of_mem_devices hpost hd).2

/-- There is a device for every key. -/
theorem Accepted.length_devices (h : Accepted opt) :
    opt.devices.length = opt.autosampledevs.keys.length := by
  obtain ⟨_, _, _, _, _, _, _, hparse, hpost⟩ := h
  have hpaired := optionsParse_paired hparse
  rw [← (optionsParsePost_ok hpost).2.1, KeyValueStorage.Paired] at hpaired
  rw [OptionsT.devices, List.length_map, List.length_zip, ← hpaired, Nat.min_self]

end Daemon

end Realraum
