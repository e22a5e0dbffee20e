import Realraum.Daemon.Helpers.Options
import Realraum.Daemon.Model.Argv
/-!
# The daemon — `argv` and its two counters

`options_parse` counts the arguments that are left down and the one at hand
up. `argvLoop_rule` is the one induction over the loop: in each of its ways
out and in each of its rounds `i + argc` is the length of `argv`. From it
come the range of every read and of the value returned, and the order in
which the arguments are used up. The loop on `argv` gives what
`optionsParse` gives on the list of the arguments.
-/

namespace Realraum

namespace Daemon

variable {mem : ℕ → AddMem} {argv : List CStr} {run : ArgvRun} {i argc : ℕ} {opt : OptionsT}
variable {str arg : CStr}

/-- The argument at `i` is an option that takes the next one. -/
def TakesValue (argv : List CStr) (i : ℕ) : Prop :=
  ∃ str store, argv[i]? = some str ∧ paramOf str = some (.value store)

/-- The reads of an option at `i` and of its value. -/
def valueReads (i : ℕ) : List (ArgvUse × ℕ) := [(.option, i), (.ahead, i + 1), (.value, i + 1)]

theorem readArgv_eq {use : ArgvUse} {go : CStr → ArgvRun} (h : argv[i]? = some str) :
    readArgv argv use i go = ⟨(use, i) :: (go str).reads, (go str).result⟩ := by
  rw [readArgv, h]

/-! ## What an argument's value may come to -/

/-- An argument that is stored was stored whole, or its memory ran out. -/
def Param.Stores : Param → Prop
  | .value store => ∀ mem arg opt r, store mem arg opt = some r → r.1 = 0 ∨ r.1 = -2
  | _ => True

theorem stringListAdd_ret (list : List CStr) (string : CStr) (mem : Bool) :
    (stringListAdd list string mem).1 = 0 ∨ (stringListAdd list string mem).1 = -2 := by
  rw [stringListAdd]
  split
  · exact .inl rfl
  · exact .inr rfl

theorem paramOf_stores : ∀ param ∈ paramOf str, param.Stores := by
  refine paramOf_induction trivial (fun _ _ _ => trivial) (fun set _ _ => ?_) ?_ ?_
  · intro mem arg opt r h
    rw [← Option.some.inj h]
    split
    · exact .inl rfl
    · exact .inr rfl
  · intro mem arg opt r h
    rw [← Option.some.inj h]
    exact stringListAdd_ret opt.logTargets arg mem.key
  · intro mem arg opt r h
    dsimp only at h
    split at h
    · rw [← Option.some.inj h]
      dsimp only
      split
      · exact .inl rfl
      · exact .inr rfl
    · cases h

/-! ## The loop -/

/-- **A round that has a value ahead**: the value begins with a dash, or is
refused, or is stored, or there is no memory for it. -/
theorem argvLoop_value {store : AddMem → CStr → OptionsT → Option (ℤ × OptionsT)}
    (hstr : argv[i]? = some str) (hparam : paramOf str = some (.value store))
    (harg : argv[i + 1]? = some arg) (opt : OptionsT) :
    (arg.head? = some 45 ∧ argvLoop mem argv (argc + 2) i opt =
        ⟨[(.option, i), (.ahead, i + 1)], some (.error i)⟩) ∨
      (arg.head? ≠ some 45 ∧ store (mem (i + 1)) arg opt = none ∧
        argvLoop mem argv (argc + 2) i opt = ⟨valueReads i, some (.error ↑(i + 1))⟩) ∨
      (arg.head? ≠ some 45 ∧ ∃ opt', store (mem (i + 1)) arg opt = some (0, opt') ∧
        argvLoop mem argv (argc + 2) i opt =
          ⟨valueReads i ++ (argvLoop mem argv argc (i + 2) opt').reads,
            (argvLoop mem argv argc (i + 2) opt').result⟩) ∨
      (arg.head? ≠ some 45 ∧ ∃ opt', store (mem (i + 1)) arg opt = some (-2, opt') ∧
        argvLoop mem argv (argc + 2) i opt = ⟨valueReads i, some (.error (-2))⟩) := by
  rw [argvLoop, readArgv_eq hstr, hparam]
  dsimp only
  rw [readArgv_eq harg]
  by_cases hhead : arg.head? = some 45
  · rw [if_pos hhead]
    exact .inl ⟨hhead, rfl⟩
  · rw [if_neg hhead, readArgv_eq harg]
    cases hstore : store (mem (i + 1)) arg opt with
    | none => exact .inr (.inl ⟨hhead, rfl, rfl⟩)
    | some r =>
        obtain ⟨ret, opt'⟩ := r
        rcases paramOf_stores (.value store) hparam _ _ _ _ hstore with hret | hret
        · obtain rfl : ret = 0 := hret
          exact .inr (.inr (.inl ⟨hhead, opt', rfl, rfl⟩))
        · obtain rfl : ret = -2 := hret
          exact .inr (.inr (.inr ⟨hhead, opt', rfl, rfl⟩))

/-- **The rule of the loop.** What holds of each way out, and is carried by
each round, holds of the loop wherever it starts with `i + argc` the length
of `argv`. -/
theorem argvLoop_rule {Q : ℕ → ArgvRun → Prop}
    (hdone : ∀ opt, Q argv.length (.ends (.ok opt)))
    (hstop : ∀ i (ret : ℤ), i < argv.length → ret = i ∨ ret = -1 →
      (TakesValue argv i → ret = i ∧ i + 1 = argv.length) →
      Q i ⟨[(.option, i)], some (.error ret)⟩)
    (hdash : ∀ i, i + 1 < argv.length → TakesValue argv i → (∃ arg, argv[i + 1]? = some arg ∧
      arg.head? = some 45) → Q i ⟨[(.option, i), (.ahead, i + 1)], some (.error i)⟩)
    (hrefused : ∀ i (ret : ℤ), i + 1 < argv.length → TakesValue argv i →
      ret = ↑(i + 1) ∨ ret = -2 → Q i ⟨valueReads i, some (.error ret)⟩)
    (hflag : ∀ i run, i < argv.length → ¬ TakesValue argv i → Q (i + 1) run →
      Q i ⟨(.option, i) :: run.reads, run.result⟩)
    (hvalue : ∀ i run, i + 1 < argv.length → TakesValue argv i → Q (i + 2) run →
      Q i ⟨valueReads i ++ run.reads, run.result⟩)
    (argc : ℕ) : ∀ i opt, i + argc = argv.length → Q i (argvLoop mem argv argc i opt) := by
  induction argc using Nat.strong_induction_on with
  | _ argc ih =>
    intro i opt hlen
    cases argc with
    | zero =>
        obtain rfl : i = argv.length := hlen
        exact hdone opt
    | succ argc =>
        have hi : i < argv.length := by omega
        obtain ⟨str, hstr⟩ : ∃ str, argv[i]? = some str := ⟨_, List.getElem?_eq_getElem hi⟩
        -- a flag, `--help` or an unknown string does not take the next one
        have hnot : ∀ param, paramOf str = param → (∀ store, param ≠ some (.value store)) →
            ¬ TakesValue argv i := by
          rintro param hparam hne ⟨str', store, hstr', hstore⟩
          obtain rfl : str = str' := Option.some.inj (hstr.symm.trans hstr')
          exact hne store (hparam.symm.trans hstore)
        cases hparam : paramOf str with
        | none =>
            rw [argvLoop, readArgv_eq hstr, hparam]
            exact hstop i i hi (.inl rfl) fun htakes => absurd htakes (hnot _ hparam nofun)
        | some param =>
            cases param with
            | help =>
                rw [argvLoop, readArgv_eq hstr, hparam]
                exact hstop i (-1) hi (.inr rfl) fun htakes => absurd htakes (hnot _ hparam nofun)
            | flag set =>
                rw [argvLoop, readArgv_eq hstr, hparam]
                exact hflag i _ hi (hnot _ hparam nofun)
                  (ih argc (by omega) (i + 1) (set opt) (by omega))
            | value store =>
                have htakes : TakesValue argv i := ⟨str, store, hstr, hparam⟩
                cases argc with
                | zero =>
                    rw [argvLoop, readArgv_eq hstr, hparam]
                    exact hstop i i hi (.inl rfl) fun _ => ⟨rfl, by omega⟩
                | succ argc =>
                    have hi' : i + 1 < argv.length := by omega
                    obtain ⟨arg, harg⟩ : ∃ arg, argv[i + 1]? = some arg :=
                      ⟨_, List.getElem?_eq_getElem hi'⟩
                    rcases argvLoop_value hstr hparam harg opt with
                      ⟨hhead, heq⟩ | ⟨-, -, heq⟩ | ⟨-, opt', -, heq⟩ | ⟨-, opt', -, heq⟩
                    · rw [heq]
                      exact hdash i hi' htakes ⟨arg, harg, hhead⟩
                    · rw [heq]
                      exact hrefused i _ hi' htakes (.inl rfl)
                    · rw [heq]
                      exact hvalue i _ hi' htakes (ih argc (by omega) (i + 2) opt' (by omega))
                    · rw [heq]
                      exact hrefused i (-2) hi' htakes (.inr rfl)

/-! ## The range of `argv` -/

/-- The reads and the value returned stay inside `argv`. -/
def InRange (argv : List CStr) (i : ℕ) (run : ArgvRun) : Prop :=
  (∀ read ∈ run.reads, read.2 < argv.length) ∧
    ∃ res, run.result = some res ∧ (returned res = 0 ∨ returned res = -1 ∨ returned res = -2 ∨
      ↑i ≤ returned res ∧ returned res < argv.length)

/-- Reads in front of a run that stays in range. -/
theorem InRange.append {j : ℕ} {reads : List (ArgvUse × ℕ)} (h : InRange argv j run) (hij : i ≤ j)
    (hreads : ∀ read ∈ reads, read.2 < argv.length) :
    InRange argv i ⟨reads ++ run.reads, run.result⟩ := by
  obtain ⟨hin, res, hres, hret⟩ := h
  refine ⟨fun read hread => ?_, res, hres, by omega⟩
  rcases List.mem_append.mp hread with hread | hread
  · exact hreads read hread
  · exact hin read hread

/-- A run that returns behind these reads. -/
theorem InRange.returns {reads : List (ArgvUse × ℕ)} {ret : ℤ}
    (hreads : ∀ read ∈ reads, read.2 < argv.length)
    (hret : ret = -1 ∨ ret = -2 ∨ ↑i ≤ ret ∧ ret < argv.length) :
    InRange argv i ⟨reads, some (.error ret)⟩ :=
  ⟨hreads, _, rfl, .inr hret⟩

/-- **The loop stays inside `argv`.** -/
theorem argvLoop_inRange : ∀ i opt, i + argc = argv.length →
    InRange argv i (argvLoop mem argv argc i opt) := by
  refine argvLoop_rule (fun opt => ?_) (fun i ret hi hret _ => ?_) (fun i hi _ _ => ?_)
    (fun i ret hi _ hret => ?_) (fun i run hi _ ih => ?_) (fun i run hi _ ih => ?_) argc
  · exact ⟨nofun, _, rfl, .inl rfl⟩
  · exact .returns (by simpa using hi) (by omega)
  · exact .returns (by simpa using ⟨by omega, hi⟩) (by omega)
  · exact .returns (by simpa [valueReads] using ⟨by omega, hi⟩) (by omega)
  · show InRange argv i ⟨[(.option, i)] ++ run.reads, run.result⟩
    exact ih.append (by omega) (by simpa using hi)
  · exact ih.append (by omega) (by simpa [valueReads] using ⟨by omega, hi⟩)

/-! ## The order of the arguments -/

/-- The arguments used up, as options and as values. -/
def ArgvRun.used (run : ArgvRun) : List ℕ :=
  (run.reads.filter fun read => read.1 = .option ∨ read.1 = .value).map Prod.snd

/-- **The arguments are used up in their order**, none twice and none left
out before the end. -/
theorem argvLoop_used : ∀ i opt, i + argc = argv.length →
    ∃ n, (argvLoop mem argv argc i opt).used = List.range' i n := by
  refine argvLoop_rule (Q := fun i run => ∃ n, run.used = List.range' i n) (fun opt => ?_)
    (fun i ret _ _ _ => ?_) (fun i _ _ _ => ?_) (fun i ret _ _ _ => ?_)
    (fun i run _ _ ih => ?_) (fun i run _ _ ih => ?_) argc
  · exact ⟨0, rfl⟩
  · exact ⟨1, rfl⟩
  · exact ⟨1, rfl⟩
  · exact ⟨2, rfl⟩
  · obtain ⟨n, hn⟩ := ih
    exact ⟨n + 1, by rw [List.range'_succ, ← hn]; rfl⟩
  · obtain ⟨n, hn⟩ := ih
    exact ⟨n + 2, by rw [List.range'_succ, List.range'_succ, ← hn]; rfl⟩

/-- **A value stands behind its option**, and an option has its value
unless the loop returned at it, for the lack of one. -/
def Behind (argv : List CStr) (run : ArgvRun) : Prop :=
  (∀ j, (.value, j) ∈ run.reads →
    ∃ k, j = k + 1 ∧ (.option, k) ∈ run.reads ∧ TakesValue argv k) ∧
  ∀ k, (.option, k) ∈ run.reads → TakesValue argv k → (.value, k + 1) ∈ run.reads ∨
    run.result = some (.error k) ∧ (k + 1 = argv.length ∨
      ∃ arg, argv[k + 1]? = some arg ∧ arg.head? = some 45)

theorem argvLoop_behind : ∀ i opt, i + argc = argv.length →
    Behind argv (argvLoop mem argv argc i opt) := by
  refine argvLoop_rule (fun opt => ?_) (fun i ret _ _ hlast => ?_) (fun i _ htakes hdash => ?_)
    (fun i ret _ htakes _ => ?_) (fun i run _ hnot ih => ?_) (fun i run _ htakes ih => ?_) argc
  · exact ⟨nofun, nofun⟩
  · refine ⟨by simp, fun k hk htakes => ?_⟩
    obtain rfl : k = i := by simpa using hk
    obtain ⟨rfl, hlen⟩ := hlast htakes
    exact .inr ⟨rfl, .inl hlen⟩
  · refine ⟨by simp, fun k hk _ => ?_⟩
    obtain rfl : k = i := by simpa using hk
    exact .inr ⟨rfl, .inr hdash⟩
  · refine ⟨fun j hj => ⟨i, ?_, by simp [valueReads], htakes⟩, fun k hk _ => .inl ?_⟩
    · simpa [valueReads] using hj
    · obtain rfl : k = i := by simpa [valueReads] using hk
      simp [valueReads]
  · refine ⟨fun j hj => ?_, fun k hk htakes => ?_⟩
    · obtain ⟨k, hj, hk, htakes⟩ := ih.1 j (by simpa using hj)
      exact ⟨k, hj, List.mem_cons_of_mem _ hk, htakes⟩
    · rcases List.mem_cons.mp hk with heq | hk
      · obtain rfl : k = i := congrArg Prod.snd heq
        exact absurd htakes hnot
      · exact (ih.2 k hk htakes).imp_left (List.mem_cons_of_mem _)
  · refine ⟨fun j hj => ?_, fun k hk htakes' => ?_⟩
    · rcases List.mem_append.mp hj with hj | hj
      · exact ⟨i, by simpa [valueReads] using hj, by simp [valueReads], htakes⟩
      · obtain ⟨k, hj, hk, htakes⟩ := ih.1 j hj
        exact ⟨k, hj, List.mem_append_right _ hk, htakes⟩
    · rcases List.mem_append.mp hk with hk | hk
      · obtain rfl : k = i := by simpa [valueReads] using hk
        exact .inl (by simp [valueReads])
      · exact (ih.2 k hk htakes').imp_left (List.mem_append_right _)

/-- An argument that is used up once is an option or a value, not both. -/
theorem ArgvRun.count_value {j : ℕ} (h : run.used.Nodup) (hj : (.value, j) ∈ run.reads) :
    run.reads.count (.value, j) = 1 ∧ (.option, j) ∉ run.reads := by
  rw [used] at h
  have hmem : ∀ use, use = ArgvUse.option ∨ use = ArgvUse.value → (use, j) ∈ run.reads →
      (use, j) ∈ run.reads.filter fun read => read.1 = .option ∨ read.1 = .value :=
    fun use huse hread => List.mem_filter.mpr ⟨hread, by simpa using huse⟩
  refine ⟨?_, fun hoption => ?_⟩
  · rw [← List.count_filter (p := fun read => read.1 = .option ∨ read.1 = .value) (by simp)]
    exact List.count_eq_one_of_mem h.of_map (hmem _ (.inr rfl) hj)
  · have heq := List.inj_on_of_nodup_map h (hmem _ (.inl rfl) hoption) (hmem _ (.inr rfl) hj) rfl
    cases heq

/-! ## `options_parse` -/

/-- What the loop has of `options_parse` has it behind the name, which is
read first. -/
theorem optionsParseArgv_eq (mem : ℕ → AddMem) (hargc : 1 ≤ argv.length) :
    (optionsParseArgv mem argv = ⟨[(.progname, 0)], some (.error (-2))⟩) ∨
      ∃ opt, optionsParseArgv mem argv =
        ⟨(.progname, 0) :: (argvLoop mem argv (argv.length - 1) 1 opt).reads,
          (argvLoop mem argv (argv.length - 1) 1 opt).result⟩ := by
  rw [optionsParseArgv, readArgv_eq (List.getElem?_eq_getElem hargc)]
  split
  · exact .inr ⟨_, rfl⟩
  · exact .inl rfl

example : (optionsParseArgv (fun _ => ⟨true, true⟩) [ascii "psd", ascii "-s", ascii "/s"]).reads =
    (.progname, 0) :: valueReads 1 := by decide +kernel

/-! ## The arguments as a list -/

/-- **The two counters walk the list of the arguments.** -/
theorem argvLoop_result (argc : ℕ) : ∀ i opt, i + argc = argv.length →
    (argvLoop mem argv argc i opt).result = some (parseArgs mem i (argv.drop i) opt) := by
  induction argc using Nat.strong_induction_on with
  | _ argc ih =>
    intro i opt hlen
    cases argc with
    | zero =>
        rw [List.drop_eq_nil_of_le (by omega)]
        rfl
    | succ argc =>
        have hi : i < argv.length := by omega
        have hstr := List.getElem?_eq_getElem hi
        rw [List.drop_eq_getElem_cons hi, parseArgs]
        cases hparam : paramOf argv[i] with
        | none =>
            rw [argvLoop, readArgv_eq hstr, hparam]
            rfl
        | some param =>
            cases param with
            | help =>
                rw [argvLoop, readArgv_eq hstr, hparam]
                rfl
            | flag set =>
                rw [argvLoop, readArgv_eq hstr, hparam]
                exact ih argc (by omega) (i + 1) (set opt) (by omega)
            | value store =>
                cases argc with
                | zero =>
                    rw [argvLoop, readArgv_eq hstr, hparam, List.drop_eq_nil_of_le (by omega)]
                    rfl
                | succ argc =>
                    have hi' : i + 1 < argv.length := by omega
                    rw [List.drop_eq_getElem_cons hi']
                    dsimp only
                    rcases argvLoop_value hstr hparam (List.getElem?_eq_getElem hi') opt with
                      ⟨hhead, heq⟩ | ⟨hhead, hstore, heq⟩ | ⟨hhead, opt', hstore, heq⟩ |
                        ⟨hhead, opt', hstore, heq⟩
                    · rw [heq, if_pos hhead]
                    · rw [heq, if_neg hhead, hstore]
                      rfl
                    · rw [heq, if_neg hhead, hstore]
                      exact ih argc (by omega) (i + 2) opt' (by omega)
                    · rw [heq, if_neg hhead, hstore]
                      rfl

theorem optionsParseArgv_result (mem : ℕ → AddMem) (argv0 : CStr) (args : List CStr) :
    (optionsParseArgv mem (argv0 :: args)).result = some (optionsParse mem argv0 args) := by
  rw [optionsParseArgv, readArgv_eq rfl, optionsParse]
  split
  · exact argvLoop_result args.length 1 _ (by simp; omega)
  · rfl

end Daemon

end Realraum
