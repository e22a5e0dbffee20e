import Realraum.Daemon.Helpers.Enabling
import Realraum.Daemon.Helpers.Replay
/-!
# Re-entering `main_loop`

What the child was told last is remembered in a local of `main_loop`,
and only changes are written. Inside one call the two agree, and each
iteration that reaches the block leaves the child with the need. A call
that is entered after another starts with a local of 0, while the child
is still as the last call left it.
-/

namespace Realraum

namespace Daemon

variable {svc : Service} {m m' : Main} {cfg : Setup} {s t u : State} {e : Env}

/-- **`main_loop` is not entered while the child is enabled.** -/
def EntersQuiet (m : Main) : Act → Prop
  | .enter _ _ _ => m.lastEnable = false
  | _ => True

instance (m : Main) : (a : Act) → Decidable (EntersQuiet m a)
  | .enter _ _ _ => inferInstanceAs (Decidable (_ = _))
  | .cannotOpen => inferInstanceAs (Decidable True)
  | .cannotInit => inferInstanceAs (Decidable True)
  | .iterates _ => inferInstanceAs (Decidable True)
  | .childReads => inferInstanceAs (Decidable True)

/-- The last byte after an iteration. -/
theorem lastEnable_append (m : Main) (bs : List Bool) :
    (m.written ++ bs).getLastD false = bs.getLastD m.lastEnable := by
  rw [Main.lastEnable]
  cases bs using List.reverseRecOn with
  | nil => simp
  | append_singleton bs b => simp [← List.append_assoc]

/-- The events of an iteration behind those before it. -/
theorem Unasked.new (h : Unasked s t) : enables (t.trace.drop s.trace.length) = [] := by
  obtain ⟨-, es, htr, hes⟩ := h
  rw [htr, List.drop_left, hes]

theorem Answered.new (h : Answered s t) :
    enables (t.trace.drop s.trace.length) =
      if s.autosampleEnabled = Needed t then [] else [Needed t] := by
  obtain ⟨v, ⟨hen, es, htr, hes⟩, hlst, -, htr'⟩ := h
  have hneed : Needed v = Needed t := by rw [Needed, Needed, hlst]
  rw [htr', htr, List.append_assoc, List.drop_left, enables_append, hes, hen, hneed]
  split <;> rfl

theorem Answered.autosampleEnabled (h : Answered s t) : t.autosampleEnabled = Needed t := by
  obtain ⟨v, -, hlst, hen, -⟩ := h
  rw [hen, Needed, Needed, hlst]

/-! ## The daemon -/

/-- The local agrees with what the child was told last. -/
def Agrees (svc : Service) (m : Main) : Prop :=
  match m.phase with
  | .looping cfg s => cfg.service = svc ∧ s.autosampleEnabled = m.lastEnable
  | _ => True

/-- The child has the last of the bytes it has read. -/
def ChildHas (m : Main) : Prop :=
  m.child.read ≤ m.written.length ∧
    m.child.sampleEnabled = (m.written.take m.child.read).getLastD false

theorem mainStep_iterates (hphase : m.phase = .looping cfg s)
    (h : mainStep svc (.iterates e) m = some m') :
    ∃ t, loopStep cfg e s = some t ∧
      m' = { m with
        phase := afterIteration cfg t
        written := m.written ++ enables (t.trace.drop s.trace.length) } := by
  simp only [mainStep, hphase] at h
  obtain ⟨t, ht, rfl⟩ := Option.map_eq_some_iff.mp h
  exact ⟨t, ht, rfl⟩

/-- Reading a byte changes the child only. -/
theorem mainStep_childReads (h : mainStep svc .childReads m = some m') :
    ∃ b, m.written[m.child.read]? = some b ∧
      m' = { m with child := ⟨m.child.read + 1, b⟩ } := by
  simp only [mainStep] at h
  obtain ⟨b, hb, rfl⟩ := Option.map_eq_some_iff.mp h
  exact ⟨b, hb, rfl⟩

/-- **One step keeps the local and the child together**, when `main_loop`
is not entered while the child is enabled. -/
theorem mainStep_agrees (hchild : svc.autosample.isSome) {a : Act} (hpipe : PipeWorks a)
    (hquiet : EntersQuiet m a) (hm : Agrees svc m) (h : mainStep svc a m = some m') :
    Agrees svc m' := by
  cases a with
  | childReads =>
      obtain ⟨b, -, rfl⟩ := mainStep_childReads h
      exact hm
  | cannotOpen =>
      cases hphase : m.phase <;> simp [mainStep, hphase] at h
      subst h
      exact hm
  | cannotInit =>
      cases hphase : m.phase <;> simp [mainStep, hphase] at h
      subst h
      trivial
  | enter cfg staleTty stalePipe =>
      cases hphase : m.phase <;> simp [mainStep, hphase] at h
      obtain ⟨hsvc, rfl⟩ := h
      exact ⟨hsvc, Eq.symm hquiet⟩
  | iterates e =>
      cases hphase : m.phase with
      | opening => simp [mainStep, hphase] at h
      | ended ret => simp [mainStep, hphase] at h
      | looping cfg s =>
          obtain ⟨t, ht, rfl⟩ := mainStep_iterates hphase h
          rw [Agrees, hphase] at hm
          obtain ⟨rfl, hen⟩ := hm
          have hlast : t.autosampleEnabled =
              (m.written ++ enables (t.trace.drop s.trace.length)).getLastD false := by
            rw [lastEnable_append, ← hen]
            rcases loopStep_asked hchild hpipe ht with hun | hans
            · rw [hun.new, hun.1]
              rfl
            · rw [hans.new, hans.autosampleEnabled]
              split
              · exact Eq.symm ‹_›
              · rfl
          unfold Agrees afterIteration afterMainLoop
          by_cases hret : t.returnValue = 0
          · simp only [hret, if_true]
            exact ⟨trivial, hlast⟩
          · by_cases htwo : t.returnValue = 2 <;> simp [hret, htwo]

/-- A byte in the pipe is there to be read. -/
theorem mainStep_childHas {a : Act} (hm : ChildHas m) (h : mainStep svc a m = some m') :
    ChildHas m' := by
  obtain ⟨hle, hen⟩ := hm
  cases a with
  | childReads =>
      obtain ⟨b, hb, rfl⟩ := mainStep_childReads h
      obtain ⟨hlt, -⟩ := List.getElem?_eq_some_iff.mp hb
      refine ⟨hlt, ?_⟩
      rw [List.take_add_one, hb]
      simp
  | cannotOpen =>
      cases hphase : m.phase <;> simp [mainStep, hphase] at h
      subst h
      exact ⟨hle, hen⟩
  | cannotInit =>
      cases hphase : m.phase <;> simp [mainStep, hphase] at h
      subst h
      exact ⟨hle, hen⟩
  | enter cfg staleTty stalePipe =>
      cases hphase : m.phase <;> simp [mainStep, hphase] at h
      obtain ⟨-, rfl⟩ := h
      exact ⟨hle, hen⟩
  | iterates e =>
      cases hphase : m.phase with
      | opening => simp [mainStep, hphase] at h
      | ended ret => simp [mainStep, hphase] at h
      | looping cfg s =>
          obtain ⟨t, -, rfl⟩ := mainStep_iterates hphase h
          refine ⟨hle.trans (by simp), ?_⟩
          rw [List.take_append_of_le_length hle]
          exact hen

variable {B : Main → Act → Prop}

theorem Main.Reached.childHas (h : Main.Reached svc B m) : ChildHas m :=
  Reach.Run.invariant h ⟨Nat.le_refl _, rfl⟩ fun _ _ _ _ hm _ hstep => mainStep_childHas hm hstep

theorem Main.Reached.agrees (hchild : svc.autosample.isSome)
    (h : Main.Reached svc (fun m a => EntersQuiet m a) m) : Agrees svc m :=
  Reach.Run.invariant h trivial fun _ _ _ _ hm hA hstep =>
    mainStep_agrees hchild hA.1 hA.2 hm hstep

/-- The child reads on, and nothing else happens. -/
abbrev Drains (svc : Service) : Main → Main → Prop :=
  Reach.Run (mainStep svc) fun _ a => a = .childReads

/-- What the child has when its pipe is empty is the last byte written. -/
theorem Drains.sampleEnabled (h : Drains svc m m') (hm : ChildHas m) (hempty : m'.pipe = []) :
    m'.child.sampleEnabled = m.lastEnable := by
  have hkeep : ChildHas m' ∧ m'.written = m.written := by
    refine Reach.Run.invariant (I := fun n => ChildHas n ∧ n.written = m.written) h ⟨hm, rfl⟩ ?_
    rintro n a n' - ⟨hn, hw⟩ rfl hstep
    refine ⟨mainStep_childHas hn hstep, ?_⟩
    obtain ⟨b, -, rfl⟩ := mainStep_childReads hstep
    exact hw
  obtain ⟨⟨hle, hen⟩, hw⟩ := hkeep
  rw [Main.pipe, List.drop_eq_nil_iff] at hempty
  rw [hen, List.take_of_length_le hempty, hw, Main.lastEnable]

theorem needed_eq_true : Needed t = true ↔ ∃ c ∈ t.clientLst, c.listeners.sensor = true := by
  rw [Needed, List.any_eq_true]

/-- **The child follows the need.** Where writes to the child succeed and
`main_loop` is never entered while the child is enabled, at the end of
every iteration that reaches the autosample block the last enable byte
written is 1 just when some client has `sensor_listener` set, and so is
the child's `sample_enabled` once its pipe is empty. -/
theorem samples_follow_need (hchild : svc.autosample.isSome)
    (h : Main.Reached svc (fun m a => EntersQuiet m a) m) (hphase : m.phase = .looping cfg s)
    (hpipe : PipeWorks (.iterates e)) {readable : Finset ℕ}
    (hselect : e.select = .returned readable)
    (hu : beforeClients cfg e (tmpfds s readable) s = .next u)
    (hstep : mainStep svc (.iterates e) m = some m') :
    ∃ t, loopStep cfg e s = some t ∧
      (m'.lastEnable = true ↔ ∃ c ∈ t.clientLst, c.listeners.sensor = true) ∧
      ∀ n, Drains svc m' n → n.pipe = [] →
        (n.child.sampleEnabled = true ↔ ∃ c ∈ t.clientLst, c.listeners.sensor = true) := by
  have hagrees := h.agrees hchild
  have hhas := mainStep_childHas h.childHas hstep
  rw [Agrees, hphase] at hagrees
  obtain ⟨rfl, hen⟩ := hagrees
  obtain ⟨t, ht, rfl⟩ := mainStep_iterates hphase hstep
  have hans := loopStep_answered hchild hpipe hselect hu ht
  have hlast : (m.written ++ enables (t.trace.drop s.trace.length)).getLastD false = Needed t := by
    rw [lastEnable_append, hans.new, ← hen]
    split
    · assumption
    · rfl
  refine ⟨t, ht, ?_, fun n hn hempty => ?_⟩
  · rw [← needed_eq_true, ← hlast]
    rfl
  · rw [hn.sampleEnabled hhas hempty, ← needed_eq_true, ← hlast]
    rfl

/-! ## Runs -/

/-- `main_loop` is entered with memory of zeros. -/
def Act.enterSampling : Act := .enter .sampling (fun _ => 0) fun _ => 0

/-- The state `main_loop` is in. -/
def Main.loop (m : Main) : Option (Setup × State) :=
  match m.phase with
  | .looping cfg s => some (cfg, s)
  | _ => none

theorem Main.phase_of_loop {cfg : Setup} {s : State} (h : m.loop = some (cfg, s)) :
    m.phase = .looping cfg s := by
  rw [Main.loop] at h
  split at h
  · cases h
    assumption
  · cases h

/-- The iteration reaches the block, and leaves a state that passes a
check. -/
def reachesBlock (e : Env) (readable : Finset ℕ) (p : Main → State → Bool) (m : Main) : Bool :=
  m.loop.any fun q =>
    ((beforeClients q.1 e (tmpfds q.2 readable) q.2).nextAny fun _ => true) &&
      (mainStep Setup.sampling.service (.iterates e) m).any fun m' =>
        (loopStep q.1 e q.2).any fun t => p m' t

/-- **A run of the daemon and an iteration behind it**, found by replaying
what happens. -/
theorem exists_reachesBlock (B : Main → Act → Prop) [∀ m a, Decidable (B m a)] (as : List Act)
    (e : Env) (readable : Finset ℕ) (p : Main → State → Bool)
    (h : (Reach.replay (mainStep Setup.sampling.service)
      (fun m a => decide (PipeWorks a ∧ B m a)) as .start).any (reachesBlock e readable p) = true) :
    ∃ m cfg s u m' t, Main.Reached Setup.sampling.service B m ∧ m.phase = .looping cfg s ∧
      beforeClients cfg e (tmpfds s readable) s = .next u ∧
      mainStep Setup.sampling.service (.iterates e) m = some m' ∧
      loopStep cfg e s = some t ∧ p m' t = true := by
  obtain ⟨m, hm, hblock⟩ := Reach.exists_of_replay (fun _ _ => of_decide_eq_true) as _ _ h
  obtain ⟨⟨cfg, s⟩, hloop, hblock⟩ := (Option.any_eq_true _ _).mp hblock
  obtain ⟨hnext, hblock⟩ := (Bool.and_eq_true _ _).mp hblock
  obtain ⟨u, hu, -⟩ := Flow.exists_of_nextAny hnext
  obtain ⟨m', hm', hblock⟩ := (Option.any_eq_true _ _).mp hblock
  obtain ⟨t, ht, hp⟩ := (Option.any_eq_true _ _).mp hblock
  exact ⟨m, cfg, s, u, m', t, hm, Main.phase_of_loop hloop, hu, hm', ht, hp⟩

/-- A listener comes and goes, and the tty is lost and opened again while
the child is off; then a client subscribes. -/
theorem samples_follow_need_reentered :
    ∃ m m' cfg s u t, Main.Reached Setup.sampling.service (fun m a => EntersQuiet m a) m ∧
      m.phase = .looping cfg s ∧
      mainStep Setup.sampling.service (.iterates (.command 7 "listen sensor" 5)) m = some m' ∧
      beforeClients cfg (.command 7 "listen sensor" 5) (tmpfds s {7}) s = .next u ∧
      loopStep cfg (.command 7 "listen sensor" 5) s = some t ∧
      (m'.lastEnable = true ↔ ∃ c ∈ t.clientLst, c.listeners.sensor = true) ∧
      m'.written = [true, false, true] := by
  obtain ⟨m, cfg, s, u, m', t, hm, hphase, hu, hstep, ht, hp⟩ :=
    exists_reachesBlock (fun m a => EntersQuiet m a)
      [.enterSampling, .iterates (.connect .sampling 7 0), .iterates (.command 7 "listen sensor" 1),
        .iterates (.disconnect 7 2), .iterates (.ttyGone .sampling 3), .enterSampling,
        .iterates (.connect .sampling 7 4)]
      (.command 7 "listen sensor" 5) {7} (fun m' _ => m'.written = [true, false, true])
      (by decide +kernel)
  obtain ⟨t', ht', hiff, -⟩ := samples_follow_need rfl hm hphase (by decide) rfl hu hstep
  cases ht.symm.trans ht'
  exact ⟨m, m', cfg, s, u, t, hm, hphase, hstep, hu, ht, hiff, of_decide_eq_true hp⟩

/-- **The child goes on sampling for nobody.** A client subscribes, so the
child is enabled; the tty is lost and `main_loop` is entered again with a
local of 0 and no clients. The next client asks for nothing, and nothing
is written. -/
theorem samples_follow_need_fails :
    ∃ m m' cfg s u t, Main.Reached Setup.sampling.service (fun _ _ => True) m ∧
      m.phase = .looping cfg s ∧
      beforeClients cfg (.connect .sampling 7 4) (tmpfds s {4}) s = .next u ∧
      mainStep Setup.sampling.service (.iterates (.connect .sampling 7 4)) m = some m' ∧
      loopStep cfg (.connect .sampling 7 4) s = some t ∧
      m'.lastEnable = true ∧ ¬ ∃ c ∈ t.clientLst, c.listeners.sensor = true := by
  obtain ⟨m, cfg, s, u, m', t, hm, hphase, hu, hstep, ht, hp⟩ :=
    exists_reachesBlock (fun _ _ => True)
      [.enterSampling, .iterates (.connect .sampling 7 0), .iterates (.command 7 "listen sensor" 1),
        .iterates (.ttyGone .sampling 3), .enterSampling]
      (.connect .sampling 7 4) {4} (fun m' t => m'.lastEnable && !Needed t) (by decide +kernel)
  obtain ⟨hlast, hneed⟩ := (Bool.and_eq_true _ _).mp hp
  refine ⟨m, m', cfg, s, u, t, hm, hphase, hu, hstep, ht, hlast, fun hneeded => ?_⟩
  rw [needed_eq_true.mpr hneeded] at hneed
  cases hneed

end Daemon

end Realraum
