import Mathlib.Data.Set.Card
import Mathlib.Data.Fintype.Basic
import Realraum.Presence.Model.Config
/-!
# Readers and writers of the configuration

`guardWriting` sets the flag without a look at it, and `unguardWriting`
clears it for everybody. While every `guardWriting` finds the flag clear,
the flag says that some thread writes or is about to, there is one such
thread, and it starts when the last reader has left.
-/

namespace Realraum

namespace Presence

variable {ι : Type*} {c d : UWSConfig ι} {t u : ι} {p : Place}

/-- **Readers and writers exclude each other**, and writers one another. -/
def Exclusive (c : UWSConfig ι) : Prop :=
  (∀ t u, c.place t = .writing → c.place u = .writing → t = u) ∧
    ∀ t u, c.place t = .reading → c.place u ≠ .writing

/-- A call of `guardWriting` finds no writer. -/
def FindsNoWriter (c : UWSConfig ι) (a : ι × Op) : Prop :=
  a.2 = .guardWriting → c.currentlyWriting = false

instance (c : UWSConfig ι) (a : ι × Op) : Decidable (FindsNoWriter c a) :=
  inferInstanceAs (Decidable (_ → _))

/-- The threads that hold `guardReading`. -/
def readers (c : UWSConfig ι) : Set ι := {t | c.place t = .reading}

/-- The places of a thread that set the flag. -/
def Place.writes : Place → Bool
  | awaitsReaders _ | writing => true
  | _ => false

/-- **The invariant of the guards.** -/
structure Guarded (c : UWSConfig ι) : Prop where
  finite : (readers c).Finite
  counted : c.currentlyReading = (readers c).ncard
  flagged : ∀ t, (c.place t).writes = true → c.currentlyWriting = true
  single : ∀ t u, (c.place t).writes = true → (c.place u).writes = true → t = u
  alone : ∀ t, c.place t = .writing → c.currentlyReading = 0

theorem Guarded.exclusive (h : Guarded c) : Exclusive c := by
  refine ⟨fun t u ht hu => h.single t u (by rw [ht]; rfl) (by rw [hu]; rfl), fun t u ht hu => ?_⟩
  have hzero := h.alone u hu
  rw [h.counted] at hzero
  have hempty : readers c = ∅ := (Set.ncard_eq_zero h.finite).mp (by omega)
  have hmem : t ∈ readers c := ht
  rw [hempty] at hmem
  exact hmem

/-- Threads that wait may be notified. -/
theorem Guarded.same (h : Guarded c) (hr : d.currentlyReading = c.currentlyReading)
    (hw : d.currentlyWriting = c.currentlyWriting)
    (hplace : ∀ t, d.place t = c.place t ∨
      (d.place t).writes = (c.place t).writes ∧ c.place t ≠ .reading ∧ d.place t ≠ .reading ∧
        d.place t ≠ .writing) : Guarded d := by
  have hreaders : readers d = readers c := by
    ext t
    show d.place t = .reading ↔ c.place t = .reading
    rcases hplace t with heq | ⟨-, hc, hd, -⟩
    · rw [heq]
    · exact ⟨fun h => absurd h hd, fun h => absurd h hc⟩
  have hwrites : ∀ t, (d.place t).writes = (c.place t).writes := fun t => by
    rcases hplace t with heq | ⟨heq, -⟩
    · rw [heq]
    · exact heq
  refine ⟨?_, ?_, fun t ht => ?_, fun t u ht hu => ?_, fun t ht => ?_⟩
  · rw [hreaders]
    exact h.finite
  · rw [hr, hreaders, h.counted]
  · rw [hw]
    exact h.flagged t (by rw [← hwrites, ht])
  · exact h.single t u (by rw [← hwrites, ht]) (by rw [← hwrites, hu])
  · rcases hplace t with heq | ⟨-, -, -, hne⟩
    · rw [hr]
      exact h.alone t (by rw [← heq, ht])
    · exact absurd ht hne

/-! ## The steps -/

theorem Guarded.init : Guarded (UWSConfig.init : UWSConfig ι) := by
  have hempty : readers (UWSConfig.init : UWSConfig ι) = ∅ := by
    ext t
    exact ⟨nofun, nofun⟩
  refine ⟨?_, ?_, nofun, nofun, nofun⟩ <;> rw [hempty]
  · exact Set.finite_empty
  · rw [Set.ncard_empty]
    rfl

theorem Guarded.notifyReaders (h : Guarded c) : Guarded c.notifyReaders := by
  refine h.same rfl rfl fun t => ?_
  show ite _ _ _ = _ ∨ (ite _ _ _ : Place).writes = _ ∧ _ ∧ ite _ _ _ ≠ _ ∧ ite _ _ _ ≠ _
  by_cases ht : c.place t = .awaitsWriters false
  · rw [if_pos ht, ht]
    exact .inr ⟨rfl, nofun, nofun, nofun⟩
  · rw [if_neg ht]
    exact .inl rfl

theorem Guarded.notifyWriters (h : Guarded c) : Guarded c.notifyWriters := by
  refine h.same rfl rfl fun t => ?_
  show ite _ _ _ = _ ∨ (ite _ _ _ : Place).writes = _ ∧ _ ∧ ite _ _ _ ≠ _ ∧ ite _ _ _ ≠ _
  by_cases ht : c.place t = .awaitsReaders false
  · rw [if_pos ht, ht]
    exact .inr ⟨rfl, nofun, nofun, nofun⟩
  · rw [if_neg ht]
    exact .inl rfl

variable [DecidableEq ι]

theorem UWSConfig.goes_place (t u : ι) (p : Place) (c : UWSConfig ι) :
    (c.goes t p).place u = if u = t then p else c.place u := by
  simp only [goes, Function.update_apply]

theorem UWSConfig.goes_cases (t u : ι) (p : Place) (c : UWSConfig ι) :
    u = t ∧ (c.goes t p).place u = p ∨ u ≠ t ∧ (c.goes t p).place u = c.place u := by
  rw [goes_place]
  by_cases h : u = t
  · exact .inl ⟨h, if_pos h⟩
  · exact .inr ⟨h, if_neg h⟩

theorem readers_goes_reading (t : ι) (c : UWSConfig ι) :
    readers (c.goes t .reading) = insert t (readers c) := by
  ext u
  show (c.goes t .reading).place u = .reading ↔ u = t ∨ c.place u = .reading
  rcases c.goes_cases t u .reading with ⟨rfl, heq⟩ | ⟨hne, heq⟩ <;> rw [heq]
  · simp
  · simp [hne]

theorem readers_goes_outside (t : ι) (c : UWSConfig ι) :
    readers (c.goes t .outside) = readers c \ {t} := by
  ext u
  show (c.goes t .outside).place u = .reading ↔ c.place u = .reading ∧ u ≠ t
  rcases c.goes_cases t u .outside with ⟨rfl, heq⟩ | ⟨hne, heq⟩ <;> rw [heq]
  · simp
  · simp [hne]

/-- A thread that neither reads nor writes goes to wait, or to write. -/
theorem Guarded.goes_same (h : Guarded c) (ht : c.place t ≠ .reading) (hp : p ≠ .reading)
    (hwrites : (c.place t).writes = p.writes) (hne : p ≠ .writing) : Guarded (c.goes t p) := by
  refine h.same rfl rfl fun u => ?_
  rcases c.goes_cases t u p with ⟨rfl, heq⟩ | ⟨-, heq⟩
  · rw [heq]
    exact .inr ⟨hwrites.symm, ht, hp, hne⟩
  · exact .inl heq

/-- **A reader enters while no thread writes or is about to.** -/
theorem Guarded.enterReading (h : Guarded c)
    (ht : c.place t = .outside ∨ c.place t = .awaitsWriters true) : Guarded (c.enterReading t) := by
  have hread : c.place t ≠ .reading := by rcases ht with ht | ht <;> rw [ht] <;> nofun
  have hwrites : (c.place t).writes = false := by rcases ht with ht | ht <;> rw [ht] <;> rfl
  unfold UWSConfig.enterReading
  split
  · exact h.goes_same hread nofun hwrites nofun
  · rename_i hflag
    have hnone : ∀ u, ((c.goes t .reading).place u).writes = false := fun u => by
      rcases c.goes_cases t u .reading with ⟨-, heq⟩ | ⟨-, heq⟩ <;> rw [heq]
      · rfl
      · by_contra hw
        exact hflag (h.flagged u (by simpa using hw))
    refine ⟨?_, ?_, fun u hu => ?_, fun u v hu => ?_, fun u hu => ?_⟩
    · show (readers (c.goes t .reading)).Finite
      rw [readers_goes_reading]
      exact h.finite.insert t
    · show c.currentlyReading + 1 = (readers (c.goes t .reading)).ncard
      have hmem : t ∉ readers c := hread
      rw [readers_goes_reading, Set.ncard_insert_of_notMem hmem h.finite, h.counted]
      push_cast
      rfl
    · rw [hnone] at hu
      cases hu
    · rw [hnone] at hu
      cases hu
    · have hwriting := hnone u
      rw [hu] at hwriting
      cases hwriting

/-- A reader leaves, and there was no writer. -/
theorem Guarded.unguardReading (h : Guarded c) (ht : c.place t = .reading) :
    Guarded (c.unguardReading t) := by
  refine Guarded.notifyWriters ?_
  have hplace : ∀ u, ((c.goes t .outside).place u).writes = (c.place u).writes := fun u => by
    rcases c.goes_cases t u .outside with ⟨rfl, heq⟩ | ⟨-, heq⟩ <;> rw [heq]
    rw [ht]
    rfl
  refine ⟨?_, ?_, fun u hu => ?_, fun u v hu hv => ?_, fun u hu => ?_⟩
  · show (readers (c.goes t .outside)).Finite
    rw [readers_goes_outside]
    exact h.finite.sdiff
  · show c.currentlyReading - 1 = (readers (c.goes t .outside)).ncard
    have hmem : t ∈ readers c := ht
    have hone := Set.ncard_sdiff_singleton_add_one hmem h.finite
    rw [readers_goes_outside, h.counted]
    omega
  · exact h.flagged u (by rw [← hplace, hu])
  · exact h.single u v (by rw [← hplace, hu]) (by rw [← hplace, hv])
  · rcases c.goes_cases t u .outside with ⟨-, heq⟩ | ⟨-, heq⟩
    · have hu' : (c.goes t .outside).place u = .writing := hu
      rw [heq] at hu'
      cases hu'
    · exact absurd (heq ▸ hu : c.place u = .writing) (h.exclusive.2 t u ht)

/-- **The only thread that writes or is about to enters when no reader is
left.** -/
theorem Guarded.enterWriting (h : Guarded c) (hflag : c.currentlyWriting = true)
    (hread : c.place t ≠ .reading) (honly : ∀ u, (c.place u).writes = true → u = t) :
    Guarded (c.enterWriting t) := by
  have hgoes : ∀ p : Place, p ≠ .reading → (p = .writing → c.currentlyReading = 0) →
      Guarded (c.goes t p) := fun p hp hzero => by
    have hreaders : readers (c.goes t p) = readers c := by
      ext u
      show (c.goes t p).place u = .reading ↔ c.place u = .reading
      rcases c.goes_cases t u p with ⟨rfl, heq⟩ | ⟨-, heq⟩ <;> rw [heq]
      exact ⟨fun h => absurd h hp, fun h => absurd h hread⟩
    have honly' : ∀ u, ((c.goes t p).place u).writes = true → u = t := fun u hu => by
      rcases c.goes_cases t u p with ⟨rfl, -⟩ | ⟨-, heq⟩
      · rfl
      · exact honly u (by rw [← heq, hu])
    refine ⟨by rw [hreaders]; exact h.finite, ?_, fun _ _ => hflag,
      fun u v hu hv => (honly' u hu).trans (honly' v hv).symm, fun u hu => ?_⟩
    · rw [hreaders]
      exact h.counted
    · rcases c.goes_cases t u p with ⟨-, heq⟩ | ⟨-, heq⟩
      · exact hzero (heq ▸ hu)
      · exact h.alone u (heq ▸ hu)
  unfold UWSConfig.enterWriting
  split
  · exact hgoes _ nofun nofun
  · rename_i hpos
    refine hgoes _ nofun fun _ => ?_
    have hcounted := h.counted
    omega

/-- A writer comes and finds none. -/
theorem Guarded.guardWriting (h : Guarded c) (ht : c.place t = .outside)
    (hflag : c.currentlyWriting = false) : Guarded (c.guardWriting t) := by
  have hset : Guarded { c with currentlyWriting := true } :=
    ⟨h.finite, h.counted, fun _ _ => rfl, h.single, h.alone⟩
  refine hset.enterWriting rfl (by show c.place t ≠ _; rw [ht]; nofun) fun u hu => ?_
  have hset' := h.flagged u hu
  rw [hflag] at hset'
  cases hset'

/-- **The writer leaves, and there is no other.** -/
theorem Guarded.unguardWriting (h : Guarded c) (ht : c.place t = .writing) :
    Guarded (c.unguardWriting t) := by
  refine Guarded.notifyReaders ?_
  have hnone : ∀ u, ((c.goes t .outside).place u).writes = false := fun u => by
    rcases c.goes_cases t u .outside with ⟨-, heq⟩ | ⟨hne, heq⟩ <;> rw [heq]
    · rfl
    · by_contra hw
      exact hne (h.single u t (by simpa using hw) (by rw [ht]; rfl))
  have hreaders : readers (c.goes t .outside) = readers c := by
    have hmem : t ∉ readers c := fun hr => by cases hr.symm.trans ht
    rw [readers_goes_outside, Set.sdiff_singleton_eq_self hmem]
  refine ⟨?_, ?_, fun u hu => ?_, fun u v hu => ?_, fun u hu => ?_⟩
  · show (readers (c.goes t .outside)).Finite
    rw [hreaders]
    exact h.finite
  · show c.currentlyReading = (readers (c.goes t .outside)).ncard
    rw [hreaders, h.counted]
  · rw [hnone] at hu
    cases hu
  · rw [hnone] at hu
    cases hu
  · exact h.alone t ht

/-- **Every step keeps the invariant**, a writer's arrival when it finds the
flag clear. -/
theorem Guarded.step (h : Guarded c) {a : ι × Op} (hfinds : FindsNoWriter c a)
    (hstep : guardStep a c = some d) : Guarded d := by
  unfold guardStep at hstep
  split at hstep
  all_goals cases hstep
  all_goals rename_i hop ht
  · exact h.enterReading (.inl ht)
  · exact h.unguardReading ht
  · exact h.guardWriting ht (hfinds hop)
  · exact h.unguardWriting ht
  · exact h.enterReading (.inr ht)
  · have hwrites : (c.place a.1).writes = true := by rw [ht]; rfl
    exact h.enterWriting (h.flagged a.1 hwrites) (by rw [ht]; nofun)
      fun u hu => h.single u a.1 hu hwrites

/-- **The guards exclude**, for any threads in any order, in every run in
which each `guardWriting` finds no writer that writes or waits. -/
theorem guards_exclude (h : Reach.Run guardStep FindsNoWriter UWSConfig.init c) : Exclusive c := by
  have hguarded := h.invariant Guarded.init fun _ _ _ _ hc hfinds hstep => hc.step hfinds hstep
  exact hguarded.exclusive

/-- A writer waits for a reader, is notified and writes, while another
reader waits for it. -/
theorem guards_exclude_waiting :
    ∃ c : UWSConfig (Fin 3), Reach.Run guardStep FindsNoWriter UWSConfig.init c ∧
      c.place 1 = .writing ∧ c.place 2 = .awaitsWriters false ∧ Exclusive c := by
  have hrun : (Reach.replay guardStep (fun c a => decide (FindsNoWriter c a))
      [(0, .guardReading), (1, .guardWriting), (2, .guardReading), (0, .unguardReading),
        (1, .wakes)] (UWSConfig.init : UWSConfig (Fin 3))).any
      (fun c => c.place 1 = .writing ∧ c.place 2 = .awaitsWriters false) = true := by
    decide
  have hreach := Reach.exists_of_replay (A := FindsNoWriter) (fun _ _ => of_decide_eq_true) _ _ _
    hrun
  obtain ⟨c, hc, hp⟩ := hreach
  obtain ⟨hwriting, hwaits⟩ := of_decide_eq_true hp
  exact ⟨c, hc, hwriting, hwaits, guards_exclude hc⟩

/-- **Without that the guards exclude nobody.** Two threads find the file
changed, and both get past `guardWriting`. -/
theorem guards_exclude_fails :
    ¬ ∀ c : UWSConfig (Fin 2), Reach.Run guardStep (fun _ _ => True) UWSConfig.init c →
      Exclusive c := by
  intro hall
  have hrun : (Reach.replay guardStep (fun _ _ => true)
      [(0, .guardWriting), (1, .guardWriting)] (UWSConfig.init : UWSConfig (Fin 2))).any
      (fun c => c.place 0 = .writing ∧ c.place 1 = .writing) = true := by
    decide
  have hreach := Reach.exists_of_replay (A := fun _ _ => True) (fun _ _ _ => trivial) _ _ _ hrun
  obtain ⟨c, hc, hp⟩ := hreach
  obtain ⟨hfirst, hsecond⟩ := of_decide_eq_true hp
  cases (hall c hc).1 0 1 hfirst hsecond

end Presence

end Realraum
