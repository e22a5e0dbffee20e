import Mathlib.Data.List.Basic
import Mathlib.Logic.Relation
/-!
# Runs of a partial step function

A machine is a step function `ι → σ → Option σ`: an input, a state, and
the state the step ends in, or nothing when the step does not end. A run
is guarded by an assumption on each step's state and input, which is how
"in every run whose steps all meet the condition" is said. The invariant
rules below are the only inductions over runs the development makes.
-/

namespace Realraum

namespace Reach

variable {σ ι : Type*} {step : ι → σ → Option σ} {A : σ → ι → Prop}

/-- **One step of a guarded run.** -/
def Step (step : ι → σ → Option σ) (A : σ → ι → Prop) (s t : σ) : Prop :=
  ∃ i, A s i ∧ step i s = some t

/-- **A guarded run**: any number of steps, each of which meets `A`. -/
abbrev Run (step : ι → σ → Option σ) (A : σ → ι → Prop) : σ → σ → Prop :=
  Relation.ReflTransGen (Step step A)

/-- A run under one assumption is one under a weaker. -/
theorem Run.weaken {B : σ → ι → Prop} {s t : σ} (r : Run step A s t)
    (h : ∀ s i, A s i → B s i) : Run step B s t :=
  Relation.ReflTransGen.mono (fun _ _ ⟨i, hA, ht⟩ => ⟨i, h _ i hA, ht⟩) _ _ r

/-- **The invariant rule.** What holds at the start and survives every
step of a run holds at its end. The step may use that its state was
reached. -/
theorem Run.invariant {I : σ → Prop} {s₀ t : σ} (r : Run step A s₀ t) (h₀ : I s₀)
    (hstep : ∀ s i t, Run step A s₀ s → I s → A s i → step i s = some t → I t) : I t := by
  induction r with
  | refl => exact h₀
  | tail hr hs ih =>
      obtain ⟨i, hA, ht⟩ := hs
      exact hstep _ i _ hr ih hA ht

/-! ## Replaying a list of inputs -/

/-- The run a list of inputs makes, checking each step with `ok`. -/
def replay (step : ι → σ → Option σ) (ok : σ → ι → Bool) : List ι → σ → Option σ
  | [], s => some s
  | i :: is, s => if ok s i then (step i s).bind (replay step ok is) else none

/-- A replay that ends is a run. -/
theorem run_of_replay {ok : σ → ι → Bool} (hok : ∀ s i, ok s i = true → A s i) :
    ∀ (is : List ι) (s t : σ), replay step ok is s = some t → Run step A s t := by
  intro is
  induction is with
  | nil =>
      intro s t h
      cases h
      exact .refl
  | cons i is ih =>
      intro s t h
      simp only [replay] at h
      split at h
      · rename_i hi
        obtain ⟨u, hu, hrest⟩ := Option.bind_eq_some_iff.mp h
        exact .head ⟨i, hok s i hi, hu⟩ (ih u t hrest)
      · cases h

/-- **A replay exhibits a reached state**: one check of the replayed end
gives a run to a state that passes it. -/
theorem exists_of_replay {ok : σ → ι → Bool} (hok : ∀ s i, ok s i = true → A s i)
    (is : List ι) (s : σ) (p : σ → Bool)
    (h : (replay step ok is s).any p = true) : ∃ t, Run step A s t ∧ p t = true := by
  cases hr : replay step ok is s with
  | none => rw [hr] at h; cases h
  | some t =>
      rw [hr] at h
      exact ⟨t, run_of_replay hok is s t hr, h⟩

/-- **The invariant rule of a replay**, whose invariant may speak of the
inputs so far. -/
theorem replay_invariant {ok : σ → ι → Bool} {I : List ι → σ → Prop}
    (hstep : ∀ past s i t, I past s → ok s i = true → step i s = some t → I (past ++ [i]) t) :
    ∀ (is past : List ι) (s t : σ), I past s → replay step ok is s = some t →
      I (past ++ is) t := by
  intro is
  induction is with
  | nil =>
      intro past s t hI h
      cases h
      rwa [List.append_nil]
  | cons i is ih =>
      intro past s t hI h
      simp only [replay] at h
      split at h
      · rename_i hi
        obtain ⟨u, hu, hrest⟩ := Option.bind_eq_some_iff.mp h
        rw [List.append_cons]
        exact ih _ u t (hstep past s i u hI hi hu) hrest
      · cases h

/-! ## Draining a source

A source is asked again and again, and each answer leaves it in another
state. A loop over it is an induction on how it drains. -/

section Drain

variable {α : Type*} {next : σ → Option α × σ} {l : List α}

/-- **The source gives out these entries**, and then says that there is none. -/
inductive Drains (next : σ → Option α × σ) : List α → σ → Prop where
  | done {s : σ} (h : (next s).1 = none) : Drains next [] s
  | more {s : σ} {a : α} {l : List α} (h : (next s).1 = some a) (rest : Drains next l (next s).2) :
      Drains next (a :: l) s

/-- **A source that keeps its place in a list** drains to what is left of it. -/
theorem Drains.of_behind {Behind : ℕ → σ → Prop}
    (h : ∀ k s, Behind k s → (next s).1 = l[k]? ∧ (k < l.length → Behind (k + 1) (next s).2)) :
    ∀ k s, Behind k s → Drains next (l.drop k) s := by
  intro k s hk
  rcases Nat.lt_or_ge k l.length with hlt | hge
  · obtain ⟨hnext, hbehind⟩ := h k s hk
    rw [List.drop_eq_getElem_cons hlt]
    exact .more (hnext.trans (List.getElem?_eq_getElem hlt))
      (of_behind h (k + 1) _ (hbehind hlt))
  · rw [List.drop_eq_nil_of_le hge]
    exact .done ((h k s hk).1.trans (List.getElem?_eq_none hge))
termination_by k => l.length - k

end Drain

end Reach

end Realraum
