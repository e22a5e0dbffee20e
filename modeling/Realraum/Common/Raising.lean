import Mathlib.Logic.Basic
/-!
# Programs that may raise

A program over a state that may raise an exception is `EStateM`: the state
is kept where it raises, so what was done before stays done. The rules here
say when a program made of two ends without raising, and in which state.
-/

namespace Realraum

namespace Raising

universe w

variable {ε σ α β : Type w} {m : EStateM ε σ α} {k : α → EStateM ε σ β} {s t u : σ} {a : α} {b : β}

/-- The value, if there is one, or the exception. -/
def orRaise (e : ε) : Option α → EStateM ε σ α
  | some a => pure a
  | none => throw e

theorem run_orRaise_eq_ok {e : ε} {o : Option α} :
    (orRaise e o).run s = .ok a t ↔ o = some a ∧ s = t := by
  cases o with
  | none => exact iff_of_false nofun fun h => nomatch h.1
  | some c =>
      constructor
      · intro h
        cases h
        exact ⟨rfl, rfl⟩
      · rintro ⟨h, rfl⟩
        cases h
        rfl

/-- The value, or the exception there is instead. -/
def fromExcept : Except ε α → EStateM ε σ α
  | .ok a => pure a
  | .error e => throw e

theorem run_fromExcept_ok {x : Except ε α} (h : x = .ok a) (s : σ) :
    (fromExcept x).run s = .ok a s := by
  rw [h]
  rfl

theorem run_fromExcept_error {x : Except ε α} {e : ε} (h : x = .error e) (s : σ) :
    (fromExcept x).run s = .error e s := by
  rw [h]
  rfl

/-- The state at the end, whether it returns or raises. -/
def state : EStateM.Result ε σ α → σ
  | .ok _ s => s
  | .error _ s => s

theorem ok_ne_error (a : α) (e : ε) : (.ok a : Except ε α) ≠ .error e := by
  intro h
  cases h

theorem error_ne_error {e e' : ε} (hne : e ≠ e') : (.error e : Except ε α) ≠ .error e' :=
  fun h => hne (Except.error.inj h)

/-- **What is raised is raised by a part.** -/
theorem bind_ne_error {x : Except ε α} {f : α → Except ε β} {e : ε} (hx : x ≠ .error e)
    (hf : ∀ a, f a ≠ .error e) : x >>= f ≠ .error e := by
  cases x with
  | error e' => exact fun h => hx (by cases h; rfl)
  | ok a => exact hf a

theorem bind_eq_ok {x : Except ε α} {f : α → Except ε β} :
    x >>= f = .ok b ↔ ∃ a, x = .ok a ∧ f a = .ok b := by
  cases x with
  | error e => exact iff_of_false nofun fun ⟨_, h, _⟩ => nomatch h
  | ok a =>
      constructor
      · exact fun h => ⟨a, rfl, h⟩
      · rintro ⟨_, h, hf⟩
        cases h
        exact hf

/-! ## One program after another -/

theorem run_bind_of_ok (h : m.run s = .ok a t) : (m >>= k).run s = (k a).run t := by
  rw [EStateM.run_bind, h]

/-- What follows an exception is not run. -/
theorem run_bind_of_error {e : ε} (h : m.run s = .error e t) :
    (m >>= k).run s = .error e t := by
  rw [EStateM.run_bind, h]

/-- **Two programs end without raising exactly if both do.** -/
theorem run_bind_eq_ok :
    (m >>= k).run s = .ok b u ↔ ∃ a t, m.run s = .ok a t ∧ (k a).run t = .ok b u := by
  cases hm : m.run s with
  | error e t =>
      rw [run_bind_of_error hm]
      exact iff_of_false nofun fun ⟨_, _, h, _⟩ => nomatch h
  | ok a t =>
      rw [run_bind_of_ok hm]
      constructor
      · exact fun h => ⟨a, t, rfl, h⟩
      · rintro ⟨c, v, h, hk⟩
        cases h
        exact hk

/-! ## The states a program leads to -/

/-- **The program moves within a relation**, whether it returns or raises. -/
def Within (R : σ → σ → Prop) (m : EStateM ε σ α) : Prop := ∀ s, R s (state (m.run s))

variable {R : σ → σ → Prop}

theorem within_pure (hrefl : ∀ s, R s s) (a : α) : Within R (pure a : EStateM ε σ α) :=
  fun s => hrefl s

theorem within_orRaise (hrefl : ∀ s, R s s) (e : ε) (o : Option α) :
    Within R (orRaise e o : EStateM ε σ α) := by
  intro s
  cases o with
  | none => exact hrefl s
  | some a => exact hrefl s

theorem Within.bind (htrans : ∀ {s t u}, R s t → R t u → R s u) (hm : Within R m)
    (hk : ∀ a, Within R (k a)) : Within R (m >>= k) := by
  intro s
  have hstart := hm s
  cases hrun : m.run s with
  | ok a t =>
      rw [hrun] at hstart
      rw [run_bind_of_ok hrun]
      exact htrans hstart (hk a t)
  | error e t =>
      rw [hrun] at hstart
      rw [run_bind_of_error hrun]
      exact hstart

end Raising

end Realraum
