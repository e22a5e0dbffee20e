import Mathlib.Logic.Function.Basic
import Mathlib.Logic.Relation
/-!
# Bodies of a loop with `continue` and `break`

The body of a C loop is a chain of pieces, and a piece ends in one of
four ways: control goes on to the next piece, back to the head of the
loop, out of the loop, or nowhere, because a loop inside it does not end.
`Flow` is that outcome and `Flow.bind` the chain; `Sat` is the partial
correctness judgement the proofs about such bodies are made of.
-/

namespace Realraum

variable {σ : Type*}

/-- Where control is after a piece of a loop body, and in which state. -/
inductive Flow (σ : Type*)
  /-- On to the next piece. -/
  | next (s : σ)
  /-- `continue`. -/
  | again (s : σ)
  /-- `break`. -/
  | leave (s : σ)
  /-- The piece does not end. -/
  | hang

namespace Flow

/-- The chain of two pieces: the second runs only where the first goes
on. -/
def bind : Flow σ → (σ → Flow σ) → Flow σ
  | next s, k => k s
  | again s, _ => again s
  | leave s, _ => leave s
  | hang, _ => hang

/-- The state an iteration ends in, whichever way it ends. -/
def result : Flow σ → Option σ
  | next s | again s | leave s => some s
  | hang => none

/-- Whether control goes on to the next piece, in a state that passes a
check. -/
def nextAny (f : Flow σ) (p : σ → Bool) : Bool :=
  match f with
  | next s => p s
  | _ => false

/-- **What a piece ends in**: `Q` where control goes on, `R` where the
iteration is over. A piece that hangs satisfies anything. -/
def Sat (f : Flow σ) (Q R : σ → Prop) : Prop :=
  match f with
  | next s => Q s
  | again s | leave s => R s
  | hang => True

instance (f : Flow σ) (Q R : σ → Prop) [DecidablePred Q] [DecidablePred R] :
    Decidable (f.Sat Q R) :=
  match f with
  | next s => inferInstanceAs (Decidable (Q s))
  | again s | leave s => inferInstanceAs (Decidable (R s))
  | hang => inferInstanceAs (Decidable True)

variable {f : Flow σ} {g : σ → Flow σ} {Q Q' R R' : σ → Prop}

@[simp] theorem bind_next (s : σ) (k : σ → Flow σ) : (next s).bind k = k s := rfl

@[simp] theorem bind_again (s : σ) (k : σ → Flow σ) : (again s).bind k = again s := rfl

@[simp] theorem bind_leave (s : σ) (k : σ → Flow σ) : (leave s).bind k = leave s := rfl

@[simp] theorem result_next (s : σ) : (next s).result = some s := rfl

@[simp] theorem result_again (s : σ) : (again s).result = some s := rfl

@[simp] theorem result_leave (s : σ) : (leave s).result = some s := rfl

@[simp] theorem result_hang : (hang : Flow σ).result = none := rfl

@[simp] theorem sat_next {s : σ} : (next s).Sat Q R ↔ Q s := Iff.rfl

@[simp] theorem sat_again {s : σ} : (again s).Sat Q R ↔ R s := Iff.rfl

@[simp] theorem sat_leave {s : σ} : (leave s).Sat Q R ↔ R s := Iff.rfl

@[simp] theorem sat_hang : (hang : Flow σ).Sat Q R := trivial

theorem exists_of_nextAny {p : σ → Bool} (h : f.nextAny p = true) :
    ∃ s, f = next s ∧ p s = true := by
  cases f with
  | next s => exact ⟨s, rfl, h⟩
  | again s => cases h
  | leave s => cases h
  | hang => cases h

/-- **The rule of consequence.** -/
theorem Sat.imp (h : f.Sat Q R) (hQ : ∀ s, Q s → Q' s) (hR : ∀ s, R s → R' s) :
    f.Sat Q' R' := by
  cases f with
  | next s => exact hQ s h
  | again s => exact hR s h
  | leave s => exact hR s h
  | hang => trivial

/-- **The rule of conjunction.** -/
theorem Sat.and (h : f.Sat Q R) (h' : f.Sat Q' R') :
    f.Sat (fun s => Q s ∧ Q' s) fun s => R s ∧ R' s := by
  cases f with
  | next s => exact ⟨h, h'⟩
  | again s => exact ⟨h, h'⟩
  | leave s => exact ⟨h, h'⟩
  | hang => trivial

/-- **The rule of composition.** -/
theorem Sat.bind (hf : f.Sat Q R) (hg : ∀ s, Q s → (g s).Sat Q' R) : (f.bind g).Sat Q' R := by
  cases f with
  | next s => exact hg s hf
  | again s => exact hf
  | leave s => exact hf
  | hang => trivial

/-- A piece that goes on is at hand where it goes on. -/
theorem Sat.self (h : f.Sat Q R) : f.Sat (fun s => Q s ∧ f = next s) R := by
  cases f with
  | next s => exact ⟨h, rfl⟩
  | again s => exact h
  | leave s => exact h
  | hang => trivial

/-- What holds of every way out holds of the state the iteration ends
in. -/
theorem Sat.result {t : σ} (h : f.Sat R R) (ht : f.result = some t) : R t := by
  cases f with
  | next s => cases ht; exact h
  | again s => cases ht; exact h
  | leave s => cases ht; exact h
  | hang => cases ht

end Flow

end Realraum
