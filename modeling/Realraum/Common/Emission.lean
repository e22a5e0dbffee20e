import Mathlib.Logic.Function.Iterate
import Mathlib.Data.List.Basic
/-!
# What a machine shows as it is stepped

A machine shows something before each of its steps, or after it, as long as
it runs. What it shows on the way from one state to another is a word, and
words compose: a machine that counts shows the words of its rounds one after
the other.
-/

namespace Realraum

namespace Emission

variable {σ α : Type*} {step : σ → σ} {out : σ → α} {runs : σ → Prop}

/-- **The machine shows this word** between two states: it runs before
every step, and shows one symbol after it. -/
inductive Emits (step : σ → σ) (out : σ → α) (runs : σ → Prop) : σ → List α → σ → Prop
  | nil (s : σ) : Emits step out runs s [] s
  | cons {s t : σ} {w : List α} (hruns : runs s) (h : Emits step out runs (step s) w t) :
      Emits step out runs s (out (step s) :: w) t

variable {s t u : σ} {w v : List α}

/-! ## Showing before a step, and after it -/

/-- **The machine plays this word** between two states: it runs before
every step, and shows one symbol before it. -/
inductive Plays (step : σ → σ) (out : σ → α) (runs : σ → Prop) : σ → List α → σ → Prop
  | nil (s : σ) : Plays step out runs s [] s
  | cons {s t : σ} {w : List α} (hruns : runs s) (h : Plays step out runs (step s) w t) :
      Plays step out runs s (out s :: w) t

theorem Plays.trans (h : Plays step out runs s w t) (h' : Plays step out runs t v u) :
    Plays step out runs s (w ++ v) u := by
  induction h with
  | nil s => exact h'
  | cons hruns h ih => exact .cons hruns (ih h')

/-- **The word is read off the iterates of the step.** -/
theorem Plays.eq_iterate (h : Plays step out runs s w t) :
    t = step^[w.length] s ∧ w = (List.range w.length).map (fun k => out (step^[k] s)) ∧
      ∀ k < w.length, runs (step^[k] s) := by
  induction h with
  | nil s => exact ⟨rfl, rfl, fun k hk => absurd hk (Nat.not_lt_zero k)⟩
  | @cons s t w hruns h ih =>
      obtain ⟨hend, hword, hbefore⟩ := ih
      refine ⟨hend, ?_, fun k hk => ?_⟩
      · rw [List.length_cons, List.range_succ_eq_map, List.map_cons, List.map_map]
        congr 1
      · cases k with
        | zero => exact hruns
        | succ k => exact hbefore k (Nat.lt_of_succ_lt_succ hk)

/-- What is shown after a step is shown before it by the machine that looks
ahead. -/
theorem emits_iff_plays :
    Emits step out runs s w t ↔ Plays step (fun s => out (step s)) runs s w t := by
  constructor
  · intro h
    induction h with
    | nil s => exact .nil s
    | cons hruns h ih => exact .cons hruns ih
  · intro h
    induction h with
    | nil s => exact .nil s
    | cons hruns h ih => exact .cons hruns ih

theorem Emits.trans (h : Emits step out runs s w t) (h' : Emits step out runs t v u) :
    Emits step out runs s (w ++ v) u :=
  emits_iff_plays.mpr ((emits_iff_plays.mp h).trans (emits_iff_plays.mp h'))

/-- One step. -/
theorem Emits.single (hruns : runs s) (hstep : step s = t) :
    Emits step out runs s [out t] t := by
  subst hstep
  exact .cons hruns (.nil _)

/-- The word of the iterates behind the first. -/
theorem Emits.eq_iterate (h : Emits step out runs s w t) :
    t = step^[w.length] s ∧ w = (List.range w.length).map (fun k => out (step^[k + 1] s)) ∧
      ∀ k < w.length, runs (step^[k] s) := by
  obtain ⟨hend, hword, hbefore⟩ := (emits_iff_plays.mp h).eq_iterate
  refine ⟨hend, hword.trans (List.map_congr_left fun k _ => ?_), hbefore⟩
  rw [Function.iterate_succ_apply']

/-! ## Counting up -/

/-- **A count plays the words of its rounds**, the first number first. -/
theorem Plays.countup {f : ℕ → σ} {w : ℕ → List α} {n : ℕ}
    (h : ∀ k < n, Plays step out runs (f k) (w k) (f (k + 1))) :
    Plays step out runs (f 0) ((List.range n).flatMap w) (f n) := by
  induction n with
  | zero => exact .nil _
  | succ n ih =>
      rw [List.range_succ, List.flatMap_append, List.flatMap_singleton]
      exact (ih fun k hk => h k (Nat.lt_succ_of_lt hk)).trans (h n (Nat.lt_succ_self n))

/-- Rounds that all take as long as this word. -/
theorem Plays.iterate_rounds {f : ℕ → σ} {n i : ℕ}
    (h : ∀ i < n, Plays step out runs (f i) w (f (i + 1))) (hi : i ≤ n) :
    step^[i * w.length] (f 0) = f i := by
  induction i with
  | zero => rw [Nat.zero_mul, Function.iterate_zero_apply]
  | succ i ih =>
      rw [Nat.succ_mul, Nat.add_comm, Function.iterate_add_apply, ih (Nat.le_of_succ_le hi)]
      exact (h i hi).eq_iterate.1.symm

/-- **Every round of a machine that plays the same word over and over** plays
it. -/
theorem Plays.rounds {f : ℕ → σ} {n i : ℕ}
    (h : ∀ i < n, Plays step out runs (f i) w (f (i + 1))) (hi : i < n) :
    (List.range w.length).map (fun k => out (step^[i * w.length + k] (f 0))) = w ∧
      ∀ k < w.length, runs (step^[i * w.length + k] (f 0)) := by
  have hadd : ∀ k, step^[i * w.length + k] (f 0) = step^[k] (f i) := by
    intro k
    rw [Nat.add_comm, Function.iterate_add_apply, Plays.iterate_rounds h (Nat.le_of_lt hi)]
  obtain ⟨-, hword, hruns⟩ := (h i hi).eq_iterate
  simp only [hadd]
  exact ⟨hword.symm, hruns⟩

/-- Steps that are all taken at the same symbol. -/
theorem Plays.held {f : ℕ → σ} {n : ℕ} {a : α}
    (h : ∀ k < n, runs (f k) ∧ step (f k) = f (k + 1) ∧ out (f k) = a) :
    Plays step out runs (f 0) (List.replicate n a) (f n) := by
  have hrounds : Plays step out runs (f 0) ((List.range n).flatMap fun _ => [a]) (f n) := by
    refine Plays.countup fun k hk => ?_
    obtain ⟨hruns, hstep, hout⟩ := h k hk
    rw [← hout, ← hstep]
    exact .cons hruns (.nil _)
  rwa [List.flatMap_def, List.map_const', List.length_range,
    List.flatten_replicate_singleton] at hrounds

/-- Every round, for the symbols behind the steps. -/
theorem Emits.rounds {f : ℕ → σ} {n i : ℕ}
    (h : ∀ i < n, Emits step out runs (f i) w (f (i + 1))) (hi : i < n) :
    step^[i * w.length] (f 0) = f i ∧
      (List.range w.length).map (fun k => out (step^[i * w.length + (k + 1)] (f 0))) = w ∧
      ∀ k < w.length, runs (step^[i * w.length + k] (f 0)) := by
  have hplays : ∀ i < n, Plays step (fun s => out (step s)) runs (f i) w (f (i + 1)) :=
    fun i hi => emits_iff_plays.mp (h i hi)
  obtain ⟨hword, hruns⟩ := Plays.rounds hplays hi
  refine ⟨Plays.iterate_rounds hplays (Nat.le_of_lt hi), ?_, hruns⟩
  refine (List.map_congr_left fun k _ => ?_).trans hword
  rw [← Nat.add_assoc, Function.iterate_succ_apply']

/-! ## Counting down -/

/-- **A countdown shows the words of its rounds**, the last number first. -/
theorem Emits.countdown {f : ℕ → σ} {w : ℕ → List α} {n : ℕ}
    (h : ∀ k < n, Emits step out runs (f (k + 1)) (w k) (f k)) :
    Emits step out runs (f n) ((List.range n).reverse.flatMap w) (f 0) := by
  induction n with
  | zero => exact .nil _
  | succ n ih =>
      rw [List.range_succ, List.reverse_append, List.reverse_singleton, List.singleton_append,
        List.flatMap_cons]
      exact (h n (Nat.lt_succ_self n)).trans (ih fun k hk => h k (Nat.lt_succ_of_lt hk))

/-- Rounds that all show the same word. -/
theorem Emits.repeated {f : ℕ → σ} {n : ℕ}
    (h : ∀ k < n, Emits step out runs (f (k + 1)) w (f k)) :
    Emits step out runs (f n) (List.replicate n w).flatten (f 0) := by
  have hrounds := Emits.countdown (w := fun _ => w) h
  rwa [List.flatMap_def, List.map_const', List.length_reverse, List.length_range] at hrounds

/-- Rounds of a single step that all show the same symbol. -/
theorem Emits.held {f : ℕ → σ} {n : ℕ} {a : α}
    (h : ∀ k < n, runs (f (k + 1)) ∧ step (f (k + 1)) = f k ∧ out (f k) = a) :
    Emits step out runs (f n) (List.replicate n a) (f 0) := by
  have hrounds : Emits step out runs (f n) (List.replicate n [a]).flatten (f 0) := by
    refine Emits.repeated fun k hk => ?_
    obtain ⟨hruns, hstep, hout⟩ := h k hk
    rw [← hout]
    exact .single hruns hstep
  rwa [List.flatten_replicate_singleton] at hrounds

end Emission

end Realraum
