import Mathlib.Data.List.Basic
import Mathlib.Algebra.BigOperators.Group.List.Basic
import Mathlib.Algebra.GroupWithZero.Nat
import Mathlib.Data.List.Forall2
/-!
# Sampling a wave

A wave is on one level after the other, each for some time, and then rests.
Sampled at a steady rate, with any phase, it shows each level in a number of
samples that is off from its time by less than one period. What a sampler
can tell is where the level changes: stretches of one level behind each
other are one, and those on the resting level at the end are none.
-/

namespace Realraum

namespace Sampling

variable {α : Type*} {rest a : α} {w : List (α × ℕ)} {P φ d n t : ℕ}

/-! ## Waves -/

/-- The level at a time. -/
def levelAt (rest : α) : List (α × ℕ) → ℕ → α
  | [], _ => rest
  | (a, d) :: w, t => if t < d then a else levelAt rest w (t - d)

@[simp] theorem levelAt_nil : levelAt rest [] t = rest := rfl

theorem levelAt_cons :
    levelAt rest ((a, d) :: w) t = if t < d then a else levelAt rest w (t - d) := rfl

/-- How long it is until the wave rests. -/
def duration (w : List (α × ℕ)) : ℕ := (w.map Prod.snd).sum

/-- **The samples** of a wave with a phase. -/
def samples (P : ℕ) (rest : α) (w : List (α × ℕ)) (φ n : ℕ) : List α :=
  (List.range n).map fun k => levelAt rest w (φ + P * k)

@[simp] theorem samples_nil : samples P rest [] φ n = List.replicate n rest := by
  simp [samples, levelAt, List.map_const']

/-- The samples in the first `d` of the time. -/
def ticks (P φ d : ℕ) : ℕ := (d + P - 1 - φ) / P

/-- The phase behind them. -/
def nextPhase (P φ d : ℕ) : ℕ := φ + P * ticks P φ d - d

theorem mul_ticks_lt (hP : 0 < P) : P * ticks P φ d < d + P := by
  have h := Nat.mul_div_le (d + P - 1 - φ) P
  rw [ticks]
  omega

theorem le_add_mul_ticks (hP : 0 < P) : d ≤ φ + P * ticks P φ d := by
  have h := Nat.lt_mul_div_succ (d + P - 1 - φ) hP
  rw [Nat.mul_succ] at h
  rw [ticks]
  omega

theorem lt_mul_ticks_succ (hφ : φ < P) : d < P * (ticks P φ d + 1) := by
  have h : d ≤ φ + P * ticks P φ d := le_add_mul_ticks (Nat.zero_lt_of_lt hφ)
  rw [Nat.mul_succ]
  omega

theorem nextPhase_lt (hφ : φ < P) : nextPhase P φ d < P := by
  have h := Nat.mul_div_le (d + P - 1 - φ) P
  rw [nextPhase, ticks]
  omega

/-- **A stretch is sampled** for as long as it lasts, and then the rest of
the wave is. -/
theorem samples_cons (hφ : φ < P) (hn : ticks P φ d ≤ n) :
    samples P rest ((a, d) :: w) φ n =
      List.replicate (ticks P φ d) a ++
        samples P rest w (nextPhase P φ d) (n - ticks P φ d) := by
  have hP := Nat.zero_lt_of_lt hφ
  obtain ⟨m, rfl⟩ := Nat.exists_eq_add_of_le hn
  rw [samples, List.range_add, List.map_append, List.map_map, Nat.add_sub_cancel_left]
  congr 1
  · refine List.eq_replicate_iff.mpr ⟨by simp, fun x hx => ?_⟩
    obtain ⟨k, hk, rfl⟩ := List.mem_map.mp hx
    have hsucc : P * (k + 1) ≤ P * ticks P φ d :=
      Nat.mul_le_mul_left P (List.mem_range.mp hk)
    have h := Nat.mul_div_le (d + P - 1 - φ) P
    rw [ticks, Nat.mul_succ] at hsucc
    rw [levelAt, if_pos (by omega)]
  · refine List.map_congr_left fun k _ => ?_
    have h : d ≤ φ + P * ticks P φ d := le_add_mul_ticks hP
    rw [Function.comp_apply, levelAt, if_neg (by rw [Nat.mul_add]; omega), nextPhase, Nat.mul_add]
    congr 1
    omega

/-- **The count of samples is off by less than one.** -/
def Counted (P : ℕ) (x : α × ℕ) (c : ℕ) : Prop := x.2 < P * (c + 1) ∧ P * c < x.2 + P

/-- The stretches in samples. -/
def spread (w : List (α × ℕ)) : List α := w.flatMap fun x => List.replicate x.2 x.1

@[simp] theorem spread_cons (x : α × ℕ) (w : List (α × ℕ)) :
    spread (x :: w) = List.replicate x.2 x.1 ++ spread w := rfl

@[simp] theorem duration_cons (x : α × ℕ) (w : List (α × ℕ)) :
    duration (x :: w) = x.2 + duration w := rfl

/-- **The samples of a wave**: those of its stretches, and then the resting
level for all that are left. -/
theorem exists_samples_eq (rest : α) (hφ : φ < P) (h : duration w ≤ φ + P * n) :
    ∃ cs, List.Forall₂ (Counted P) w cs ∧ φ + P * cs.sum < duration w + P ∧
      samples P rest w φ n =
        spread (List.zip (w.map Prod.fst) cs) ++ List.replicate (n - cs.sum) rest := by
  have hP := Nat.zero_lt_of_lt hφ
  induction w generalizing φ n with
  | nil => exact ⟨[], .nil, by simpa [duration] using hφ, by simp [spread]⟩
  | cons x w ih =>
      obtain ⟨a, d⟩ := x
      rw [duration_cons] at h
      have hlt : P * ticks P φ d < d + P := mul_ticks_lt hP
      have hle : d ≤ φ + P * ticks P φ d := le_add_mul_ticks hP
      have hdef : nextPhase P φ d = φ + P * ticks P φ d - d := rfl
      have hn : ticks P φ d ≤ n := by
        have hmul := Nat.mul_div_le (d + P - 1 - φ) P
        refine Nat.le_of_lt_succ (Nat.lt_of_mul_lt_mul_left (a := P) ?_)
        rw [Nat.mul_succ]
        rw [ticks]
        omega
      obtain ⟨m, rfl⟩ := Nat.exists_eq_add_of_le hn
      rw [Nat.mul_add] at h
      obtain ⟨cs, hcs, hsum, heq⟩ := ih (nextPhase_lt (d := d) hφ) (n := m) (by omega)
      refine ⟨ticks P φ d :: cs, .cons ⟨lt_mul_ticks_succ hφ, hlt⟩ hcs, ?_, ?_⟩
      · rw [List.sum_cons, Nat.mul_add, duration_cons]
        omega
      · rw [samples_cons hφ hn, Nat.add_sub_cancel_left, heq, List.sum_cons, Nat.add_sub_add_left,
          ← List.append_assoc]
        rfl

/-! ## What a sampler can tell -/

section Condense

variable [DecidableEq α]

/-- A stretch in front of a wave, with what is no change of the level left out. -/
def push (rest : α) (x : α × ℕ) : List (α × ℕ) → List (α × ℕ)
  | [] => if x.2 = 0 ∨ x.1 = rest then [] else [x]
  | y :: w => if x.2 = 0 then y :: w else if x.1 = y.1 then (x.1, x.2 + y.2) :: w else x :: y :: w

/-- **The wave cut where the level changes.** -/
def condense (rest : α) (w : List (α × ℕ)) : List (α × ℕ) := w.foldr (push rest) []

@[simp] theorem condense_nil : condense rest [] = [] := rfl

@[simp] theorem condense_cons (x : α × ℕ) (w : List (α × ℕ)) :
    condense rest (x :: w) = push rest x (condense rest w) := rfl

theorem levelAt_push (x : α × ℕ) : levelAt rest (push rest x w) t = levelAt rest (x :: w) t := by
  obtain ⟨a, d⟩ := x
  cases w with
  | nil =>
      rw [push]
      split
      · rename_i h
        rw [levelAt_nil, levelAt_cons]
        rcases h with hd | ha
        · rw [if_neg (by omega), levelAt_nil]
        · exact ((ite_congr rfl (fun _ => ha) fun _ => rfl).trans (ite_self _)).symm
      · rfl
  | cons y w =>
      obtain ⟨b, e⟩ := y
      rw [push]
      split
      · rename_i h
        obtain rfl : d = 0 := h
        rw [levelAt_cons (a := a), if_neg (Nat.not_lt_zero t), Nat.sub_zero]
      · split
        · rename_i h
          obtain rfl : a = b := h
          simp only [levelAt]
          by_cases hd : t < d
          · rw [if_pos hd, if_pos (Nat.lt_add_right e hd)]
          · rw [if_neg hd]
            by_cases he : t - d < e
            · rw [if_pos he, if_pos (by omega)]
            · rw [if_neg he, if_neg (by omega), Nat.sub_sub]
        · rfl

/-- **It is the same signal.** -/
theorem levelAt_condense (w : List (α × ℕ)) :
    ∀ t, levelAt rest (condense rest w) t = levelAt rest w t := by
  induction w with
  | nil => exact fun t => rfl
  | cons x w ih =>
      intro t
      obtain ⟨a, d⟩ := x
      rw [condense_cons, levelAt_push, levelAt_cons, levelAt_cons, ih]

theorem samples_condense (w : List (α × ℕ)) :
    samples P rest (condense rest w) φ n = samples P rest w φ n :=
  List.map_congr_left fun _ _ => levelAt_condense w _

/-- **A condensed wave** changes its level at each stretch, and at the end. -/
def Changing (rest : α) : List (α × ℕ) → Prop
  | [] => True
  | [x] => 0 < x.2 ∧ x.1 ≠ rest
  | x :: y :: w => 0 < x.2 ∧ x.1 ≠ y.1 ∧ Changing rest (y :: w)

theorem changing_push {x : α × ℕ} (h : Changing rest w) : Changing rest (push rest x w) := by
  cases w with
  | nil =>
      rw [push]
      split
      · trivial
      · rename_i hx
        rw [not_or] at hx
        exact ⟨Nat.pos_of_ne_zero hx.1, hx.2⟩
  | cons y w =>
      rw [push]
      split
      · exact h
      · rename_i hx
        split
        · rename_i heq
          cases w with
          | nil => exact ⟨Nat.add_pos_left (Nat.pos_of_ne_zero hx) _, heq ▸ h.2⟩
          | cons z w => exact ⟨Nat.add_pos_left (Nat.pos_of_ne_zero hx) _, heq ▸ h.2.1, h.2.2⟩
        · rename_i hne
          exact ⟨Nat.pos_of_ne_zero hx, hne, h⟩

theorem changing_condense (w : List (α × ℕ)) : Changing rest (condense rest w) := by
  induction w with
  | nil => trivial
  | cons x w ih => exact changing_push ih

omit [DecidableEq α] in
theorem Changing.pos (h : Changing rest w) : ∀ x ∈ w, 0 < x.2 := by
  induction w with
  | nil => simp
  | cons x w ih =>
      cases w with
      | nil => simpa using h.1
      | cons y w => exact List.forall_mem_cons.mpr ⟨h.1, ih h.2.2⟩

/-- Nothing is left out of such a wave. -/
theorem condense_of_changing (h : Changing rest w) : condense rest w = w := by
  induction w with
  | nil => rfl
  | cons x w ih =>
      cases w with
      | nil =>
          obtain ⟨hpos, hne⟩ := h
          rw [condense_cons, condense_nil, push, if_neg]
          rw [not_or]
          exact ⟨Nat.ne_of_gt hpos, hne⟩
      | cons y w =>
          obtain ⟨hpos, hne, hrest⟩ := h
          rw [condense_cons, ih hrest, push, if_neg (Nat.ne_of_gt hpos), if_neg hne]

/-- And a stretch on the resting level behind a wave is. -/
theorem condense_append_rest (w : List (α × ℕ)) (d : ℕ) :
    condense rest (w ++ [(rest, d)]) = condense rest w := by
  rw [condense, condense, List.foldr_append, List.foldr_cons, List.foldr_nil, push,
    if_pos (.inr rfl)]

omit [DecidableEq α] in
/-- Only the levels matter, and that there is some time on each. -/
theorem Changing.of_forall₂ {w' : List (α × ℕ)} (h : Changing rest w)
    (hw : List.Forall₂ (fun x y : α × ℕ => y.1 = x.1 ∧ 0 < y.2) w w') : Changing rest w' := by
  induction hw with
  | nil => trivial
  | @cons x y w w' hxy hrest ih =>
      cases hrest with
      | nil => exact ⟨hxy.2, hxy.1 ▸ h.2⟩
      | cons hxy' hrest' =>
          refine ⟨hxy.2, ?_, ih h.2.2⟩
          rw [hxy.1, hxy'.1]
          exact h.2.1

/-! ## Levels in other units -/

theorem push_scale {T : ℕ} (hT : 0 < T) (x : α × ℕ) :
    push rest (x.1, T * x.2) (w.map fun y => (y.1, T * y.2)) =
      (push rest x w).map fun y => (y.1, T * y.2) := by
  have hzero : T * x.2 = 0 ↔ x.2 = 0 := by
    rw [Nat.mul_eq_zero]
    exact or_iff_right (Nat.ne_of_gt hT)
  cases w with
  | nil =>
      rw [List.map_nil, push, push]
      simp only [hzero]
      split
      · rfl
      · rfl
  | cons y w =>
      rw [List.map_cons, push, push]
      simp only [hzero]
      split
      · rfl
      · split
        · rw [List.map_cons, Nat.mul_add]
        · rfl

/-- A wave is condensed in any units. -/
theorem condense_scale {T : ℕ} (hT : 0 < T) (w : List (α × ℕ)) :
    condense rest (w.map fun x => (x.1, T * x.2)) =
      (condense rest w).map fun x => (x.1, T * x.2) := by
  induction w with
  | nil => rfl
  | cons x w ih => rw [List.map_cons, condense_cons, condense_cons, ih, push_scale hT]

theorem length_condense_le (rest : α) (w : List (α × ℕ)) : (condense rest w).length ≤ w.length := by
  induction w with
  | nil => exact Nat.le_refl _
  | cons x w ih =>
      rw [condense_cons, List.length_cons]
      cases hw : condense rest w with
      | nil =>
          rw [push]
          split
          · exact Nat.zero_le _
          · exact Nat.succ_le_succ (Nat.zero_le _)
      | cons y v =>
          rw [hw] at ih
          rw [push]
          split
          · exact Nat.le_succ_of_le ih
          · split
            · exact Nat.le_succ_of_le ih
            · exact Nat.succ_le_succ ih

/-- **The levels are the same**, but for those at the end. -/
theorem exists_spread_eq (rest : α) (w : List (α × ℕ)) :
    ∃ k, spread w = spread (condense rest w) ++ List.replicate k rest := by
  induction w with
  | nil => exact ⟨0, rfl⟩
  | cons x w ih =>
      obtain ⟨k, hk⟩ := ih
      rw [spread_cons, condense_cons, hk]
      cases condense rest w with
      | nil =>
          rw [push]
          split
          · rename_i h
            rcases h with h | h
            · exact ⟨k, by rw [h]; rfl⟩
            · refine ⟨x.2 + k, ?_⟩
              rw [h, List.replicate_add]
              rfl
          · exact ⟨k, by rw [spread_cons, List.append_assoc]⟩
      | cons y v =>
          refine ⟨k, ?_⟩
          rw [push]
          split
          · rename_i h
            rw [h]
            rfl
          · split
            · rename_i h
              rw [spread_cons, spread_cons, ← h, List.replicate_add, ← List.append_assoc,
                ← List.append_assoc]
            · exact (List.append_assoc ..).symm

end Condense

end Sampling

end Realraum
