import Realraum.Common.Sampling
/-!
# Biphase codes

In a biphase code each symbol is on two levels, one behind the other and for
the same time. Condensed, a wave of such symbols has its first symbol's level
in front, no stretch longer than two neighbouring symbols allow, and at least
one stretch for each symbol.
-/

namespace Realraum

namespace Biphase

open Sampling

variable {α : Type*} {rest : α} {M : ℕ}

/-- **A symbol**: its two levels, and how long it is on each. -/
structure Symbol (α : Type*) where
  first : α
  second : α
  width : ℕ

/-- The levels differ. -/
structure Symbol.Proper (x : Symbol α) : Prop where
  ne : x.first ≠ x.second
  pos : 0 < x.width

/-- The wave of some symbols. -/
def wave (xs : List (Symbol α)) : List (α × ℕ) :=
  xs.flatMap fun x => [(x.first, x.width), (x.second, x.width)]

@[simp] theorem wave_nil : wave ([] : List (Symbol α)) = [] := rfl

@[simp] theorem wave_cons (x : Symbol α) (xs : List (Symbol α)) :
    wave (x :: xs) = (x.first, x.width) :: (x.second, x.width) :: wave xs := rfl

/-- Neighbouring symbols are not longer than so much together. -/
def Within (M : ℕ) : List (Symbol α) → Prop
  | [] => True
  | [x] => x.width ≤ M
  | x :: y :: xs => x.width + y.width ≤ M ∧ Within M (y :: xs)

theorem Within.head {x : Symbol α} {xs : List (Symbol α)} (h : Within M (x :: xs)) :
    x.width ≤ M := by
  cases xs with
  | nil => exact h
  | cons y xs => exact Nat.le_of_add_right_le h.1

theorem Within.tail {x : Symbol α} {xs : List (Symbol α)} (h : Within M (x :: xs)) :
    Within M xs := by
  cases xs with
  | nil => trivial
  | cons y xs => exact h.2

variable [DecidableEq α]

/-- **The stretches of a biphase code.** -/
theorem condense_wave (rest : α) {x : Symbol α} {xs : List (Symbol α)}
    (hproper : ∀ y ∈ x :: xs, y.Proper) (hwithin : Within M (x :: xs)) :
    ∃ w, condense rest (wave (x :: xs)) = (x.first, x.width) :: w ∧ (∀ y ∈ w, y.2 ≤ M) ∧
      xs.length ≤ w.length := by
  have hx := hproper x List.mem_cons_self
  have hne : x.width ≠ 0 := Nat.ne_of_gt hx.pos
  have hle := hwithin.head
  rw [wave_cons, condense_cons, condense_cons]
  induction xs generalizing x with
  | nil =>
      rw [wave_nil, condense_nil, push]
      by_cases hrest : x.second = rest
      · rw [if_pos (.inr hrest), push, if_neg]
        · exact ⟨[], rfl, by simp, Nat.le_refl _⟩
        · rw [not_or]
          exact ⟨hne, fun h => hx.ne (h.trans hrest.symm)⟩
      · rw [if_neg (by rw [not_or]; exact ⟨hne, hrest⟩), push, if_neg hne, if_neg hx.ne]
        exact ⟨_, rfl, by simpa using hle, Nat.zero_le _⟩
  | cons y xs ih =>
      have hy := hproper y (List.mem_cons_of_mem _ List.mem_cons_self)
      obtain ⟨w, hw, hlong, hlength⟩ := ih (x := y)
        (fun z hz => hproper z (List.mem_cons_of_mem _ hz)) hwithin.tail hy
        (Nat.ne_of_gt hy.pos) hwithin.tail.head
      rw [wave_cons, condense_cons, condense_cons, hw, push, if_neg hne]
      by_cases hsame : x.second = y.first
      · rw [if_pos hsame, push, if_neg hne, if_neg hx.ne]
        refine ⟨_, rfl, fun z hz => ?_, ?_⟩
        · rcases List.mem_cons.mp hz with rfl | hz
          · exact hwithin.1
          · exact hlong z hz
        · rw [List.length_cons, List.length_cons]
          exact Nat.succ_le_succ hlength
      · rw [if_neg hsame, push, if_neg hne, if_neg hx.ne]
        refine ⟨_, rfl, fun z hz => ?_, ?_⟩
        · rcases List.mem_cons.mp hz with rfl | hz
          · exact hle
          · rcases List.mem_cons.mp hz with rfl | hz
            · exact hwithin.tail.head
            · exact hlong z hz
        · rw [List.length_cons, List.length_cons, List.length_cons]
          exact Nat.le_succ_of_le (Nat.succ_le_succ hlength)

end Biphase

end Realraum
