import Mathlib.Data.List.Basic
/-!
# Replacing a pattern

Every occurrence of a pattern in a text is replaced, from the left and where
it does not overlap the one before. What cannot begin an occurrence is left
as it is.
-/

namespace Realraum

namespace Replacing

variable {α : Type*} [DecidableEq α] {c : α} {old new s t : List α}

/-- A text behind so many elements that belong to an occurrence. -/
def replaceFrom (old new : List α) : ℕ → List α → List α
  | _, [] => []
  | skip + 1, _ :: s => replaceFrom old new skip s
  | 0, c :: s =>
    if old.isPrefixOf (c :: s) then new ++ replaceFrom old new (old.length - 1) s
    else c :: replaceFrom old new 0 s

/-- **All occurrences replaced.** -/
def replace (old new s : List α) : List α := replaceFrom old new 0 s

@[simp] theorem replace_nil : replace old new [] = [] := rfl

/-- What is skipped is gone. -/
theorem replaceFrom_length (s t : List α) :
    replaceFrom old new s.length (s ++ t) = replace old new t := by
  induction s with
  | nil => rfl
  | cons c s ih => exact ih

/-- Without its first element there is no occurrence. -/
theorem replace_append_of_notMem (h : c ∉ s) :
    replace (c :: old) new (s ++ t) = s ++ replace (c :: old) new t := by
  unfold replace
  induction s with
  | nil => rfl
  | cons d s ih =>
      rw [List.mem_cons, not_or] at h
      have hprefix : (c :: old).isPrefixOf (d :: (s ++ t)) = false := by
        rw [List.isPrefixOf_cons_cons, beq_eq_false_iff_ne.mpr h.1, Bool.false_and]
      rw [List.cons_append, replaceFrom, hprefix, if_neg Bool.false_ne_true, ih h.2,
        List.cons_append]

/-- **An occurrence in front is replaced.** -/
theorem replace_occurrence (t : List α) :
    replace (c :: old) new (c :: old ++ t) = new ++ replace (c :: old) new t := by
  have hprefix : (c :: old).isPrefixOf (c :: (old ++ t)) = true :=
    List.isPrefixOf_iff_prefix.mpr (List.prefix_append (c :: old) t)
  rw [replace, List.cons_append, replaceFrom, hprefix, if_pos rfl, List.length_cons,
    Nat.add_sub_cancel, replaceFrom_length]

/-- **The first occurrence**, behind a text that has none. -/
theorem replace_first (h : c ∉ s) (t : List α) :
    replace (c :: old) new (s ++ (c :: old ++ t)) = s ++ (new ++ replace (c :: old) new t) := by
  rw [replace_append_of_notMem h, replace_occurrence]

end Replacing

end Realraum
