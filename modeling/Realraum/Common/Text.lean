import Mathlib.Data.List.TakeWhile
/-!
# Texts cut at a character

A text is cut at every occurrence of a character, or at the first one only.
The pieces joined with that character are the text again; the other way
round, a piece with the character in it does not come back.
-/

namespace Realraum

namespace Text

variable {c : Char} {s t a b : String}

/-- The pieces between the occurrences. -/
def split (c : Char) (s : String) : List String := (s.toList.splitOn c).map .ofList

theorem split_ne_nil (c : Char) (s : String) : split c s ≠ [] := by
  rw [split, ne_eq, List.map_eq_nil_iff]
  exact List.splitOn_ne_nil c s.toList

/-- What is in front of the first occurrence and what is behind it. -/
def cut (c : Char) (s : String) : Option (String × String) :=
  match s.toList.dropWhile (· ≠ c) with
  | [] => none
  | _ :: behind => some (.ofList (s.toList.takeWhile (· ≠ c)), .ofList behind)

/-- **What a text is cut into.** -/
theorem cut_eq_some_iff :
    cut c s = some (a, b) ↔ c ∉ a.toList ∧ s.toList = a.toList ++ c :: b.toList := by
  constructor
  · intro h
    rw [cut] at h
    split at h
    · cases h
    · rename_i d behind hdrop
      cases h
      have hd : d = c := by
        have hhead := List.head?_dropWhile_not (· ≠ c) s.toList
        rw [hdrop] at hhead
        simpa using hhead
      subst hd
      rw [String.toList_ofList, String.toList_ofList]
      refine ⟨fun hmem => ?_, ?_⟩
      · simpa using List.mem_takeWhile_imp hmem
      · rw [← hdrop, List.takeWhile_append_dropWhile]
  · rintro ⟨hnot, hs⟩
    have hall : ∀ x ∈ a.toList, decide (x ≠ c) = true := by
      intro x hx
      exact decide_eq_true fun h => hnot (h ▸ hx)
    rw [cut, hs, List.dropWhile_append_of_pos hall, List.takeWhile_append_of_pos hall]
    simp

/-- A piece without the character in front of it comes back. -/
theorem cut_append (ha : c ∉ a.toList) (ht : t.toList = c :: b.toList) :
    cut c (a ++ t) = some (a, b) :=
  cut_eq_some_iff.mpr ⟨ha, by rw [String.toList_append, ht]⟩

/-- A piece with the character in it is cut itself. -/
theorem cut_append_of_mem (ha : c ∈ a.toList) (t : String) :
    ∃ b d, cut c (a ++ t) = some (b, d) ∧ b ≠ a := by
  obtain ⟨front, behind, hsplit, hnot⟩ := List.eq_append_cons_of_mem ha
  refine ⟨.ofList front, .ofList (behind ++ t.toList), cut_eq_some_iff.mpr ⟨?_, ?_⟩, ?_⟩
  · rwa [String.toList_ofList]
  · rw [String.toList_append, hsplit, String.toList_ofList, String.toList_ofList,
      List.append_assoc, List.cons_append]
  · rintro rfl
    have hlen := congrArg List.length hsplit
    rw [String.toList_ofList, List.length_append, List.length_cons] at hlen
    omega

/-- **A text is known by what it is cut into.** -/
theorem eq_of_cut_eq_some {x : String × String} (hs : cut c s = some x) (ht : cut c t = some x) :
    s = t := by
  obtain ⟨a, b⟩ := x
  exact String.toList_inj.mp
    ((cut_eq_some_iff.mp hs).2.trans (cut_eq_some_iff.mp ht).2.symm)

end Text

end Realraum
