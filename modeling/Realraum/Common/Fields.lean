import Mathlib.Data.List.TakeWhile
/-!
# The fields of a line

A line is cut at a separator, however often that is repeated, so its
fields are the longest pieces without it. Reading a line from the left
takes off the separators in front, then a field, and is at the separator
behind it or at the end.
-/

namespace Realraum

namespace Fields

variable {α : Type*} [DecidableEq α]

/-- The fields of a line. -/
def fields (sep : α) (line : List α) : List (List α) := (line.splitOn sep).filter (· ≠ [])

variable {sep : α} {w line : List α}

@[simp] theorem fields_nil : fields sep [] = [] := rfl

/-- **A separator parts the fields** on its two sides. -/
theorem fields_append_cons (line rest : List α) :
    fields sep (line ++ sep :: rest) = fields sep line ++ fields sep rest := by
  rw [fields, List.splitOn_append_cons_self, List.filter_append]
  rfl

@[simp] theorem fields_cons (rest : List α) : fields sep (sep :: rest) = fields sep rest :=
  fields_append_cons [] rest

/-- Separators in front make no field. -/
@[simp] theorem fields_replicate_append (n : Nat) (rest : List α) :
    fields sep (List.replicate n sep ++ rest) = fields sep rest := by
  induction n with
  | zero => rfl
  | succ n ih => rw [List.replicate_succ, List.cons_append, fields_cons, ih]

@[simp] theorem fields_replicate (n : Nat) : fields sep (List.replicate n sep) = [] := by
  have h : fields sep (List.replicate n sep ++ []) = fields sep [] := fields_replicate_append n []
  rwa [List.append_nil] at h

/-- A line without a separator is one field. -/
theorem fields_of_notMem (hne : w ≠ []) (hw : sep ∉ w) : fields sep w = [w] := by
  rw [fields, List.splitOn_eq_singleton hw]
  simp [hne]

/-- **A field in front.** -/
theorem fields_field (hne : w ≠ []) (hw : sep ∉ w) (rest : List α) :
    fields sep (w ++ sep :: rest) = w :: fields sep rest := by
  rw [fields_append_cons, fields_of_notMem hne hw, List.singleton_append]

/-- **Fields that are joined** are cut again. -/
theorem fields_intercalate {ws : List (List α)} (h : ∀ w ∈ ws, w ≠ [] ∧ sep ∉ w) :
    fields sep ([sep].intercalate ws) = ws := by
  induction ws with
  | nil => rfl
  | cons w ws ih =>
      obtain ⟨hne, hw⟩ := h w List.mem_cons_self
      have hws := ih fun w' hmem => h w' (List.mem_cons_of_mem _ hmem)
      cases ws with
      | nil => rw [List.intercalate_singleton, fields_of_notMem hne hw]
      | cons w' ws =>
          rw [List.intercalate_cons_cons, List.append_assoc, List.singleton_append,
            fields_field hne hw, hws]

omit [DecidableEq α] in
theorem mem_intercalate {ws : List (List α)} {d : α} (h : d ∈ [sep].intercalate ws) :
    d = sep ∨ ∃ w ∈ ws, d ∈ w := by
  induction ws with
  | nil => simp at h
  | cons w ws ih =>
      cases ws with
      | nil =>
          rw [List.intercalate_singleton] at h
          exact .inr ⟨w, List.mem_cons_self, h⟩
      | cons w' ws =>
          rw [List.intercalate_cons_cons, List.mem_append, List.mem_append,
            List.mem_singleton] at h
          obtain (h | h) | h := h
          · exact .inr ⟨w, List.mem_cons_self, h⟩
          · exact .inl h
          · obtain hd | ⟨v, hv, hd⟩ := ih h
            · exact .inl hd
            · exact .inr ⟨v, List.mem_cons_of_mem _ hv, hd⟩

omit [DecidableEq α] in
theorem map_intercalate {β : Type*} (f : α → β) (ws : List (List α)) :
    ([sep].intercalate ws).map f = [f sep].intercalate (ws.map (List.map f)) := by
  induction ws with
  | nil => rfl
  | cons w ws ih =>
      cases ws with
      | nil =>
          rw [List.map_singleton, List.intercalate_singleton, List.intercalate_singleton]
      | cons w' ws =>
          rw [List.map_cons, List.map_cons, List.intercalate_cons_cons,
            List.intercalate_cons_cons, List.map_append, List.map_append, ih]
          rfl

theorem ne_nil_of_mem_fields (h : w ∈ fields sep line) : w ≠ [] := by
  simpa using (List.mem_filter.mp h).2

/-- **A line read from the left**: it is all separators, or these and a
field, and then its end or a separator. -/
theorem exists_field (sep : α) (line : List α) :
    (∃ n, line = List.replicate n sep) ∨
      ∃ n w, w ≠ [] ∧ sep ∉ w ∧ (line = List.replicate n sep ++ w ∨
        ∃ rest, line = List.replicate n sep ++ (w ++ sep :: rest)) := by
  have hfront : line.takeWhile (· = sep) =
      List.replicate (line.takeWhile (· = sep)).length sep :=
    List.eq_replicate_of_mem fun b hb => by simpa using List.mem_takeWhile_imp hb
  have hline : line = List.replicate (line.takeWhile (· = sep)).length sep ++
      line.dropWhile (· = sep) := by
    rw [← hfront, List.takeWhile_append_dropWhile]
  have hhead := List.head?_dropWhile_not (· = sep) line
  generalize (line.takeWhile (· = sep)).length = n at hline
  generalize line.dropWhile (· = sep) = r at hline hhead
  cases r with
  | nil => exact .inl ⟨n, by simpa using hline⟩
  | cons b r =>
      have hb : b ≠ sep := by simpa using hhead
      -- the field is what comes up to the next separator
      have hr : (b :: r).takeWhile (· ≠ sep) ++ (b :: r).dropWhile (· ≠ sep) = b :: r :=
        List.takeWhile_append_dropWhile
      refine .inr ⟨n, (b :: r).takeWhile (· ≠ sep), by simp [hb], fun h => ?_, ?_⟩
      · simpa using List.mem_takeWhile_imp h
      · have hstop := List.head?_dropWhile_not (· ≠ sep) (b :: r)
        cases hd : (b :: r).dropWhile (· ≠ sep) with
        | nil =>
            rw [hd, List.append_nil] at hr
            exact .inl (by rw [hr]; exact hline)
        | cons c rest =>
            rw [hd] at hr hstop
            obtain rfl : c = sep := by simpa using hstop
            exact .inr ⟨rest, by rw [hr]; exact hline⟩

end Fields

end Realraum
