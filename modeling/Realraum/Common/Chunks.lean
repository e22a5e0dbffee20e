import Mathlib.Data.List.Basic
/-!
# Reading a stream in chunks

A reader that hands over what it read when an end marker comes, the marker
included, or when it has read `cap` symbols. A line that fits is one chunk,
with its marker or without; a longer one is cut up. The reader starts afresh
behind an end marker, so what stands before a line plays no part.
-/

namespace Realraum

namespace Chunks

variable {α : Type*} [DecidableEq α] (nl : α) (cap : ℕ)

/-- The chunks of a stream, behind what is pending. -/
def chunks : List α → List α → List (List α)
  | pending, [] => if pending = [] then [] else [pending]
  | pending, b :: bs =>
    if b = nl ∨ cap ≤ pending.length + 1 then (pending ++ [b]) :: chunks [] bs
    else chunks (pending ++ [b]) bs

variable {nl cap} {p stream : List α}

/-- **Behind an end marker the reader starts afresh.** -/
theorem chunks_append (before rest : List α) (h : before.getLast? = some nl) :
    chunks nl cap p (before ++ rest) = chunks nl cap p before ++ chunks nl cap [] rest := by
  induction before generalizing p with
  | nil => cases h
  | cons b bs ih =>
      rw [List.cons_append, chunks, chunks]
      cases bs with
      | nil =>
          have hb : b = nl := by simpa using h
          rw [if_pos (.inl hb), if_pos (.inl hb)]
          rfl
      | cons c bs =>
          have hlast : (c :: bs).getLast? = some nl := by simpa using h
          split
          · rw [ih hlast, List.cons_append]
          · rw [ih hlast]

/-- **A line that fits is a chunk**, with its end marker where that fits
too. -/
theorem chunks_line {line tail : List α} (hline : nl ∉ line) (hne : p ++ line ≠ [])
    (hfits : p.length + line.length ≤ cap) (htail : tail = [] ∨ tail.head? = some nl)
    (hp : p.length < cap) :
    ∃ chunk more, chunks nl cap p (line ++ tail) = chunk :: more ∧
      (chunk = p ++ line ∨ chunk = p ++ line ++ [nl]) := by
  induction line generalizing p with
  | nil =>
      rw [List.append_nil] at hne
      match tail with
      | [] => exact ⟨p, [], by simp [chunks, hne], .inl (by simp)⟩
      | b :: bs =>
          have hb : b = nl := by simpa using htail
          exact ⟨p ++ [nl], _, by rw [List.nil_append, chunks, if_pos (.inl hb), hb],
            .inr (by simp)⟩
  | cons b line ih =>
      rw [List.mem_cons, not_or] at hline
      rw [List.length_cons] at hfits
      rw [List.cons_append, chunks]
      split
      · rename_i hfull
        have hcap : cap ≤ p.length + 1 := hfull.resolve_left (Ne.symm hline.1)
        have hnil : line = [] := List.length_eq_zero_iff.mp (by omega)
        exact ⟨p ++ [b], _, rfl, .inl (by rw [hnil])⟩
      · rename_i hroom
        rw [not_or] at hroom
        have hlen : (p ++ [b]).length = p.length + 1 := List.length_append
        obtain ⟨chunk, more, heq, hchunk⟩ :=
          ih (p := p ++ [b]) hline.2 (by simp) (by omega) (by omega)
        exact ⟨chunk, more, heq, by simpa using hchunk⟩

/-- A line that fits with its end marker is one chunk, and all there
is. -/
theorem chunks_of_fits {line e : List α} (hline : nl ∉ line) (he : e = [] ∨ e = [nl])
    (hne : p ++ line ++ e ≠ []) (hfits : (p ++ line ++ e).length ≤ cap) (hp : p.length < cap) :
    chunks nl cap p (line ++ e) = [p ++ line ++ e] := by
  induction line generalizing p with
  | nil =>
      rcases he with rfl | rfl
      · have hpne : p ≠ [] := by simpa using hne
        simp [chunks, hpne]
      · simp [chunks]
  | cons b line ih =>
      rw [List.mem_cons, not_or] at hline
      have hassoc : p ++ b :: line ++ e = p ++ [b] ++ line ++ e := by simp
      rw [hassoc] at hfits ⊢
      rw [List.cons_append, chunks]
      by_cases hfull : cap ≤ p.length + 1
      · -- the line ends with the chunk
        have hlen : (p ++ [b] ++ line ++ e).length = p.length + 1 + line.length + e.length := by
          simp; omega
        have hnil : line = [] := List.length_eq_zero_iff.mp (by omega)
        have hnil' : e = [] := List.length_eq_zero_iff.mp (by omega)
        rw [if_pos (.inr hfull), hnil, hnil']
        simp [chunks]
      · rw [if_neg (not_or.mpr ⟨Ne.symm hline.1, hfull⟩)]
        exact ih hline.2 (by simp) hfits (by simp; omega)

/-! ## Lines -/

/-- The lines of a stream, each with its end marker, which the last may
lack. -/
def lines (nl : α) : List α → List (List α)
  | [] => []
  | b :: bs =>
    if b = nl then [b] :: lines nl bs
    else
      match lines nl bs with
      | [] => [[b]]
      | line :: more => (b :: line) :: more

theorem lines_eq_nil {stream : List α} : lines nl stream = [] ↔ stream = [] := by
  cases stream with
  | nil => exact iff_of_true rfl rfl
  | cons b bs =>
      rw [lines]
      split
      · simp
      · split <;> simp

/-- A line has its end marker at its end, if anywhere. -/
theorem exists_of_mem_lines {stream line : List α} (h : line ∈ lines nl stream) :
    ∃ body e, line = body ++ e ∧ nl ∉ body ∧ (e = [] ∨ e = [nl]) ∧ line ≠ [] := by
  induction stream generalizing line with
  | nil => cases h
  | cons b bs ih =>
      rw [lines] at h
      split at h
      · rename_i hb
        rcases List.mem_cons.mp h with rfl | h
        · exact ⟨[], [b], rfl, by simp, .inr (by rw [hb]), by simp⟩
        · exact ih h
      · rename_i hb
        split at h
        · rw [List.mem_singleton.mp h]
          exact ⟨[b], [], rfl, by simpa using Ne.symm hb, .inl rfl, by simp⟩
        · rename_i first more hbs
          rcases List.mem_cons.mp h with rfl | h
          · obtain ⟨body, e, rfl, hbody, he, -⟩ := ih (by rw [hbs]; exact List.mem_cons_self)
            exact ⟨b :: body, e, rfl, by simp [hbody, Ne.symm hb], he, by simp⟩
          · exact ih (by rw [hbs]; exact List.mem_cons_of_mem _ h)

/-- What is pending belongs to the first line. -/
theorem chunks_eq_head_lines {first : List α} {more : List (List α)}
    (h : lines nl stream = first :: more) :
    chunks nl cap p stream = chunks nl cap p first ++ more.flatMap (chunks nl cap []) := by
  induction stream generalizing p first more with
  | nil => cases h
  | cons b bs ih =>
      have hrest : chunks nl cap [] bs = (lines nl bs).flatMap (chunks nl cap []) := by
        cases hbs : lines nl bs with
        | nil => rw [lines_eq_nil.mp hbs]; rfl
        | cons first' more' => exact ih hbs
      rw [lines] at h
      split at h
      · rename_i hb
        cases h
        rw [chunks, chunks, if_pos (.inl hb), if_pos (.inl hb), hrest]
        rfl
      · rename_i hb
        split at h
        · rename_i hbs
          cases h
          rw [lines_eq_nil.mp hbs]
          simp
        · rename_i first' more' hbs
          cases h
          rw [chunks, chunks]
          split
          · rw [hrest, hbs, List.flatMap_cons, List.cons_append]
          · exact ih hbs

/-- **The chunks of a stream are those of its lines.** -/
theorem chunks_eq_flatMap_lines (stream : List α) :
    chunks nl cap [] stream = (lines nl stream).flatMap (chunks nl cap []) := by
  cases h : lines nl stream with
  | nil => rw [lines_eq_nil.mp h]; rfl
  | cons first more => exact chunks_eq_head_lines h

/-! ## What a chunk looks like -/

/-- No chunk is longer than the buffer. -/
theorem length_le_of_mem (hcap : 0 < cap) (hp : p.length < cap) :
    ∀ chunk ∈ chunks nl cap p stream, chunk.length ≤ cap := by
  induction stream generalizing p with
  | nil =>
      intro chunk hchunk
      rw [chunks] at hchunk
      split at hchunk
      · cases hchunk
      · rw [List.mem_singleton.mp hchunk]
        omega
  | cons b bs ih =>
      intro chunk hchunk
      have hlen : (p ++ [b]).length = p.length + 1 := List.length_append
      rw [chunks] at hchunk
      split at hchunk
      · rcases List.mem_cons.mp hchunk with rfl | hmem
        · omega
        · exact ih (p := []) hcap chunk hmem
      · rename_i hroom
        exact ih (p := p ++ [b]) (by rw [not_or] at hroom; omega) chunk hchunk

/-- Only the last symbol of a chunk may be an end marker. -/
theorem notMem_dropLast_of_mem (hp : nl ∉ p) :
    ∀ chunk ∈ chunks nl cap p stream, nl ∉ chunk.dropLast := by
  induction stream generalizing p with
  | nil =>
      intro chunk hchunk
      rw [chunks] at hchunk
      split at hchunk
      · cases hchunk
      · rw [List.mem_singleton.mp hchunk]
        exact fun h => hp (List.dropLast_subset p h)
  | cons b bs ih =>
      intro chunk hchunk
      rw [chunks] at hchunk
      split at hchunk
      · rcases List.mem_cons.mp hchunk with rfl | hmem
        · rwa [List.dropLast_concat]
        · exact ih (p := []) List.not_mem_nil chunk hmem
      · rename_i hroom
        rw [not_or] at hroom
        refine ih (p := p ++ [b]) ?_ chunk hchunk
        simp only [List.mem_append, List.mem_singleton, not_or]
        exact ⟨hp, fun h => hroom.1 h.symm⟩

end Chunks

end Realraum
