import Mathlib.Data.List.DropRight
/-!
# Lines through a bounded buffer

A reader that keeps the bytes of the current line in a buffer of `cap`
places, hands the line over when its end marker `nl` arrives, and starts
over with an empty buffer when the buffer is full. `frame` is that reader
as a fold over single symbols, so how the stream was cut plays no part in
it (`frame_append`). `completeLines` is what a stream's lines are, and
`frame_eq_filter_iff` says exactly when the reader's lines are these: the
reader forgets that it was inside a line when it overflows, so a line
that does not fit leaves a tail behind that passes for a line.
-/

namespace Realraum

namespace Framing

variable {α : Type*} [DecidableEq α] (nl : α) (cap : ℕ)

/-- The reader: what is pending after the symbols, and the lines handed
over on the way. -/
def frame : List α → List α → List α × List (List α)
  | pending, [] => (pending, [])
  | pending, b :: bs =>
    if b = nl then ((frame [] bs).1, pending :: (frame [] bs).2)
    else if cap ≤ pending.length + 1 then frame [] bs
    else frame (pending ++ [b]) bs

/-- **The lines of a stream**: what stands between two end markers, or
before the first. What follows the last marker is not a line yet. -/
def completeLines (stream : List α) : List (List α) :=
  (stream.splitOn nl).dropLast

variable {nl cap}

@[simp] theorem frame_nil (p : List α) : frame nl cap p [] = (p, []) := rfl

theorem frame_newline (p bs : List α) :
    frame nl cap p (nl :: bs) = ((frame nl cap [] bs).1, p :: (frame nl cap [] bs).2) := by
  rw [frame, if_pos rfl]

theorem frame_overflow {p : List α} {b : α} (bs : List α) (hb : b ≠ nl)
    (h : cap ≤ p.length + 1) : frame nl cap p (b :: bs) = frame nl cap [] bs := by
  rw [frame, if_neg hb, if_pos h]

theorem frame_keep {p : List α} {b : α} (bs : List α) (hb : b ≠ nl)
    (h : p.length + 1 < cap) : frame nl cap p (b :: bs) = frame nl cap (p ++ [b]) bs := by
  rw [frame, if_neg hb, if_neg (by omega)]

/-- **Chunking plays no part**: reading two pieces of a stream one after
the other is reading them joined. -/
theorem frame_append (p xs ys : List α) :
    frame nl cap p (xs ++ ys) =
      ((frame nl cap (frame nl cap p xs).1 ys).1,
        (frame nl cap p xs).2 ++ (frame nl cap (frame nl cap p xs).1 ys).2) := by
  induction xs generalizing p with
  | nil => rfl
  | cons b bs ih =>
      rw [List.cons_append]
      by_cases hb : b = nl
      · rw [hb, frame_newline, frame_newline, ih]
        rfl
      · by_cases h : cap ≤ p.length + 1
        · rw [frame_overflow _ hb h, frame_overflow _ hb h, ih]
        · rw [frame_keep _ hb (by omega), frame_keep _ hb (by omega), ih]

/-! ## What the lines of a stream are -/

theorem completeLines_nil : completeLines nl ([] : List α) = [] := rfl

theorem completeLines_newline (bs : List α) :
    completeLines nl (nl :: bs) = [] :: completeLines nl bs := by
  rw [completeLines, List.splitOn_cons_eq_if_modifyHead, if_pos (by simp),
    List.dropLast_cons_of_ne_nil (List.splitOn_ne_nil nl bs), completeLines]

/-- A symbol in front of a stream joins its first line, where it has
one. -/
theorem completeLines_cons {b : α} (hb : b ≠ nl) (bs : List α) :
    completeLines nl (b :: bs) = (completeLines nl bs).modifyHead (b :: ·) := by
  rw [completeLines, List.splitOn_cons_eq_if_modifyHead, if_neg (by simpa using hb),
    completeLines]
  match h : bs.splitOn nl with
  | [] => exact absurd h (List.splitOn_ne_nil nl bs)
  | [_] => rfl
  | _ :: _ :: _ => rfl

/-- A stretch without end markers joins the first line in the same
way. -/
theorem completeLines_append {p : List α} (hp : nl ∉ p) (bs : List α) :
    completeLines nl (p ++ bs) = (completeLines nl bs).modifyHead (p ++ ·) := by
  induction p with
  | nil => cases h : completeLines nl bs <;> simp [h]
  | cons b p ih =>
      rw [List.mem_cons, not_or] at hp
      rw [List.cons_append, completeLines_cons (Ne.symm hp.1), ih hp.2]
      cases completeLines nl bs <;> rfl

/-- A line of text and its end marker in front of a stream are its first
line. -/
theorem completeLines_line {p : List α} (hp : nl ∉ p) (bs : List α) :
    completeLines nl (p ++ nl :: bs) = p :: completeLines nl bs := by
  rw [completeLines_append hp, completeLines_newline]
  simp

/-- Every symbol of a line is one of the stream's. -/
theorem mem_of_mem_completeLines (bs : List α) :
    ∀ l ∈ completeLines nl bs, ∀ b ∈ l, b ∈ bs := by
  induction bs with
  | nil => intro l hl; rw [completeLines_nil] at hl; cases hl
  | cons c bs ih =>
      intro l hl b hb
      by_cases hc : c = nl
      · rw [hc, completeLines_newline, List.mem_cons] at hl
        rcases hl with rfl | hl
        · cases hb
        · exact List.mem_cons_of_mem _ (ih l hl b hb)
      · rw [completeLines_cons hc] at hl
        cases h : completeLines nl bs with
        | nil => rw [h] at hl; cases hl
        | cons m ms =>
            rw [h] at ih hl
            rcases List.mem_cons.mp hl with rfl | hl
            · rcases List.mem_cons.mp hb with rfl | hb
              · exact List.mem_cons_self
              · exact List.mem_cons_of_mem _ (ih m List.mem_cons_self b hb)
            · exact List.mem_cons_of_mem _ (ih l (List.mem_cons_of_mem _ hl) b hb)

/-! ## When the reader is right -/

/-- The reader hands over one line for every end marker, right or
wrong. -/
theorem length_frame (bs : List α) : ∀ p : List α,
    (frame nl cap p bs).2.length = (completeLines nl bs).length := by
  induction bs with
  | nil => intro p; rfl
  | cons b bs ih =>
      intro p
      by_cases hb : b = nl
      · rw [hb, frame_newline, completeLines_newline, List.length_cons, List.length_cons, ih]
      · rw [completeLines_cons hb, List.length_modifyHead]
        by_cases h : cap ≤ p.length + 1
        · rw [frame_overflow _ hb h, ih]
        · rw [frame_keep _ hb (by omega), ih]

/-- **Where every line fits, the lines handed over are the lines of the
stream.** What is pending counts as the front of the first of them. -/
theorem frame_eq_completeLines (bs : List α) : ∀ p : List α, nl ∉ p → p.length < cap →
    (∀ l ∈ completeLines nl (p ++ bs), l.length < cap) →
    (frame nl cap p bs).2 = completeLines nl (p ++ bs) := by
  induction bs with
  | nil =>
      intro p hp _ _
      rw [completeLines_append hp, completeLines_nil]
      rfl
  | cons b bs ih =>
      intro p hp hlen hfit
      by_cases hb : b = nl
      · rw [hb] at hfit ⊢
        rw [completeLines_line hp] at hfit ⊢
        rw [frame_newline, ih [] List.not_mem_nil (by rw [List.length_nil]; omega)
          fun l hl => hfit l (List.mem_cons_of_mem _ hl)]
        rfl
      · have hp' : nl ∉ p ++ [b] := by
          simp only [List.mem_append, List.mem_singleton, not_or]
          exact ⟨hp, fun h => hb h.symm⟩
        have hassoc : p ++ b :: bs = (p ++ [b]) ++ bs := by simp
        rw [hassoc] at hfit ⊢
        by_cases h : cap ≤ p.length + 1
        · -- an overflow inside the first line: that line does not fit, so there is none
          have hnone : completeLines nl bs = [] := by
            cases hl : completeLines nl bs with
            | nil => rfl
            | cons m ms =>
                have hlong := hfit ((p ++ [b]) ++ m) (by
                  rw [completeLines_append hp', hl]; exact List.mem_cons_self)
                simp only [List.length_append, List.length_singleton] at hlong
                omega
          have hempty : (frame nl cap [] bs).2 = [] := by
            rw [← List.length_eq_zero_iff, length_frame, hnone, List.length_nil]
          rw [frame_overflow _ hb h, hempty, completeLines_append hp', hnone]
          rfl
        · rw [frame_keep _ hb (by omega)]
          exact ih (p ++ [b]) hp'
            (by rw [List.length_append, List.length_singleton]; omega) hfit

/-- **The reader is right exactly when every line fits.** The lines it
hands over are the stream's, with the ones that do not fit left out, just
in case there are none of these: an overflow never drops the line it
happens in, since its end marker hands over what is left of it. -/
theorem frame_eq_filter_iff (hcap : 0 < cap) (stream : List α) :
    (frame nl cap [] stream).2 =
        (completeLines nl stream).filter (fun l => decide (l.length < cap)) ↔
      ∀ l ∈ completeLines nl stream, l.length < cap := by
  constructor
  · intro h l hl
    have hlen := congrArg List.length h
    rw [length_frame] at hlen
    have hall := List.length_filter_eq_length_iff.mp hlen.symm
    exact of_decide_eq_true (hall l hl)
  · intro h
    rw [frame_eq_completeLines stream [] List.not_mem_nil (by simpa using hcap) (by simpa using h),
      List.nil_append, List.filter_eq_self.mpr fun l hl => decide_eq_true (h l hl)]

/-! ## What follows the last marker -/

/-- What follows the last end marker of a stream. -/
def unterminated (nl : α) (stream : List α) : List α := stream.rtakeWhile (· ≠ nl)

theorem unterminated_of_notMem {p : List α} (hp : nl ∉ p) : unterminated nl p = p := by
  refine List.rtakeWhile_eq_self_iff.mpr fun b hb => ?_
  simpa using ne_of_mem_of_not_mem hb hp

theorem completeLines_of_notMem {p : List α} (hp : nl ∉ p) : completeLines nl p = [] := by
  have h : completeLines nl (p ++ []) = _ := completeLines_append hp []
  rwa [List.append_nil, completeLines_nil] at h

theorem unterminated_line (p bs : List α) :
    unterminated nl (p ++ nl :: bs) = unterminated nl bs := by
  rw [unterminated, unterminated, List.rtakeWhile, List.rtakeWhile, List.reverse_append,
    List.reverse_cons, List.append_assoc, List.takeWhile_append]
  split
  · rename_i h
    have hself : bs.reverse.takeWhile (· ≠ nl) = bs.reverse :=
      (List.takeWhile_sublist _).eq_of_length h
    rw [hself, List.singleton_append, List.takeWhile_cons_of_neg (by simp), List.append_nil]
  · rfl

theorem notMem_unterminated (nl : α) (stream : List α) : nl ∉ unterminated nl stream := by
  intro h
  have hne := List.mem_rtakeWhile_imp h
  simp at hne

/-- **A stream is its lines.** What holds of a stretch without end markers,
and of a stream with one more line in front, holds of every stream. -/
theorem lines_induction (nl : α) {P : List α → Prop} (hrest : ∀ p, nl ∉ p → P p)
    (hline : ∀ p bs, nl ∉ p → P bs → P (p ++ nl :: bs)) (stream : List α) : P stream := by
  induction hlen : stream.length using Nat.strong_induction_on generalizing stream with
  | _ n ih =>
    by_cases hmem : nl ∈ stream
    · obtain ⟨p, bs, rfl, hp⟩ := List.eq_append_cons_of_mem hmem
      refine hline p bs hp (ih bs.length ?_ bs rfl)
      rw [← hlen, List.length_append, List.length_cons]
      omega
    · exact hrest stream hmem

/-- **A stream goes on behind its last marker**: its lines stay, and more of
it adds the lines that begin with what followed them. -/
theorem completeLines_append_unterminated (nl : α) (xs ys : List α) :
    completeLines nl (xs ++ ys) =
        completeLines nl xs ++ completeLines nl (unterminated nl xs ++ ys) ∧
      unterminated nl (xs ++ ys) = unterminated nl (unterminated nl xs ++ ys) := by
  induction xs using lines_induction nl with
  | hrest p hp =>
      rw [unterminated_of_notMem hp, completeLines_of_notMem hp]
      exact ⟨rfl, rfl⟩
  | hline p bs hp ih =>
      rw [List.append_assoc, List.cons_append, completeLines_line hp, completeLines_line hp,
        unterminated_line, unterminated_line, ih.1, ih.2]
      exact ⟨rfl, rfl⟩

/-! ## Prefixes and encodings -/

/-- A stream's lines begin with those of each of its beginnings. -/
theorem completeLines_prefix (xs : List α) : ∀ ys : List α,
    completeLines nl xs <+: completeLines nl (xs ++ ys) := by
  induction xs with
  | nil => intro ys; rw [completeLines_nil]; exact List.nil_prefix
  | cons b xs ih =>
      intro ys
      rw [List.cons_append]
      by_cases hb : b = nl
      · rw [hb, completeLines_newline, completeLines_newline, List.prefix_cons_inj]
        exact ih ys
      · rw [completeLines_cons hb, completeLines_cons hb]
        have hpre := ih ys
        cases h : completeLines nl xs with
        | nil => exact List.nil_prefix
        | cons m ms =>
            rw [h] at hpre
            obtain ⟨t, ht⟩ := hpre
            rw [← ht]
            exact ⟨t, rfl⟩

/-- The stream that sends the given texts, each followed by the end
marker. -/
def encode (nl : α) (texts : List (List α)) : List α :=
  texts.flatMap (· ++ [nl])

/-- Sending texts and reading the lines of what was sent gives the
texts. -/
theorem completeLines_encode {texts : List (List α)} (h : ∀ l ∈ texts, nl ∉ l) :
    completeLines nl (encode nl texts) = texts := by
  induction texts with
  | nil => rfl
  | cons l texts ih =>
      rw [encode, List.flatMap_cons, List.append_assoc, List.singleton_append,
        completeLines_line (h l List.mem_cons_self)]
      exact congrArg (l :: ·) (ih fun m hm => h m (List.mem_cons_of_mem _ hm))

/-- Nothing follows the last of the texts. -/
theorem unterminated_encode (texts : List (List α)) :
    unterminated nl (encode nl texts) = [] := by
  induction texts with
  | nil => rfl
  | cons l texts ih =>
      rw [encode, List.flatMap_cons, List.append_assoc, List.singleton_append, unterminated_line]
      exact ih

omit [DecidableEq α] in
theorem encode_append (texts texts' : List (List α)) :
    encode nl (texts ++ texts') = encode nl texts ++ encode nl texts' :=
  List.flatMap_append

/-- **A reader of texts that fit hands them over in order**: wherever it
stands in the stream that sends them, the lines handed over are the first
of them. -/
theorem frame_prefix_of_encode {texts : List (List α)} {bs : List α} (hcap : 0 < cap)
    (hwhole : ∀ l ∈ texts, nl ∉ l) (hfit : ∀ l ∈ texts, l.length < cap)
    (hbs : bs <+: encode nl texts) : (frame nl cap [] bs).2 <+: texts := by
  have hlines : completeLines nl bs <+: texts := by
    obtain ⟨rest, hrest⟩ := hbs
    have hpre : completeLines nl bs <+: completeLines nl (bs ++ rest) :=
      completeLines_prefix bs rest
    rwa [hrest, completeLines_encode hwhole] at hpre
  rw [frame_eq_completeLines bs [] List.not_mem_nil (by simpa using hcap)
    fun l hl => hfit l (hlines.subset hl)]
  exact hlines

end Framing

end Realraum
