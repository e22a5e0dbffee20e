import Realraum.Common.Framing
import Realraum.Daemon.Helpers.State
/-!
# Helpers — the reading loop is the framing reader

`readLoop` over a buffer does what `Framing.frame` does over the buffer's
contents, and stores below `sizeof(buf)` only. Which way it is left is a
matter of where the first line feed of the input stands.
-/

namespace Realraum

namespace Daemon

open Framing

variable {p q : Port} {b : ReadBuffer} {x : UInt8} {xs : List UInt8}

namespace ReadBuffer

@[simp] theorem store_offset (i : ℕ) : (b.store i x).offset = b.offset := rfl

@[simp] theorem reset_offset : b.reset.offset = 0 := rfl

@[simp] theorem reset_contents : b.reset.contents = [] := rfl

@[simp] theorem length_contents : b.contents.length = b.offset := by
  simp [contents]

/-- A store at or behind the offset is not among the contents. -/
theorem contents_store {i : ℕ} (h : b.offset ≤ i) : (b.store i x).contents = b.contents := by
  refine List.map_congr_left fun j hj => ?_
  have hlt : j < b.offset := List.mem_range.mp hj
  have hji : j ≠ i := by omega
  simp [store, hji]

/-- A byte stored at the offset joins the contents when the offset moves
on. -/
theorem contents_push :
    ReadBuffer.contents { b.store b.offset x with offset := b.offset + 1 } = b.contents ++ [x] := by
  rw [contents, List.range_succ, List.map_append, List.map_singleton]
  congr 1
  · exact contents_store (b := b) le_rfl
  · simp [store]

end ReadBuffer

/-! ## One call of the loop -/

/-- Everything the loop does is a `read()` into the port's buffer, at an
index inside it where the loop starts inside it. -/
theorem readLoop_events (xs : List UInt8) : ∀ b : ReadBuffer, ∀ e ∈ (readLoop p b xs).2.2,
    ∃ i, (e = .dry p i ∨ ∃ x, e = .read p i x) ∧ (b.offset < sizeofBuf → i < sizeofBuf) := by
  induction xs with
  | nil => intro b e he; exact ⟨b.offset, .inl (List.mem_singleton.mp he), id⟩
  | cons x xs ih =>
      intro b e he
      simp only [readLoop] at he
      split at he
      · exact ⟨b.offset, .inr ⟨x, List.mem_singleton.mp he⟩, id⟩
      · split at he
        · exact ⟨b.offset, .inr ⟨x, List.mem_singleton.mp he⟩, id⟩
        · rename_i hfull
          rcases List.mem_cons.mp he with rfl | he
          · exact ⟨b.offset, .inr ⟨x, rfl⟩, id⟩
          · obtain ⟨i, hi, hlt⟩ := ih _ e he
            exact ⟨i, hi, fun _ => hlt (Nat.lt_of_not_le hfull)⟩

/-- The offset stays below `sizeof(buf)`. -/
theorem readLoop_offset_lt (xs : List UInt8) : ∀ b : ReadBuffer, b.offset < sizeofBuf →
    (readLoop p b xs).2.1.offset < sizeofBuf := by
  induction xs with
  | nil => intro b hb; exact hb
  | cons x xs ih =>
      intro b hb
      simp only [readLoop]
      split
      · exact hb
      · split
        · exact Nat.zero_lt_of_lt hb
        · rename_i hfull
          exact ih _ (Nat.lt_of_not_le hfull)

@[simp] theorem bytesOf_read_cons (i : ℕ) (es : List Event) :
    bytesOf p (.read p i x :: es) = x :: bytesOf p es := by
  simp [bytesOf]

/-- What a call reads is the front of its input. -/
theorem bytesOf_readLoop_prefix (xs : List UInt8) : ∀ b : ReadBuffer,
    bytesOf p (readLoop p b xs).2.2 <+: xs := by
  induction xs with
  | nil => intro b; exact List.nil_prefix
  | cons x xs ih =>
      intro b
      simp only [readLoop]
      split
      · rw [bytesOf_read_cons, List.prefix_cons_inj]
        exact List.nil_prefix
      · split
        · rw [bytesOf_read_cons, List.prefix_cons_inj]
          exact List.nil_prefix
        · rw [bytesOf_read_cons, List.prefix_cons_inj]
          exact ih _

/-- **The loop is the reader.** Over the bytes it read, the framing
reader ends with the buffer's contents pending, or, where the loop is
left at a line feed, with nothing pending and these contents handed
over. -/
theorem frame_readLoop (xs : List UInt8) : ∀ b : ReadBuffer,
    frame linefeed sizeofBuf b.contents (bytesOf p (readLoop p b xs).2.2) =
      if (readLoop p b xs).1 = .newline then ([], [(readLoop p b xs).2.1.contents])
      else ((readLoop p b xs).2.1.contents, []) := by
  -- byte by byte: the line ends, the buffer is full, or the byte is kept
  induction xs with
  | nil => intro b; rfl
  | cons x xs ih =>
      intro b
      simp only [readLoop]
      split
      · rename_i hx
        subst hx
        rw [bytesOf_read_cons, frame_newline, if_pos rfl, ReadBuffer.contents_store le_rfl]
        rfl
      · rename_i hx
        split
        · rename_i hfull
          rw [bytesOf_read_cons, frame_overflow _ hx (by simpa using hfull)]
          rfl
        · rename_i hfull
          rw [bytesOf_read_cons, frame_keep _ hx (by simpa using hfull),
            ← ReadBuffer.contents_push]
          exact ih _

/-- At a line feed the buffer holds what was in it and the bytes before
the line feed. -/
theorem readLoop_newline_contents (xs : List UInt8) : ∀ b : ReadBuffer,
    (readLoop p b xs).1 = .newline →
    (readLoop p b xs).2.1.contents = b.contents ++ xs.takeWhile (· ≠ linefeed) := by
  induction xs with
  | nil => intro b h; cases h
  | cons x xs ih =>
      intro b h
      simp only [readLoop] at h ⊢
      split at h
      · rename_i hx
        rw [if_pos hx, ReadBuffer.contents_store le_rfl]
        simp [hx]
      · rename_i hx
        rw [if_neg hx]
        split at h
        · cases h
        · rename_i hfull
          rw [if_neg hfull, ih _ h, ReadBuffer.contents_push]
          simp [hx]

/-! ## How the loop is left -/

/-- The loop is left at a line feed just in case a line ends. -/
theorem readLoop_newline_iff (xs : List UInt8) : ∀ b : ReadBuffer, b.offset < sizeofBuf →
    ((readLoop p b xs).1 = .newline ↔ Completes b xs) := by
  -- a full buffer before the line feed is the only way to miss it
  induction xs with
  | nil => intro b _; simp [readLoop, Completes]
  | cons x xs ih =>
      intro b hb
      simp only [readLoop]
      split
      · rename_i hx
        simpa [Completes, hx] using hb
      · rename_i hx
        have hcons : Completes b (x :: xs) ↔ linefeed ∈ xs ∧
            b.offset + 1 + (xs.takeWhile (· ≠ linefeed)).length < sizeofBuf := by
          simp only [Completes, List.mem_cons, Ne.symm hx, false_or, List.takeWhile_cons, ne_eq, hx,
            not_false_eq_true, decide_true, if_true, List.length_cons]
          refine and_congr_right fun _ => ?_
          omega
        rw [hcons]
        split
        · rename_i hfull
          simp only [reduceCtorEq, false_iff, not_and]
          omega
        · rename_i hfull
          exact ih _ (Nat.lt_of_not_le hfull)

/-- And runs dry just in case nothing else stops it; it has read
everything then. -/
theorem readLoop_dry_iff (xs : List UInt8) : ∀ b : ReadBuffer, b.offset < sizeofBuf →
    ((readLoop p b xs).1 = .dry ↔ RunsDry b xs) := by
  -- and with no line feed, the only way not to run dry
  induction xs with
  | nil => intro b hb; simpa [readLoop, RunsDry] using hb
  | cons x xs ih =>
      intro b hb
      simp only [readLoop]
      split
      · rename_i hx
        simp [RunsDry, hx]
      · rename_i hx
        have hcons : RunsDry b (x :: xs) ↔ linefeed ∉ xs ∧
            b.offset + 1 + xs.length < sizeofBuf := by
          simp only [RunsDry, List.mem_cons, Ne.symm hx, false_or, List.length_cons]
          refine and_congr_right fun _ => ?_
          omega
        rw [hcons]
        split
        · rename_i hfull
          simp only [reduceCtorEq, false_iff, not_and]
          omega
        · rename_i hfull
          exact ih _ (Nat.lt_of_not_le hfull)

end Daemon

end Realraum
