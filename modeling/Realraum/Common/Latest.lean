import Mathlib.Data.List.Basic
/-!
# The latest of some writes

Values are written for keys, one write after the other, and for a key the
latest write counts. A block of writes that gives one value to several keys
makes this the value of each of them and touches no other key.
-/

namespace Realraum

namespace Latest

variable {α β : Type*} [DecidableEq α] {l l' : List (α × β)} {keys : List α} {a : α}

/-- The value that was written last for a key. -/
def latest (l : List (α × β)) (a : α) : Option β := (l.filter (·.1 = a)).getLast?.map Prod.snd

/-- The same value for some keys. -/
def write (b : β) (keys : List α) (f : α → Option β) (a : α) : Option β :=
  if a ∈ keys then some b else f a

@[simp] theorem latest_nil (a : α) : latest ([] : List (α × β)) a = none := rfl

theorem latest_append (l l' : List (α × β)) (a : α) :
    latest (l ++ l') a = (latest l' a).or (latest l a) := by
  unfold latest
  rw [List.filter_append, List.getLast?_append, Option.map_or]

theorem latest_singleton (x : α × β) (a : α) :
    latest [x] a = if x.1 = a then some x.2 else none := by
  unfold latest
  by_cases h : x.1 = a
  · rw [List.filter_cons_of_pos (by simpa using h), if_pos h]
    rfl
  · rw [List.filter_cons_of_neg (by simpa using h), if_neg h]
    rfl

theorem latest_cons (x : α × β) (l : List (α × β)) (a : α) :
    latest (x :: l) a = (latest l a).or (if x.1 = a then some x.2 else none) := by
  rw [← List.singleton_append, latest_append, latest_singleton]

/-- A key that no write is for has no value. -/
theorem latest_eq_none (h : ∀ x ∈ l, x.1 ≠ a) : latest l a = none := by
  have hnone : l.filter (·.1 = a) = [] :=
    List.filter_eq_nil_iff.mpr fun x hx => by simpa using h x hx
  rw [latest, hnone]
  rfl

theorem latest_map (b : β) (keys : List α) (a : α) :
    latest (keys.map (·, b)) a = if a ∈ keys then some b else none := by
  induction keys with
  | nil => rfl
  | cons k keys ih =>
      rw [List.map_cons, latest_cons, ih]
      by_cases hmem : a ∈ keys
      · rw [if_pos hmem, if_pos (List.mem_cons_of_mem k hmem)]
        rfl
      by_cases hk : k = a
      · rw [if_neg hmem, if_pos hk, if_pos (hk ▸ List.mem_cons_self)]
        rfl
      · have hnot : a ∉ k :: keys := by
          rw [List.mem_cons, not_or]
          exact ⟨Ne.symm hk, hmem⟩
        rw [if_neg hmem, if_neg hk, if_neg hnot]
        rfl

/-- **A block of writes** is one write for its keys. -/
theorem latest_append_map (l : List (α × β)) (b : β) (keys : List α) :
    latest (l ++ keys.map (·, b)) = write b keys (latest l) := by
  funext a
  rw [latest_append, latest_map, write]
  by_cases hmem : a ∈ keys
  · rw [if_pos hmem, if_pos hmem]
    rfl
  · rw [if_neg hmem, if_neg hmem]
    rfl

/-- **What a write hides**: writes for its keys that come before it. -/
theorem write_latest_append (b : β) (h : ∀ x ∈ l', x.1 ∈ keys) :
    write b keys (latest (l ++ l')) = write b keys (latest l) := by
  funext a
  unfold write
  by_cases hmem : a ∈ keys
  · rw [if_pos hmem, if_pos hmem]
  · have hnone : latest l' a = none := by
      refine latest_eq_none fun x hx heq => ?_
      exact hmem (heq ▸ h x hx)
    rw [if_neg hmem, if_neg hmem, latest_append, hnone, Option.none_or]

theorem write_reverse (b : β) (keys : List α) (f : α → Option β) :
    write b keys.reverse f = write b keys f := by
  funext a
  unfold write
  simp only [List.mem_reverse]

/-- The same write behind another hides itself. -/
theorem write_write_write (b c : β) (keys keys' : List α) (f : α → Option β) :
    write b keys (write c keys' (write b keys f)) = write b keys (write c keys' f) := by
  funext a
  unfold write
  by_cases hmem : a ∈ keys
  · rw [if_pos hmem, if_pos hmem]
  · simp only [if_neg hmem]

end Latest

end Realraum
