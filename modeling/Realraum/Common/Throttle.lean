import Mathlib.Data.List.Basic
import Mathlib.Data.Nat.Notation
/-!
# Passing on what repeats only so often

Values are offered one after the other, and a counter that starts over when
the value changes says how often the same one came before. While the counter
is below a limit the value may be passed on. Over any stretch of one value it
is then passed on at most as often as the limit says, however the stretch is
cut out of the whole.
-/

namespace Realraum

namespace Throttle

variable {α : Type*}

/-- How many of the offers were passed on. -/
def passed (log : List (α × Bool)) : ℕ := log.countP Prod.snd

/-- **The account of the offers so far**: the last of them, and the counter,
which bounds the stretch it ends. -/
structure Account (limit : ℕ) (last : α) (count : ℕ) (log : List (α × Bool)) : Prop where
  last_eq : ∀ x ∈ log.getLast?, x.1 = last
  suffix : ∀ stretch a, stretch <:+ log → (∀ x ∈ stretch, x.1 = a) → passed stretch ≤ count + 1
  bounded : ∀ stretch a, stretch <:+: log → (∀ x ∈ stretch, x.1 = a) → passed stretch ≤ limit

variable {limit count : ℕ} {last a : α} {log stretch : List (α × Bool)} {p : Bool}

theorem passed_append (l m : List (α × Bool)) : passed (l ++ m) = passed l + passed m :=
  List.countP_append

theorem passed_concat_le (l : List (α × Bool)) (x : α × Bool) :
    passed (l ++ [x]) ≤ passed l + 1 := by
  rw [passed_append]
  exact Nat.add_le_add_left (by simpa [passed] using List.countP_le_length (l := [x])) _

/-- Nothing was offered yet. -/
theorem Account.nil : Account limit last count ([] : List (α × Bool)) where
  last_eq := by simp
  suffix stretch a h _ := by
    rw [List.suffix_nil.mp h]
    exact Nat.zero_le _
  bounded stretch a h _ := by
    rw [List.infix_nil.mp h]
    exact Nat.zero_le _

variable [DecidableEq α]

/-- The counter when `a` is offered behind `last`. -/
def next (last : α) (count : ℕ) (a : α) : ℕ := if a = last then count + 1 else 0

/-- A stretch that the next offer goes on with: it is of the last value, or
begins with the offer. -/
theorem Account.stretch_le (h : Account limit last count log) (hstretch : stretch <:+ log)
    (hall : ∀ x ∈ stretch, x.1 = a) : passed stretch ≤ next last count a := by
  rw [next]
  split
  · exact h.suffix stretch a hstretch hall
  · rename_i hne
    -- the last of a nonempty stretch is the last offer
    cases hlast : stretch.getLast? with
    | none =>
        rw [List.getLast?_eq_none_iff.mp hlast]
        exact Nat.le_refl 0
    | some x =>
        have hmem : x ∈ log.getLast? := by
          obtain ⟨front, rfl⟩ := hstretch
          rw [List.getLast?_append, hlast]
          rfl
        have ha : x.1 = a := hall x (List.mem_of_getLast? hlast)
        exact absurd (ha.symm.trans (h.last_eq x hmem)) hne

/-- **One more offer**, which is passed on only below the limit. -/
theorem Account.concat (h : Account limit last count log)
    (hp : p = true → next last count a < limit) :
    Account limit a (next last count a) (log ++ [(a, p)]) := by
  -- what ends with the offer, and what came before it
  have hends : ∀ stretch b, stretch <:+ log ++ [(a, p)] → (∀ x ∈ stretch, x.1 = b) →
      stretch = [] ∨ ∃ front, stretch = front ++ [(a, p)] ∧ front <:+ log ∧
        passed front ≤ next last count a := by
    intro stretch b hstretch hall
    refine (List.suffix_concat_iff.mp hstretch).imp_right fun ⟨front, heq, hfront⟩ => ?_
    subst heq
    have hb : a = b := hall (a, p) (by simp)
    exact ⟨front, rfl, hfront, h.stretch_le hfront fun x hx => by rw [hb, hall x (by simp [hx])]⟩
  refine ⟨by simp, fun stretch b hstretch hall => ?_, fun stretch b hstretch hall => ?_⟩
  · obtain rfl | ⟨front, rfl, -, hle⟩ := hends stretch b hstretch hall
    · exact Nat.zero_le _
    · have hone := passed_concat_le front (a, p)
      omega
  · rcases List.infix_concat_iff.mp hstretch with hstretch | hstretch
    · obtain rfl | ⟨front, rfl, hfront, hle⟩ := hends stretch b hstretch hall
      · exact Nat.zero_le _
      · cases p with
        | false =>
            rw [passed_append]
            exact h.bounded front b hfront.isInfix fun x hx => hall x (by simp [hx])
        | true =>
            have hone := passed_concat_le front (a, true)
            have hlimit := hp rfl
            omega
    · exact h.bounded stretch b hstretch hall

end Throttle

end Realraum
