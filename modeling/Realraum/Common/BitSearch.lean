import Mathlib.Data.List.Lex
import Mathlib.Data.Set.Basic
import Mathlib.Order.BooleanAlgebra.Basic
/-!
# Searching a set of words bit by bit

A set of words of one length can be asked, behind the bits of a prefix, which
of the two bits come next in some word that begins so. Where both do there is
a fork, and a walk has to prefer one of them. A walk that prefers 0 at every
fork finds the least word. A walk that goes with the word found last up to
the last fork where that took 0, takes 1 there and 0 behind it, finds the
next word in the order of the words; and there is no such fork in the last
word only.
-/

namespace Realraum

namespace BitSearch

variable {D : Set (List Bool)} {choice : List Bool → Bool} {u w x y prev : List Bool} {b : Bool}
variable {n d i : ℕ} {z : Option ℕ}

/-! ## Forks -/

/-- Words with both bits begin like this. -/
def Fork (D : Set (List Bool)) (u : List Bool) : Prop :=
  (∃ v, u ++ false :: v ∈ D) ∧ ∃ v, u ++ true :: v ∈ D

/-- **The order of words is decided at one bit.** -/
theorem lt_iff (h : x.length = y.length) :
    x < y ↔ ∃ u s t, x = u ++ false :: s ∧ y = u ++ true :: t := by
  constructor
  · intro hlt
    induction x generalizing y with
    | nil =>
        rw [List.eq_nil_of_length_eq_zero h.symm] at hlt
        exact absurd hlt (lt_irrefl _)
    | cons a x ih =>
        cases y with
        | nil => cases h
        | cons c y =>
            rcases List.cons_lt_cons_iff.mp hlt with hhead | ⟨rfl, htail⟩
            · obtain ⟨rfl, rfl⟩ := Bool.lt_iff.mp hhead
              exact ⟨[], x, y, rfl, rfl⟩
            · obtain ⟨u, s, t, rfl, rfl⟩ := ih (Nat.succ.inj h) htail
              exact ⟨a :: u, s, t, rfl, rfl⟩
  · rintro ⟨u, s, t, rfl, rfl⟩
    exact List.append_left_lt (List.cons_lt_cons_iff.mpr (.inl (Bool.lt_iff.mpr ⟨rfl, rfl⟩)))

/-- And two words of the set are told apart at a fork. -/
theorem exists_fork (hx : x ∈ D) (hy : y ∈ D) (h : x.length = y.length) (hlt : x < y) :
    ∃ u s t, x = u ++ false :: s ∧ y = u ++ true :: t ∧ Fork D u := by
  obtain ⟨u, s, t, rfl, rfl⟩ := (lt_iff h).mp hlt
  exact ⟨u, s, t, rfl, rfl, ⟨s, hx⟩, ⟨t, hy⟩⟩

/-! ## Walks -/

/-- **The word goes as preferred** at every fork it passes. -/
def GoesAs (D : Set (List Bool)) (choice : List Bool → Bool) (w : List Bool) : Prop :=
  ∀ i b, w[i]? = some b → Fork D (w.take i) → b = choice (w.take i)

/-- The word takes 0 at a fork, behind so many bits. -/
def Junction (D : Set (List Bool)) (w : List Bool) (i : ℕ) : Prop :=
  w[i]? = some false ∧ Fork D (w.take i)

/-- The last fork at which the word takes 0, if there is one. -/
def LastJunction (D : Set (List Bool)) (w : List Bool) : Option ℕ → Prop
  | none => ∀ i, ¬ Junction D w i
  | some d => Junction D w d ∧ ∀ i, Junction D w i → i ≤ d

/-- What a search prefers: 0 at first, and then to go with the word found
last up to its last junction, where it takes 1. -/
def prefer (prev : List Bool) : Option ℕ → List Bool → Bool
  | none, _ => false
  | some d, u => if u.length < d then prev.getD u.length false else u.length = d

theorem GoesAs.nil : GoesAs D choice [] := fun i b h => by simp at h

/-- One more bit. -/
theorem GoesAs.concat (h : GoesAs D choice u) (hb : Fork D u → b = choice u) :
    GoesAs D choice (u ++ [b]) := by
  intro i c hc hfork
  rcases Nat.lt_or_ge i u.length with hlt | hge
  · rw [List.take_append_of_le_length (Nat.le_of_lt hlt)] at hfork ⊢
    rw [List.getElem?_append_left hlt] at hc
    exact h i c hc hfork
  · rw [List.getElem?_append_right hge, List.getElem?_singleton] at hc
    split at hc
    · obtain rfl : b = c := Option.some.inj hc
      obtain rfl : i = u.length := by omega
      rw [List.take_append_of_le_length (Nat.le_refl _), List.take_length] at hfork ⊢
      exact hb hfork
    · cases hc

theorem junction_concat_iff :
    Junction D (u ++ [b]) i ↔ Junction D u i ∨ i = u.length ∧ b = false ∧ Fork D u := by
  rw [Junction, Junction]
  rcases Nat.lt_trichotomy i u.length with hlt | rfl | hgt
  · rw [List.take_append_of_le_length (Nat.le_of_lt hlt), List.getElem?_append_left hlt]
    simp [Nat.ne_of_lt hlt]
  · rw [List.take_append_of_le_length (Nat.le_refl _), List.take_length]
    simp
  · rw [List.getElem?_eq_none (by simp; omega), List.getElem?_eq_none (Nat.le_of_lt hgt)]
    simp [Nat.ne_of_gt hgt]

theorem LastJunction.nil : LastJunction D [] none := fun i h => by simp [Junction] at h

theorem Junction.lt_length (h : Junction D u i) : i < u.length :=
  (List.getElem?_eq_some_iff.mp h.1).1

/-- The bit is a junction. -/
theorem LastJunction.concat_fork (h : Fork D u) :
    LastJunction D (u ++ [false]) (some u.length) := by
  refine ⟨junction_concat_iff.mpr (.inr ⟨rfl, rfl, h⟩), fun i hi => ?_⟩
  have hlt := hi.lt_length
  rw [List.length_append, List.length_singleton] at hlt
  omega

/-- The bit is none. -/
theorem LastJunction.concat (h : LastJunction D u z) (hb : Fork D u → b = true) :
    LastJunction D (u ++ [b]) z := by
  have hiff : ∀ i, Junction D (u ++ [b]) i ↔ Junction D u i := by
    intro i
    rw [junction_concat_iff, or_iff_left]
    rintro ⟨-, rfl, hfork⟩
    exact Bool.false_ne_true (hb hfork)
  cases z with
  | none => exact fun i hi => h i ((hiff i).mp hi)
  | some d => exact ⟨(hiff d).mpr h.1, fun i hi => h.2 i ((hiff i).mp hi)⟩

/-! ## What a walk finds -/

/-- A word that goes so takes the preferred bit where it is told apart from
another word of the set. -/
theorem GoesAs.bit (h : GoesAs D choice (u ++ b :: x)) (hfork : Fork D u) : b = choice u := by
  have hbit := h u.length b (by simp)
  rw [List.take_left] at hbit
  exact hbit hfork

/-- **A first walk finds the least word.** -/
theorem GoesAs.least (hlength : ∀ x ∈ D, x.length = n) (hw : w ∈ D)
    (h : GoesAs D (prefer prev none) w) (hx : x ∈ D) : w ≤ x := by
  by_contra hlt
  obtain ⟨u, s, t, rfl, rfl, hfork⟩ :=
    exists_fork hx hw ((hlength x hx).trans (hlength w hw).symm) (not_le.mp hlt)
  exact Bool.true_eq_false.mp (h.bit hfork)

/-- **Without a junction a word is the greatest.** -/
theorem LastJunction.greatest (hlength : ∀ x ∈ D, x.length = n) (hw : w ∈ D)
    (h : LastJunction D w none) (hx : x ∈ D) : x ≤ w := by
  by_contra hlt
  obtain ⟨u, s, t, rfl, rfl, hfork⟩ :=
    exists_fork hw hx ((hlength w hw).trans (hlength x hx).symm) (not_le.mp hlt)
  refine h u.length ⟨by simp, ?_⟩
  rwa [List.take_left]

/-- A bit of a word that is in front of another one. -/
theorem exists_of_lt_length {c : Bool} {s t : List Bool} (h : u ++ b :: s = y ++ c :: t)
    (hlt : y.length < u.length) : ∃ v, u = y ++ c :: v := by
  rcases List.append_eq_append_iff.mp h with ⟨v, rfl, -⟩ | ⟨v, rfl, hv⟩
  · simp only [List.length_append] at hlt
    omega
  · cases v with
    | nil => simp at hlt
    | cons e v =>
        obtain rfl : c = e := (List.cons.inj hv).1
        exact ⟨v, rfl⟩

/-- **Up to the last junction** it goes with the word found last. -/
theorem GoesAs.take_eq (hprev : prev ∈ D) (hw : w ∈ D) (hlength : w.length = prev.length)
    (h : GoesAs D (prefer prev (some d)) (w.take i)) (hi : i ≤ d) : w.take i = prev.take i := by
  by_contra hne
  obtain ⟨u, c, s, t, hu, hu', hfork⟩ : ∃ u c s t, w = u ++ c :: s ∧ prev = u ++ (!c) :: t ∧
      Fork D u := by
    rcases lt_trichotomy w prev with hlt | rfl | hgt
    · obtain ⟨u, s, t, hu, hu', hfork⟩ := exists_fork hw hprev hlength hlt
      exact ⟨u, false, s, t, hu, hu', hfork⟩
    · exact absurd rfl hne
    · obtain ⟨u, s, t, hu, hu', hfork⟩ := exists_fork hprev hw hlength.symm hgt
      exact ⟨u, true, t, s, hu', hu, hfork⟩
  have hshort : u.length < i := by
    by_contra hge
    rw [hu, hu', List.take_append_of_le_length (Nat.le_of_not_lt hge),
      List.take_append_of_le_length (Nat.le_of_not_lt hge)] at hne
    exact hne rfl
  have htake : (w.take i).take u.length = u := by
    rw [List.take_take, Nat.min_eq_left (Nat.le_of_lt hshort), hu, List.take_left]
  have hbit := h u.length c (by rw [List.getElem?_take, if_pos hshort, hu]; simp)
    (htake.symm ▸ hfork)
  rw [htake, prefer, if_pos (Nat.lt_of_lt_of_le hshort hi), hu'] at hbit
  cases c <;> simp at hbit

/-- Where the last walk took its last 0, this one takes 1, unless it has left
it before. -/
theorem GoesAs.ne_of_lastJunction (h : GoesAs D (prefer prev (some d)) w)
    (hlast : LastJunction D prev (some d)) (htake : w.take d = prev.take d) :
    w[d]? ≠ some false := by
  intro hbit
  have hd := hlast.1.lt_length
  have hone := h d false hbit (htake ▸ hlast.1.2)
  rw [prefer, htake, List.length_take, Nat.min_eq_left (Nat.le_of_lt hd),
    if_neg (Nat.lt_irrefl d)] at hone
  simp at hone

/-- **The next walk finds the next word.** -/
theorem GoesAs.next (hlength : ∀ x ∈ D, x.length = n) (hprev : prev ∈ D)
    (hlast : LastJunction D prev (some d)) (hw : w ∈ D)
    (h : GoesAs D (prefer prev (some d)) w) :
    prev < w ∧ ∀ x ∈ D, prev < x → w ≤ x := by
  have hsame : ∀ x ∈ D, ∀ y ∈ D, x.length = y.length := fun x hx y hy =>
    (hlength x hx).trans (hlength y hy).symm
  have hzero : prev[d]? = some false := hlast.1.1
  -- it is told apart from the word found last, and by a 1
  have hlt : prev < w := by
    rcases lt_trichotomy prev w with hlt | rfl | hgt
    · exact hlt
    · exact absurd hzero (h.ne_of_lastJunction hlast rfl)
    · obtain ⟨u, s, t, rfl, rfl, hfork⟩ := exists_fork hw hprev (hsame w hw prev hprev) hgt
      have hbit := h.bit hfork
      rw [prefer] at hbit
      split at hbit
      · simp at hbit
      · rename_i hge
        have hd : d < u.length := by
          have hne : u.length ≠ d := by simpa using hbit
          omega
        refine absurd ?_ (h.ne_of_lastJunction hlast ?_)
        · rwa [List.getElem?_append_left hd] at hzero ⊢
        · rw [List.take_append_of_le_length (Nat.le_of_lt hd),
            List.take_append_of_le_length (Nat.le_of_lt hd)]
  refine ⟨hlt, fun x hx hgt => ?_⟩
  -- which is at the last junction
  obtain ⟨u, s, t, rfl, rfl, hfork⟩ := exists_fork hprev hw (hsame prev hprev w hw) hlt
  obtain rfl : u.length = d := by
    have hbit := h.bit hfork
    rw [prefer] at hbit
    split at hbit
    · simp at hbit
    · simpa using hbit
  by_contra hnot
  obtain ⟨v, s', t', rfl, hv, hfork'⟩ := exists_fork hx hw (hsame x hx _ hw) (not_le.mp hnot)
  have hone : true = prefer (u ++ false :: s) (some u.length) v := by
    rw [hv] at h
    exact h.bit hfork'
  rw [prefer] at hone
  split at hone
  · -- told apart before it: then the word is in front of the one found last
    rename_i hshort
    obtain ⟨v', rfl⟩ := exists_of_lt_length hv hshort
    refine lt_asymm hgt ?_
    rw [List.append_assoc, List.cons_append]
    exact List.append_left_lt (List.cons_lt_cons_iff.mpr (.inl (Bool.lt_iff.mpr ⟨rfl, rfl⟩)))
  · -- told apart there: then the one found last takes a 0 behind it
    obtain ⟨rfl, -⟩ := List.append_inj hv (Eq.symm (by simpa using hone))
    obtain ⟨v', s'', t'', hprev', hx', hfork''⟩ := exists_fork hprev hx (hsame _ hprev _ hx) hgt
    have hle : v'.length ≤ u.length := by
      refine hlast.2 v'.length ⟨?_, ?_⟩
      · rw [hprev']
        simp
      · rw [hprev', List.take_left]
        exact hfork''
    have hbits : ∀ r : List Bool, (u ++ false :: r)[v'.length]? = (u ++ [false])[v'.length]? := by
      intro r
      rw [List.append_cons, List.getElem?_append_left]
      simp only [List.length_append, List.length_singleton]
      omega
    have heq := (hbits s).trans (hbits s').symm
    rw [hprev', hx'] at heq
    simp at heq

/-! ## What is given out one after the other -/

section Sorted

variable {α : Type*} [LinearOrder α] {l : List α} {a : α} {k : ℕ}

/-- The least is the first of a list in order. -/
theorem getElem?_zero_of_least (h : l.Pairwise (· < ·)) (ha : a ∈ l) (hleast : ∀ c ∈ l, a ≤ c) :
    l[0]? = some a := by
  cases l with
  | nil => cases ha
  | cons c l =>
      rcases List.mem_cons.mp ha with rfl | hmem
      · rfl
      · exact absurd (List.rel_of_pairwise_cons h hmem) (not_lt.mpr (hleast c List.mem_cons_self))

/-- The greatest is the last. -/
theorem length_of_greatest (h : l.Pairwise (· < ·)) (ha : l[k]? = some a)
    (hgreatest : ∀ c ∈ l, c ≤ a) : l.length = k + 1 := by
  obtain ⟨hk, rfl⟩ := List.getElem?_eq_some_iff.mp ha
  by_contra hne
  have hlt : k + 1 < l.length := by omega
  have hgt := List.pairwise_iff_getElem.mp h k (k + 1) hk hlt (Nat.lt_succ_self k)
  exact absurd hgt (not_lt.mpr (hgreatest _ (List.getElem_mem hlt)))

/-- The least of those that are greater is the next. -/
theorem getElem?_succ_of_next {c : α} (h : l.Pairwise (· < ·)) (ha : l[k]? = some a)
    (hc : c ∈ l) (hlt : a < c) (hnext : ∀ e ∈ l, a < e → c ≤ e) : l[k + 1]? = some c := by
  obtain ⟨hk, rfl⟩ := List.getElem?_eq_some_iff.mp ha
  obtain ⟨i, hi, rfl⟩ := List.mem_iff_getElem.mp hc
  have hmono := List.pairwise_iff_getElem.mp h
  have hki : k < i := by
    rcases Nat.lt_trichotomy k i with hki | rfl | hik
    · exact hki
    · exact absurd hlt (lt_irrefl _)
    · exact absurd (hmono i k hi hk hik) (lt_asymm hlt)
  have hk' : k + 1 < l.length := Nat.lt_of_le_of_lt hki hi
  refine List.getElem?_eq_some_iff.mpr ⟨hk', ?_⟩
  rcases Nat.eq_or_lt_of_le hki with heq | hlt'
  · exact getElem_congr_idx heq
  · exact absurd (hmono (k + 1) i hk' hi hlt')
      (not_lt.mpr (hnext _ (List.getElem_mem hk') (hmono k (k + 1) hk hk' (Nat.lt_succ_self k))))

end Sorted

end BitSearch

end Realraum
