import Mathlib.Data.List.Basic
import Mathlib.Data.List.Induction
/-!
# A dispatcher with one command outstanding

What a serial command queue is for, with everything else taken away:
requests are pushed at the end of a queue, the one at the head may be
written out once, and the head is popped, written or not. A trace of
these actions that starts at the empty queue keeps the requests in order,
writes none twice and never has two of them written and not yet popped
(`Runs.writes_eq`, `Runs.pop_between`).
-/

namespace Realraum

namespace Dispatch

variable {α : Type*}

/-- What a dispatcher does. A pop says whether the popped request had
been written. -/
inductive Act (α : Type*)
  | push (a : α)
  | write (a : α)
  | pop (a : α) (written : Bool)
  deriving DecidableEq

/-- **One action**, on a queue whose entries carry whether they were
written. -/
inductive Move : List (α × Bool) → Act α → List (α × Bool) → Prop
  | push (q : List (α × Bool)) (a : α) : Move q (.push a) (q ++ [(a, false)])
  | write (q : List (α × Bool)) (a : α) : Move ((a, false) :: q) (.write a) ((a, true) :: q)
  | pop (q : List (α × Bool)) (a : α) (b : Bool) : Move ((a, b) :: q) (.pop a b) q

/-- **A trace of actions** from one queue to another. -/
inductive Runs (q : List (α × Bool)) : List (Act α) → List (α × Bool) → Prop
  | refl : Runs q [] q
  | snoc {t : List (Act α)} {x : Act α} {r r' : List (α × Bool)} :
      Runs q t r → Move r x r' → Runs q (t ++ [x]) r'

/-- The requests pushed. -/
def pushes (t : List (Act α)) : List α :=
  t.filterMap fun | .push a => some a | _ => none

/-- The requests written. -/
def writes (t : List (Act α)) : List α :=
  t.filterMap fun | .write a => some a | _ => none

/-- The requests popped. -/
def pops (t : List (Act α)) : List α :=
  t.filterMap fun | .pop a _ => some a | _ => none

/-- The requests popped after they were written. -/
def served (t : List (Act α)) : List α :=
  t.filterMap fun | .pop a true => some a | _ => none

/-- The entries of a queue that were written. -/
def written (q : List (α × Bool)) : List α :=
  (q.filter Prod.snd).map Prod.fst

/-- The requests written and not popped since. -/
def outstanding [DecidableEq α] (t : List (Act α)) : List α :=
  (writes t).filter fun a => .pop a true ∉ t

variable {q r : List (α × Bool)} {t t' : List (Act α)} {a b : α}

theorem writes_append (t t' : List (Act α)) : writes (t ++ t') = writes t ++ writes t' :=
  List.filterMap_append

theorem served_append (t t' : List (Act α)) : served (t ++ t') = served t ++ served t' :=
  List.filterMap_append

theorem mem_pushes : a ∈ pushes t ↔ .push a ∈ t := by
  induction t with
  | nil => simp [pushes]
  | cons x t ih => cases x <;> simp_all [pushes]

theorem mem_writes : a ∈ writes t ↔ .write a ∈ t := by
  induction t with
  | nil => simp [writes]
  | cons x t ih => cases x <;> simp_all [writes]

theorem mem_pops : a ∈ pops t ↔ ∃ w, .pop a w ∈ t := by
  induction t with
  | nil => simp [pops]
  | cons x t ih => cases x <;> simp_all [pops, exists_or]

theorem runs_nil : Runs q [] r ↔ r = q := by
  constructor
  · intro h
    generalize ht : ([] : List (Act α)) = t at h
    cases h with
    | refl => rfl
    | snoc => simp at ht
  · rintro rfl
    exact .refl

/-- The last action of a run. -/
theorem runs_snoc {x : Act α} : Runs q (t ++ [x]) r ↔ ∃ m, Runs q t m ∧ Move m x r := by
  constructor
  · intro h
    generalize ht : t ++ [x] = u at h
    cases h with
    | refl => simp at ht
    | snoc hr hm =>
        obtain ⟨rfl, hx⟩ := List.append_inj' ht rfl
        cases hx
        exact ⟨_, hr, hm⟩
  · exact fun ⟨_, hr, hm⟩ => hr.snoc hm

/-- A run splits where its trace does. -/
theorem runs_append : Runs q (t ++ t') r ↔ ∃ m, Runs q t m ∧ Runs m t' r := by
  induction t' using List.reverseRecOn generalizing r with
  | nil => simp [runs_nil]
  | append_singleton t' x ih =>
      simp only [← List.append_assoc, runs_snoc, ih]
      constructor
      · rintro ⟨n, ⟨m, h₁, h₂⟩, hm⟩
        exact ⟨m, h₁, n, h₂, hm⟩
      · rintro ⟨m, h₁, n, h₂, hm⟩
        exact ⟨n, ⟨m, h₁, h₂⟩, hm⟩

/-- The first action of a run. -/
theorem runs_cons {x : Act α} : Runs q (x :: t) r ↔ ∃ m, Move q x m ∧ Runs m t r := by
  rw [← List.singleton_append, runs_append]
  refine exists_congr fun m => and_congr_left' ?_
  rw [← List.nil_append [x], runs_snoc]
  simp [runs_nil]

/-! ## The queue keeps its order -/

/-- **Only the head is ever written.** -/
theorem Runs.tail_unwritten (h : Runs [] t q) : ∀ x ∈ q.tail, x.2 = false := by
  induction h with
  | refl => simp
  | @snoc t x r r' _ hm ih =>
      cases hm with
      | push _ a =>
          cases r with
          | nil => simp
          | cons y r =>
              intro x hx
              rcases List.mem_append.mp hx with hx | hx
              · exact ih x hx
              · rw [List.mem_singleton.mp hx]
      | write q a => exact ih
      | pop q a b => exact fun x hx => ih x (List.mem_of_mem_tail hx)

/-- **First in, first out**: what was pushed is what was popped and what
waits, in order. -/
theorem Runs.pushes_eq (h : Runs [] t q) : pushes t = pops t ++ q.map Prod.fst := by
  induction h with
  | refl => rfl
  | snoc _ hm ih =>
      simp only [pushes, pops, List.filterMap_append] at ih ⊢
      cases hm <;> simp [ih]

/-- A queue of which only the head may be written has at most the head
written. -/
theorem written_cons (hq : ∀ x ∈ q, x.2 = false) (b : Bool) :
    written ((a, b) :: q) = if b then [a] else [] := by
  have hnil : q.filter Prod.snd = [] := List.filter_eq_nil_iff.mpr fun x hx => by simp [hq x hx]
  cases b <;> simp [written, hnil]

/-- **Every request written was popped since or is the written head**,
and this in the order of the writes. -/
theorem Runs.writes_eq (h : Runs [] t q) : writes t = served t ++ written q := by
  induction h with
  | refl => rfl
  | @snoc t x r r' hr hm ih =>
      simp only [writes, served, List.filterMap_append] at ih ⊢
      cases hm with
      | push q a => simp [ih, written]
      | write q a =>
          have htail : ∀ x ∈ q, x.2 = false := hr.tail_unwritten
          rw [written_cons htail] at ih ⊢
          simp [ih]
      | pop _ a b =>
          -- what comes to the head was not written, so nothing is outstanding now
          have htail : ∀ x ∈ r', x.2 = false := hr.tail_unwritten
          have hnil : written r' = [] := by
            rw [written, List.filter_eq_nil_iff.mpr fun x hx => by simp [htail x hx]]
            rfl
          rw [written_cons htail] at ih
          cases b <;> simp [ih, hnil]

/-- **Requests are written in the order they were pushed in.** -/
theorem Runs.writes_sublist (h : Runs [] t q) : (writes t).Sublist (pushes t) := by
  rw [h.writes_eq, h.pushes_eq]
  refine List.Sublist.append ?_ (List.filter_sublist.map _)
  have hserved : ∀ u : List (Act α), (served u).Sublist (pops u) := by
    intro u
    induction u with
    | nil => exact List.Sublist.refl _
    | cons x u ih =>
        rcases x with a | a | ⟨a, - | -⟩
        · exact ih
        · exact ih
        · exact ih.cons a
        · exact ih.cons_cons a
  exact hserved t

/-- **At most one request is written and not yet popped.** -/
theorem Runs.length_written_le (h : Runs [] t q) : (written q).length ≤ 1 := by
  cases q with
  | nil => simp [written]
  | cons x q =>
      obtain ⟨a, b⟩ := x
      have htail : ∀ y ∈ q, y.2 = false := h.tail_unwritten
      rw [written_cons htail]
      cases b <;> simp

/-- What was popped as written is not outstanding. -/
theorem pop_mem_of_mem_served (h : a ∈ served t) : Act.pop a true ∈ t := by
  obtain ⟨x, hx, ha⟩ := List.mem_filterMap.mp h
  rcases x with b | b | ⟨b, - | -⟩
  · cases ha
  · cases ha
  · cases ha
  · cases ha
    exact hx

/-- So at no time are two requests outstanding. -/
theorem Runs.length_outstanding_le [DecidableEq α] (h : Runs [] t q) :
    (outstanding t).length ≤ 1 := by
  have hserved : (served t).filter (fun a => decide (Act.pop a true ∉ t)) = [] :=
    List.filter_eq_nil_iff.mpr fun a ha => by simpa using pop_mem_of_mem_served ha
  rw [outstanding, h.writes_eq, List.filter_append, hserved, List.nil_append]
  exact Nat.le_trans (List.length_filter_le _ _) h.length_written_le

/-- A written entry was written on the way. -/
theorem Runs.mem_writes (h : Runs [] t q) (ha : (a, true) ∈ q) : a ∈ writes t := by
  rw [h.writes_eq]
  refine List.mem_append_right _ ?_
  rw [written, List.mem_map]
  exact ⟨(a, true), List.mem_filter.mpr ⟨ha, rfl⟩, rfl⟩

/-- **A request popped as written had been written.** -/
theorem Runs.write_of_pop (h : Runs [] (t ++ .pop a true :: t') q) : a ∈ writes t := by
  obtain ⟨r, hr, h⟩ := runs_append.mp h
  obtain ⟨_, hm, -⟩ := runs_cons.mp h
  cases hm
  exact hr.mem_writes List.mem_cons_self

/-! ## One at a time -/

/-- A written head stays where it is until it is popped. -/
theorem Runs.head_of_not_popped (h : Runs ((a, true) :: q) t r) (hpop : Act.pop a true ∉ t) :
    ∃ q', r = (a, true) :: q' := by
  induction h with
  | refl => exact ⟨q, rfl⟩
  | snoc _ hm ih =>
      rw [List.mem_append, not_or] at hpop
      obtain ⟨q', rfl⟩ := ih hpop.1
      cases hm with
      | push _ c => exact ⟨q' ++ [(c, false)], rfl⟩
      | pop => exact absurd List.mem_cons_self hpop.2

/-- **Between two writes the first request was popped.** -/
theorem Runs.pop_between {t₁ t₂ t₃ : List (Act α)}
    (h : Runs [] (t₁ ++ .write a :: (t₂ ++ .write b :: t₃)) q) : Act.pop a true ∈ t₂ := by
  by_contra hpop
  obtain ⟨_, -, h⟩ := runs_append.mp h
  obtain ⟨_, hm, h⟩ := runs_cons.mp h
  cases hm
  obtain ⟨_, h, h₃⟩ := runs_append.mp h
  obtain ⟨_, rfl⟩ := h.head_of_not_popped hpop
  obtain ⟨_, hm, -⟩ := runs_cons.mp h₃
  cases hm

end Dispatch

end Realraum
