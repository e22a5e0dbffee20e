import Mathlib.Data.List.Basic
/-!
# Samples in windows

Samples come one by one and are cut into windows of as many each, one behind
the other. What has come of the window that is not complete yet starts over
with the sample that completes it, and whether a report is due is known then.
-/

namespace Realraum

namespace Window

variable {α : Type*} {period : ℕ} {samples : List α}

/-- What has come of the window that is not complete yet. -/
def pending (period : ℕ) (samples : List α) : List α :=
  samples.drop (samples.length - samples.length % period)

/-- The last samples, as many as there are in a window. -/
def last (period : ℕ) (samples : List α) : List α := samples.drop (samples.length - period)

@[simp] theorem length_pending : (pending period samples).length = samples.length % period := by
  have hle := Nat.mod_le samples.length period
  unfold pending
  rw [List.length_drop]
  omega

theorem length_pending_lt (hpos : 0 < period) : (pending period samples).length < period := by
  rw [length_pending]
  exact Nat.mod_lt _ hpos

/-- A count is the last of its window, or the next one is in the window, too. -/
theorem mod_cases (hpos : 0 < period) (n : ℕ) :
    period ∣ n + 1 ∧ n % period + 1 = period ∨
      ¬ period ∣ n + 1 ∧ (n + 1) % period = n % period + 1 := by
  have hlt := Nat.mod_lt n hpos
  have hmod : (n + 1) % period = (n % period + 1) % period := (Nat.mod_add_mod n period 1).symm
  rcases Nat.lt_or_ge (n % period + 1) period with hless | hge
  · refine .inr ⟨fun hdvd => ?_, ?_⟩
    · rw [Nat.dvd_iff_mod_eq_zero, hmod, Nat.mod_eq_of_lt hless] at hdvd
      omega
    · rw [hmod, Nat.mod_eq_of_lt hless]
  · have hlast : n % period + 1 = period := by omega
    refine .inl ⟨?_, hlast⟩
    rw [Nat.dvd_iff_mod_eq_zero, hmod, hlast, Nat.mod_self]

/-- **One more sample** is pending, unless it completes the window. -/
theorem pending_concat (hpos : 0 < period) (x : α) :
    pending period (samples ++ [x]) =
      if period ∣ samples.length + 1 then [] else pending period samples ++ [x] := by
  have hle := Nat.mod_le samples.length period
  unfold pending
  rw [List.length_append, List.length_singleton]
  rcases mod_cases hpos samples.length with ⟨hdvd, -⟩ | ⟨hdvd, hmod⟩
  · rw [if_pos hdvd, Nat.mod_eq_zero_of_dvd hdvd, List.drop_eq_nil_iff, List.length_append,
      List.length_singleton]
    omega
  · rw [if_neg hdvd, hmod, Nat.add_sub_add_right, List.drop_append_of_le_length (by omega)]

/-- **The sample that completes a window** comes behind what is pending. -/
theorem last_concat (hpos : 0 < period) {x : α} (hdvd : period ∣ samples.length + 1) :
    last period (samples ++ [x]) = pending period samples ++ [x] := by
  have hle := Nat.mod_le samples.length period
  have hperiod := Nat.le_of_dvd (Nat.succ_pos _) hdvd
  rcases mod_cases hpos samples.length with ⟨-, hmod⟩ | ⟨hndvd, -⟩
  · have hdrop : samples.length + 1 - period = samples.length - samples.length % period := by
      omega
    unfold last pending
    rw [List.length_append, List.length_singleton, hdrop,
      List.drop_append_of_le_length (by omega)]
  · exact absurd hdvd hndvd

/-- **Each sample was reported as it ought to be**, by what came before it. -/
def Faithful (due : List α → α → Prop) (past : List (α × Bool)) : Prop :=
  ∀ before x after, past = before ++ x :: after → (x.2 = true ↔ due (before.map Prod.fst) x.1)

theorem Faithful.nil {due : List α → α → Prop} : Faithful due [] := by
  intro before x after h
  simp at h

theorem Faithful.concat {due : List α → α → Prop} {past : List (α × Bool)} {sample : α × Bool}
    (h : Faithful due past) (hdue : sample.2 = true ↔ due (past.map Prod.fst) sample.1) :
    Faithful due (past ++ [sample]) := by
  intro before x after heq
  rcases List.eq_nil_or_concat after with rfl | ⟨rest, y, rfl⟩
  · obtain ⟨rfl, hx⟩ := List.append_inj' heq rfl
    obtain rfl : sample = x := List.singleton_inj.mp hx
    exact hdue
  · rw [List.concat_eq_append, ← List.cons_append, ← List.append_assoc] at heq
    exact h before x rest (List.append_inj' heq rfl).1

end Window

end Realraum
