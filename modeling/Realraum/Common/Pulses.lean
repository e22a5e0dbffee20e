import Mathlib.Data.List.SplitBy
import Mathlib.Order.Basic
/-!
# The pulses of a line

A line that is on or off, sampled at a steady rate, goes through pulses: it
is on for some samples and off for those up to the next pulse. A train of
pulses is cut where the line goes on, and the pulses are found again
(`pulses_train`). Two codes on such a line, each with pulses of its own
lengths, agree on what a pulse says: it is a bit by which of its two phases
is the longer one, and a sync by how much longer the pause is.
-/

namespace Realraum

namespace Pulses

/-- **A pulse**: so many samples on, and so many off behind them. -/
structure Pulse where
  on : ℕ
  off : ℕ
  deriving DecidableEq

namespace Pulse

/-- The samples of a pulse. -/
def levels (p : Pulse) : List Bool := List.replicate p.on true ++ List.replicate p.off false

/-- The line does go on, and off. -/
structure Proper (p : Pulse) : Prop where
  on_pos : 0 < p.on
  off_pos : 0 < p.off

instance : DecidablePred Proper := fun p =>
  decidable_of_iff (0 < p.on ∧ 0 < p.off)
    ⟨fun h => ⟨h.1, h.2⟩, fun h => ⟨h.on_pos, h.off_pos⟩⟩

/-- A pulse longer than its pause is 1, and a shorter one is 0. -/
def read (p : Pulse) : Option Bool :=
  if p.off < p.on then some true else if p.on < p.off then some false else none

/-- The pause is more than so many times as long as the pulse. -/
def IsSync (k : ℕ) (p : Pulse) : Prop := k * p.on < p.off

instance (k : ℕ) (p : Pulse) : Decidable (p.IsSync k) := inferInstanceAs (Decidable (_ < _))

end Pulse

/-- The samples of a train of pulses. -/
def train (ps : List Pulse) : List Bool := ps.flatMap Pulse.levels

/-- **The pulses of a line**: it is cut where it goes on. -/
def pulses (levels : List Bool) : List Pulse :=
  (levels.splitBy fun a b => a || !b).map fun piece => ⟨piece.count true, piece.count false⟩

example : pulses [true, true, false, true, false, false] = [⟨2, 1⟩, ⟨1, 2⟩] := by decide

variable {p q : Pulse} {ps : List Pulse}

theorem train_cons (p : Pulse) (ps : List Pulse) : train (p :: ps) = p.levels ++ train ps := rfl

theorem train_append (ps qs : List Pulse) : train (ps ++ qs) = train ps ++ train qs :=
  List.flatMap_append

theorem length_levels (p : Pulse) : p.levels.length = p.on + p.off := by
  rw [Pulse.levels, List.length_append, List.length_replicate, List.length_replicate]

/-- A train of pulses that all take the same time. -/
theorem length_train {n : ℕ} (h : ∀ p ∈ ps, p.on + p.off = n) :
    (train ps).length = ps.length * n := by
  induction ps with
  | nil => exact (Nat.zero_mul n).symm
  | cons p ps ih =>
      rw [train_cons, List.length_append, length_levels, h p List.mem_cons_self,
        ih fun q hq => h q (List.mem_cons_of_mem p hq), List.length_cons, Nat.succ_mul,
        Nat.add_comm]

/-! ## Finding the pulses again -/

theorem count_levels (p : Pulse) :
    (⟨p.levels.count true, p.levels.count false⟩ : Pulse) = p := by
  simp [Pulse.levels, List.count_replicate]

/-- The line goes off during a pulse, and not on again. -/
theorem isChain_levels (p : Pulse) : p.levels.IsChain fun a b => (a || !b) = true := by
  rw [Pulse.levels, List.isChain_append]
  refine ⟨List.isChain_replicate_of_rel _ rfl, List.isChain_replicate_of_rel _ rfl, ?_⟩
  intro a _ b hb
  rw [List.eq_of_mem_replicate (List.mem_of_mem_head? hb), Bool.not_false, Bool.or_true]

/-- It goes on from one pulse to the next. -/
theorem Pulse.Proper.cut (hp : p.Proper) (hq : q.Proper) :
    ∃ ha hb, (p.levels.getLast ha || !q.levels.head hb) = false := by
  have hon : List.replicate q.on true ≠ [] := fun h => hq.on_pos.ne' (by simpa using h)
  have hoff : List.replicate p.off false ≠ [] := fun h => hp.off_pos.ne' (by simpa using h)
  refine ⟨List.append_ne_nil_of_right_ne_nil _ hoff, List.append_ne_nil_of_left_ne_nil hon _, ?_⟩
  simp [Pulse.levels, List.head_append_of_ne_nil hon, List.getLast_append_of_ne_nil _ hoff]

/-- **The pulses of a train are found again.** -/
theorem pulses_train (h : ∀ p ∈ ps, p.Proper) : pulses (train ps) = ps := by
  have hcut : (ps.map Pulse.levels).flatten.splitBy (fun a b => a || !b) =
      ps.map Pulse.levels := by
    refine List.splitBy_flatten ?_ ?_ ?_
    · intro hmem
      obtain ⟨p, hp, hnil⟩ := List.mem_map.mp hmem
      have hon : p.on = 0 := by
        rw [Pulse.levels, List.append_eq_nil_iff, List.replicate_eq_nil_iff] at hnil
        exact hnil.1
      exact (h p hp).on_pos.ne' hon
    · intro piece hpiece
      obtain ⟨p, -, rfl⟩ := List.mem_map.mp hpiece
      exact isChain_levels p
    · rw [List.isChain_map]
      exact (List.pairwise_of_forall_mem_list fun p hp q hq =>
        (h p hp).cut (h q hq)).isChain
  rw [pulses, train, List.flatMap_def, hcut, List.map_map]
  exact (List.map_congr_left fun p _ => count_levels p).trans (List.map_id' ps)

/-! ## A code of two lengths -/

variable {short long k : ℕ}

/-- A bit: long and short for 1, short and long for 0. -/
def bitPulse (short long : ℕ) (bit : Bool) : Pulse :=
  if bit then ⟨long, short⟩ else ⟨short, long⟩

theorem bitPulse_proper (hshort : 0 < short) (hlong : 0 < long) (bit : Bool) :
    (bitPulse short long bit).Proper := by
  cases bit with
  | true => exact ⟨hlong, hshort⟩
  | false => exact ⟨hshort, hlong⟩

theorem length_map_bitPulse (bits : List Bool) :
    (train (bits.map (bitPulse short long))).length = bits.length * (short + long) := by
  rw [length_train (n := short + long), List.length_map]
  intro p hp
  obtain ⟨bit, -, rfl⟩ := List.mem_map.mp hp
  cases bit with
  | true => exact Nat.add_comm long short
  | false => rfl

theorem map_bitPulse_proper (hshort : 0 < short) (hlong : 0 < long) (bits : List Bool) :
    ∀ p ∈ bits.map (bitPulse short long), p.Proper := by
  intro p hp
  obtain ⟨bit, -, rfl⟩ := List.mem_map.mp hp
  exact bitPulse_proper hshort hlong bit

/-- **A bit is read as it was sent**, whatever the two lengths are. -/
theorem read_bitPulse (h : short < long) (bit : Bool) :
    (bitPulse short long bit).read = some bit := by
  cases bit with
  | true => exact if_pos h
  | false => exact (if_neg (Nat.lt_asymm h)).trans (if_pos h)

theorem map_read_bitPulse (h : short < long) (bits : List Bool) :
    (bits.map (bitPulse short long)).map Pulse.read = bits.map some := by
  rw [List.map_map]
  exact List.map_congr_left fun bit _ => read_bitPulse h bit

/-- No bit is a sync, for a ratio that its lengths do not exceed. -/
theorem not_isSync_bitPulse (h : short ≤ long) (hk : long ≤ k * short) (hpos : 0 < k)
    (bit : Bool) : ¬ (bitPulse short long bit).IsSync k := by
  cases bit with
  | true => exact Nat.not_lt.mpr (h.trans (Nat.le_mul_of_pos_left long hpos))
  | false => exact Nat.not_lt.mpr hk

theorem map_bitPulse_not_isSync (h : short ≤ long) (hk : long ≤ k * short) (hpos : 0 < k)
    (bits : List Bool) : ∀ p ∈ bits.map (bitPulse short long), ¬ p.IsSync k := by
  intro p hp
  obtain ⟨bit, -, rfl⟩ := List.mem_map.mp hp
  exact not_isSync_bitPulse h hk hpos bit

end Pulses

end Realraum
