import Mathlib.Data.List.Basic
import Mathlib.Logic.Function.Iterate
/-!
# Cyclic redundancy checks

A register into which the bits of a message are shifted: it moves down one
place, and where the bit that falls out differs from the bit that comes in, a
polynomial is added to it. The register is linear in its contents and in the
message, so a change of a message is found if and only if the register does
not come to 0 when the change alone is shifted in. That is so for a change
within as many bits as the register has; for a change of an odd number of
bits, where the polynomial has an odd number of them; and for a change of two
bits, as far apart as the register does not come back to the polynomial.
-/

namespace Realraum

namespace Crc

variable {n k : ℕ} {poly s t : BitVec n} {a b : Bool} {u v : List Bool}

/-! ## The register -/

/-- **A bit is shifted in.** -/
def step (poly s : BitVec n) (b : Bool) : BitVec n :=
  if s.getLsbD 0 ^^ b then (s >>> 1) ^^^ poly else s >>> 1

/-- The register behind a message. -/
def run (poly s : BitVec n) (bits : List Bool) : BitVec n := bits.foldl (step poly) s

theorem run_nil (poly s : BitVec n) : run poly s [] = s := rfl

theorem run_cons (poly s : BitVec n) (b : Bool) (u : List Bool) :
    run poly s (b :: u) = run poly (step poly s b) u := rfl

theorem run_append (poly s : BitVec n) (u v : List Bool) :
    run poly s (u ++ v) = run poly (run poly s u) v := List.foldl_append

/-- The polynomial added or not. -/
theorem step_eq (poly s : BitVec n) (b : Bool) :
    step poly s b = (s >>> 1) ^^^ if s.getLsbD 0 ^^ b then poly else 0#n := by
  rw [step]
  split
  · rfl
  · rw [BitVec.xor_zero]

/-- **A step is linear.** -/
theorem step_xor (poly s t : BitVec n) (a b : Bool) :
    step poly (s ^^^ t) (a ^^ b) = step poly s a ^^^ step poly t b := by
  rw [step_eq, step_eq, step_eq, BitVec.ushiftRight_xor_distrib, BitVec.getLsbD_xor]
  have hadd : ∀ c d : Bool, (if c ^^ d then poly else 0#n) =
      (if c then poly else 0#n) ^^^ if d then poly else 0#n := by
    intro c d
    cases c <;> cases d <;> simp
  have hsum : ((s.getLsbD 0 ^^ t.getLsbD 0) ^^ (a ^^ b)) =
      ((s.getLsbD 0 ^^ a) ^^ (t.getLsbD 0 ^^ b)) := by
    cases s.getLsbD 0 <;> cases t.getLsbD 0 <;> cases a <;> cases b <;> rfl
  rw [hsum, hadd]
  ac_rfl

/-- **The register is linear** in its contents and the message. -/
theorem run_xor (h : u.length = v.length) :
    run poly (s ^^^ t) (List.zipWith (· ^^ ·) u v) = run poly s u ^^^ run poly t v := by
  induction u generalizing s t v with
  | nil =>
      cases v with
      | nil => rfl
      | cons b v => cases h
  | cons a u ih =>
      cases v with
      | nil => cases h
      | cons b v =>
          rw [List.zipWith_cons_cons, run_cons, run_cons, run_cons, step_xor]
          exact ih (Nat.succ.inj h)

/-- **Two messages with one check** differ by a message with the check 0. -/
theorem run_zipWith_eq_zero_iff (h : u.length = v.length) :
    run poly 0#n (List.zipWith (· ^^ ·) u v) = 0#n ↔ run poly 0#n u = run poly 0#n v := by
  have hxor : run poly (0#n ^^^ 0#n) (List.zipWith (· ^^ ·) u v) =
      run poly 0#n u ^^^ run poly 0#n v := run_xor h
  rw [BitVec.xor_zero] at hxor
  rw [hxor, BitVec.xor_eq_zero_iff]

/-- Messages that differ nowhere are the same. -/
theorem eq_of_differences (h : u.length = v.length)
    (hnone : ∀ b ∈ List.zipWith (· ^^ ·) u v, b = false) : u = v := by
  induction u generalizing v with
  | nil => exact (List.eq_nil_of_length_eq_zero h.symm).symm
  | cons a u ih =>
      cases v with
      | nil => cases h
      | cons b v =>
          rw [List.zipWith_cons_cons] at hnone
          have hhead := hnone (a ^^ b) List.mem_cons_self
          have htail := ih (Nat.succ.inj h) fun c hc => hnone c (List.mem_cons_of_mem _ hc)
          rw [htail]
          cases a <;> cases b <;> simp_all

/-! ## Bits that bring the register to 0 -/

theorem step_zero_false (poly : BitVec n) : step poly 0#n false = 0#n := by
  rw [step_eq]
  simp

theorem run_zero_replicate (poly : BitVec n) (k : ℕ) :
    run poly 0#n (List.replicate k false) = 0#n := by
  induction k with
  | zero => rfl
  | succ k ih => rw [List.replicate_succ, run_cons, step_zero_false, ih]

/-- The place that is free behind a step says whether the polynomial was
added. -/
theorem getLsbD_step (hpoly : poly.msb = true) (s : BitVec n) (b : Bool) :
    (step poly s b).getLsbD (n - 1) = (s.getLsbD 0 ^^ b) := by
  rw [BitVec.msb_eq_getLsbD_last] at hpoly
  have hpos : 0 < n := by
    by_contra hzero
    obtain rfl : n = 0 := by omega
    simp at hpoly
  have htop : (s >>> 1).getLsbD (n - 1) = false := by
    rw [BitVec.getLsbD_ushiftRight]
    exact BitVec.getLsbD_of_ge _ _ (by omega)
  rw [step_eq, BitVec.getLsbD_xor, htop, Bool.false_xor]
  cases s.getLsbD 0 ^^ b with
  | true => exact hpoly
  | false => exact BitVec.getLsbD_zero

/-- **What bits bring a register to 0**: as many as it has, or fewer, if they
are those it holds. -/
theorem getLsbD_of_run_eq_zero (hpoly : poly.msb = true) (hlength : u.length ≤ n)
    (h : run poly s u = 0#n) (hk : k < n) : s.getLsbD k = u.getD k false := by
  induction u generalizing s k with
  | nil =>
      rw [run_nil] at h
      rw [h, BitVec.getLsbD_zero, List.getD_nil]
  | cons b u ih =>
      rw [List.length_cons] at hlength
      have hstep := fun j (hj : j < n) => ih (Nat.le_of_succ_le hlength) h hj
      -- nothing was added, since the free place is behind the message
      have hfree := hstep (n - 1) (by omega)
      rw [getLsbD_step hpoly, List.getD_eq_getElem?_getD,
        List.getElem?_eq_none (by omega), Option.getD_none] at hfree
      cases k with
      | zero =>
          rw [List.getD_cons_zero]
          cases hbit : s.getLsbD 0 <;> cases b <;> simp_all
      | succ k =>
          have hnext := hstep k (by omega)
          rw [step_eq, hfree, if_neg Bool.false_ne_true, BitVec.xor_zero,
            BitVec.getLsbD_ushiftRight, Nat.add_comm] at hnext
          rw [hnext, List.getD_cons_succ]

/-- Zeros alone do not bring it there. -/
theorem eq_zero_of_run_replicate (hpoly : poly.msb = true)
    (h : run poly s (List.replicate k false) = 0#n) : s = 0#n := by
  induction k generalizing s with
  | zero => exact h
  | succ k ih =>
      rw [List.replicate_succ, run_cons] at h
      have hpos : 0 < n := by
        by_contra hzero
        obtain rfl : n = 0 := by omega
        simp [BitVec.msb_eq_getLsbD_last] at hpoly
      have hstep : run poly s [false] = 0#n := ih h
      have hone : [false].length ≤ n := Nat.succ_le_of_lt hpos
      refine BitVec.eq_of_getLsbD_eq fun i hi => ?_
      rw [getLsbD_of_run_eq_zero hpoly hone hstep hi, BitVec.getLsbD_zero]
      cases i <;> simp

/-- **A burst is found**: bits that are all within the width of the register
do not bring it to 0. -/
theorem burst_eq_of_run_eq_zero {burst : List Bool} {c d : ℕ} (hpoly : poly.msb = true)
    (hlength : burst.length ≤ n)
    (h : run poly 0#n (List.replicate c false ++ (burst ++ List.replicate d false)) = 0#n) :
    ∀ b ∈ burst, b = false := by
  rw [run_append, run_zero_replicate, run_append] at h
  have hburst := eq_zero_of_run_replicate hpoly h
  intro b hb
  obtain ⟨k, hk, rfl⟩ := List.mem_iff_getElem.mp hb
  have hbit := getLsbD_of_run_eq_zero hpoly hlength hburst (Nat.lt_of_lt_of_le hk hlength)
  rw [BitVec.getLsbD_zero, List.getD_eq_getElem?_getD, List.getElem?_eq_getElem hk,
    Option.getD_some] at hbit
  exact hbit.symm

/-! ## The register behind its own contents -/

/-- **The register is 0 behind its own bits**, the lowest first. -/
theorem run_own (poly s : BitVec n) : run poly s ((List.range n).map s.getLsbD) = 0#n := by
  have hall : ∀ m, run poly s ((List.range m).map s.getLsbD) = s >>> m := by
    intro m
    induction m with
    | zero => rw [List.range_zero, List.map_nil, run_nil, BitVec.ushiftRight_zero]
    | succ m ih =>
        have hbit : ((s >>> m).getLsbD 0 ^^ s.getLsbD m) = false := by
          rw [BitVec.getLsbD_ushiftRight, Nat.add_zero, Bool.xor_self]
        rw [List.range_succ, List.map_append, run_append, ih, List.map_singleton, run_cons,
          run_nil, step, hbit, if_neg Bool.false_ne_true, BitVec.shiftRight_add]
  rw [hall]
  exact BitVec.ushiftRight_eq_zero (Nat.le_refl n)

/-! ## An odd number of bits -/

/-- Whether a list has an odd number of ones. -/
def parity (u : List Bool) : Bool := u.foldr (· ^^ ·) false

/-- The parity of a register. -/
def bitParity (s : BitVec n) : Bool := parity ((List.range n).map s.getLsbD)

theorem parity_append (u v : List Bool) : parity (u ++ v) = (parity u ^^ parity v) := by
  induction u with
  | nil => exact (Bool.false_xor _).symm
  | cons b u ih =>
      show (b ^^ parity (u ++ v)) = ((b ^^ parity u) ^^ parity v)
      rw [ih, Bool.xor_assoc]

theorem parity_eq_odd (u : List Bool) : parity u = decide (u.count true % 2 = 1) := by
  induction u with
  | nil => rfl
  | cons b u ih =>
      show (b ^^ parity u) = _
      rw [ih, List.count_cons]
      cases b with
      | true =>
          simp only [Bool.true_xor, beq_self_eq_true, if_true]
          rw [← decide_not]
          exact decide_eq_decide.mpr (by omega)
      | false => simp

theorem bitParity_xor (s t : BitVec n) : bitParity (s ^^^ t) = (bitParity s ^^ bitParity t) := by
  have hall : ∀ l : List ℕ, parity (l.map (s ^^^ t).getLsbD) =
      (parity (l.map s.getLsbD) ^^ parity (l.map t.getLsbD)) := by
    intro l
    induction l with
    | nil => rfl
    | cons i l ih =>
        show ((s ^^^ t).getLsbD i ^^ parity (l.map _)) =
          ((s.getLsbD i ^^ parity (l.map _)) ^^ (t.getLsbD i ^^ parity (l.map _)))
        rw [ih, BitVec.getLsbD_xor, Bool.xor_assoc, Bool.xor_assoc,
          Bool.xor_left_comm (t.getLsbD i)]
  exact hall (List.range n)

/-- The bit that falls out is missing behind a shift. -/
theorem bitParity_shift (s : BitVec n) : bitParity (s >>> 1) = (bitParity s ^^ s.getLsbD 0) := by
  have hsucc : parity ((List.range (n + 1)).map s.getLsbD) = bitParity s := by
    rw [List.range_succ, List.map_append, parity_append, List.map_singleton,
      BitVec.getLsbD_of_ge s n (Nat.le_refl n)]
    exact Bool.xor_false _
  have hcons : parity ((List.range (n + 1)).map s.getLsbD) =
      (s.getLsbD 0 ^^ bitParity (s >>> 1)) := by
    rw [List.range_succ_eq_map, List.map_cons, List.map_map]
    have hmap : (List.range n).map (s.getLsbD ∘ Nat.succ) =
        (List.range n).map (s >>> 1).getLsbD := by
      refine List.map_congr_left fun i _ => ?_
      rw [BitVec.getLsbD_ushiftRight, Nat.add_comm]
      rfl
    rw [hmap]
    rfl
  rw [← hsucc, hcons]
  cases s.getLsbD 0 <;> cases bitParity (s >>> 1) <;> rfl

/-- **The register keeps the parity of the message**, where the polynomial has
an odd number of bits. -/
theorem bitParity_run (hodd : bitParity poly = true) :
    bitParity (run poly s u) = (bitParity s ^^ parity u) := by
  induction u generalizing s with
  | nil => exact (Bool.xor_false _).symm
  | cons b u ih =>
      have hstep : bitParity (step poly s b) = (bitParity s ^^ b) := by
        rw [step]
        split
        · rename_i hmix
          rw [bitParity_xor, hodd, bitParity_shift]
          cases bitParity s <;> cases hbit : s.getLsbD 0 <;> cases b <;> simp_all
        · rename_i hmix
          rw [bitParity_shift]
          cases bitParity s <;> cases hbit : s.getLsbD 0 <;> cases b <;> simp_all
      rw [run_cons, ih, hstep]
      exact Bool.xor_assoc _ _ _

/-! ## Two bits -/

theorem run_replicate (poly s : BitVec n) (k : ℕ) :
    run poly s (List.replicate k false) = (fun s => step poly s false)^[k] s := by
  induction k generalizing s with
  | zero => rfl
  | succ k ih => rw [List.replicate_succ, run_cons, ih, Function.iterate_succ_apply]

/-- **The polynomial does not come back** in fewer than so many steps. -/
def Apart (poly : BitVec n) (m : ℕ) : Prop :=
  ∀ k < m, 0 < k → (fun s => step poly s false)^[k] poly ≠ poly

instance (poly : BitVec n) (m : ℕ) : Decidable (Apart poly m) :=
  inferInstanceAs (Decidable (∀ k < m, _))

theorem step_zero_true (poly : BitVec n) : step poly 0#n true = poly := by
  rw [step_eq]
  simp

/-- **Two bits are found**, unless they are as far apart as that. -/
theorem run_two_ne_zero {m c d : ℕ} (hpoly : poly.msb = true) (hapart : Apart poly m)
    (hk : k + 1 < m) :
    run poly 0#n (List.replicate c false ++
      true :: (List.replicate k false ++ true :: List.replicate d false)) ≠ 0#n := by
  intro h
  rw [run_append, run_zero_replicate, run_cons, run_append, run_cons, step_zero_true] at h
  have hzero := eq_zero_of_run_replicate hpoly h
  rw [run_replicate] at hzero
  have hsplit := step_xor poly ((fun s => step poly s false)^[k] poly) 0#n false true
  rw [BitVec.xor_zero, Bool.false_xor, hzero, step_zero_true, eq_comm,
    BitVec.xor_eq_zero_iff] at hsplit
  refine hapart (k + 1) hk (Nat.succ_pos k) ?_
  rw [Function.iterate_succ_apply']
  exact hsplit

/-- A list begins with zeros, up to its first one. -/
theorem exists_of_count (h : u.count true = k + 1) :
    ∃ c v, u = List.replicate c false ++ true :: v ∧ v.count true = k := by
  induction u with
  | nil => cases h
  | cons b u ih =>
      cases b with
      | true => exact ⟨0, u, rfl, by simpa using h⟩
      | false =>
          obtain ⟨c, v, rfl, hv⟩ := ih (by simpa using h)
          exact ⟨c + 1, v, rfl, hv⟩

theorem eq_replicate_of_count (h : u.count true = 0) : u = List.replicate u.length false := by
  refine List.eq_replicate_iff.mpr ⟨rfl, fun b hb => ?_⟩
  cases b with
  | true => exact absurd hb (List.count_eq_zero.mp h)
  | false => rfl

/-- **Up to three bits are found** in a message that is short enough. -/
theorem run_ne_zero_of_count {m : ℕ} (hpoly : poly.msb = true) (hodd : bitParity poly = true)
    (hapart : Apart poly m) (hlength : u.length ≤ m) (hpos : 0 < u.count true)
    (hle : u.count true ≤ 3) : run poly 0#n u ≠ 0#n := by
  by_cases htwo : u.count true = 2
  · obtain ⟨c, v, rfl, hv⟩ := exists_of_count htwo
    obtain ⟨k, w, rfl, hw⟩ := exists_of_count hv
    rw [eq_replicate_of_count hw]
    refine run_two_ne_zero hpoly hapart ?_
    simp only [List.length_append, List.length_replicate, List.length_cons] at hlength
    omega
  · intro h
    have hparity := bitParity_run (u := u) (s := 0#n) hodd
    rw [h, parity_eq_odd, decide_eq_true (by omega)] at hparity
    simp at hparity

end Crc

end Realraum
