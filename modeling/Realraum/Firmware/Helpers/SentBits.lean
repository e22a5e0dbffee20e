import Mathlib.Data.Nat.Bitwise
import Mathlib.Tactic.Ring
import Realraum.Firmware.Model.IRremote
/-!
# The firmware — the bits of an infrared code

A sender goes through the bits of its data from the top one on, and a decoder
shifts them in again.
-/

namespace Realraum

namespace Firmware

variable {data : UInt32} {n : ℕ}

/-- The top bits of a word. -/
def topBits : ℕ → UInt32 → List Bool
  | 0, _ => []
  | n + 1, data => topBit data :: topBits n (data <<< 1)

@[simp] theorem length_topBits (n : ℕ) : ∀ data, (topBits n data).length = n := by
  induction n with
  | zero => exact fun data => rfl
  | succ n ih => exact fun data => congrArg (· + 1) (ih _)

/-- The loop of a sender. -/
theorem sendBits_eq (bit : ℕ → Bool → List (Level × ℕ)) (n : ℕ) : ∀ i data,
    sendBits bit n i data = ((topBits n data).zipIdx i).flatMap fun x => bit x.2 x.1 := by
  induction n with
  | zero => exact fun i data => rfl
  | succ n ih =>
      intro i data
      rw [sendBits, ih, topBits, List.zipIdx_cons, List.flatMap_cons]

/-- One that does not look at the index. -/
theorem sendBits_const (bit : Bool → List (Level × ℕ)) (n : ℕ) (i : ℕ) (data : UInt32) :
    sendBits (fun _ => bit) n i data = (topBits n data).flatMap bit := by
  induction n generalizing i data with
  | zero => rfl
  | succ n ih => rw [sendBits, ih, topBits, List.flatMap_cons]

/-! ## Shifting -/

theorem toNat_shiftLeft_one (data : UInt32) : (data <<< 1).toNat = 2 * (data.toNat % 2 ^ 31) := by
  rw [UInt32.toNat_shiftLeft, Nat.shiftLeft_eq]
  have hlt := data.toNat_lt
  have hone : (1 : UInt32).toNat % 32 = 1 := rfl
  rw [hone]
  omega

theorem topBit_eq (data : UInt32) : topBit data = decide (2 ^ 31 ≤ data.toNat) := by
  have hbits : (data &&& 0x80000000).toNat = if 2 ^ 31 ≤ data.toNat then 2 ^ 31 else 0 := by
    have hmask : (0x80000000 : UInt32).toNat = 2 ^ 31 := rfl
    rw [UInt32.toNat_and, hmask, Nat.and_two_pow, Nat.testBit_eq_decide_div_mod_eq]
    have hlt := data.toNat_lt
    split
    · rename_i hle
      have hdiv : data.toNat / 2 ^ 31 % 2 = 1 := by omega
      rw [hdiv]
      rfl
    · rename_i hlt'
      have hdiv : data.toNat / 2 ^ 31 % 2 = 0 := by omega
      rw [hdiv]
      rfl
  rw [topBit, decide_eq_decide, ne_eq, ← UInt32.toNat_inj, hbits]
  split
  · rename_i hle
    exact iff_of_true (by decide) hle
  · rename_i hlt
    exact iff_of_false (by decide) hlt

theorem toNat_shiftIn (data : UInt32) (b : Bool) :
    (shiftIn data b).toNat = 2 * (data.toNat % 2 ^ 31) + b.toNat := by
  cases b with
  | true =>
      have hor := Nat.two_pow_add_eq_or_of_lt (i := 1) (b := 1) (by decide) (data.toNat % 2 ^ 31)
      rw [shiftIn, if_pos rfl, UInt32.toNat_or, toNat_shiftLeft_one]
      exact hor.symm
  | false => exact toNat_shiftLeft_one data

/-- What is shifted in behind other bits. -/
theorem foldl_shiftIn_eq : ∀ {n : ℕ} {data acc : UInt32}, n ≤ 32 →
    ((topBits n data).foldl shiftIn acc).toNat =
      (acc.toNat * 2 ^ n + data.toNat / 2 ^ (32 - n)) % 2 ^ 32 := by
  intro n
  induction n with
  | zero =>
      intro data acc _
      have hdata := data.toNat_lt
      have hacc := acc.toNat_lt
      rw [topBits, List.foldl_nil, Nat.pow_zero, Nat.mul_one, Nat.sub_zero,
        Nat.div_eq_of_lt hdata, Nat.add_zero, Nat.mod_eq_of_lt hacc]
  | succ n ih =>
      intro data acc hn
      have hlt := data.toNat_lt
      have hb : (topBit data).toNat = data.toNat / 2 ^ 31 := by
        rw [topBit_eq]
        by_cases hle : 2 ^ 31 ≤ data.toNat
        · rw [decide_eq_true hle]
          show 1 = _
          omega
        · rw [decide_eq_false hle]
          exact (Nat.div_eq_of_lt (Nat.lt_of_not_le hle)).symm
      obtain ⟨m, hm⟩ := Nat.exists_eq_add_of_le (Nat.le_of_succ_le_succ hn : n ≤ 31)
      have hwidth : 32 - n = m + 1 := by omega
      have hwidth' : 32 - (n + 1) = m := by omega
      rw [topBits, List.foldl_cons, ih (Nat.le_of_succ_le hn), toNat_shiftIn, toNat_shiftLeft_one,
        hb, hwidth, hwidth']
      generalize data.toNat = d
      generalize acc.toNat = x
      have hpow : 2 ^ 31 = 2 ^ m * 2 ^ n := by rw [hm, Nat.add_comm, Nat.pow_add]
      -- the lower bits are where they are in the data, and the top bit is in front of them
      have hlow : 2 * (d % 2 ^ 31) / 2 ^ (m + 1) = d % 2 ^ 31 / 2 ^ m := by
        rw [pow_succ 2 m, Nat.mul_comm (2 ^ m) 2, Nat.mul_div_mul_left _ _ (by decide)]
      have hdata : d / 2 ^ m = 2 ^ n * (d / 2 ^ 31) + d % 2 ^ 31 / 2 ^ m := by
        conv_lhs => rw [← Nat.div_add_mod d (2 ^ 31), hpow, Nat.mul_assoc,
          Nat.mul_add_div (Nat.two_pow_pos m)]
        rw [hpow]
      have hacc : x * 2 ^ (n + 1) =
          2 * (x % 2 ^ 31) * 2 ^ n + 2 ^ n * (x / 2 ^ 31) * 2 ^ 32 := by
        conv_lhs => rw [← Nat.div_add_mod x (2 ^ 31)]
        ring
      rw [hlow, hdata, hacc, Nat.add_mul, Nat.mul_comm (d / 2 ^ 31), Nat.add_right_comm,
        Nat.add_right_comm _ _ (2 ^ n * (d / 2 ^ 31) + _), Nat.add_mul_mod_self_right]
      congr 1
      omega

/-- **The bits are shifted in again**: as many as were sent. -/
theorem foldl_shiftIn (hn : n ≤ 32) :
    ((topBits n data).foldl shiftIn 0).toNat = data.toNat / 2 ^ (32 - n) := by
  rw [foldl_shiftIn_eq hn, show (0 : UInt32).toNat = 0 from rfl, Nat.zero_mul, Nat.zero_add]
  exact Nat.mod_eq_of_lt (Nat.lt_of_le_of_lt (Nat.div_le_self _ _) data.toNat_lt)

/-- The bits of a code that was shifted to the top. -/
theorem foldl_shiftIn_shifted (hpos : 0 < n) (hn : n ≤ 32) :
    (topBits n (data <<< UInt32.ofNat (32 - n))).foldl shiftIn 0 =
      UInt32.ofNat (data.toNat % 2 ^ n) := by
  have hshift : (UInt32.ofNat (32 - n)).toNat % 32 = 32 - n := by
    rw [UInt32.toNat_ofNat', Nat.mod_eq_of_lt (a := 32 - n) (by omega), Nat.mod_eq_of_lt (by omega)]
  have hpow : 2 ^ 32 = 2 ^ n * 2 ^ (32 - n) := by rw [← Nat.pow_add, Nat.add_sub_cancel' hn]
  have hlt : data.toNat % 2 ^ n < 2 ^ 32 :=
    Nat.lt_of_le_of_lt (Nat.mod_le _ _) data.toNat_lt
  rw [← UInt32.toNat_inj, foldl_shiftIn hn, UInt32.toNat_shiftLeft, hshift, Nat.shiftLeft_eq, hpow,
    Nat.mul_mod_mul_right, Nat.mul_div_cancel _ (Nat.two_pow_pos _), UInt32.toNat_ofNat',
    Nat.mod_eq_of_lt hlt]

end Firmware

end Realraum
