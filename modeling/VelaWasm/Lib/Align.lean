/-
Alignment in machine words: a mask with the low `k` bits cleared rounds down to a multiple of `2 ^ k`, and up
once the mask's complement is added.
-/
import Mathlib.Data.Nat.Bitwise
import Mathlib.Tactic.Common

namespace VelaWasm.Align

/-- Clearing the low `k` bits of a number below `2 ^ n`. -/
theorem and_mask {x k n : Nat} (hk : k ≤ n) (h : x < 2 ^ n) : x &&& (2 ^ n - 2 ^ k) = x / 2 ^ k * 2 ^ k := by
  have hmask : 2 ^ n - 2 ^ k = (2 ^ (n - k) - 1) <<< k := by
    rw [Nat.shiftLeft_eq, Nat.sub_mul, ← Nat.pow_add, Nat.sub_add_cancel hk, Nat.one_mul]
  have hround : x / 2 ^ k * 2 ^ k = (x >>> k) <<< k := by
    rw [Nat.shiftRight_eq_div_pow, Nat.shiftLeft_eq]
  rw [hmask, hround]
  refine Nat.eq_of_testBit_eq fun i => ?_
  rw [Nat.testBit_and, Nat.testBit_shiftLeft, Nat.testBit_shiftLeft, Nat.testBit_shiftRight,
    Nat.testBit_two_pow_sub_one]
  by_cases hi : k ≤ i
  · have hadd : k + (i - k) = i := by omega
    rw [hadd]
    by_cases hlt : i - k < n - k
    · simp [hi, hlt]
    · have hle : 2 ^ n ≤ 2 ^ i := Nat.pow_le_pow_right (by decide) (by omega)
      have hbit : x.testBit i = false := Nat.testBit_lt_two_pow (Nat.lt_of_lt_of_le h hle)
      simp [hi, hbit]
  · simp [hi]

/-- Rounding a 32-bit word down to a multiple of 8. -/
theorem toNat_and_not7 (x : UInt32) : (x &&& ~~~7).toNat = x.toNat / 8 * 8 := by
  have hmask : (~~~7 : UInt32).toNat = 2 ^ 32 - 2 ^ 3 := by decide
  rw [UInt32.toNat_and, hmask]
  exact and_mask (by decide) x.toNat_lt

/-- Rounding a 32-bit word down to a multiple of the power of two `y`. -/
theorem toNat_and_not_sub_one (x : UInt32) {y : UInt32} {k : Nat} (hk : k ≤ 32) (hy : y.toNat = 2 ^ k) :
    (x &&& ~~~(y - 1)).toNat = x.toNat / 2 ^ k * 2 ^ k := by
  have hpos : 0 < 2 ^ k := Nat.two_pow_pos k
  have hone : (y - 1).toNat = 2 ^ k - 1 := by
    rw [UInt32.toNat_sub_of_le _ _ (UInt32.le_iff_toNat_le.2 (by rw [hy]; exact hpos)), hy]
    rfl
  have hmask : (~~~(y - 1)).toNat = 2 ^ 32 - 2 ^ k := by
    rw [UInt32.toNat_not, hone, UInt32.size]
    omega
  rw [UInt32.toNat_and, hmask]
  exact and_mask hk x.toNat_lt

/-- Rounding up to a multiple of `a`. -/
def roundUp (n a : Nat) : Nat := (n + a - 1) / a * a

theorem le_roundUp {n a : Nat} (ha : 0 < a) : n ≤ roundUp n a := by
  have := Nat.lt_div_mul_add (a := n + a - 1) ha
  unfold roundUp
  omega

theorem roundUp_lt {n a : Nat} (ha : 0 < a) : roundUp n a < n + a := by
  have := Nat.div_mul_le_self (n + a - 1) a
  unfold roundUp
  omega

/-- `(x + y - 1) & ~(y - 1)` in 32 bits: the next multiple of `y`, or 0 when there is none. -/
theorem toNat_roundUp (x : UInt32) {y : UInt32} {k : Nat} (hy : y.toNat = 2 ^ k) :
    ((x + y - 1) &&& ~~~(y - 1)).toNat = if x.toNat + y.toNat ≤ 2 ^ 32 then roundUp x.toNat y.toNat else 0 := by
  have hx := x.toNat_lt
  have hlt := y.toNat_lt
  have hpos : 0 < y.toNat := hy ▸ Nat.two_pow_pos k
  have hk : k ≤ 32 := by
    rw [hy] at hlt
    exact (Nat.pow_lt_pow_iff_right (by decide)).1 hlt |>.le
  have hsum : (x + y - 1).toNat = (x.toNat + y.toNat - 1) % 2 ^ 32 := by
    have hone : (1 : UInt32).toNat = 1 := rfl
    rw [UInt32.toNat_sub, UInt32.toNat_add, hone]
    omega
  rw [toNat_and_not_sub_one _ hk hy, hsum, ← hy]
  split_ifs with h
  · rw [Nat.mod_eq_of_lt (by omega)]
    rfl
  · -- what is left of the sum is below `y`
    rw [Nat.div_eq_of_lt (by omega), Nat.zero_mul]

end VelaWasm.Align
