/-
Strings in memory: the bytes from an address on up to the first NUL, in an address space of 2^32 bytes, at
the end of which a string without a NUL ends too. A NUL written into a string cuts it there.
-/
import Mathlib.Algebra.Group.Nat.Defs
import Mathlib.Data.List.TakeWhile
import Mathlib.Logic.Function.Basic
import Mathlib.Tactic.Common

namespace VelaWasm.CString

/-- The bytes up to the first NUL, which are at most `n`. -/
def textFrom (b : UInt32 → UInt8) : ℕ → UInt32 → List UInt8
  | 0, _ => []
  | n + 1, p => if b p = 0 then [] else b p :: textFrom b n (p + 1)

/-- The bytes from `p` to the end of the address space. -/
def bytesFrom (p : UInt32) : ℕ := 2 ^ 32 - p.toNat

/-- The string at `p`. -/
def text (b : UInt32 → UInt8) (p : UInt32) : List UInt8 := textFrom b (bytesFrom p) p

variable {b : UInt32 → UInt8} {n k : ℕ} {p : UInt32}

theorem textFrom_succ (h : b p ≠ 0) : textFrom b (n + 1) p = b p :: textFrom b n (p + 1) := by
  rw [textFrom, if_neg h]

theorem length_textFrom_le : (textFrom b n p).length ≤ n := by
  induction n generalizing p with
  | zero => exact Nat.le_refl _
  | succ n ih =>
    rw [textFrom]
    split_ifs
    · exact Nat.zero_le _
    · exact Nat.succ_le_succ ih

theorem add_ofNat_succ (p : UInt32) (k : ℕ) : p + UInt32.ofNat (k + 1) = p + 1 + UInt32.ofNat k := by
  rw [Nat.add_comm, UInt32.ofNat_add, ← UInt32.add_assoc]
  rfl

theorem toNat_add_ofNat (h : p.toNat + k < 2 ^ 32) : (p + UInt32.ofNat k).toNat = p.toNat + k := by
  have hk : (UInt32.ofNat k).toNat = k := UInt32.toNat_ofNat_of_lt' (by rw [UInt32.size]; omega)
  rw [UInt32.toNat_add, hk, Nat.mod_eq_of_lt h]

theorem textFrom_cut (hn : p.toNat + n ≤ 2 ^ 32) (hk : k < (textFrom b n p).length) :
    textFrom (Function.update b (p + UInt32.ofNat k) 0) n p = (textFrom b n p).take k := by
  induction n generalizing p k with
  | zero => cases hk
  | succ n ih =>
    have hle : k < n + 1 := hk.trans_le length_textFrom_le
    by_cases hb : b p = 0
    · rw [textFrom, if_pos hb] at hk
      cases hk
    rw [textFrom_succ hb] at hk ⊢
    cases k with
    | zero =>
      rw [show p + UInt32.ofNat 0 = p from UInt32.add_zero p, textFrom, Function.update_self, if_pos rfl]
      rfl
    | succ k =>
      -- the NUL is behind the first byte
      have hne : p ≠ p + UInt32.ofNat (k + 1) := by
        intro h
        have := congrArg UInt32.toNat h
        rw [toNat_add_ofNat (by omega)] at this
        omega
      have h1 : (p + 1).toNat = p.toNat + 1 := toNat_add_ofNat (k := 1) (by omega)
      rw [textFrom, Function.update_of_ne hne, if_neg hb, add_ofNat_succ, ih (by omega) (by simpa using hk)]
      rfl

/-- A NUL at the `k`-th byte. -/
theorem text_cut (hk : k < (text b p).length) :
    text (Function.update b (p + UInt32.ofNat k) 0) p = (text b p).take k :=
  textFrom_cut (by rw [bytesFrom]; have := p.toNat_lt; omega) hk

end VelaWasm.CString
