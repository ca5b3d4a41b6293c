import Mathlib.Data.List.Induction
import Mathlib.Data.Nat.Digits.Defs
import Mathlib.Data.Nat.ModEq

/-!
# 32-bit integers of JavaScript

Natural numbers read as unsigned and as signed 32-bit integers, the right shift
that keeps the sign, and a polynomial that is reduced after each of its steps.
-/

namespace Int32Bits

/-- `n >>> 0`. -/
def toUint32 (n : ℕ) : ℕ := n % 2 ^ 32

/-- The sign bit counts `-2 ^ 31`. -/
def toInt32 (n : ℕ) : ℤ := Int.bmod n (2 ^ 32)

/-- `n >> k`, for `k` below 32. -/
def shiftRight (n k : ℕ) : ℤ := toInt32 n >>> k

variable {n : ℕ}

theorem toUint32_lt (n : ℕ) : toUint32 n < 2 ^ 32 := Nat.mod_lt n (Nat.two_pow_pos 32)

theorem toInt32_of_lt (h : n < 2 ^ 31) : toInt32 n = n := by
  apply Int.bmod_eq_of_le
  · omega
  · omega

theorem toInt32_of_le (h : 2 ^ 31 ≤ n) (hn : n < 2 ^ 32) : toInt32 n = n - 2 ^ 32 := by
  have hsub : (n : ℤ) - 2 ^ 32 = n + -((2 ^ 32 : ℕ) : ℤ) := by omega
  have hrange : Int.bmod ((n : ℤ) + -((2 ^ 32 : ℕ) : ℤ)) (2 ^ 32) = n + -((2 ^ 32 : ℕ) : ℤ) :=
    Int.bmod_eq_of_le (by omega) (by omega)
  exact (Int.add_neg_bmod_self _ _).symm.trans (hrange.trans hsub.symm)

/-- Below the sign bit the shift is the division of natural numbers. -/
theorem shiftRight_of_lt (h : n < 2 ^ 31) (k : ℕ) : shiftRight n k = (n / 2 ^ k : ℕ) := by
  rw [shiftRight, toInt32_of_lt h, Int.shiftRight_eq_div_pow, Int.natCast_ediv]

theorem shiftRight_of_le (h : 2 ^ 31 ≤ n) (hn : n < 2 ^ 32) (k : ℕ) :
    shiftRight n k = (n - 2 ^ 32 : ℤ) / (2 ^ k : ℕ) := by
  rw [shiftRight, toInt32_of_le h hn, Int.shiftRight_eq_div_pow]

/-- The polynomial of the digits, the last of them lowest, may be reduced at the end. -/
theorem foldl_mod (b m : ℕ) (digits : List ℕ) :
    digits.foldl (fun h c ↦ (h * b + c) % m) 0 = Nat.ofDigits b digits.reverse % m := by
  induction digits using List.reverseRecOn with
  | nil => exact (Nat.zero_mod m).symm
  | append_singleton digits c ih =>
      rw [List.foldl_append, List.foldl_cons, List.foldl_nil, ih, List.reverse_append,
        List.reverse_singleton, List.singleton_append, Nat.ofDigits_cons, Nat.add_comm,
        Nat.mul_comm b]
      exact ((Nat.mod_modEq _ m).mul_right b).add_left c

end Int32Bits
