import Mathlib.Algebra.Group.Nat.Defs
import Mathlib.Logic.Function.Basic
import Mathlib.Tactic.Common

/-!
# Machine words as naturals: masks, shifts and disjoint ors

A 32-bit word is a `Nat` below `2^32`.  The C code takes addresses apart with masks and
shifts; these lemmas turn each mask into a quotient or a remainder, so that `omega` decides
what is left.

    (a &&& ((2^n - 1) <<< k)) >>> k = a / 2^k % 2^n        (and_shiftRight_field)
    x < 2^(k+n) → x &&& ((2^n - 1) <<< k) = x / 2^k * 2^k  (and_high_field)
    x % 2^k = 0 → b < 2^k → x ||| b = x + b                (or_low_eq_add)
-/

namespace Word

/-- A field of `n` bits at bit `k`: mask, then shift. -/
theorem and_shiftRight_field (a n k : Nat) :
    (a &&& ((2 ^ n - 1) <<< k)) >>> k = a / 2 ^ k % 2 ^ n := by
  rw [Nat.shiftRight_and_distrib, Nat.shiftLeft_shiftRight, Nat.and_two_pow_sub_one_eq_mod,
    Nat.shiftRight_eq_div_pow]

/-- Masking off the low `k` bits of a word of `k + n` bits. -/
theorem and_high_field (x n k : Nat) (hx : x < 2 ^ (k + n)) :
    x &&& ((2 ^ n - 1) <<< k) = x / 2 ^ k * 2 ^ k := by
  have hq : x / 2 ^ k < 2 ^ n := by
    rw [Nat.div_lt_iff_lt_mul (Nat.two_pow_pos k), ← Nat.pow_add, Nat.add_comm]
    exact hx
  have hf := and_shiftRight_field x n k
  rw [Nat.mod_eq_of_lt hq, Nat.shiftRight_eq_div_pow] at hf
  have hlow : (x &&& ((2 ^ n - 1) <<< k)) % 2 ^ k = 0 := by
    rw [← Nat.and_two_pow_sub_one_eq_mod, Nat.and_assoc, Nat.and_two_pow_sub_one_eq_mod,
      Nat.shiftLeft_eq, Nat.mul_mod_left, Nat.and_zero]
  have hdm := Nat.div_add_mod (x &&& ((2 ^ n - 1) <<< k)) (2 ^ k)
  rw [hf, hlow, Nat.add_zero, Nat.mul_comm] at hdm
  exact hdm.symm

/-- An or whose right operand fits below the zero bits of the left one is a sum. -/
theorem or_low_eq_add (x b k : Nat) (hx : x % 2 ^ k = 0) (hb : b < 2 ^ k) : x ||| b = x + b := by
  obtain ⟨q, rfl⟩ := Nat.dvd_of_mod_eq_zero hx
  exact (Nat.two_pow_add_eq_or_of_lt hb q).symm

end Word
