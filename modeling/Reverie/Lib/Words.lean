/-
  Words of 64 bits as numbers: sums and differences that may not fit, the complement, and
  rounding down with a mask.
-/
import Mathlib

namespace Words

/-- The sum, if it is a word. -/
def checkedAdd (a b : ℕ) : Option ℕ := if a + b < 2 ^ 64 then some (a + b) else none

/-- The difference, if there is one. -/
def checkedSub (a b : ℕ) : Option ℕ := if b ≤ a then some (a - b) else none

theorem checkedSub_eq_some {a b c : ℕ} : checkedSub a b = some c ↔ b ≤ a ∧ a - b = c := by
  simp [checkedSub]

theorem checkedSub_eq_none {a b : ℕ} : checkedSub a b = none ↔ a < b := by
  simp [checkedSub]

/-- `!` on a word. -/
def not64 (n : ℕ) : ℕ := 2 ^ 64 - 1 - n

theorem and_not64 {n k : ℕ} (hn : n < 2 ^ 64) (hk : 2 ^ k - 1 < 2 ^ 64) :
    n &&& not64 (2 ^ k - 1) = n / 2 ^ k * 2 ^ k := by
  have hnot : not64 (2 ^ k - 1) = 2 ^ 64 - (2 ^ k - 1 + 1) := by
    unfold not64
    omega
  refine Nat.eq_of_testBit_eq fun i => ?_
  rw [Nat.testBit_and, hnot, Nat.testBit_two_pow_sub_succ hk, Nat.mul_comm,
    Nat.testBit_two_pow_mul, Nat.testBit_div_two_pow]
  by_cases hi : k ≤ i
  · by_cases h64 : i < 64
    · simp [hi, h64]
    · have hbit : n.testBit i = false :=
        Nat.testBit_lt_two_pow (hn.trans_le (Nat.pow_le_pow_right (by decide) (Nat.not_lt.1 h64)))
      simp [hi, hbit]
  · simp [Nat.not_le.1 hi]

end Words
