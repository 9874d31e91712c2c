import Mathlib

/-!
# One's complement sums of 16 bits

Folding keeps a sum modulo `2 ^ 16 - 1` and whether it is zero, and these two determine the result.
-/

namespace OnesComplement

/-- A sum with its carries added back. -/
def fold (n : ℕ) : ℕ :=
  if n = 0 then 0 else (n - 1) % 65535 + 1

/-- The loop that adds them. -/
def carries : ℕ → ℕ → ℕ
  | 0, n => n
  | fuel + 1, n => if n >>> 16 ≠ 0 then carries fuel ((n &&& 0xffff) + (n >>> 16)) else n

variable {m n : ℕ}

theorem fold_le (n : ℕ) : fold n ≤ 65535 := by
  unfold fold
  split <;> omega

theorem eq_fold (small : m ≤ 65535) (zero : m = 0 ↔ n = 0) (same : m % 65535 = n % 65535) :
    m = fold n := by
  unfold fold
  split <;> omega

theorem fold_mod (n : ℕ) : fold n % 65535 = n % 65535 := by
  unfold fold
  split <;> omega

theorem fold_eq_ones_iff : fold n = 65535 ↔ n ≠ 0 ∧ n % 65535 = 0 := by
  unfold fold
  split <;> omega

/-- A sum and its complement are all ones. -/
theorem fold_add_complement (n : ℕ) : fold (n + (65535 - fold n)) = 65535 := by
  rw [fold_eq_ones_iff]
  unfold fold
  split <;> omega

theorem carries_eq_fold {fuel : ℕ} (enough : n ≤ fuel) : carries fuel n = fold n := by
  induction fuel generalizing n with
  | zero =>
    obtain rfl : n = 0 := Nat.le_zero.mp enough
    rfl
  | succ fuel ih =>
    have low : n &&& 0xffff = n % 65536 := Nat.and_two_pow_sub_one_eq_mod n 16
    have high : n >>> 16 = n / 65536 := Nat.shiftRight_eq_div_pow n 16
    rw [carries, low, high]
    split
    · rw [ih (by omega)]
      -- a round takes away `2 ^ 16 - 1` for each carry
      refine (eq_fold (fold_le _) ?_ ?_)
      · unfold fold
        split <;> omega
      · rw [fold_mod]
        omega
    · exact eq_fold (by omega) Iff.rfl rfl

end OnesComplement
