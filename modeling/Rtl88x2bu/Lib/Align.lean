import Mathlib

/-!
# Rounding up to a power of two

The shift and mask form in which C code rounds a size up to a multiple of `2 ^ k`.
-/

namespace Align

/-- The next multiple of `2 ^ k`. -/
def roundUp (k sz : ℕ) : ℕ := ((sz >>> k) + if sz &&& (2 ^ k - 1) = 0 then 0 else 1) <<< k

variable (k sz : ℕ)

theorem roundUp_spec : sz ≤ roundUp k sz ∧ roundUp k sz < sz + 2 ^ k ∧ 2 ^ k ∣ roundUp k sz := by
  have split := Nat.div_add_mod sz (2 ^ k)
  have rest := Nat.mod_lt sz (Nat.two_pow_pos k)
  have shape : roundUp k sz = 2 ^ k * (sz / 2 ^ k + if sz % 2 ^ k = 0 then 0 else 1) := by
    rw [roundUp, Nat.and_two_pow_sub_one_eq_mod, Nat.shiftRight_eq_div_pow, Nat.shiftLeft_eq,
      Nat.mul_comm]
  refine ⟨?_, ?_, shape ▸ Nat.dvd_mul_right _ _⟩
  all_goals
    rw [shape, Nat.mul_add]
    split_ifs <;> omega

theorem le_roundUp : sz ≤ roundUp k sz := (roundUp_spec k sz).1

theorem roundUp_lt : roundUp k sz < sz + 2 ^ k := (roundUp_spec k sz).2.1

theorem dvd_roundUp : 2 ^ k ∣ roundUp k sz := (roundUp_spec k sz).2.2

end Align
