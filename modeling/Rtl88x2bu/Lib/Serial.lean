import Mathlib

/-!
# Serial number arithmetic

Counters on a circle of `2 * half` numbers are compared by the sign of their difference. The
comparison is not transitive; it agrees with the order of unbounded positions that are less than
half the circle apart.
-/

namespace Serial

/-- How far `b` is ahead of `a` on a circle of `m`. -/
def ahead (m a b : ℤ) : ℤ := (b - a) % m

/-- The sign of the difference. -/
def Less (half a b : ℤ) : Prop := half ≤ ahead (2 * half) b a

theorem less_iff_lt {half p q : ℤ} (low : -half ≤ p - q) (high : p - q < half) :
    Less half p q ↔ p < q := by
  unfold Less ahead
  rcases lt_or_ge p q with before | after
  · -- a negative difference comes out in the upper half
    have wrapped : (p - q) % (2 * half) = p - q + 2 * half := by
      rw [← Int.add_mul_emod_self_left (p - q) (2 * half) 1, mul_one]
      exact Int.emod_eq_of_lt (by omega) (by omega)
    omega
  · rw [Int.emod_eq_of_lt (by omega) (by omega)]
    omega

theorem ahead_emod (m p q : ℤ) : ahead m (p % m) (q % m) = ahead m p q :=
  (Int.sub_emod q p m).symm

theorem less_iff_ahead {half a b : ℤ} (positive : 0 < half) :
    Less half a b ↔ 1 ≤ ahead (2 * half) a b ∧ ahead (2 * half) a b ≤ half := by
  have circle : 0 < 2 * half := by omega
  have low := Int.emod_nonneg (a - b) circle.ne'
  have high := Int.emod_lt_of_pos (a - b) circle
  have quotient := Int.mul_ediv_add_emod (a - b) (2 * half)
  have opposite : (b - a) % (2 * half) = (-((a - b) % (2 * half))) % (2 * half) := by
    rw [show b - a = -((a - b) % (2 * half)) + 2 * half * -((a - b) / (2 * half)) by
      linear_combination quotient, Int.add_mul_emod_self_left]
  unfold Less ahead
  rw [opposite]
  -- with `r` the distance back, the distance forward is `2 * half - r`, or zero if `r` is
  generalize (a - b) % (2 * half) = r at *
  rcases low.eq_or_lt with rfl | positive
  · simp only [neg_zero, Int.zero_emod]
    omega
  · rw [← Int.add_emod_right, Int.emod_eq_of_lt (by omega) (by omega)]
    omega

private theorem testBit_iff_le_mod (n k : ℕ) :
    n.testBit k = true ↔ 2 ^ k ≤ n % (2 ^ k * 2) := by
  -- the residue is `n % 2 ^ k`, plus the weight of the bit if it is set
  rw [Nat.testBit_eq_decide_div_mod_eq, decide_eq_true_eq, Nat.mod_mul]
  have low := Nat.mod_lt n (Nat.two_pow_pos k)
  rcases Nat.mod_two_eq_zero_or_one (n / 2 ^ k) with even | odd
  · simpa [even] using low
  · simp [odd]

/-- The test of the top bit, as C code has it. -/
theorem sub_and_twoPow_ne_zero {w k : ℕ} (fits : k < w) (a b : BitVec w) :
    (a - b) &&& BitVec.twoPow w k ≠ 0#w ↔ Less (2 ^ k) a.toNat b.toNat := by
  have weight : BitVec.twoPow w k ≠ 0#w := by
    intro zero
    have := congrArg BitVec.toNat zero
    simp [BitVec.toNat_twoPow, Nat.mod_eq_of_lt (Nat.pow_lt_pow_right one_lt_two fits)] at this
  have bit : (a - b) &&& BitVec.twoPow w k ≠ 0#w ↔ (a - b).toNat.testBit k = true := by
    rw [BitVec.and_twoPow, BitVec.testBit_toNat]
    split <;> simp_all
  -- the circle divides the word size, so the wrap of the subtraction does not show
  have divides : (2 * 2 ^ k : ℤ) ∣ 2 ^ w := by
    rw [← pow_succ']
    exact pow_dvd_pow 2 fits
  have difference : ((a - b).toNat : ℤ) % (2 * 2 ^ k) = (a.toNat - b.toNat : ℤ) % (2 * 2 ^ k) := by
    have below := b.isLt
    rw [BitVec.toNat_sub, Int.natCast_mod, Int.natCast_add, Int.natCast_sub below.le,
      Int.natCast_pow, Nat.cast_ofNat, Int.emod_emod_of_dvd _ divides]
    rw [show (2 ^ w - (b.toNat : ℤ) + a.toNat) = (a.toNat - b.toNat) + 2 ^ w by ring,
      Int.add_emod, Int.emod_eq_zero_of_dvd divides, add_zero, Int.emod_emod]
  rw [bit, testBit_iff_le_mod, Less, ahead, ← difference, mul_comm (2 ^ k) 2]
  norm_cast

end Serial
