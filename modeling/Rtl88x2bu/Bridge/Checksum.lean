import Rtl88x2bu.Bridge.Nat25

/-!
# Checksums of frames

The sum of 16-bit words over a part of a frame, and what writing one word does to it.
-/

namespace Rtl88x2bu.Bridge

open Tape OnesComplement

section

variable {data data' : ℕ → Byte} {base n k : ℕ}

/-- A part of even length can be summed for itself. -/
theorem onesSum_append {front : List Byte} (even : front.length % 2 = 0) (back : List Byte) :
    onesSum (front ++ back) = onesSum front + onesSum back := by
  fun_induction onesSum front with
  | case1 => exact (Nat.zero_add _).symm
  | case2 high => simp at even
  | case3 high low rest ih =>
    have rest_even : rest.length % 2 = 0 := by
      simp only [List.length_cons] at even
      omega
    rw [List.cons_append, List.cons_append, onesSum, ih rest_even]
    omega

section

variable (data base)

theorem onesSum_word : onesSum (window data base 2) = be16 data base := by
  change (data (base + 0)).toNat * 256 + (data (base + 1)).toNat + 0 = be16 data base
  rw [Nat.add_zero, Nat.add_zero, be16]

/-- The sum without the word at `k`. -/
def onesSumAround (k n : ℕ) : ℕ :=
  onesSum (window data base k) + onesSum (window data (base + k + 2) (n - (k + 2)))

theorem onesSum_window (even : k % 2 = 0) (fits : k + 2 ≤ n) :
    onesSum (window data base n) = onesSumAround data base k n + be16 data (base + k) := by
  obtain ⟨rest, rfl⟩ := Nat.exists_eq_add_of_le fits
  have front : (window data base k).length % 2 = 0 := by rw [length_window, even]
  have word : (window data (base + k) 2).length % 2 = 0 := by rw [length_window]
  rw [window_add, window_add, List.append_assoc, onesSum_append front, onesSum_append word,
    onesSum_word, onesSumAround, Nat.add_sub_cancel_left]
  have place : base + (k + 2) = base + k + 2 := by omega
  rw [place]
  omega

end

theorem onesSumAround_congr
    (same : ∀ i, base ≤ i → i < base + n → i ≠ base + k → i ≠ base + k + 1 → data' i = data i)
    (fits : k + 2 ≤ n) : onesSumAround data' base k n = onesSumAround data base k n := by
  have before : window data' base k = window data base k := by
    apply window_congr
    intro i from_base below
    exact same i (by omega) (by omega) (by omega) (by omega)
  have behind : window data' (base + k + 2) (n - (k + 2)) =
      window data (base + k + 2) (n - (k + 2)) := by
    apply window_congr
    intro i from_base below
    exact same i (by omega) (by omega) (by omega) (by omega)
  rw [onesSumAround, before, behind, onesSumAround]

/-- A word that is replaced changes the sum by the difference. -/
theorem onesSum_paste_word (data : ℕ → Byte) (base : ℕ) {bytes : List Byte}
    (two : bytes.length = 2) (even : k % 2 = 0) (fits : k + 2 ≤ n) :
    onesSum (window (paste data (base + k) bytes) base n) + be16 data (base + k) =
      onesSum (window data base n) + be16 (paste data (base + k) bytes) (base + k) := by
  have around : onesSumAround (paste data (base + k) bytes) base k n =
      onesSumAround data base k n := by
    apply onesSumAround_congr _ fits
    intro i from_base below first second
    rcases Nat.lt_or_ge i (base + k) with before | after
    · exact paste_of_lt before
    · exact paste_of_le (by omega)
  rw [onesSum_window _ base even fits, onesSum_window data base even fits, around]
  omega

end

end Rtl88x2bu.Bridge
