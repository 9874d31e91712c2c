import Rtl88x2bu.Efuse.Append

/-!
# The space check

`check_efuse_enough_88xx` counts what `program_efuse_88xx` is about to write. Programming takes the
low nibble of the mask for the second half of a row, the check the high nibble for both halves.
-/

namespace Rtl88x2bu.Efuse

open List

def highBytes (mask : ByteMap) : ℕ :=
  ((List.range 48).map fun row => pgNum (mask row >>> 4) (16 * row)).sum

def lowBytes (mask : ByteMap) : ℕ :=
  ((List.range 48).map fun row => pgNum (mask row &&& 0x0F#8) (16 * row)).sum

def programmedOffsets (adapter : HalmacAdapter) (info : PgEfuseInfo) (mask : ByteMap) : List ℕ :=
  (programEfuse { adapter with written := [] } info mask).written

/-- The high nibbles, counted twice, still fit, but what is written reaches the protected area. -/
def Overruns (mask : ByteMap) (efuseEnd : ℕ) : Prop :=
  u32 (2 * highBytes mask + prtctEfuseSize + efuseEnd) < efuseSize ∧
    0 < highBytes mask + lowBytes mask ∧
    efuseSize - prtctEfuseSize < efuseEnd + (highBytes mask + lowBytes mask)

variable {adapter : HalmacAdapter} {info : PgEfuseInfo} {mask : ByteMap}

theorem pgNum_second_half (wordEn : Byte) (row : ℕ) :
    pgNum wordEn (8 * (2 * row + 1)) = pgNum wordEn (16 * row) := by
  have format : 8 * (2 * row + 1) > 0x7f ↔ 16 * row > 0x7f := by omega
  simp only [pgNum, format]

theorem pgNum_first_half (wordEn : Byte) (row : ℕ) :
    pgNum wordEn (8 * (2 * row)) = pgNum wordEn (16 * row) := by
  rw [← Nat.mul_assoc]

theorem row_first_half (row : ℕ) : (8 * (2 * row)) >>> 4 = row := by
  rw [Nat.shiftRight_eq_div_pow]
  omega

theorem row_second_half (row : ℕ) : (8 * (2 * row + 1)) >>> 4 = row := by
  rw [Nat.shiftRight_eq_div_pow]
  omega

theorem checkedWordEn_block (mask : ByteMap) (blk : ℕ) :
    checkedWordEn mask (8 * blk) = mask ((8 * blk) >>> 4) >>> 4 := by
  have aligned : 8 * blk &&& 7 = 0 := by
    have masked : 8 * blk &&& (2 ^ 3 - 1) = 8 * blk % 2 ^ 3 := Nat.and_two_pow_sub_one_eq_mod _ 3
    exact masked.trans (Nat.mul_mod_right 8 blk)
  rw [checkedWordEn, aligned]
  rfl

theorem preWordEn_first_half (mask : ByteMap) (row : ℕ) :
    preWordEn mask (8 * (2 * row)) = mask row >>> 4 := by
  have even : (8 * (2 * row)) >>> 3 &&& 1 = 0 := by
    rw [Nat.shiftRight_eq_div_pow, Nat.and_one_is_mod]
    omega
  rw [preWordEn, even, row_first_half]
  rfl

theorem preWordEn_second_half (mask : ByteMap) (row : ℕ) :
    preWordEn mask (8 * (2 * row + 1)) = mask row &&& 0x0F#8 := by
  have odd : (8 * (2 * row + 1)) >>> 3 &&& 1 = 1 := by
    rw [Nat.shiftRight_eq_div_pow, Nat.and_one_is_mod]
    omega
  rw [preWordEn, odd, row_second_half]
  rfl

theorem sum_blocks (f : ℕ → ℕ) (rows : ℕ) :
    ((List.range (2 * rows)).map f).sum =
      ((List.range rows).map fun row => f (2 * row)).sum +
        ((List.range rows).map fun row => f (2 * row + 1)).sum := by
  induction rows with
  | zero => rfl
  | succ rows ih =>
    rw [Nat.mul_succ, range_succ, range_succ, range_succ]
    simp only [map_append, map_cons, map_nil, sum_append, sum_singleton]
    omega

theorem checkedNum_eq (sized : info.efuseMapSize = eepromSize) (mask : ByteMap) :
    checkedNum info mask = 2 * highBytes mask := by
  rw [checkedNum, sized, blockOffsets_eepromSize, map_map, Nat.two_mul]
  refine (sum_blocks _ 48).trans ?_
  simp only [Function.comp_apply, checkedWordEn_block, row_first_half, row_second_half,
    pgNum_first_half, pgNum_second_half, highBytes]

theorem length_wordBytes (map : ByteMap) (wordEn : Byte) (eepromOffset : ℕ) :
    (wordBytes map wordEn eepromOffset).length =
      (wordIndices.map fun i => if wordEn.getLsbD i then 2 else 0).sum := by
  rw [wordBytes, length_flatMap]
  congr 1
  apply map_congr_left
  intro i _
  split <;> rfl

theorem length_programmedBytes (blk : ℕ) :
    (programmedBytes info mask blk).length = pgNum (preWordEn mask (8 * blk)) (8 * blk) := by
  unfold programmedBytes pgNum
  split
  · rw [length_append, length_wordBytes, blockHeader]
    split <;> rfl
  · rfl

theorem length_programBytes : (programBytes info mask).length = highBytes mask + lowBytes mask := by
  rw [programBytes, length_flatMap]
  simp only [length_programmedBytes]
  refine (sum_blocks _ 48).trans ?_
  simp only [preWordEn_first_half, preWordEn_second_half, pgNum_first_half, pgNum_second_half,
    highBytes, lowBytes]

theorem programmedOffsets_eq (sized : info.efuseMapSize = eepromSize) :
    programmedOffsets adapter info mask =
      (List.range (highBytes mask + lowBytes mask)).map fun k => u32 (adapter.efuseEnd + k) := by
  obtain ⟨efuseEnd, -, programmed⟩ :=
    programs_programEfuse { adapter with written := [] } mask sized
  rw [programmedOffsets, programmed]
  simp only [writeBytes_written, length_programBytes, nil_append]

theorem offsets_below_iff {efuseEnd n : ℕ} (word : efuseEnd < 2 ^ 32) :
    (∀ o ∈ (List.range n).map fun k => u32 (efuseEnd + k), o < efuseSize - prtctEfuseSize) ↔
      n = 0 ∨ efuseEnd + n ≤ efuseSize - prtctEfuseSize := by
  have limit : efuseSize - prtctEfuseSize = 928 := rfl
  simp only [mem_map, mem_range, forall_exists_index, and_imp,
    forall_apply_eq_imp_iff₂, limit]
  constructor
  · intro below
    by_contra reaches
    have first := below 0 (by omega)
    rw [Nat.add_zero, u32_of_lt word] at first
    have last := below (928 - efuseEnd) (by omega)
    rw [u32_of_lt (by omega)] at last
    omega
  · rintro (rfl | fits) k inside
    · exact absurd inside (Nat.not_lt_zero k)
    · rw [u32_of_lt (by omega)]
      omega

/-- The count of the check is the number of bytes written exactly if the high and the low nibbles
take the same number of bytes, and a passed check keeps the writes before the protected area exactly
unless the programming overruns it. -/
theorem efuse_space_check_iff (sized : info.efuseMapSize = eepromSize)
    (word : adapter.efuseEnd < 2 ^ 32) :
    (checkedNum info mask = (programmedOffsets adapter info mask).length ↔
      highBytes mask = lowBytes mask) ∧
    ((checkEfuseEnough adapter info mask = .success →
        ∀ o ∈ programmedOffsets adapter info mask, o < efuseSize - prtctEfuseSize) ↔
      ¬ Overruns mask adapter.efuseEnd) := by
  rw [programmedOffsets_eq sized, offsets_below_iff word, checkEfuseEnough,
    checkedNum_eq sized mask]
  constructor
  · rw [length_map, length_range]
    omega
  · have passed : (if efuseSize ≤ u32 (2 * highBytes mask + prtctEfuseSize + adapter.efuseEnd) then
        RetStatus.efuseNotEnough else RetStatus.success) = .success ↔
        u32 (2 * highBytes mask + prtctEfuseSize + adapter.efuseEnd) < efuseSize := by
      split
      next refused => exact iff_of_false (by decide) (not_lt.mpr refused)
      next accepted => exact iff_of_true rfl (not_le.mp accepted)
    rw [passed, Overruns]
    constructor
    · rintro safe ⟨accepted, some_byte, beyond⟩
      have fits := safe accepted
      omega
    · intro apart accepted
      by_contra reaching
      exact apart ⟨accepted, by omega, by omega⟩

def firstHalf : PgEfuseInfo where
  efuseMap := fun _ => 0x00#8
  efuseMapSize := 768
  efuseMask := fun row => if row = 0 then 0xF0#8 else 0x00#8
  efuseMaskSize := 48

def secondHalf : PgEfuseInfo where
  efuseMap := fun _ => 0x00#8
  efuseMapSize := 768
  efuseMask := fun row => if row = 0 then 0x0F#8 else 0x00#8
  efuseMaskSize := 48

def nearlyFull : HalmacAdapter where
  hw := unwritten
  efuseMap := unwritten
  efuseMapValid := false
  efuseEnd := 920
  written := []

theorem efuse_space_check_first_half :
    (checkedNum firstHalf firstHalf.efuseMask =
        (programmedOffsets nearlyFull firstHalf firstHalf.efuseMask).length ↔
      highBytes firstHalf.efuseMask = lowBytes firstHalf.efuseMask) ∧
    ((checkEfuseEnough nearlyFull firstHalf firstHalf.efuseMask = .success →
        ∀ o ∈ programmedOffsets nearlyFull firstHalf firstHalf.efuseMask,
          o < efuseSize - prtctEfuseSize) ↔
      ¬ Overruns firstHalf.efuseMask nearlyFull.efuseEnd) :=
  efuse_space_check_iff rfl (by decide)

theorem low_nibble_not_counted :
    checkEfuseEnough nearlyFull secondHalf secondHalf.efuseMask = .success ∧
    checkedNum secondHalf secondHalf.efuseMask = 0 ∧
    programmedOffsets nearlyFull secondHalf secondHalf.efuseMask =
      [920, 921, 922, 923, 924, 925, 926, 927, 928] ∧
    ¬ 928 < efuseSize - prtctEfuseSize := by
  decide +kernel

end Rtl88x2bu.Efuse
