import Rtl88x2bu.Efuse.Replay

/-!
# Appending to the log

What the writers of the logical map append, and that the map they program is the one asked for.
-/

namespace Rtl88x2bu.Efuse

open List
open Tape

/-! ## Physical writes -/

theorem u32_of_lt {n : ℕ} (small : n < 2 ^ 32) : u32 n = n :=
  Nat.mod_eq_of_lt small

theorem u32_succ {n m : ℕ} (same : u32 n = u32 m) : u32 (n + 1) = u32 (m + 1) :=
  Nat.ModEq.add_right 1 same

theorem u32_add {n m : ℕ} (same : u32 n = u32 m) (k : ℕ) : u32 (n + k) = u32 (m + k) :=
  Nat.ModEq.add_right k same

variable {adapter : HalmacAdapter}

theorem writeBytes_congr {n m : ℕ} (same : u32 n = u32 m) (values : List Byte) :
    writeBytes adapter n values = writeBytes adapter m values := by
  induction values generalizing adapter n m with
  | nil => rfl
  | cons value values ih => rw [writeBytes, writeBytes, same, ih (u32_succ same)]

theorem writeBytes_append (offset : ℕ) (first second : List Byte) :
    writeBytes adapter offset (first ++ second) =
      writeBytes (writeBytes adapter offset first) (offset + first.length) second := by
  induction first generalizing adapter offset with
  | nil => rfl
  | cons value first ih =>
    rw [cons_append, writeBytes, ih, writeBytes, length_cons, Nat.add_assoc,
      Nat.add_comm 1]

theorem writeBytes_withEnd (adapter : HalmacAdapter) (efuseEnd offset : ℕ) (values : List Byte) :
    writeBytes { adapter with efuseEnd } offset values =
      { writeBytes adapter offset values with efuseEnd } := by
  induction values generalizing adapter offset with
  | nil => rfl
  | cons value values ih => exact ih (writeHwEfuse adapter (u32 offset) value) (offset + 1)

theorem writeBytes_written (offset : ℕ) (values : List Byte) :
    (writeBytes adapter offset values).written =
      adapter.written ++ (List.range values.length).map fun k => u32 (offset + k) := by
  induction values generalizing adapter offset with
  | nil => exact (append_nil _).symm
  | cons value values ih =>
    rw [writeBytes, ih, length_cons, range_succ_eq_map, map_cons, map_map]
    simp only [writeHwEfuse, append_assoc, singleton_append, Nat.add_zero]
    congr 2
    apply map_congr_left
    intro k _
    change u32 (offset + 1 + k) = u32 (offset + (k + 1))
    rw [Nat.add_assoc, Nat.add_comm 1]

theorem writeBytes_hw {cells values : List Byte} (hw : adapter.hw = image 0xFF#8 cells)
    (small : cells.length + values.length ≤ 2 ^ 32) :
    (writeBytes adapter cells.length values).hw = image 0xFF#8 (cells ++ values) := by
  induction values generalizing adapter cells with
  | nil => rw [append_nil]; exact hw
  | cons value values ih =>
    rw [length_cons] at small
    have written : (writeHwEfuse adapter (u32 cells.length) value).hw =
        image 0xFF#8 (cells ++ [value]) := by
      rw [u32_of_lt (by omega), writeHwEfuse, hw]
      exact update_image cells value
    have next := ih written (by rw [length_append, length_singleton]; omega)
    rw [length_append, length_singleton, append_assoc] at next
    exact next

theorem writeBytes_invalid (invalid : adapter.efuseMapValid = false) (offset : ℕ)
    (values : List Byte) : (writeBytes adapter offset values).efuseMapValid = false := by
  induction values generalizing adapter offset with
  | nil => exact invalid
  | cons value values ih => exact ih rfl (offset + 1)

/-! ## The log in the physical map -/

/-- The physical map is the log `blocks`, and the cached copy is it or is marked stale. -/
structure Stores (adapter : HalmacAdapter) (blocks : List Block) : Prop where
  hw : adapter.hw = image 0xFF#8 (encodeLog blocks)
  fits : (encodeLog blocks).length ≤ logLimit
  cached : adapter.efuseMapValid = true → adapter.efuseMap = adapter.hw

variable {blocks : List Block}

def HalmacAdapter.parsed (adapter : HalmacAdapter) (blocks : List Block) : HalmacAdapter :=
  { adapter with
    efuseMap := adapter.hw, efuseMapValid := true, efuseEnd := (encodeLog blocks).length }

theorem Stores.readLogEfuseMap_eq (stores : Stores adapter blocks) :
    readLogEfuseMap adapter = (adapter.parsed blocks, some (replayLog blocks)) := by
  have copied : (if adapter.efuseMapValid then adapter
      else { adapter with efuseMap := adapter.hw, efuseMapValid := true }) =
      { adapter with efuseMap := adapter.hw, efuseMapValid := true } := by
    split
    next valid => exact HalmacAdapter.ext rfl (stores.cached valid) valid rfl rfl
    · rfl
  rw [readLogEfuseMap, copied]
  simp only [stores.hw, eepromParser_encodeLog stores.fits, HalmacAdapter.parsed]

theorem Stores.parsed (stores : Stores adapter blocks) : Stores (adapter.parsed blocks) blocks :=
  ⟨stores.hw, stores.fits, fun _ => rfl⟩

theorem encodeLog_append (blocks more : List Block) :
    encodeLog (blocks ++ more) = encodeLog blocks ++ encodeLog more :=
  flatMap_append

theorem Stores.append (stores : Stores adapter blocks) {more : List Block}
    (fits : (encodeLog blocks).length + (encodeLog more).length ≤ logLimit) :
    Stores (writeBytes adapter (encodeLog blocks).length (encodeLog more)) (blocks ++ more) where
  hw := by
    have small : logLimit ≤ 2 ^ 32 := by decide
    rw [encodeLog_append]
    exact writeBytes_hw stores.hw (fits.trans small)
  fits := by
    rw [encodeLog_append, length_append]
    exact fits
  cached := by
    cases encodeLog more with
    | nil => exact stores.cached
    | cons value values =>
      intro valid
      rw [writeBytes, writeBytes_invalid rfl] at valid
      cases valid

/-! ## One word -/

theorem wordNibble_fin :
    ∀ i : Fin 4, (0x01#8 <<< (i : ℕ)).toNat < 16 ∧ 0x01#8 <<< (i : ℕ) ≠ 0#8 := by
  decide

theorem wordIdx_lt (offset : ℕ) : offset % 8 / 2 < 4 := by
  omega

def wordBlock (offset : ℕ) (inMap : offset < eepromSize) (byte1 byte2 : Byte) : Block where
  blk := offset / 8
  words := 0x01#8 <<< (offset % 8 / 2)
  map := fun o => if o % 2 = 0 then byte1 else byte2
  blk_lt := by
    unfold eepromSize at inMap
    omega
  words_lt := (wordNibble_fin ⟨_, wordIdx_lt offset⟩).1
  words_ne := (wordNibble_fin ⟨_, wordIdx_lt offset⟩).2

theorem oneWord_getLsbD : ∀ i j : Fin 4, (0x01#8 <<< (i : ℕ)).getLsbD j = decide (i = j) := by
  decide

theorem blkIdx_eq (offset : ℕ) : (offset &&& (8 - 1)) >>> 1 = offset % 8 / 2 := by
  have masked : offset &&& (2 ^ 3 - 1) = offset % 2 ^ 3 := Nat.and_two_pow_sub_one_eq_mod offset 3
  rw [Nat.shiftRight_eq_div_pow]
  exact congrArg (· / 2) masked

variable {offset : ℕ} {byte1 byte2 : Byte}

theorem wordBytes_wordBlock (inMap : offset < eepromSize) :
    wordBytes (wordBlock offset inMap byte1 byte2).map (wordBlock offset inMap byte1 byte2).words
      (8 * (offset / 8)) = [byte1, byte2] := by
  have even : ∀ i, (8 * (offset / 8) + i <<< 1) % 2 = 0 := by
    intro i
    rw [Nat.shiftLeft_eq]
    omega
  have odd : ∀ i, ¬ (8 * (offset / 8) + i <<< 1 + 1) % 2 = 0 := by
    intro i
    rw [Nat.shiftLeft_eq]
    omega
  have word := wordIdx_lt offset
  simp only [wordBytes, wordBlock, even, odd, if_true, if_false]
  generalize offset % 8 / 2 = i at word
  interval_cases i <;> rfl

theorem wordBlock_encode (inMap : offset < eepromSize) :
    (wordBlock offset inMap byte1 byte2).encode =
      blockHeader (offset / 8) ((0x01#8 <<< (offset % 8 / 2)) ^^^ 0x0F#8) ++ [byte1, byte2] := by
  rw [← wordBytes_wordBlock inMap]
  rfl

theorem wordBlock_replay (inMap : offset < eepromSize) (logMap : ByteMap) (o : ℕ) :
    (wordBlock offset inMap byte1 byte2).replay logMap o =
      if o / 2 = offset / 2 then (if o % 2 = 0 then byte1 else byte2) else logMap o := by
  have bit := oneWord_getLsbD ⟨_, wordIdx_lt offset⟩ ⟨_, wordIdx_lt o⟩
  apply if_congr _ rfl rfl
  change o / 8 = offset / 8 ∧ (0x01#8 <<< (offset % 8 / 2)).getLsbD (o % 8 / 2) = true ↔ _
  rw [bit, decide_eq_true_iff, Fin.mk.injEq]
  omega

variable (byte1 byte2) in
theorem Stores.appendWord (stores : Stores adapter blocks) (inMap : offset < eepromSize)
    (atEnd : adapter.efuseEnd = (encodeLog blocks).length) :
    appendWord adapter offset byte1 byte2 = (.efuseNotEnough, adapter) ∨
    ∃ adapter', appendWord adapter offset byte1 byte2 = (.success, adapter') ∧
      Stores adapter' (blocks ++ [wordBlock offset inMap byte1 byte2]) := by
  have limit : logLimit = 928 := rfl
  have fits := stores.fits
  have block : blkOf offset = blkOf (8 * (offset / 8)) := by
    rw [blkOf_block, blkOf, Nat.shiftRight_eq_div_pow]
  have format : offset > 0x7f ↔ 8 * (offset / 8) > 0x7f := by omega
  have encoded : encodeLog [wordBlock offset inMap byte1 byte2] =
      blockHeader (offset / 8) ((0x01#8 <<< (offset % 8 / 2)) ^^^ 0x0F#8) ++ [byte1, byte2] := by
    rw [encodeLog, flatMap_singleton, wordBlock_encode]
  have room : ∀ n, n ≤ 4 → ¬ efuseSize ≤ u32 (n + prtctEfuseSize + (encodeLog blocks).length) →
      (encodeLog blocks).length + n ≤ logLimit := by
    intro n small enough
    unfold efuseSize prtctEfuseSize at enough
    rw [u32_of_lt (by omega)] at enough
    omega
  simp only [Efuse.appendWord, blkIdx_eq, block, format, atEnd]
  unfold blockHeader at encoded
  split
  next extended =>
    split
    · exact .inl rfl
    next enough =>
      refine .inr ⟨_, rfl, ?_⟩
      rw [if_pos extended] at encoded
      have appended := stores.append
        (by rw [encoded]; exact room 4 (by decide) enough)
      rwa [encoded] at appended
  next std =>
    split
    · exact .inl rfl
    next enough =>
      refine .inr ⟨_, rfl, ?_⟩
      rw [if_neg std] at encoded
      have appended := stores.append
        (by rw [encoded]; exact room 3 (by decide) enough)
      rwa [encoded] at appended

/-! ## Programming -/

def programmedBytes (info : PgEfuseInfo) (mask : ByteMap) (blk : ℕ) : List Byte :=
  if preWordEn mask (8 * blk) > 0 then
    blockHeader blk (preWordEn mask (8 * blk) ^^^ 0x0F#8) ++
      wordBytes info.efuseMap (preWordEn mask (8 * blk)) (8 * blk)
  else []

/-- The adapter after the physical writes of `values` at `efuse_end`, up to where `efuse_end` is
left. -/
def Programs (adapter adapter' : HalmacAdapter) (values : List Byte) : Prop :=
  ∃ efuseEnd, u32 efuseEnd = u32 (adapter.efuseEnd + values.length) ∧
    adapter' = { writeBytes adapter adapter.efuseEnd values with efuseEnd }

variable {info : PgEfuseInfo} {mask : ByteMap}

theorem programs_pgBytes (values : List Byte) : Programs adapter (pgBytes adapter values) values :=
  ⟨_, Nat.mod_mod _ _, rfl⟩

theorem programs_programBlock (blk : ℕ) :
    Programs adapter (programBlock info mask adapter (8 * blk))
      (programmedBytes info mask blk) := by
  simp only [programBlock, programmedBytes, blockHeader, pgExtendEfuse, procPgEfuse]
  split
  · split
    · exact programs_pgBytes _
    · exact programs_pgBytes _
  · exact ⟨adapter.efuseEnd, rfl, rfl⟩

theorem Programs.trans {adapter₁ adapter₂ : HalmacAdapter} {first second : List Byte}
    (one : Programs adapter adapter₁ first) (two : Programs adapter₁ adapter₂ second) :
    Programs adapter adapter₂ (first ++ second) := by
  obtain ⟨middle, reached, rfl⟩ := one
  obtain ⟨efuseEnd, last, rfl⟩ := two
  refine ⟨efuseEnd, ?_, ?_⟩
  · rw [last, length_append, ← Nat.add_assoc]
    exact u32_add reached _
  · rw [writeBytes_withEnd, writeBytes_append]
    simp only
    rw [writeBytes_congr reached]

theorem programs_foldl (blks : List ℕ) :
    Programs adapter ((blks.map (8 * ·)).foldl (programBlock info mask) adapter)
      (blks.flatMap (programmedBytes info mask)) := by
  induction blks generalizing adapter with
  | nil => exact ⟨adapter.efuseEnd, rfl, rfl⟩
  | cons blk blks ih =>
    rw [map_cons, foldl_cons, flatMap_cons]
    exact (programs_programBlock blk).trans ih

theorem blockOffsets_eepromSize : blockOffsets eepromSize = (List.range 96).map (8 * ·) :=
  rfl

def programBytes (info : PgEfuseInfo) (mask : ByteMap) : List Byte :=
  (List.range 96).flatMap (programmedBytes info mask)

variable (adapter mask) in
theorem programs_programEfuse (sized : info.efuseMapSize = eepromSize) :
    Programs adapter (programEfuse adapter info mask) (programBytes info mask) := by
  rw [programEfuse, sized, blockOffsets_eepromSize]
  exact programs_foldl _

/-! ## The programmed blocks -/

section

variable (info mask)

theorem preWordEn_lt (eepromOffset : ℕ) : (preWordEn mask eepromOffset).toNat < 16 := by
  unfold preWordEn
  split
  · rw [BitVec.toNat_and]
    exact Nat.lt_succ_of_le Nat.and_le_right
  · have byte := (mask (eepromOffset >>> 4)).isLt
    rw [BitVec.toNat_ushiftRight, Nat.shiftRight_eq_div_pow]
    omega

/-- The block that a round of `program_efuse_88xx` writes, if any. -/
def pgBlock (blk : ℕ) : Option Block :=
  if present : blk < 96 ∧ preWordEn mask (8 * blk) ≠ 0#8 then
    some
      { blk
        words := preWordEn mask (8 * blk)
        map := info.efuseMap
        blk_lt := present.1
        words_lt := preWordEn_lt mask (8 * blk)
        words_ne := present.2 }
  else none

def pgBlocks (n : ℕ) : List Block :=
  (List.range n).flatMap fun blk => (pgBlock info mask blk).toList

end

theorem byte_pos_iff (b : Byte) : b > 0 ↔ b ≠ 0#8 := by
  constructor
  · rintro positive rfl
    exact absurd positive (by decide)
  · intro nonzero
    bv_omega

theorem encodeLog_pgBlocks {n : ℕ} (inMap : n ≤ 96) :
    encodeLog (pgBlocks info mask n) = (List.range n).flatMap (programmedBytes info mask) := by
  induction n with
  | zero => rfl
  | succ n ih =>
    have last : encodeLog (pgBlock info mask n).toList = programmedBytes info mask n := by
      unfold pgBlock programmedBytes
      by_cases present : preWordEn mask (8 * n) ≠ 0#8
      · rw [dif_pos ⟨by omega, present⟩, if_pos ((byte_pos_iff _).mpr present)]
        exact flatMap_singleton ..
      · rw [dif_neg fun both => present both.2, if_neg fun pos => present ((byte_pos_iff _).mp pos)]
        rfl
    rw [pgBlocks, range_succ, flatMap_append, flatMap_append, encodeLog_append,
      ← pgBlocks, ih (by omega), flatMap_singleton, flatMap_singleton, ← last]

theorem replay_pgBlocks {n : ℕ} (inMap : n ≤ 96) (logMap : ByteMap) (o : ℕ) :
    (pgBlocks info mask n).foldl Block.replay logMap o =
      if o / 8 < n ∧ (preWordEn mask (8 * (o / 8))).getLsbD (o % 8 / 2) then info.efuseMap o
      else logMap o := by
  induction n with
  | zero => rfl
  | succ n ih =>
    rw [pgBlocks, range_succ, flatMap_append, flatMap_singleton,
      foldl_append, ← pgBlocks]
    have before := ih (by omega)
    by_cases present : preWordEn mask (8 * n) ≠ 0#8
    · rw [pgBlock, dif_pos ⟨by omega, present⟩]
      simp only [Option.toList_some, foldl_cons, foldl_nil, Block.replay, before]
      by_cases here : o / 8 = n
      · subst here
        simp
      · have other : o / 8 < n + 1 ↔ o / 8 < n := by omega
        simp only [here, false_and, if_false, other]
    · rw [pgBlock, dif_neg fun both => present both.2]
      simp only [Option.toList_none, foldl_nil, before]
      apply if_congr _ rfl rfl
      constructor
      · rintro ⟨earlier, bit⟩
        exact ⟨by omega, bit⟩
      · rintro ⟨atMost, bit⟩
        refine ⟨?_, bit⟩
        by_contra later
        have here : o / 8 = n := by omega
        rw [here, not_not.mp present, BitVec.getLsbD_zero] at bit
        cases bit

end Rtl88x2bu.Efuse
