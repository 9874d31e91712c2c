import Rtl88x2bu.Lib.Tape
import Rtl88x2bu.Efuse.LogMap

/-!
# Replaying the log

A physical map that holds a sequence of blocks and is blank from there on parses to the replay of
the blocks.
-/

namespace Rtl88x2bu.Efuse

open List Function Option
open Tape

def logLimit : ℕ :=
  efuseSize - prtctEfuseSize

/-- A block of the log: some words of the eight bytes of `map` from `8 * blk` on. -/
structure Block where
  blk : ℕ
  words : Byte
  map : ByteMap
  blk_lt : blk < 96
  words_lt : words.toNat < 16
  words_ne : words ≠ 0#8

variable (b : Block) (blocks : List Block)

def blockHeader (blk : ℕ) (wordEn : Byte) : List Byte :=
  if 8 * blk > 0x7f then [extHdr (blkOf (8 * blk)), extHdr2 (blkOf (8 * blk)) wordEn]
  else [stdHdr (blkOf (8 * blk)) wordEn]

def Block.encode : List Byte :=
  blockHeader b.blk (b.words ^^^ 0x0F#8) ++ wordBytes b.map b.words (8 * b.blk)

def Block.replay (logMap : ByteMap) (b : Block) : ByteMap := fun o =>
  if o / 8 = b.blk ∧ b.words.getLsbD (o % 8 / 2) then b.map o else logMap o

/-! ## Headers -/

theorem blkOf_block (blk : ℕ) : blkOf (8 * blk) = BitVec.ofNat 8 blk := by
  rw [blkOf, Nat.shiftRight_eq_div_pow, Nat.mul_div_cancel_left blk (by decide)]

structure ReadsStd (blk : ℕ) (wordEn hdr : Byte) : Prop where
  std : hdr &&& 0x1F#8 ≠ 0x0F#8
  present : hdr ≠ 0xFF#8
  blkIdx : ((hdr &&& 0xF0#8) >>> 4).toNat = blk
  words : hdr &&& 0x0F#8 = wordEn

structure ReadsExt (blk : ℕ) (wordEn hdr hdr2 : Byte) : Prop where
  ext : hdr &&& 0x1F#8 = 0x0F#8
  present : hdr2 ≠ 0xFF#8
  blkIdx : (((hdr2 &&& 0xF0#8) >>> 1) ||| ((hdr >>> 5) &&& 0x07#8)).toNat = blk
  words : hdr2 &&& 0x0F#8 = wordEn

theorem stdHdr_fin : ∀ blk words : Fin 16, words ≠ 0 →
    let wordEn := BitVec.ofNat 8 words ^^^ 0x0F#8
    let hdr := stdHdr (BitVec.ofNat 8 blk) wordEn
    hdr &&& 0x1F#8 ≠ 0x0F#8 ∧ hdr ≠ 0xFF#8 ∧ ((hdr &&& 0xF0#8) >>> 4).toNat = blk ∧
      hdr &&& 0x0F#8 = wordEn := by
  decide +kernel

theorem extHdr_fin : ∀ (blk : Fin 128) (words : Fin 16), words ≠ 0 →
    let wordEn := BitVec.ofNat 8 words ^^^ 0x0F#8
    let hdr := extHdr (BitVec.ofNat 8 blk)
    let hdr2 := extHdr2 (BitVec.ofNat 8 blk) wordEn
    hdr &&& 0x1F#8 = 0x0F#8 ∧ hdr2 ≠ 0xFF#8 ∧
      (((hdr2 &&& 0xF0#8) >>> 1) ||| ((hdr >>> 5) &&& 0x07#8)).toNat = blk ∧
      hdr2 &&& 0x0F#8 = wordEn := by
  decide +kernel

theorem toFin_ne_zero {words : Byte} (nibble : words.toNat < 16) (some_word : words ≠ 0#8) :
    (⟨words.toNat, nibble⟩ : Fin 16) ≠ 0 := by
  intro zero
  have value : words.toNat = 0 := congrArg Fin.val zero
  exact some_word (BitVec.eq_of_toNat_eq value)

theorem readsStd {blk : ℕ} {words : Byte} (small : blk < 16) (nibble : words.toNat < 16)
    (some_word : words ≠ 0#8) :
    ReadsStd blk (words ^^^ 0x0F#8) (stdHdr (BitVec.ofNat 8 blk) (words ^^^ 0x0F#8)) := by
  have facts := stdHdr_fin ⟨blk, small⟩ ⟨words.toNat, nibble⟩ (toFin_ne_zero nibble some_word)
  simp only [BitVec.ofNat_toNat, BitVec.setWidth_eq] at facts
  exact ⟨facts.1, facts.2.1, facts.2.2.1, facts.2.2.2⟩

theorem readsExt {blk : ℕ} {words : Byte} (small : blk < 128) (nibble : words.toNat < 16)
    (some_word : words ≠ 0#8) :
    ReadsExt blk (words ^^^ 0x0F#8) (extHdr (BitVec.ofNat 8 blk))
      (extHdr2 (BitVec.ofNat 8 blk) (words ^^^ 0x0F#8)) := by
  have facts := extHdr_fin ⟨blk, small⟩ ⟨words.toNat, nibble⟩ (toFin_ne_zero nibble some_word)
  simp only [BitVec.ofNat_toNat, BitVec.setWidth_eq] at facts
  exact ⟨facts.1, facts.2.1, facts.2.2.1, facts.2.2.2⟩

/-! ## Words -/

theorem wordEn_getLsbD (words : Byte) {i : ℕ} (word : i < 4) :
    (words ^^^ 0x0F#8).getLsbD i = !words.getLsbD i := by
  have set : (0x0F#8).getLsbD i = true := by
    interval_cases i <;> rfl
  rw [BitVec.getLsbD_xor, set, Bool.xor_true]

def selectedWord (map : ByteMap) (words : Byte) (blk i : ℕ) : List Byte :=
  if words.getLsbD i then [map (8 * blk + (i <<< 1)), map (8 * blk + (i <<< 1) + 1)] else []

def replayWords (map : ByteMap) (words : Byte) (blk : ℕ) (is : List ℕ) (logMap : ByteMap) :
    ByteMap := fun o =>
  if o / 8 = blk ∧ o % 8 / 2 ∈ is ∧ words.getLsbD (o % 8 / 2) then map o else logMap o

variable {mem map logMap : ByteMap} {words : Byte} {blk idx : ℕ}

theorem replayWords_cons {i : ℕ} (word : i < 4) (is : List ℕ) (present : words.getLsbD i = true) :
    replayWords map words blk is
        (Function.update (Function.update logMap (8 * blk + 2 * i) (map (8 * blk + 2 * i)))
          (8 * blk + 2 * i + 1) (map (8 * blk + 2 * i + 1))) =
      replayWords map words blk (i :: is) logMap := by
  funext o
  by_cases here : o / 8 = blk ∧ o % 8 / 2 = i
  · -- the word itself: whatever comes after it writes the same bytes
    obtain ⟨inBlock, atWord⟩ := here
    have byte : o = 8 * blk + 2 * i ∨ o = 8 * blk + 2 * i + 1 := by omega
    have written : replayWords map words blk (i :: is) logMap o = map o :=
      if_pos ⟨inBlock, by rw [atWord]; exact mem_cons_self, by rw [atWord]; exact present⟩
    rw [written, replayWords]
    split
    · rfl
    · rcases byte with rfl | rfl
      · rw [update_of_ne (by omega), update_self]
      · rw [update_self]
  · have first : o ≠ 8 * blk + 2 * i := by omega
    have second : o ≠ 8 * blk + 2 * i + 1 := by omega
    rw [replayWords, replayWords, update_of_ne second, update_of_ne first]
    apply if_congr _ rfl rfl
    constructor
    · rintro ⟨inBlock, later, bit⟩
      exact ⟨inBlock, mem_cons_of_mem _ later, bit⟩
    · rintro ⟨inBlock, listed, bit⟩
      refine ⟨inBlock, ?_, bit⟩
      exact (mem_cons.mp listed).resolve_left fun same => here ⟨inBlock, same⟩

theorem replayWords_skip {i : ℕ} (is : List ℕ) (absent : words.getLsbD i = false) :
    replayWords map words blk is logMap = replayWords map words blk (i :: is) logMap := by
  funext o
  apply if_congr _ rfl rfl
  constructor
  · rintro ⟨inBlock, later, bit⟩
    exact ⟨inBlock, mem_cons_of_mem _ later, bit⟩
  · rintro ⟨inBlock, listed, bit⟩
    refine ⟨inBlock, (mem_cons.mp listed).resolve_left ?_, bit⟩
    rintro same
    rw [same, absent] at bit
    cases bit

theorem parseWords_eq (is : List ℕ) (small : ∀ i ∈ is, i < 4) (inMap : blk < 96)
    (holds : Holds mem idx (is.flatMap (selectedWord map words blk)))
    (fits : idx + (is.flatMap (selectedWord map words blk)).length ≤ logLimit) :
    is.foldlM (parseWord mem blk (words ^^^ 0x0F#8)) (idx, logMap) =
      some (idx + (is.flatMap (selectedWord map words blk)).length,
        replayWords map words blk is logMap) := by
  induction is generalizing idx logMap with
  | nil =>
    have nothing : replayWords map words blk [] logMap = logMap := by
      funext o
      exact if_neg fun listed => not_mem_nil listed.2.1
    rw [nothing]
    rfl
  | cons i is ih =>
    obtain ⟨word, later⟩ := forall_mem_cons.mp small
    rw [flatMap_cons] at holds fits ⊢
    rw [foldlM_cons]
    have bit := wordEn_getLsbD words word
    cases present : words.getLsbD i with
    | false =>
      have nothing : selectedWord map words blk i = [] := by
        rw [selectedWord, present]
        rfl
      rw [nothing, nil_append] at holds fits ⊢
      have skipped : parseWord mem blk (words ^^^ 0x0F#8) (idx, logMap) i = some (idx, logMap) := by
        rw [parseWord, bit, present]
        rfl
      rw [skipped, bind_eq_bind, bind_some, ih later holds fits,
        replayWords_skip is present]
    | true =>
      have taken : selectedWord map words blk i =
          [map (8 * blk + 2 * i), map (8 * blk + 2 * i + 1)] := by
        rw [selectedWord, present, Nat.shiftLeft_eq, Nat.mul_comm i]
        rfl
      rw [taken] at holds fits ⊢
      obtain ⟨⟨first, second, -⟩, rest⟩ := holds_append.mp holds
      simp only [length_append, length_cons, length_nil] at rest fits ⊢
      have limit : logLimit = 928 := rfl
      have stepped : parseWord mem blk (words ^^^ 0x0F#8) (idx, logMap) i =
          some (idx + 2,
            Function.update (Function.update logMap (8 * blk + 2 * i) (map (8 * blk + 2 * i)))
              (8 * blk + 2 * i + 1) (map (8 * blk + 2 * i + 1))) := by
        have offset : (blk <<< 3) + (i <<< 1) = 8 * blk + 2 * i := by
          rw [Nat.shiftLeft_eq, Nat.shiftLeft_eq]
          omega
        simp only [parseWord, bit, present, Bool.not_true, if_true, offset, first, second]
        rw [if_neg (by unfold eepromSize; omega),
          if_neg (by unfold efuseSize prtctEfuseSize; omega),
          if_neg (by unfold efuseSize prtctEfuseSize; omega)]
      rw [stepped, bind_eq_bind, bind_some, ih later rest (by omega),
        replayWords_cons word is present, Nat.add_assoc]

/-! ## Blocks -/

theorem Block.replay_eq (logMap : ByteMap) :
    replayWords b.map b.words b.blk wordIndices logMap = b.replay logMap := by
  funext o
  apply if_congr _ rfl rfl
  have listed : o % 8 / 2 ∈ wordIndices := by
    have small : o % 8 / 2 < 4 := by omega
    generalize o % 8 / 2 = i at small
    interval_cases i <;> decide
  simp only [listed, true_and]

theorem Block.two_le_wordBytes : 2 ≤ (wordBytes b.map b.words (8 * b.blk)).length := by
  by_contra short
  have none_set : ∀ i < 4, b.words.getLsbD i = false := by
    intro i word
    by_contra set
    have taken : b.words.getLsbD i = true := by simpa using set
    have member : i ∈ wordIndices := by
      interval_cases i <;> decide
    obtain ⟨before, after, split⟩ := append_of_mem member
    rw [wordBytes, split, flatMap_append, flatMap_cons, taken] at short
    simp only [length_append, if_true, length_cons] at short
    omega
  refine b.words_ne (BitVec.eq_of_getLsbD_eq fun i byte => ?_)
  rw [BitVec.getLsbD_zero]
  by_cases word : i < 4
  · exact none_set i word
  · have power : b.words.toNat < 2 ^ i :=
      b.words_lt.trans_le (Nat.pow_le_pow_right Nat.two_pos (by omega : 4 ≤ i))
    exact Nat.testBit_lt_two_pow power

theorem parseBlocks_block (fuel : ℕ) (logMap : ByteMap) (holds : Holds mem idx b.encode)
    (fits : idx + b.encode.length ≤ logLimit) :
    parseBlocks mem (fuel + 1) idx logMap =
      parseBlocks mem fuel (idx + b.encode.length) (b.replay logMap) := by
  rw [Block.encode] at holds fits ⊢
  obtain ⟨header, body⟩ := holds_append.mp holds
  rw [length_append] at fits ⊢
  have some_word := b.two_le_wordBytes
  -- once the header is read, both formats go on alike
  have parsed : ∀ behind, behind = idx + (blockHeader b.blk (b.words ^^^ 0x0F#8)).length →
      parseBlock mem b.blk (b.words ^^^ 0x0F#8) behind logMap =
        some (behind + (wordBytes b.map b.words (8 * b.blk)).length, b.replay logMap) := by
    rintro behind rfl
    rw [parseBlock, if_neg (by unfold logLimit at fits; omega), ← b.replay_eq]
    exact parseWords_eq wordIndices (by decide) b.blk_lt body (by rw [Nat.add_assoc]; exact fits)
  rw [← Nat.add_assoc, parseBlocks]
  by_cases extended : 8 * b.blk > 0x7f
  · rw [blockHeader, if_pos extended, blkOf_block] at header parsed ⊢
    have inMap := b.blk_lt
    have reads := readsExt (by omega : b.blk < 128) b.words_lt b.words_ne
    obtain ⟨hdr, hdr2, -⟩ := header
    simp only [hdr, hdr2, reads.ext, if_true, reads.present, if_false, reads.blkIdx, reads.words]
    rw [parsed (idx + 2) rfl]
    rfl
  · rw [blockHeader, if_neg extended, blkOf_block] at header parsed ⊢
    have reads := readsStd (by omega : b.blk < 16) b.words_lt b.words_ne
    obtain ⟨hdr, -⟩ := header
    simp only [hdr, reads.std, if_false, reads.present, reads.blkIdx, reads.words]
    rw [parsed (idx + 1) rfl]
    rfl

def encodeLog : List Byte :=
  blocks.flatMap Block.encode

def replayLog : ByteMap :=
  blocks.foldl Block.replay unwritten

theorem length_le_encodeLog : blocks.length ≤ (encodeLog blocks).length := by
  induction blocks with
  | nil => exact Nat.le_refl 0
  | cons b blocks ih =>
    have some_word := b.two_le_wordBytes
    rw [encodeLog, flatMap_cons, length_append, length_cons, Block.encode,
      length_append]
    unfold encodeLog at ih
    omega

theorem eepromParser_encodeLog {blocks : List Block} (fits : (encodeLog blocks).length ≤ logLimit) :
    eepromParser (image 0xFF#8 (encodeLog blocks)) =
      some (replayLog blocks, (encodeLog blocks).length) := by
  have enough := length_le_encodeLog blocks
  have limit : logLimit = 928 := rfl
  obtain ⟨fuel, rounds⟩ : ∃ fuel, efuseSize = fuel + 1 + blocks.length := by
    refine ⟨efuseSize - 1 - blocks.length, ?_⟩
    unfold efuseSize
    omega
  have replayed := scan_records (parseBlocks (image 0xFF#8 (encodeLog blocks))) logLimit
    (fun b fuel _ s holds fits => parseBlocks_block b fuel s holds fits) blocks (fuel + 1) unwritten
    (holds_image _) (by rwa [Nat.zero_add])
  rw [eepromParser, rounds, replayed, Nat.zero_add, parseBlocks]
  -- the byte behind the last block is blank
  have blank : image 0xFF#8 (encodeLog blocks) (blocks.flatMap Block.encode).length = 0xFF#8 :=
    image_of_length_le le_rfl
  simp only [blank]
  rfl

end Rtl88x2bu.Efuse
