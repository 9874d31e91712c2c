import Rtl88x2bu.Lib.Run
import Rtl88x2bu.Efuse.Append

/-!
# Runs of logical writes

Any sequence of `write_log_efuse_88xx`, `write_log_efuse_word_88xx` and `pg_efuse_by_map_88xx` from
a blank eFuse.
-/

namespace Rtl88x2bu.Efuse

open List Function
open Tape

inductive EfuseEvent
  | writeLog (offset : ℕ) (value : Byte)
  | writeLogWord (offset : ℕ) (value : BitVec 16)
  | pgByMap (info : PgEfuseInfo)

def call (adapter : HalmacAdapter) : EfuseEvent → RetStatus × HalmacAdapter
  | .writeLog offset value => writeLogEfuse adapter offset value
  | .writeLogWord offset value => writeLogEfuseWord adapter offset value
  | .pgByMap info => pgEfuseByMap adapter info

/-- The bit of a mask byte for the word at `o`: the high nibble is for the first half of a row. -/
def maskBit (o : ℕ) : ℕ :=
  if o % 16 < 8 then 4 + o % 8 / 2 else o % 8 / 2

def Selected (info : PgEfuseInfo) (o : ℕ) : Prop :=
  o < eepromSize ∧ (info.efuseMask (o / 16)).getLsbD (maskBit o) = true

instance (info : PgEfuseInfo) (o : ℕ) : Decidable (Selected info o) :=
  inferInstanceAs (Decidable (_ ∧ _))

def noteWritten (logical : ByteMap) : EfuseEvent → ByteMap
  | .writeLog offset value => Function.update logical offset value
  | .writeLogWord offset value =>
    Function.update (Function.update logical offset (value.extractLsb' 0 8)) (offset + 1)
      (value.extractLsb' 8 8)
  | .pgByMap info => fun o => if Selected info o then info.efuseMap o else logical o

/-- The adapter and, by logical offset, the value last written by a call that succeeded. -/
structure EfuseRun where
  adapter : HalmacAdapter
  logical : ByteMap

def step (s : EfuseRun) (e : EfuseEvent) : EfuseRun where
  adapter := (call s.adapter e).2
  logical := if (call s.adapter e).1 = .success then noteWritten s.logical e else s.logical

def initial : EfuseRun where
  adapter :=
    { hw := unwritten, efuseMap := unwritten, efuseMapValid := false, efuseEnd := 0, written := [] }
  logical := unwritten

/-- The physical writes up to and including the call stay before the protected area. -/
def WritesBelow (s : EfuseRun) (e : EfuseEvent) : Prop :=
  ∀ o ∈ (call s.adapter e).2.written, o < efuseSize - prtctEfuseSize

/-- The physical map is a log of blocks that replays to the values last written. -/
def Logged (s : EfuseRun) : Prop :=
  ∃ blocks, Stores s.adapter blocks ∧ s.logical = replayLog blocks

theorem replayLog_append (blocks more : List Block) :
    replayLog (blocks ++ more) = more.foldl Block.replay (replayLog blocks) :=
  foldl_append

variable {adapter : HalmacAdapter} {blocks : List Block} {info : PgEfuseInfo} {logical : ByteMap}
variable {e : EfuseEvent}

/-! ## Bytes and words -/

/-- What a call does to a log: it fails and leaves it, or the log then replays to what it wrote. -/
def Keeps (adapter : HalmacAdapter) (blocks : List Block) (e : EfuseEvent) : Prop :=
  ((call adapter e).1 ≠ .success ∧ Stores (call adapter e).2 blocks) ∨
  (call adapter e).1 = .success ∧ ∃ more, Stores (call adapter e).2 (blocks ++ more) ∧
    replayLog (blocks ++ more) = noteWritten (replayLog blocks) e

theorem keeps_of_failure {status : RetStatus} {adapter' : HalmacAdapter}
    (calls : call adapter e = (status, adapter')) (failed : status ≠ .success)
    (stores : Stores adapter' blocks) : Keeps adapter blocks e := by
  refine .inl ?_
  rw [calls]
  exact ⟨failed, stores⟩

theorem and_one_eq_zero_iff (offset : ℕ) : offset &&& 1 = 0 ↔ offset % 2 = 0 := by
  rw [Nat.and_one_is_mod]

theorem keeps_of_appendWord {offset : ℕ} {byte1 byte2 : Byte} (stores : Stores adapter blocks)
    (inMap : offset < eepromSize)
    (calls : call adapter e = appendWord (adapter.parsed blocks) offset byte1 byte2)
    (writes : ∀ o, (wordBlock offset inMap byte1 byte2).replay (replayLog blocks) o =
      noteWritten (replayLog blocks) e o) : Keeps adapter blocks e := by
  rcases stores.parsed.appendWord byte1 byte2 inMap rfl with full | ⟨adapter', appended, stores'⟩
  · exact keeps_of_failure (calls.trans full) (by decide) stores.parsed
  · unfold Keeps
    rw [calls, appended]
    refine .inr ⟨rfl, _, stores', ?_⟩
    rw [replayLog_append]
    exact funext writes

theorem keeps_writeLog (stores : Stores adapter blocks) (offset : ℕ) (value : Byte) :
    Keeps adapter blocks (.writeLog offset value) := by
  by_cases inMap : offset < eepromSize
  swap
  · exact keeps_of_failure (if_pos (not_lt.mp inMap)) (by decide) stores
  have calls : call adapter (.writeLog offset value) =
      if replayLog blocks offset ≠ value then
        if offset &&& 1 = 0 then
          appendWord (adapter.parsed blocks) offset value (replayLog blocks (offset + 1))
        else appendWord (adapter.parsed blocks) offset (replayLog blocks (offset - 1)) value
      else (.success, adapter.parsed blocks) := by
    rw [call, writeLogEfuse, if_neg (not_le.mpr inMap), procWriteLogEfuse,
      stores.readLogEfuseMap_eq]
  by_cases changed : replayLog blocks offset ≠ value
  swap
  · -- nothing is written, and nothing has to be
    rw [if_neg changed] at calls
    refine .inr ?_
    rw [calls]
    refine ⟨rfl, [], ?_, ?_⟩
    · rw [append_nil]
      exact stores.parsed
    · rw [append_nil, noteWritten, ← not_not.mp changed, update_eq_self]
  rw [if_pos changed] at calls
  by_cases even : offset &&& 1 = 0
  · rw [if_pos even] at calls
    refine keeps_of_appendWord stores inMap calls fun o => ?_
    rw [wordBlock_replay, noteWritten, update_apply]
    rw [and_one_eq_zero_iff] at even
    by_cases same : o = offset
    · rw [if_pos (by omega), if_pos (by omega), if_pos same]
    · rw [if_neg same]
      split
      next inWord =>
        have other : o = offset + 1 := by omega
        rw [if_neg (by omega), other]
      · rfl
  · rw [if_neg even] at calls
    refine keeps_of_appendWord stores inMap calls fun o => ?_
    rw [wordBlock_replay, noteWritten, update_apply]
    rw [and_one_eq_zero_iff] at even
    by_cases same : o = offset
    · rw [if_pos (by omega), if_neg (by omega), if_pos same]
    · rw [if_neg same]
      split
      next inWord =>
        have other : o = offset - 1 := by omega
        rw [if_pos (by omega), other]
      · rfl

theorem keeps_writeLogWord (stores : Stores adapter blocks) (offset : ℕ) (value : BitVec 16) :
    Keeps adapter blocks (.writeLogWord offset value) := by
  by_cases inMap : offset < eepromSize
  swap
  · exact keeps_of_failure (if_pos (not_lt.mp inMap)) (by decide) stores
  have calls : call adapter (.writeLogWord offset value) =
      if offset &&& 1 = 0 then
        appendWord (adapter.parsed blocks) offset (value.extractLsb' 0 8) (value.extractLsb' 8 8)
      else (.adrNotAlign, adapter.parsed blocks) := by
    rw [call, writeLogEfuseWord, if_neg (not_le.mpr inMap), procWriteLogEfuseWord,
      stores.readLogEfuseMap_eq]
  by_cases even : offset &&& 1 = 0
  · rw [if_pos even] at calls
    refine keeps_of_appendWord stores inMap calls fun o => ?_
    rw [wordBlock_replay, noteWritten, update_apply, update_apply]
    rw [and_one_eq_zero_iff] at even
    by_cases second : o = offset + 1
    · rw [if_pos (by omega), if_neg (by omega), if_pos second]
    · rw [if_neg second]
      by_cases first : o = offset
      · rw [if_pos (by omega), if_pos (by omega), if_pos first]
      · rw [if_neg (by omega), if_neg first]
  · rw [if_neg even] at calls
    exact keeps_of_failure calls (by decide) stores.parsed

/-! ## Maps -/

theorem preWordEn_getLsbD (mask : ByteMap) (o : ℕ) :
    (preWordEn mask (8 * (o / 8))).getLsbD (o % 8 / 2) = (mask (o / 16)).getLsbD (maskBit o) := by
  have word := wordIdx_lt o
  have row : (8 * (o / 8)) >>> 4 = o / 16 := by
    rw [Nat.shiftRight_eq_div_pow]
    omega
  have half : (8 * (o / 8)) >>> 3 &&& 1 > 0 ↔ ¬ o % 16 < 8 := by
    rw [Nat.shiftRight_eq_div_pow, Nat.and_one_is_mod]
    omega
  rw [preWordEn, maskBit, row]
  by_cases first : o % 16 < 8
  · rw [if_neg (fun odd => half.mp odd first), if_pos first, BitVec.getLsbD_ushiftRight]
  · have kept : (0x0F#8).getLsbD (o % 8 / 2) = true := by
      generalize o % 8 / 2 = i at word
      interval_cases i <;> rfl
    rw [if_pos (half.mpr first), if_neg first, BitVec.getLsbD_and, kept, Bool.and_true]

def SameWord (info : PgEfuseInfo) (map : ByteMap) (offset : ℕ) : Prop :=
  info.efuseMap offset = map offset ∧ info.efuseMap (offset + 1) = map (offset + 1)

instance (info : PgEfuseInfo) (map : ByteMap) (offset : ℕ) : Decidable (SameWord info map offset) :=
  inferInstanceAs (Decidable (_ ∧ _))

theorem clearBits_getLsbD (same : ℕ → Prop) [DecidablePred same] (mask : Byte) (js : List ℕ) {k : ℕ}
    (bit : k < 8) :
    (js.foldl (fun mask j => if same j then mask &&& ~~~(clrBit j) else mask) mask).getLsbD k =
      (mask.getLsbD k && !js.any fun j => decide (same j) && (clrBit j).getLsbD k) := by
  induction js generalizing mask with
  | nil => simp
  | cons j js ih =>
    rw [foldl_cons, ih, any_cons]
    by_cases cleared : same j
    · simp [cleared, bit, Bool.and_assoc]
    · simp [cleared]

theorem clrBit_fin : ∀ t j : Fin 8,
    (clrBit (2 * j)).getLsbD (if 2 * (t : ℕ) < 8 then 4 + t % 4 else t % 4) = decide (j = t) := by
  decide

theorem updatedMask_getLsbD (map : ByteMap) (o : ℕ) :
    (updatedMask info map (o / 16)).getLsbD (maskBit o) =
      ((info.efuseMask (o / 16)).getLsbD (maskBit o) &&
        !decide (SameWord info map (2 * (o / 2)))) := by
  have bit : maskBit o < 8 := by
    unfold maskBit
    split <;> omega
  have cleared := clearBits_getLsbD (fun j => SameWord info map (16 * (o / 16) + j))
    (info.efuseMask (o / 16)) [0, 2, 4, 6, 8, 10, 12, 14] bit
  have only : ([0, 2, 4, 6, 8, 10, 12, 14].any fun j =>
      decide (SameWord info map (16 * (o / 16) + j)) && (clrBit j).getLsbD (maskBit o)) =
      decide (SameWord info map (2 * (o / 2))) := by
    have listed : [0, 2, 4, 6, 8, 10, 12, 14] =
        (List.finRange 8).map fun (j : Fin 8) => 2 * (j : ℕ) :=
      rfl
    have word : o % 16 / 2 < 8 := by omega
    have bits : ∀ j : Fin 8, (clrBit (2 * j)).getLsbD (maskBit o) = decide (j = ⟨_, word⟩) := by
      intro j
      rw [← clrBit_fin ⟨_, word⟩ j, maskBit]
      congr 1
      apply if_congr
      · change _ ↔ 2 * (o % 16 / 2) < 8
        omega
      · change 4 + o % 8 / 2 = 4 + o % 16 / 2 % 4
        omega
      · change o % 8 / 2 = o % 16 / 2 % 4
        omega
    rw [listed, any_map, Bool.eq_iff_iff, any_eq_true, decide_eq_true_iff]
    have start : 16 * (o / 16) + 2 * (o % 16 / 2) = 2 * (o / 2) := by omega
    constructor
    · rintro ⟨j, -, both⟩
      simp only [comp_apply, bits, Bool.and_eq_true, decide_eq_true_iff] at both
      rw [both.2, start] at both
      exact both.1
    · intro same
      refine ⟨⟨_, word⟩, mem_finRange _, ?_⟩
      have own := bits ⟨_, word⟩
      simp only [comp_apply, Bool.and_eq_true, decide_eq_true_iff]
      rw [start]
      exact ⟨same, own.trans (decide_eq_true rfl)⟩
  rw [only] at cleared
  exact cleared

theorem replay_updatedMask (info : PgEfuseInfo) (map : ByteMap) (o : ℕ) :
    (pgBlocks info (updatedMask info map) 96).foldl Block.replay map o =
      if Selected info o then info.efuseMap o else map o := by
  rw [replay_pgBlocks le_rfl, preWordEn_getLsbD, updatedMask_getLsbD]
  have inMap : o / 8 < 96 ↔ o < eepromSize := by
    unfold eepromSize
    omega
  by_cases selected : Selected info o
  · rw [if_pos selected, selected.2]
    by_cases same : SameWord info map (2 * (o / 2))
    · -- the word is not programmed again: it has the value already
      have value : info.efuseMap o = map o := by
        rcases Nat.mod_two_eq_zero_or_one o with even | odd
        · have start : 2 * (o / 2) = o := by omega
          rw [← start]
          exact same.1
        · have next : 2 * (o / 2) + 1 = o := by omega
          rw [← next]
          exact same.2
      rw [value, ite_self]
    · exact if_pos ⟨inMap.mpr selected.1, by simp [same]⟩
  · rw [if_neg selected]
    refine if_neg fun both => selected ⟨inMap.mp both.1, ?_⟩
    exact (Bool.and_eq_true_iff.mp both.2).1

section

variable (stores : Stores adapter blocks)
include stores

theorem Stores.withEnd (efuseEnd : ℕ) : Stores { adapter with efuseEnd } blocks :=
  ⟨stores.hw, stores.fits, stores.cached⟩

theorem Stores.programEfuse (atEnd : adapter.efuseEnd = (encodeLog blocks).length)
    (sized : info.efuseMapSize = eepromSize) (mask : ByteMap)
    (below : ∀ o ∈ (programEfuse adapter info mask).written, o < logLimit) :
    Stores (programEfuse adapter info mask) (blocks ++ pgBlocks info mask 96) := by
  obtain ⟨efuseEnd, -, programmed⟩ := programs_programEfuse adapter mask sized
  rw [programmed, atEnd] at below ⊢
  have bytes : programBytes info mask = encodeLog (pgBlocks info mask 96) :=
    (encodeLog_pgBlocks le_rfl).symm
  rw [bytes] at below ⊢
  refine (stores.append ?_).withEnd efuseEnd
  -- otherwise the byte at the limit is among those written
  by_contra beyond
  have fits := stores.fits
  have small : logLimit < 2 ^ 32 := by decide
  have hit : logLimit < logLimit := by
    refine below _ ?_
    simp only [writeBytes_written, mem_append, mem_map, mem_range]
    refine .inr ⟨logLimit - (encodeLog blocks).length, by omega, ?_⟩
    rw [Nat.add_sub_cancel' fits, u32_of_lt small]
  exact Nat.lt_irrefl _ hit

theorem keeps_pgByMap (below : ∀ o ∈ (call adapter (.pgByMap info)).2.written, o < logLimit) :
    Keeps adapter blocks (.pgByMap info) := by
  by_cases sized : info.efuseMapSize = eepromSize
  swap
  · exact keeps_of_failure (if_pos sized) (by decide) stores
  have calls : pgEfuseByMap adapter info = (.efuseSizeIncorrect, adapter) ∨
      pgEfuseByMap adapter info = procPgEfuseByMap adapter info := by
    unfold pgEfuseByMap
    rw [if_neg (not_not.mpr sized)]
    split
    · exact .inl rfl
    · split
      · exact .inl rfl
      · exact .inr rfl
  rcases calls with refused | calls
  · exact keeps_of_failure refused (by decide) stores
  simp only [procPgEfuseByMap, updateEepromMask, stores.readLogEfuseMap_eq] at calls
  cases checked : checkEfuseEnough (adapter.parsed blocks) info
      (updatedMask info (replayLog blocks)) with
  | success =>
    rw [checked] at calls
    have programmed : call adapter (.pgByMap info) = (.success, _) := calls
    rw [programmed] at below
    unfold Keeps
    rw [programmed]
    refine .inr ⟨rfl, _, stores.parsed.programEfuse rfl sized _ below, ?_⟩
    rw [replayLog_append]
    exact funext (replay_updatedMask info _)
  | _ =>
    rw [checked] at calls
    exact keeps_of_failure calls (by decide) stores.parsed

theorem keeps_call (below : ∀ o ∈ (call adapter e).2.written, o < logLimit) :
    Keeps adapter blocks e := by
  cases e with
  | writeLog offset value => exact keeps_writeLog stores offset value
  | writeLogWord offset value => exact keeps_writeLogWord stores offset value
  | pgByMap info => exact keeps_pgByMap stores below

end

/-! ## Whole runs -/

theorem Logged.initial : Logged initial :=
  ⟨[], ⟨funext fun _ => rfl, Nat.zero_le _, fun valid => by cases valid⟩, rfl⟩

theorem Logged.step {s : EfuseRun} (logged : Logged s) (below : WritesBelow s e) :
    Logged (step s e) := by
  obtain ⟨blocks, stores, values⟩ := logged
  have keeps : Keeps s.adapter blocks e := keeps_call stores below
  unfold Efuse.step
  rcases keeps with ⟨failed, stores'⟩ | ⟨succeeded, more, stores', replayed⟩
  · rw [if_neg failed]
    exact ⟨blocks, stores', values⟩
  · rw [if_pos succeeded]
    refine ⟨blocks ++ more, stores', ?_⟩
    rw [replayed, values]

/-- After any calls whose physical writes stay before the protected area, the parser succeeds on the
physical map, and its logical map has at every offset the value last written there. -/
theorem efuse_writes_read_back {s : EfuseRun} (reached : Run.Reachable step WritesBelow initial s) :
    ∃ efuseEnd, eepromParser s.adapter.hw = some (s.logical, efuseEnd) := by
  have logged : Logged s :=
    reached.invariant Logged.initial fun _ _ held below => held.step below
  obtain ⟨blocks, stores, values⟩ := logged
  refine ⟨(encodeLog blocks).length, ?_⟩
  rw [stores.hw, values, eepromParser_encodeLog stores.fits]

def writesRun : List EfuseEvent :=
  [.writeLog 3 0x5A#8, .writeLogWord 0x80 0xBEEF#16, .writeLog 3 0xA5#8,
    .pgByMap
      { efuseMap := fun _ => 0xA5#8
        efuseMapSize := 768
        efuseMask := fun row => if row = 0 then 0x21#8 else 0x00#8
        efuseMaskSize := 48 }]

theorem efuse_writes_read_back_small :
    (∃ efuseEnd, eepromParser (writesRun.foldl step initial).adapter.hw =
      some ((writesRun.foldl step initial).logical, efuseEnd)) ∧
    (writesRun.foldl step initial).logical 2 = 0xA5#8 ∧
    (writesRun.foldl step initial).logical 9 = 0xA5#8 ∧
    (writesRun.foldl step initial).logical 0x81 = 0xBE#8 := by
  refine ⟨efuse_writes_read_back (Run.Reachable.start.append ?_), ?_, ?_, ?_⟩
  · refine ⟨?_, ?_, ?_, ?_, trivial⟩
    all_goals (unfold WritesBelow; decide +kernel)
  all_goals decide +kernel

/-! ## Programmed once -/

theorem image_encodeLog_append (blocks more : List Block) (o : ℕ) :
    image 0xFF#8 (encodeLog (blocks ++ more)) o = image 0xFF#8 (encodeLog blocks) o ∨
      image 0xFF#8 (encodeLog blocks) o = 0xFF#8 := by
  rcases Nat.lt_or_ge o (encodeLog blocks).length with inside | behind
  · left
    rw [encodeLog_append]
    exact getD_append _ _ _ _ inside
  · right
    exact getD_eq_default _ _ behind

theorem Logged.step_hw {s : EfuseRun} (logged : Logged s) (below : WritesBelow s e) (o : ℕ) :
    (Efuse.step s e).adapter.hw o = s.adapter.hw o ∨ s.adapter.hw o = 0xFF#8 := by
  obtain ⟨blocks, stores, -⟩ := logged
  have keeps : Keeps s.adapter blocks e := keeps_call stores below
  rcases keeps with ⟨-, stores'⟩ | ⟨-, more, stores', -⟩
  · left
    exact congrFun (stores'.hw.trans stores.hw.symm) o
  · have appended := image_encodeLog_append blocks more o
    rw [← stores.hw, ← stores'.hw] at appended
    exact appended

/-- An eFuse can be programmed once. Between any two states of a run a byte of the physical map
changes only if it was blank: no call programs over what an earlier one has left. -/
theorem efuse_programs_blank_bytes {s t : EfuseRun}
    (reached : Run.Reachable step WritesBelow initial s)
    (later : Run.Reachable step WritesBelow s t) (o : ℕ) :
    t.adapter.hw o = s.adapter.hw o ∨ s.adapter.hw o = 0xFF#8 := by
  have logged : Logged s :=
    reached.invariant Logged.initial fun _ _ held below => held.step below
  -- a byte that is still as in `s` is either left alone by the next call or blank in `s`, too
  have held : Logged t ∧ (t.adapter.hw o = s.adapter.hw o ∨ s.adapter.hw o = 0xFF#8) := by
    refine later.invariant (motive := fun u : EfuseRun =>
      Logged u ∧ (u.adapter.hw o = s.adapter.hw o ∨ s.adapter.hw o = 0xFF#8)) ⟨logged, .inl rfl⟩ ?_
    rintro u e ⟨logged, kept | blank⟩ below
    · refine ⟨logged.step below, ?_⟩
      have next := logged.step_hw below o
      rwa [kept] at next
    · exact ⟨logged.step below, .inr blank⟩
  exact held.2

def firstWrite : EfuseRun :=
  step initial (.writeLog 3 0x5A#8)

theorem efuse_programs_blank_bytes_small :
    firstWrite.adapter.hw 2 ≠ 0xFF#8 ∧
      (step firstWrite (.writeLog 3 0xA5#8)).adapter.hw 2 = firstWrite.adapter.hw 2 := by
  have programmed : firstWrite.adapter.hw 2 ≠ 0xFF#8 := by
    decide +kernel
  have first : WritesBelow initial (.writeLog 3 0x5A#8) := by
    unfold WritesBelow
    decide +kernel
  have second : WritesBelow firstWrite (.writeLog 3 0xA5#8) := by
    unfold WritesBelow
    decide +kernel
  exact ⟨programmed, (efuse_programs_blank_bytes (.next _ .start first) (.next _ .start second)
    2).resolve_right programmed⟩

end Rtl88x2bu.Efuse
