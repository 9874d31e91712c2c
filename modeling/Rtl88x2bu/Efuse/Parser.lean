import Rtl88x2bu.Efuse.LogMap

/-!
# The two parsers of the physical map

`eeprom_parser_88xx` and `eeprom_mask_parser_88xx` (`halmac_efuse_88xx.c`) for maps of any size,
with offsets as `u32`. Where the first copies a byte the second clears one.
-/

namespace Rtl88x2bu.Efuse

structure HwCfgInfo where
  efuseSize : ℕ
  eepromSize : ℕ
  prtctEfuseSize : ℕ

def HwCfgInfo.space (hw : HwCfgInfo) : ℕ :=
  u32 (hw.efuseSize + 2 ^ 32 - hw.prtctEfuseSize)

def HwCfgInfo.lastIdx (hw : HwCfgInfo) : ℕ :=
  u32 (hw.space + 2 ^ 32 - 1)

/-- The offset in the physical map and the logical map (or mask); not in the source: the offsets
that were stored to, oldest first, and whether all accesses were inside the two maps. -/
structure ParseState where
  efuseIdx : ℕ
  map : ByteMap
  stored : List ℕ
  inside : Bool

section Parser

variable (hw : HwCfgInfo) (copies : Bool) (phyMap : ByteMap)

def ParseState.readHdr (s : ParseState) : ParseState :=
  { s with inside := s.inside && decide (s.efuseIdx < hw.efuseSize) }

def ParseState.advance (s : ParseState) : ParseState :=
  { s with efuseIdx := u32 (s.efuseIdx + 1) }

def ParseState.store (s : ParseState) (eepromIdx : ℕ) : ParseState :=
  { s with
    map := Function.update s.map eepromIdx (if copies then phyMap s.efuseIdx else 0x00#8)
    stored := s.stored ++ [eepromIdx]
    inside := s.inside && (!copies || decide (s.efuseIdx < hw.efuseSize)) &&
      decide (eepromIdx < hw.eepromSize) }

def parseWords (blkIdx : ℕ) (wordEn : Byte) : List ℕ → ParseState → Bool × ParseState
  | [], s => (true, s)
  | i :: words, s =>
    if wordEn.getLsbD i = false then
      let eepromIdx := (blkIdx <<< 3) + (i <<< 1)
      if eepromIdx + 1 > hw.eepromSize then (false, s)
      else
        let s := (s.store hw copies phyMap eepromIdx).advance
        if s.efuseIdx > hw.lastIdx then (false, s)
        else
          let s := (s.store hw copies phyMap (eepromIdx + 1)).advance
          if s.efuseIdx > hw.space then (false, s) else parseWords blkIdx wordEn words s
    else parseWords blkIdx wordEn words s

/-- The header at the offset: the block and its words, or the end of the log. The offset is left at
the last byte of the header. -/
def parseHdr (s : ParseState) : Option (ℕ × Byte) × ParseState :=
  let hdr := phyMap s.efuseIdx
  let s := s.readHdr hw
  if hdr &&& 0x1F#8 = 0x0F#8 then
    let s := s.advance
    let hdr2 := phyMap s.efuseIdx
    let s := s.readHdr hw
    if hdr2 = 0xFF#8 then (none, s)
    else
      let blkIdx := ((hdr2 &&& 0xF0#8) >>> 1) ||| ((hdr >>> 5) &&& 0x07#8)
      if hdr = 0xFF#8 then (none, s) else (some (blkIdx.toNat, hdr2 &&& 0x0F#8), s)
  else if hdr = 0xFF#8 then (none, s)
  else (some (((hdr &&& 0xF0#8) >>> 4).toNat, hdr &&& 0x0F#8), s)

def parseRounds : ℕ → ParseState → Option (RetStatus × ParseState)
  | 0, _ => none
  | fuel + 1, s =>
    match parseHdr hw phyMap s with
    | (none, s) => some (.success, s)
    | (some (blkIdx, wordEn), s) =>
      let s := s.advance
      if s.efuseIdx ≥ hw.lastIdx then some (.eepromParsingFail, s)
      else
        match parseWords hw copies phyMap blkIdx wordEn wordIndices s with
        | (false, s) => some (.eepromParsingFail, s)
        | (true, s) => parseRounds fuel s

def eepromParser88xx (fuel : ℕ) : Option (RetStatus × ParseState) :=
  parseRounds hw true phyMap fuel ⟨0, unwritten, [], true⟩

def eepromMaskParser88xx (fuel : ℕ) : Option (RetStatus × ParseState) :=
  parseRounds hw false phyMap fuel ⟨0, unwritten, [], true⟩

end Parser

/-- Sizes for which the bounds are what they look like. -/
structure HwCfgInfo.Regular (hw : HwCfgInfo) : Prop where
  prtct : 2 ≤ hw.prtctEfuseSize
  room : hw.prtctEfuseSize < hw.efuseSize
  even : hw.eepromSize % 2 = 0
  efuse_u32 : hw.efuseSize < 2 ^ 32

/-- The parsers are at the same place and have stored to the same offsets, where the mask is
cleared. -/
structure Lockstep (s m : ParseState) : Prop where
  idx : m.efuseIdx = s.efuseIdx
  stored : m.stored = s.stored
  inside : s.inside = true
  mask_inside : m.inside = true
  mask : ∀ i, m.map i = if i ∈ s.stored then 0x00#8 else 0xFF#8

section Steps

variable {hw : HwCfgInfo} {phyMap : ByteMap} {s m : ParseState}

theorem HwCfgInfo.Regular.space_eq (regular : hw.Regular) :
    hw.space = hw.efuseSize - hw.prtctEfuseSize := by
  obtain ⟨prtct, room, even, efuse_u32⟩ := regular
  rw [HwCfgInfo.space, u32]
  omega

theorem HwCfgInfo.Regular.lastIdx_eq (regular : hw.Regular) :
    hw.lastIdx = hw.efuseSize - hw.prtctEfuseSize - 1 := by
  have space := regular.space_eq
  obtain ⟨prtct, room, even, efuse_u32⟩ := regular
  rw [HwCfgInfo.lastIdx, space, u32]
  omega

theorem Lockstep.readHdr (hw : HwCfgInfo) (lock : Lockstep s m)
    (below : s.efuseIdx < hw.efuseSize) : Lockstep (s.readHdr hw) (m.readHdr hw) := by
  obtain ⟨idx, stored, inside, mask_inside, mask⟩ := lock
  refine ⟨idx, stored, ?_, ?_, mask⟩
  · simp only [ParseState.readHdr, inside, below, decide_true, Bool.and_self]
  · simp only [ParseState.readHdr, mask_inside, idx, below, decide_true, Bool.and_self]

theorem Lockstep.advance (lock : Lockstep s m) : Lockstep s.advance m.advance :=
  ⟨congrArg (fun idx => u32 (idx + 1)) lock.idx, lock.stored, lock.inside, lock.mask_inside,
    lock.mask⟩

theorem Lockstep.store (phyMap : ByteMap) (lock : Lockstep s m) {eepromIdx : ℕ}
    (below : s.efuseIdx < hw.efuseSize) (fits : eepromIdx < hw.eepromSize) :
    Lockstep (s.store hw true phyMap eepromIdx) (m.store hw false phyMap eepromIdx) := by
  obtain ⟨idx, stored, inside, mask_inside, mask⟩ := lock
  refine ⟨idx, congrArg (· ++ [eepromIdx]) stored, ?_, ?_, fun i => ?_⟩
  · simp [ParseState.store, inside, below, fits]
  · simp [ParseState.store, mask_inside, fits]
  · by_cases here : i = eepromIdx
    · subst here
      simp [ParseState.store]
    · simp [ParseState.store, mask i, here]

theorem advance_efuseIdx (small : s.efuseIdx + 1 < 2 ^ 32) : s.advance.efuseIdx = s.efuseIdx + 1 :=
  Nat.mod_eq_of_lt small

structure WordsLock (hw : HwCfgInfo) (start : ℕ) (p q : Bool × ParseState) : Prop where
  status : q.1 = p.1
  lock : Lockstep p.2 q.2
  low : p.1 = true → start ≤ p.2.efuseIdx ∧ p.2.efuseIdx ≤ hw.efuseSize - hw.prtctEfuseSize

variable (phyMap) (regular : hw.Regular) (lock : Lockstep s m)
  (low : s.efuseIdx ≤ hw.efuseSize - hw.prtctEfuseSize)
include regular lock low

theorem parseWords_lockstep (blkIdx : ℕ) (wordEn : Byte) (words : List ℕ) :
    WordsLock hw s.efuseIdx (parseWords hw true phyMap blkIdx wordEn words s)
      (parseWords hw false phyMap blkIdx wordEn words m) := by
  obtain ⟨prtct, room, even, efuse_u32⟩ := id regular
  induction words generalizing s m with
  | nil => exact ⟨rfl, lock, fun _ => ⟨Nat.le_refl _, low⟩⟩
  | cons i words ih =>
    rw [parseWords, parseWords]
    by_cases enabled : wordEn.getLsbD i = false
    swap
    · rw [if_neg enabled, if_neg enabled]
      exact ih lock low
    rw [if_pos enabled, if_pos enabled]
    dsimp only
    obtain ⟨e, e_eq⟩ : ∃ e, (blkIdx <<< 3) + (i <<< 1) = e := ⟨_, rfl⟩
    have e_even : e % 2 = 0 := by
      rw [← e_eq, Nat.shiftLeft_eq, Nat.shiftLeft_eq]
      omega
    rw [e_eq]
    by_cases beyond : e + 1 > hw.eepromSize
    · rw [if_pos beyond, if_pos beyond]
      exact ⟨rfl, lock, nofun⟩
    rw [if_neg beyond, if_neg beyond]
    -- the first byte of the word
    have first : Lockstep (s.store hw true phyMap e).advance (m.store hw false phyMap e).advance :=
      (lock.store phyMap (by omega) (by omega)).advance
    have first_idx : (s.store hw true phyMap e).advance.efuseIdx = s.efuseIdx + 1 :=
      advance_efuseIdx (show s.efuseIdx + 1 < 2 ^ 32 by omega)
    rw [first.idx, first_idx, regular.lastIdx_eq, regular.space_eq]
    by_cases full : s.efuseIdx + 1 > hw.efuseSize - hw.prtctEfuseSize - 1
    · rw [if_pos full, if_pos full]
      exact ⟨rfl, first, nofun⟩
    rw [if_neg full, if_neg full]
    -- the second one
    have second : Lockstep
        ((s.store hw true phyMap e).advance.store hw true phyMap (e + 1)).advance
        ((m.store hw false phyMap e).advance.store hw false phyMap (e + 1)).advance :=
      (first.store phyMap (by rw [first_idx]; omega) (by omega)).advance
    have second_idx : ((s.store hw true phyMap e).advance.store hw true phyMap
        (e + 1)).advance.efuseIdx = s.efuseIdx + 2 := by
      rw [advance_efuseIdx]
      · exact congrArg (· + 1) first_idx
      · change (s.store hw true phyMap e).advance.efuseIdx + 1 < 2 ^ 32
        rw [first_idx]
        omega
    rw [second.idx, second_idx]
    rw [if_neg (by omega), if_neg (by omega)]
    obtain ⟨status, later, later_low⟩ := ih second (by rw [second_idx]; omega)
    refine ⟨status, later, fun goes_on => ?_⟩
    obtain ⟨grown, low⟩ := later_low goes_on
    rw [second_idx] at grown
    exact ⟨by omega, low⟩

theorem parseHdr_lockstep :
    (parseHdr hw phyMap m).1 = (parseHdr hw phyMap s).1 ∧
      Lockstep (parseHdr hw phyMap s).2 (parseHdr hw phyMap m).2 ∧
      s.efuseIdx ≤ (parseHdr hw phyMap s).2.efuseIdx ∧
      (parseHdr hw phyMap s).2.efuseIdx ≤ hw.efuseSize - hw.prtctEfuseSize + 1 := by
  obtain ⟨prtct, room, even, efuse_u32⟩ := id regular
  have first : Lockstep (s.readHdr hw) (m.readHdr hw) := lock.readHdr hw (by omega)
  have next_idx : (s.readHdr hw).advance.efuseIdx = s.efuseIdx + 1 :=
    advance_efuseIdx (show s.efuseIdx + 1 < 2 ^ 32 by omega)
  have second := first.advance.readHdr hw (by rw [next_idx]; omega)
  have second_grown : s.efuseIdx ≤ ((s.readHdr hw).advance.readHdr hw).efuseIdx :=
    (Nat.le_succ _).trans next_idx.ge
  have second_near : ((s.readHdr hw).advance.readHdr hw).efuseIdx ≤
      hw.efuseSize - hw.prtctEfuseSize + 1 := next_idx.le.trans (Nat.succ_le_succ low)
  have same : (m.readHdr hw).advance.efuseIdx = (s.readHdr hw).advance.efuseIdx := first.advance.idx
  rw [parseHdr, parseHdr]
  dsimp only
  rw [lock.idx, same]
  split_ifs
  iterate 3 exact ⟨rfl, second, second_grown, second_near⟩
  all_goals exact ⟨rfl, first, Nat.le_refl _, Nat.le_succ_of_le low⟩

theorem parseRounds_lockstep {fuel : ℕ} (enough : hw.efuseSize < s.efuseIdx + fuel) :
    ∃ status s' m', parseRounds hw true phyMap fuel s = some (status, s') ∧
      parseRounds hw false phyMap fuel m = some (status, m') ∧ Lockstep s' m' := by
  obtain ⟨prtct, room, even, efuse_u32⟩ := id regular
  induction fuel generalizing s m with
  | zero => omega
  | succ fuel ih =>
    obtain ⟨same_hdr, lock, grown, near⟩ := parseHdr_lockstep phyMap regular lock low
    rw [parseRounds, parseRounds]
    generalize parseHdr hw phyMap s = read at *
    generalize parseHdr hw phyMap m = mask_read at *
    obtain ⟨hdr, s'⟩ := read
    obtain ⟨_, m'⟩ := mask_read
    cases same_hdr
    cases hdr with
    | none => exact ⟨_, _, _, rfl, rfl, lock⟩
    | some block =>
      obtain ⟨blkIdx, wordEn⟩ := block
      dsimp only at lock grown near ⊢
      have next_idx : s'.advance.efuseIdx = s'.efuseIdx + 1 := advance_efuseIdx (by omega)
      rw [lock.advance.idx, next_idx, regular.lastIdx_eq]
      by_cases full : s'.efuseIdx + 1 ≥ hw.efuseSize - hw.prtctEfuseSize - 1
      · rw [if_pos full, if_pos full]
        exact ⟨_, _, _, rfl, rfl, lock.advance⟩
      rw [if_neg full, if_neg full]
      have words := parseWords_lockstep phyMap regular lock.advance (by rw [next_idx]; omega)
        blkIdx wordEn wordIndices
      generalize parseWords hw true phyMap blkIdx wordEn wordIndices s'.advance = p at *
      generalize parseWords hw false phyMap blkIdx wordEn wordIndices m'.advance = q at *
      obtain ⟨goes_on, s''⟩ := p
      obtain ⟨_, m''⟩ := q
      obtain ⟨status, words_lock, words_low⟩ := words
      cases status
      cases goes_on with
      | false => exact ⟨_, _, _, rfl, rfl, words_lock⟩
      | true =>
        obtain ⟨words_grown, words_low⟩ := words_low rfl
        rw [next_idx] at words_grown
        dsimp only at words_grown
        exact ih words_lock words_low (by omega)

end Steps

/-- For every content of a physical map whose protected area is at least two bytes and not all of
it, both parsers end and stay inside the two maps, with the same status and `efuse_end`, and the
mask is cleared exactly where the parser stores. -/
theorem eeprom_parsers_lockstep (hw : HwCfgInfo) (phyMap : ByteMap) (regular : hw.Regular)
    (fuel : ℕ) (enough : hw.efuseSize < fuel) :
    ∃ status s m, eepromParser88xx hw phyMap fuel = some (status, s) ∧
      eepromMaskParser88xx hw phyMap fuel = some (status, m) ∧
      s.inside = true ∧ m.inside = true ∧ m.efuseIdx = s.efuseIdx ∧
      ∀ i, m.map i = if i ∈ s.stored then 0x00#8 else 0xFF#8 := by
  have start : Lockstep ⟨0, unwritten, [], true⟩ ⟨0, unwritten, [], true⟩ :=
    ⟨rfl, rfl, rfl, rfl, fun _ => rfl⟩
  obtain ⟨status, s, m, parsed, masked, lock⟩ :=
    parseRounds_lockstep phyMap regular start (Nat.zero_le _) (by rw [Nat.zero_add]; exact enough)
  exact ⟨status, s, m, parsed, masked, lock.inside, lock.mask_inside, lock.idx, lock.mask⟩

def hw8822b : HwCfgInfo := ⟨efuseSize, eepromSize, prtctEfuseSize⟩

/-- A log of one block, with its first word. -/
def oneWord : ByteMap :=
  fun i => [0x0E#8, 0x12#8, 0x34#8].getD i 0xFF#8

theorem eeprom_parsers_lockstep_8822b :
    ∃ status s m, eepromParser88xx hw8822b oneWord 1025 = some (status, s) ∧
      eepromMaskParser88xx hw8822b oneWord 1025 = some (status, m) ∧
      s.inside = true ∧ s.stored = [0, 1] ∧ m.map 1 = 0x00#8 ∧ m.map 2 = 0xFF#8 := by
  obtain ⟨status, s, m, parsed, masked, inside, -, -, mask⟩ := eeprom_parsers_lockstep hw8822b
    oneWord ⟨by decide, by decide, by decide, by decide⟩ 1025 (by decide)
  have run : (eepromParser88xx hw8822b oneWord 1025).map (·.2.stored) = some [0, 1] := by
    decide +kernel
  have stored : s.stored = [0, 1] := by
    rw [parsed] at run
    exact Option.some_inj.mp run
  refine ⟨status, s, m, parsed, masked, inside, stored, ?_, ?_⟩
  · rw [mask, stored, if_pos (by decide)]
  · rw [mask, stored, if_neg (by decide)]

theorem protected_map_read_outside :
    (eepromParser88xx ⟨2, 8, 2⟩ (fun i => if i = 0 then 0x00#8 else 0xFF#8) 3).map
      (fun r => (r.1, r.2.inside)) = some (.eepromParsingFail, false) := by
  decide +kernel

/-! ## The map of the 8822B -/

/-- What `read_log_efuse_map_88xx` gets from the parser: the map and `efuse_end`. -/
def ParseState.result : RetStatus × ParseState → Option (ByteMap × ℕ)
  | (.success, s) => some (s.map, s.efuseIdx)
  | _ => none

section Connected

variable {phyMap : ByteMap} {blkIdx : ℕ} {wordEn : Byte} {s : ParseState}

theorem parseWords_8822b {words : List ℕ} (low : s.efuseIdx ≤ efuseSize - prtctEfuseSize) :
    ∃ goesOn s', parseWords hw8822b true phyMap blkIdx wordEn words s = (goesOn, s') ∧
      words.foldlM (parseWord phyMap blkIdx wordEn) (s.efuseIdx, s.map) =
        (if goesOn then some (s'.efuseIdx, s'.map) else none) ∧
      (goesOn = true → s'.efuseIdx ≤ efuseSize - prtctEfuseSize) := by
  have lastIdx : hw8822b.lastIdx = efuseSize - prtctEfuseSize - 1 := by decide
  have space : hw8822b.space = efuseSize - prtctEfuseSize := by decide
  induction words generalizing s with
  | nil => exact ⟨true, s, rfl, rfl, fun _ => low⟩
  | cons i words ih =>
    simp only [efuseSize, prtctEfuseSize] at low
    have first : u32 (s.efuseIdx + 1) = s.efuseIdx + 1 := Nat.mod_eq_of_lt (by omega)
    have second : u32 (s.efuseIdx + 1 + 1) = s.efuseIdx + 2 := Nat.mod_eq_of_lt (by omega)
    simp only [parseWords, List.foldlM_cons, parseWord, lastIdx, space, ParseState.advance,
      ParseState.store, first, second, Option.bind_eq_bind, if_true]
    split
    · by_cases beyond : blkIdx <<< 3 + i <<< 1 + 1 > eepromSize
      · rw [if_pos beyond, if_pos (by exact beyond)]
        exact ⟨false, s, rfl, rfl, nofun⟩
      rw [if_neg beyond, if_neg (by exact beyond)]
      by_cases full : s.efuseIdx + 1 > efuseSize - prtctEfuseSize - 1
      · rw [if_pos full, if_pos full]
        exact ⟨false, _, rfl, rfl, nofun⟩
      rw [if_neg full, if_neg full]
      simp only [efuseSize, prtctEfuseSize] at full
      rw [if_neg (by simp only [efuseSize, prtctEfuseSize]; omega),
        if_neg (by simp only [efuseSize, prtctEfuseSize]; omega), Option.bind_some]
      exact ih (show s.efuseIdx + 2 ≤ 928 by omega)
    · exact ih low

theorem parseRounds_8822b {fuel : ℕ} (low : s.efuseIdx ≤ efuseSize - prtctEfuseSize) :
    parseBlocks phyMap fuel s.efuseIdx s.map =
      (parseRounds hw8822b true phyMap fuel s).bind ParseState.result := by
  have lastIdx : hw8822b.lastIdx = efuseSize - prtctEfuseSize - 1 := by decide
  induction fuel generalizing s with
  | zero => rfl
  | succ fuel ih =>
    -- the block behind the header, which both read at the same place
    have block {blkIdx : ℕ} {wordEn : Byte} {t : ParseState} {idx : ℕ} (map : t.map = s.map)
        (at_hdr : u32 (t.efuseIdx + 1) = idx) :
        ((parseBlock phyMap blkIdx wordEn idx s.map).bind
          fun next => parseBlocks phyMap fuel next.1 next.2) =
        (if t.advance.efuseIdx ≥ hw8822b.lastIdx then some (.eepromParsingFail, t.advance)
          else match parseWords hw8822b true phyMap blkIdx wordEn wordIndices t.advance with
            | (false, s) => some (.eepromParsingFail, s)
            | (true, s) => parseRounds hw8822b true phyMap fuel s).bind ParseState.result := by
      subst at_hdr
      rw [lastIdx, parseBlock, ← map]
      by_cases full : u32 (t.efuseIdx + 1) ≥ efuseSize - prtctEfuseSize - 1
      · rw [if_pos full, if_pos (by exact full)]
        rfl
      rw [if_neg full, if_neg (by exact full)]
      have near : t.advance.efuseIdx ≤ efuseSize - prtctEfuseSize := by
        simp only [ParseState.advance]
        omega
      obtain ⟨goesOn, s', words, folded, low⟩ :=
        @parseWords_8822b phyMap blkIdx wordEn t.advance wordIndices near
      rw [words, show wordIndices.foldlM _ (u32 (t.efuseIdx + 1), t.map) = _ from folded]
      cases goesOn with
      | false => rfl
      | true => exact ih (low rfl)
    have next : u32 (s.efuseIdx + 1) = s.efuseIdx + 1 :=
      Nat.mod_eq_of_lt (by simp only [efuseSize, prtctEfuseSize] at low; omega)
    have next2 : u32 (s.efuseIdx + 1 + 1) = s.efuseIdx + 2 :=
      Nat.mod_eq_of_lt (by simp only [efuseSize, prtctEfuseSize] at low; omega)
    simp only [parseBlocks, parseRounds, parseHdr, ParseState.readHdr, ParseState.advance, next]
    split
    · next extended =>
      split
      · rfl
      · rw [if_neg fun all => absurd (all ▸ extended) (by decide)]
        exact block rfl next2
    · split
      · rfl
      · exact block rfl next

end Connected

/-- The parser of the 8822B's map, `eepromParser`, is the parser of any map at its sizes. -/
theorem eepromParser_eq (phyMap : ByteMap) : eepromParser phyMap =
    (eepromParser88xx hw8822b phyMap efuseSize).bind ParseState.result :=
  parseRounds_8822b (s := ⟨0, unwritten, [], true⟩) (Nat.zero_le _)

end Rtl88x2bu.Efuse
