import Mathlib

/-!
# The logical eFuse map

`halmac_efuse_88xx.c`: the physical eFuse is a log of blocks of eight bytes, each with a header that
names the block and the words of it that follow. The parser replays the log into the logical map,
and every way of writing the logical map appends to the log.

The registers behind `write_hw_efuse_88xx` are not modelled: a write stores its byte and succeeds.
The sizes are those of the 8822B, which has no super-USB format.
-/

namespace Rtl88x2bu.Efuse

abbrev Byte := BitVec 8

abbrev ByteMap := ℕ → Byte

def efuseSize : ℕ := 1024
def eepromSize : ℕ := 768
def prtctEfuseSize : ℕ := 96

def u32 (n : ℕ) : ℕ :=
  n % 2 ^ 32

def unwritten : ByteMap :=
  fun _ => 0xFF#8

@[ext]
structure HalmacAdapter where
  hw : ByteMap
  efuseMap : ByteMap
  efuseMapValid : Bool
  efuseEnd : ℕ
  -- not in the source: the offsets of all physical writes, oldest first
  written : List ℕ

variable (adapter : HalmacAdapter)

variable (offset : ℕ) (phyMap : ByteMap)

inductive RetStatus
  | success
  | efuseSizeIncorrect
  | eepromParsingFail
  | efuseNotEnough
  | adrNotAlign
  deriving DecidableEq, Repr

def writeHwEfuse (value : Byte) : HalmacAdapter :=
  { adapter with
    hw := Function.update adapter.hw offset value
    efuseMapValid := false
    written := adapter.written ++ [offset] }

def writeBytes (adapter : HalmacAdapter) (offset : ℕ) : List Byte → HalmacAdapter
  | [] => adapter
  | value :: values => writeBytes (writeHwEfuse adapter (u32 offset) value) (offset + 1) values

/-! ## The parser -/

def wordIndices : List ℕ :=
  [0, 1, 2, 3]

def parseWord (blkIdx : ℕ) (wordEn : Byte) (s : ℕ × ByteMap) (i : ℕ) : Option (ℕ × ByteMap) :=
  let (efuseIdx, logMap) := s
  if wordEn.getLsbD i = false then
    let eepromIdx := (blkIdx <<< 3) + (i <<< 1)
    if eepromIdx + 1 > eepromSize then none
    else
      let logMap := Function.update logMap eepromIdx (phyMap efuseIdx)
      if efuseIdx + 1 > efuseSize - prtctEfuseSize - 1 then none
      else
        let logMap := Function.update logMap (eepromIdx + 1) (phyMap (efuseIdx + 1))
        if efuseIdx + 2 > efuseSize - prtctEfuseSize then none
        else some (efuseIdx + 2, logMap)
  else some s

def parseBlock (blkIdx : ℕ) (wordEn : Byte) (efuseIdx : ℕ) (logMap : ByteMap) :
    Option (ℕ × ByteMap) :=
  if efuseIdx ≥ efuseSize - prtctEfuseSize - 1 then none
  else wordIndices.foldlM (parseWord phyMap blkIdx wordEn) (efuseIdx, logMap)

/-- The loop of `eeprom_parser_88xx`. No round starts behind the protected area, so `efuseSize`
rounds are enough. -/
def parseBlocks (phyMap : ByteMap) : ℕ → ℕ → ByteMap → Option (ByteMap × ℕ)
  | 0, _, _ => none
  | fuel + 1, efuseIdx, logMap =>
    let hdr := phyMap efuseIdx
    if hdr &&& 0x1F#8 = 0x0F#8 then
      let hdr2 := phyMap (efuseIdx + 1)
      if hdr2 = 0xFF#8 then some (logMap, efuseIdx + 1)
      else
        let blkIdx := ((hdr2 &&& 0xF0#8) >>> 1) ||| ((hdr >>> 5) &&& 0x07#8)
        (parseBlock phyMap blkIdx.toNat (hdr2 &&& 0x0F#8) (efuseIdx + 2) logMap).bind
          fun next => parseBlocks phyMap fuel next.1 next.2
    else if hdr = 0xFF#8 then some (logMap, efuseIdx)
    else
      (parseBlock phyMap ((hdr &&& 0xF0#8) >>> 4).toNat (hdr &&& 0x0F#8) (efuseIdx + 1) logMap).bind
        fun next => parseBlocks phyMap fuel next.1 next.2

def eepromParser : Option (ByteMap × ℕ) :=
  parseBlocks phyMap efuseSize 0 unwritten

/-- `read_log_efuse_map_88xx`, with the logical map or the parser's failure. -/
def readLogEfuseMap : HalmacAdapter × Option ByteMap :=
  let adapter :=
    if adapter.efuseMapValid then adapter
    else { adapter with efuseMap := adapter.hw, efuseMapValid := true }
  match eepromParser adapter.efuseMap with
  | none => (adapter, none)
  | some (map, efuseEnd) => ({ adapter with efuseEnd }, some map)

/-! ## Writing a byte or a word -/

def blkOf : Byte :=
  BitVec.ofNat 8 (offset >>> 3)

def extHdr (blk : Byte) : Byte :=
  (((blk &&& 0x07#8) <<< 5) &&& 0xE0#8) ||| 0x0F#8

def extHdr2 (blk wordEn : Byte) : Byte :=
  ((blk &&& 0x78#8) <<< 1) + wordEn

def stdHdr (blk wordEn : Byte) : Byte :=
  (blk <<< 4) + wordEn

/-- The common end of `proc_write_log_efuse_88xx` and `proc_write_log_efuse_word_88xx`. -/
def appendWord (byte1 byte2 : Byte) : RetStatus × HalmacAdapter :=
  let blk := blkOf offset
  let blkIdx := (offset &&& (8 - 1)) >>> 1
  let wordEn := (0x01#8 <<< blkIdx) ^^^ 0x0F#8
  if offset > 0x7f then
    if efuseSize ≤ u32 (4 + prtctEfuseSize + adapter.efuseEnd) then (.efuseNotEnough, adapter)
    else
      (.success,
        writeBytes adapter adapter.efuseEnd [extHdr blk, extHdr2 blk wordEn, byte1, byte2])
  else
    if efuseSize ≤ u32 (3 + prtctEfuseSize + adapter.efuseEnd) then (.efuseNotEnough, adapter)
    else (.success, writeBytes adapter adapter.efuseEnd [stdHdr blk wordEn, byte1, byte2])

def procWriteLogEfuse (value : Byte) : RetStatus × HalmacAdapter :=
  match readLogEfuseMap adapter with
  | (adapter, none) => (.eepromParsingFail, adapter)
  | (adapter, some map) =>
    if map offset ≠ value then
      if offset &&& 1 = 0 then appendWord adapter offset value (map (offset + 1))
      else appendWord adapter offset (map (offset - 1)) value
    else (.success, adapter)

def procWriteLogEfuseWord (value : BitVec 16) : RetStatus × HalmacAdapter :=
  match readLogEfuseMap adapter with
  | (adapter, none) => (.eepromParsingFail, adapter)
  | (adapter, some _) =>
    if offset &&& 1 = 0 then
      appendWord adapter offset (value.extractLsb' 0 8) (value.extractLsb' 8 8)
    else (.adrNotAlign, adapter)

def writeLogEfuse (value : Byte) : RetStatus × HalmacAdapter :=
  if offset ≥ eepromSize then (.efuseSizeIncorrect, adapter)
  else procWriteLogEfuse adapter offset value

def writeLogEfuseWord (value : BitVec 16) : RetStatus × HalmacAdapter :=
  if offset ≥ eepromSize then (.efuseSizeIncorrect, adapter)
  else procWriteLogEfuseWord adapter offset value

/-! ## Programming a map -/

structure PgEfuseInfo where
  efuseMap : ByteMap
  efuseMapSize : ℕ
  efuseMask : ByteMap
  efuseMaskSize : ℕ

variable (info : PgEfuseInfo)

def blockOffsets (size : ℕ) : List ℕ :=
  (List.range ((size + 7) / 8)).map (8 * ·)

/-- The bit of a mask byte that belongs to the word at offset `j` of a row of sixteen bytes. -/
def clrBit : ℕ → Byte
  | 0 => 0x10#8
  | 2 => 0x20#8
  | 4 => 0x40#8
  | 6 => 0x80#8
  | 8 => 0x01#8
  | 10 => 0x02#8
  | 12 => 0x04#8
  | 14 => 0x08#8
  | _ => 0x00#8

/-- `updated_mask` of `update_eeprom_mask_88xx`: words that the logical map already has are cleared.
-/
def updatedMask (map : ByteMap) : ByteMap := fun row =>
  [0, 2, 4, 6, 8, 10, 12, 14].foldl
    (fun mask j =>
      let mapOffset := 16 * row + j
      if info.efuseMap mapOffset = map mapOffset ∧
          info.efuseMap (mapOffset + 1) = map (mapOffset + 1) then mask &&& ~~~(clrBit j)
      else mask)
    (info.efuseMask row)

def updateEepromMask : HalmacAdapter × Option ByteMap :=
  match readLogEfuseMap adapter with
  | (adapter, none) => (adapter, none)
  | (adapter, some map) => (adapter, some (updatedMask info map))

def checkedWordEn (mask : ByteMap) (eepromOffset : ℕ) : Byte :=
  if eepromOffset &&& 7 > 0 then mask (eepromOffset >>> 4) &&& 0x0F#8
  else mask (eepromOffset >>> 4) >>> 4

def preWordEn (mask : ByteMap) (eepromOffset : ℕ) : Byte :=
  if (eepromOffset >>> 3) &&& 1 > 0 then mask (eepromOffset >>> 4) &&& 0x0F#8
  else mask (eepromOffset >>> 4) >>> 4

def pgNum (wordEn : Byte) (eepromOffset : ℕ) : ℕ :=
  if wordEn > 0 then
    (if eepromOffset > 0x7f then 2 else 1) +
      (wordIndices.map fun i => if wordEn.getLsbD i then 2 else 0).sum
  else 0

def checkedNum (mask : ByteMap) : ℕ :=
  ((blockOffsets info.efuseMapSize).map fun offset => pgNum (checkedWordEn mask offset) offset).sum

def checkEfuseEnough (mask : ByteMap) : RetStatus :=
  if efuseSize ≤ u32 (checkedNum info mask + prtctEfuseSize + adapter.efuseEnd) then .efuseNotEnough
  else .success

def wordBytes (map : ByteMap) (wordEn : Byte) (eepromOffset : ℕ) : List Byte :=
  wordIndices.flatMap fun i =>
    if wordEn.getLsbD i then [map (eepromOffset + (i <<< 1)), map (eepromOffset + (i <<< 1) + 1)]
    else []

def pgBytes (values : List Byte) : HalmacAdapter :=
  { writeBytes adapter adapter.efuseEnd values with
    efuseEnd := u32 (adapter.efuseEnd + values.length) }

def pgExtendEfuse (wordEn preWordEn : Byte) (eepromOffset : ℕ) : HalmacAdapter :=
  let blk := blkOf eepromOffset
  pgBytes adapter
    ([extHdr blk, extHdr2 blk wordEn] ++ wordBytes info.efuseMap preWordEn eepromOffset)

def procPgEfuse (wordEn preWordEn : Byte) (eepromOffset : ℕ) : HalmacAdapter :=
  pgBytes adapter
    ([stdHdr (blkOf eepromOffset) wordEn] ++ wordBytes info.efuseMap preWordEn eepromOffset)

def programBlock (mask : ByteMap) (adapter : HalmacAdapter) (eepromOffset : ℕ) : HalmacAdapter :=
  let preWordEn := preWordEn mask eepromOffset
  let wordEn := preWordEn ^^^ 0x0F#8
  if preWordEn > 0 then
    if eepromOffset > 0x7f then pgExtendEfuse adapter info wordEn preWordEn eepromOffset
    else procPgEfuse adapter info wordEn preWordEn eepromOffset
  else adapter

def programEfuse (mask : ByteMap) : HalmacAdapter :=
  (blockOffsets info.efuseMapSize).foldl (programBlock info mask) adapter

def procPgEfuseByMap : RetStatus × HalmacAdapter :=
  match updateEepromMask adapter info with
  | (adapter, none) => (.eepromParsingFail, adapter)
  | (adapter, some mask) =>
    match checkEfuseEnough adapter info mask with
    | .success => (.success, programEfuse adapter info mask)
    | status => (status, adapter)

def pgEfuseByMap : RetStatus × HalmacAdapter :=
  if info.efuseMapSize ≠ eepromSize then (.efuseSizeIncorrect, adapter)
  else if info.efuseMapSize &&& 0xF > 0 then (.efuseSizeIncorrect, adapter)
  else if info.efuseMaskSize ≠ info.efuseMapSize >>> 4 then (.efuseSizeIncorrect, adapter)
  else procPgEfuseByMap adapter info

end Rtl88x2bu.Efuse
