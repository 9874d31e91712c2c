import Rtl88x2bu.Lib.Align

/-!
# Buffers

Bytes, the words that are read from a buffer at an offset, and parts of a buffer.
-/

namespace Rtl88x2bu

/-- `u8`. -/
abbrev Byte := UInt8

variable (data : ℕ → Byte)

/-- A part of a buffer. -/
structure Extent where
  start : ℕ
  len : ℕ
  deriving DecidableEq, Repr

def Extent.finish (x : Extent) : ℕ := x.start + x.len

/-- `_RND8`, the next multiple of eight. -/
def rnd8 (sz : ℕ) : ℕ := Align.roundUp 3 sz

/-- `RTW_GET_BE16`. -/
def be16 (offset : ℕ) : ℕ :=
  (data offset).toNat * 256 + (data (offset + 1)).toNat

/-- `RTW_GET_LE16`. -/
def le16 (offset : ℕ) : ℕ :=
  (data offset).toNat + (data (offset + 1)).toNat * 256

theorem be16_lt (offset : ℕ) : be16 data offset < 65536 := by
  have high := (data offset).toNat_lt
  have low := (data (offset + 1)).toNat_lt
  rw [be16]
  omega

theorem le16_lt (offset : ℕ) : le16 data offset < 65536 := by
  have low := (data offset).toNat_lt
  have high := (data (offset + 1)).toNat_lt
  rw [le16]
  omega

end Rtl88x2bu
