import Rtl88x2bu.Basic
import Rtl88x2bu.Lib.Ctr

/-!
# Blocks of the ciphers

What the modes of `rust/aes_ccm.rs`, `rust/aes_gcm.rs` and `rust/aes_siv.rs` share. The block cipher
is any function on blocks.
-/

namespace Rtl88x2bu.Crypto

abbrev Block := Vector Byte 16

variable (ks : ℕ → Block)

variable (text : List Byte)

abbrev BlockCipher := Block → Block

def toBlock (bytes : List Byte) : Block :=
  ⟨((bytes ++ List.replicate 16 0).take 16).toArray, by simp⟩

def xorBlock (a b : Block) : Block :=
  ⟨(List.zipWith (· ^^^ ·) a.toList b.toList).toArray, by simp⟩

def putBe16 (n : ℕ) : List Byte :=
  [UInt8.ofNat (n / 256), UInt8.ofNat n]

def putBe64 (n : ℕ) : List Byte :=
  (List.range 8).map fun i => UInt8.ofNat (n / 256 ^ (7 - i))

theorem xor_cancel (k x : Byte) : k ^^^ (k ^^^ x) = x := by
  rw [← UInt8.xor_assoc, UInt8.xor_self, UInt8.zero_xor]

def xorStream : List Byte :=
  Ctr.apply (· ^^^ ·) 16 (fun k => (ks k).toList) text

@[simp] theorem length_xorStream : (xorStream ks text).length = text.length :=
  Ctr.length_apply (fun _ => Vector.length_toList) (by decide) text

@[simp] theorem xorStream_nil : xorStream ks [] = [] :=
  List.length_eq_zero_iff.mp (length_xorStream ks [])

@[simp] theorem xorStream_xorStream : xorStream ks (xorStream ks text) = text :=
  Ctr.apply_apply (fun _ => Vector.length_toList) (by decide) xor_cancel text

theorem xor_eq_iff (k x y : List Byte) (first : x.length ≤ k.length)
    (second : y.length ≤ k.length) :
    x = List.zipWith (· ^^^ ·) k y ↔ List.zipWith (· ^^^ ·) k x = y := by
  constructor
  · rintro rfl
    exact Ctr.zipWith_cancel xor_cancel k y second
  · rintro rfl
    exact (Ctr.zipWith_cancel xor_cancel k x first).symm

section Bits

open List

def blockAt (b : Block) (i : ℕ) : Byte :=
  b.toList.getD i 0

/-- Bit `k` of a block, from the most significant bit of its first byte on. -/
def bitAt (b : Block) (k : ℕ) : Bool :=
  (blockAt b (k / 8)).toBitVec.getLsbD (7 - k % 8)

variable {a b : Block} {i k : ℕ}

theorem block_ext (same : ∀ i < 16, blockAt a i = blockAt b i) : a = b :=
  Vector.ext fun i small => by simpa [blockAt, small] using same i small

theorem blockAt_toBlock (small : i < 16) : blockAt (toBlock text) i = text.getD i 0 := by
  rw [blockAt, toBlock, Vector.toList_mk, getD_eq_getElem?_getD, getElem?_take_of_lt small,
    getD_eq_getElem?_getD]
  by_cases inside : i < text.length
  · rw [getElem?_append_left inside]
  · rw [getElem?_append_right (by omega), getElem?_replicate_of_lt (by omega),
      getElem?_eq_none (by omega)]
    rfl

theorem blockAt_xorBlock (small : i < 16) :
    blockAt (xorBlock a b) i = blockAt a i ^^^ blockAt b i := by
  simp [blockAt, xorBlock, small]

theorem xorBlock_nil (b : Block) : xorBlock b (toBlock []) = b :=
  block_ext fun i small => by rw [blockAt_xorBlock small, blockAt_toBlock _ small]; simp

theorem xorBlock_left_comm (a b c : Block) :
    xorBlock a (xorBlock b c) = xorBlock b (xorBlock a c) :=
  block_ext fun i small => by
    simp only [blockAt_xorBlock small]
    rw [← UInt8.xor_assoc, UInt8.xor_comm (blockAt a i), UInt8.xor_assoc]

theorem blockAt_set {x : Byte} (inside : i < 16) (small : k < 16) :
    blockAt (b.set i x) k = if k = i then x else blockAt b k := by
  by_cases here : k = i
  · subst here
    simp [blockAt, small]
  · simp [blockAt, small, here, Ne.symm here]

theorem getElem_eq_blockAt (inside : i < 16) : b[i] = blockAt b i := by
  simp [blockAt, inside]

theorem bitAt_eq {m : ℕ} (low : m < 8) :
    bitAt b (8 * i + m) = (blockAt b i).toBitVec.getLsbD (7 - m) := by
  rw [bitAt, show (8 * i + m) / 8 = i by omega, show (8 * i + m) % 8 = m by omega]

theorem bitAt_xorBlock (small : k < 128) :
    bitAt (xorBlock a b) k = (bitAt a k ^^ bitAt b k) := by
  rw [bitAt, blockAt_xorBlock (by omega), UInt8.toBitVec_xor, BitVec.getLsbD_xor, bitAt, bitAt]

theorem toBlock_take : toBlock (text.take 16) = toBlock text :=
  block_ext fun i small => by
    rw [blockAt_toBlock _ small, blockAt_toBlock _ small, getD_eq_getElem?_getD,
      getElem?_take_of_lt small, getD_eq_getElem?_getD]

end Bits

end Rtl88x2bu.Crypto
