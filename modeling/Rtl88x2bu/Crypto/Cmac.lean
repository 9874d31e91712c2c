import Rtl88x2bu.Crypto.Block

/-!
# OMAC1

`omac1_aes_vector_typed` of `rust/aes_omac1.rs`, for any block cipher in the place of AES, and the
CMAC of SP 800-38B. The lengths of the fragments add up without wrapping around.
-/

namespace Rtl88x2bu.Crypto

open List

variable (aes : BlockCipher) (text : List Byte)

structure FragCursor where
  slices : List (List Byte)
  elem : ℕ := 0
  pos : ℕ := 0

variable (c : FragCursor)

def FragCursor.current : List Byte :=
  c.slices.getD c.elem []

def FragCursor.readByte (c : FragCursor) : Option (Byte × FragCursor) :=
  if c.elem ≥ c.slices.length then none
  else if c.pos ≥ c.current.length then readByte { c with elem := c.elem + 1, pos := 0 }
  else some (c.current.getD c.pos 0, { c with pos := c.pos + 1 })
termination_by c.slices.length - c.elem

def xorAt (b : Block) (i : ℕ) (x : Byte) : Block :=
  b.setIfInBounds i (blockAt b i ^^^ x)

def gfMulx (pad : Block) : Block :=
  let shifted : Block := Vector.ofFn fun i : Fin 16 =>
    blockAt pad i <<< 1 ||| blockAt pad (i + 1) >>> 7
  if blockAt pad 0 &&& 0x80 ≠ 0 then xorAt shifted 15 0x87 else shifted

/-- The loops over `n` bytes of the block from `i` on, which are left only behind the last byte. -/
def xorBytes : ℕ → ℕ → FragCursor → Block → Option (Block × FragCursor)
  | 0, _, c, cbc => some (cbc, c)
  | n + 1, i, c, cbc =>
    if c.slices.length = 0 then some (cbc, c)
    else c.readByte.bind fun (b, c) => xorBytes n (i + 1) c (xorAt cbc i b)

/-- The loop over the blocks, of which the last whole one is not encrypted yet. -/
def omac1Blocks (aes : BlockCipher) (left : ℕ) (c : FragCursor) (cbc : Block) :
    Option (ℕ × FragCursor × Block) :=
  if left ≥ 16 then
    (xorBytes 16 0 c cbc).bind fun (cbc, c) =>
      omac1Blocks aes (left - 16) c (if left > 16 then aes cbc else cbc)
  else some (left, c, cbc)
termination_by left

/-- What comes behind the loop: the subkey, and the bytes of a last block that is not whole. -/
def omac1Last (totalLen : ℕ) : ℕ × FragCursor × Block → Option Block
  | (left, c, cbc) =>
    let pad := gfMulx (aes (toBlock []))
    if left ≠ 0 ∨ totalLen = 0 then
      (xorBytes left 0 c cbc).map fun (cbc, _) =>
        aes (xorBlock (gfMulx pad) (xorAt cbc left 0x80))
    else some (aes (xorBlock pad cbc))

def omac1AesCompute (totalLen : ℕ) : Option Block :=
  (omac1Blocks aes totalLen c (toBlock [])).bind (omac1Last aes totalLen)

def omac1AesVectorTyped (fragments : List (List Byte)) : Option Block :=
  omac1AesCompute aes { slices := fragments } (fragments.map length).sum

/-- The subkey `k` of `l`: the bits moved up by one, and `R_128` added if the first one was set. -/
def IsDouble (l k : Block) : Prop :=
  ∀ i < 128, bitAt k i = (bitAt l (i + 1) ^^ (bitAt l 0 && [120, 125, 126, 127].contains i))

/-- The MAC of SP 800-38B from the chaining value `c` on, with the subkeys `k1` and `k2`. -/
def cmac (aes : BlockCipher) (k1 k2 c : Block) (text : List Byte) : Block :=
  if 16 < text.length then cmac aes k1 k2 (aes (xorBlock c (toBlock text))) (text.drop 16)
  else if text.length = 16 then aes (xorBlock c (xorBlock k1 (toBlock text)))
  else aes (xorBlock c (xorBlock k2 (toBlock (text ++ [0x80]))))
termination_by text.length

section Blocks

variable {a b : Block} {i j : ℕ} {x : Byte}

theorem blockAt_xorAt (small : i < 16) :
    blockAt (xorAt b j x) i = blockAt b i ^^^ if i = j then x else 0 := by
  by_cases here : i = j
  · subst here
    simp [blockAt, xorAt, small]
  · simp [blockAt, xorAt, small, here, Ne.symm here]

theorem xorAt_xorBlock :
    xorAt (xorBlock b (toBlock text)) text.length x = xorBlock b (toBlock (text ++ [x])) := by
  refine block_ext fun i small => ?_
  rw [blockAt_xorAt small, blockAt_xorBlock small, blockAt_xorBlock small, blockAt_toBlock _ small,
    blockAt_toBlock _ small, UInt8.xor_assoc]
  congr 1
  rcases Nat.lt_trichotomy i text.length with before | rfl | behind
  · simp [getElem?_append_left before, before, before.ne]
  · simp
  · simp [behind, behind.ne', getElem?_eq_none behind.le]

theorem blockAt_gfMulx (b : Block) (small : i < 16) :
    blockAt (gfMulx b) i = (blockAt b i <<< 1 ||| blockAt b (i + 1) >>> 7) ^^^
      if bitAt b 0 && i == 15 then 0x87 else 0 := by
  have carry : (blockAt b 0 &&& 0x80 ≠ 0) = (bitAt b 0 = true) := by
    have all (x : BitVec 8) : (x &&& 0x80 ≠ 0) = (x.getLsbD 7 = true) := by revert x; decide
    rw [bitAt, ← all, ne_eq, ← UInt8.toBitVec_inj]
    rfl
  have shifted : blockAt (Vector.ofFn fun i : Fin 16 =>
      blockAt b i <<< 1 ||| blockAt b (i + 1) >>> 7) i =
        blockAt b i <<< 1 ||| blockAt b (i + 1) >>> 7 := by
    conv_lhs => rw [blockAt]
    simp [small]
  simp only [gfMulx, carry]
  split
  · rw [blockAt_xorAt small, shifted]
    simp [*]
  · rw [shifted]
    simp [*]

theorem getLsbD_shift (x y : Byte) (small : j < 8) :
    (x <<< 1 ||| y >>> 7).toBitVec.getLsbD j =
      if j = 0 then y.toBitVec.getLsbD 7 else x.toBitVec.getLsbD (j - 1) := by
  change ((x.toBitVec <<< 1) ||| (y.toBitVec >>> 7)).getLsbD j = _
  interval_cases j <;> simp

theorem isDouble_gfMulx (b : Block) : IsDouble b (gfMulx b) := by
  intro k small
  obtain ⟨q, m, low, rfl⟩ : ∃ q m, m < 8 ∧ k = 8 * q + m := ⟨k / 8, k % 8, by omega, by omega⟩
  have byte : (8 * q + m) / 8 = q ∧ (8 * q + m) % 8 = m := by omega
  have next : bitAt b (8 * q + m + 1) = if 7 - m = 0 then (blockAt b (q + 1)).toBitVec.getLsbD 7
      else (blockAt b q).toBitVec.getLsbD (7 - m - 1) := by
    rw [bitAt]
    split
    · rw [show (8 * q + m + 1) / 8 = q + 1 by omega, show (8 * q + m + 1) % 8 = 0 by omega]
    · rw [show (8 * q + m + 1) / 8 = q by omega, show 7 - (8 * q + m + 1) % 8 = 7 - m - 1 by omega]
  rw [bitAt, byte.1, byte.2, blockAt_gfMulx b (by omega), UInt8.toBitVec_xor, BitVec.getLsbD_xor,
    getLsbD_shift _ _ (by omega), next]
  congr 1
  cases bitAt b 0
  · simp
  · by_cases last : q = 15
    · subst last
      interval_cases m <;> decide
    · simp only [last, beq_iff_eq, Bool.true_and, if_false, contains_eq_mem]
      simp
      omega

end Blocks

section Cursor

def FragCursor.rest : List Byte :=
  c.current.drop c.pos ++ (c.slices.drop (c.elem + 1)).flatten

theorem FragCursor.rest_next {c : FragCursor} (done : c.current.length ≤ c.pos) :
    c.rest = FragCursor.rest { c with elem := c.elem + 1, pos := 0 } := by
  rw [rest, drop_eq_nil_of_le done, nil_append, rest, drop_zero, current]
  dsimp only
  by_cases inside : c.elem + 1 < c.slices.length
  · rw [drop_eq_getElem_cons inside, flatten_cons, getD_eq_getElem _ _ inside]
  · rw [drop_eq_nil_of_le (by omega), drop_eq_nil_of_le (by omega), getD_eq_default _ _ (by omega)]
    rfl

theorem FragCursor.readByte_spec {c : FragCursor} {x : Byte} {later : List Byte}
    (rest : c.rest = x :: later) :
    ∃ c', c.readByte = some (x, c') ∧ c'.rest = later ∧ c.slices.length ≠ 0 := by
  fun_induction FragCursor.readByte c with
  | case1 c behind =>
    rw [FragCursor.rest, current, getD_eq_default _ _ behind, drop_nil,
      drop_eq_nil_of_le (by omega)] at rest
    cases rest
  | case2 c inside done ih =>
    obtain ⟨c', read, left, -⟩ := ih (rest_next done ▸ rest)
    exact ⟨c', read, left, by omega⟩
  | case3 c inside more =>
    have inFrag : c.pos < c.current.length := by omega
    rw [FragCursor.rest, drop_eq_getElem_cons inFrag, cons_append] at rest
    obtain ⟨first, later⟩ := cons.inj rest
    rw [getD_eq_getElem _ _ inFrag, first]
    exact ⟨_, rfl, later, by omega⟩

theorem xorBytes_spec (more : List Byte) (b : Block) (bytes read : List Byte) (c : FragCursor)
    (rest : c.rest = bytes ++ more) :
    ∃ c', xorBytes bytes.length read.length c (xorBlock b (toBlock read)) =
      some (xorBlock b (toBlock (read ++ bytes)), c') ∧ c'.rest = more := by
  induction bytes generalizing read c with
  | nil => exact ⟨c, by rw [append_nil]; rfl, rest⟩
  | cons x bytes ih =>
    obtain ⟨c', readByte, rest', there⟩ := FragCursor.readByte_spec rest
    obtain ⟨c'', loop, left⟩ := ih (read ++ [x]) c' rest'
    refine ⟨c'', ?_, left⟩
    rw [length_cons, xorBytes, if_neg there, readByte, Option.bind_some]
    dsimp only
    rw [xorAt_xorBlock, show read.length + 1 = (read ++ [x]).length by simp, loop, append_assoc,
      singleton_append]

theorem xorBytes_text {c : FragCursor} {bytes more : List Byte} (b : Block)
    (rest : c.rest = bytes ++ more) :
    ∃ c', xorBytes bytes.length 0 c b = some (xorBlock b (toBlock bytes), c') ∧ c'.rest = more := by
  have spec := xorBytes_spec more b bytes [] c rest
  rwa [xorBlock_nil] at spec

end Cursor

theorem omac1_text {totalLen : ℕ} (cbc : Block) (rest : c.rest = text)
    (total : totalLen = 0 ↔ text = []) :
    (omac1Blocks aes text.length c cbc).bind (omac1Last aes totalLen) =
      some (cmac aes (gfMulx (aes (toBlock [])))
        (gfMulx (gfMulx (aes (toBlock [])))) cbc text) := by
  fun_induction cmac aes (gfMulx (aes (toBlock []))) (gfMulx (gfMulx (aes (toBlock [])))) cbc text
    generalizing c with
  | case1 cbc text long ih =>
    have first : (text.take 16).length = 16 := by rw [length_take]; omega
    obtain ⟨c', read, left⟩ := xorBytes_text cbc (rest.trans (take_append_drop 16 text).symm)
    rw [first, toBlock_take] at read
    rw [omac1Blocks, if_pos long.le, read, Option.bind_some]
    dsimp only
    rw [if_pos long, ← length_drop]
    refine ih c' left ?_
    rw [drop_eq_nil_iff, total, ← length_eq_zero_iff]
    omega
  | case2 cbc text long whole =>
    obtain ⟨c', read, left⟩ := xorBytes_text cbc (rest.trans (append_nil text).symm)
    have notEmpty : totalLen ≠ 0 := by rw [ne_eq, total, ← length_eq_zero_iff]; omega
    rw [whole] at read ⊢
    rw [omac1Blocks, if_pos le_rfl, read, Option.bind_some]
    dsimp only
    rw [if_neg (by decide), omac1Blocks, if_neg (by decide), Option.bind_some, omac1Last,
      if_neg (by simpa using notEmpty), xorBlock_left_comm]
  | case3 cbc text long cut =>
    obtain ⟨c', read, left⟩ := xorBytes_text cbc (rest.trans (append_nil text).symm)
    have last : text.length ≠ 0 ∨ totalLen = 0 := by rw [total, ← length_eq_zero_iff]; omega
    rw [omac1Blocks, if_neg (by omega), Option.bind_some, omac1Last, if_pos last, read,
      Option.map_some]
    dsimp only
    rw [xorAt_xorBlock, xorBlock_left_comm]

/-- For every block function and every list of fragments, the result is the MAC of what they make up
together, with the subkeys of the encrypted zero block. -/
theorem omac1_aes_vector_cmac (aes : BlockCipher) (fragments : List (List Byte)) :
    ∃ k1 k2, IsDouble (aes (toBlock [])) k1 ∧ IsDouble k1 k2 ∧
      omac1AesVectorTyped aes fragments = some (cmac aes k1 k2 (toBlock []) fragments.flatten) := by
  refine ⟨_, _, isDouble_gfMulx _, isDouble_gfMulx _, ?_⟩
  have rest : FragCursor.rest { slices := fragments } = fragments.flatten := by
    cases fragments <;> rfl
  rw [omac1AesVectorTyped, ← length_flatten, omac1AesCompute]
  exact omac1_text aes _ _ _ rest length_eq_zero_iff

end Rtl88x2bu.Crypto
