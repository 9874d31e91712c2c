import Rtl88x2bu.Crypto.Gcm

/-!
# GHASH

Blocks as polynomials over `ZMod 2`, in the bit order of GCM: the first bit of a block is the
coefficient of `1`. `gf_mult` multiplies them modulo `X ^ 128 + X ^ 7 + X ^ 2 + X + 1`.
-/

namespace Rtl88x2bu.Crypto

open Polynomial

noncomputable def gcmPoly : (ZMod 2)[X] :=
  X ^ 128 + X ^ 7 + X ^ 2 + X + 1

section Bits

variable {b v : Block} {i k : ℕ}

theorem bitAt_getBe32 (off : Fin 13) {j : ℕ} (small : j < 32) :
    (getBe32 b off).toBitVec.getLsbD j = bitAt b (8 * off + (31 - j)) := by
  obtain ⟨q, m, low, rfl⟩ : ∃ q m, m < 8 ∧ j = 8 * q + m := ⟨j / 8, j % 8, by omega, by omega⟩
  have place : 8 * off.val + (31 - (8 * q + m)) = 8 * (off + (3 - q)) + (7 - m) := by omega
  have bit (byte : Byte) (s : ℕ) : (byte.toBitVec.setWidth 32 <<< (8 * s)).getLsbD (8 * q + m) =
      (decide (q = s) && byte.toBitVec.getLsbD m) := by
    rw [BitVec.getLsbD_shiftLeft, BitVec.getLsbD_setWidth]
    rcases Nat.lt_trichotomy q s with before | rfl | behind
    · simp [show 8 * q + m < 8 * s by omega, before.ne]
    · simp [small, show m < 32 by omega]
    · simp [behind.ne', BitVec.getLsbD_of_ge byte.toBitVec (8 * q + m - 8 * s) (by omega)]
  have words : (getBe32 b off).toBitVec = ((b[off.val].toBitVec.setWidth 32 <<< (8 * 3)) |||
      (b[off.val + 1].toBitVec.setWidth 32 <<< (8 * 2)) |||
      (b[off.val + 2].toBitVec.setWidth 32 <<< (8 * 1)) |||
      (b[off.val + 3].toBitVec.setWidth 32 <<< (8 * 0))) := by
    rw [BitVec.shiftLeft_zero]
    rfl
  rw [place, bitAt_eq (by omega), words, BitVec.getLsbD_or, BitVec.getLsbD_or, BitVec.getLsbD_or,
    bit, bit, bit, bit, show 7 - (7 - m) = m by omega]
  have four : q = 0 ∨ q = 1 ∨ q = 2 ∨ q = 3 := by omega
  rcases four with rfl | rfl | rfl | rfl <;> simp [getElem_eq_blockAt]

theorem bitAt_putBe32 (off : Fin 13) (val : UInt32) (small : k < 128) :
    bitAt (putBe32 b off val) k =
      if 8 * off.val ≤ k ∧ k < 8 * off.val + 32 then val.toBitVec.getLsbD (8 * off.val + 31 - k)
      else bitAt b k := by
  obtain ⟨q, m, low, rfl⟩ : ∃ q m, m < 8 ∧ k = 8 * q + m := ⟨k / 8, k % 8, by omega, by omega⟩
  have byte (s : ℕ) (few : s < 4) (here : q = off + (3 - s)) :
      ((val >>> (8 * .ofNat s)).toUInt8).toBitVec.getLsbD (7 - m) =
        val.toBitVec.getLsbD (8 * off.val + 31 - (8 * q + m)) := by
    rw [show 8 * off.val + 31 - (8 * q + m) = 8 * s + (7 - m) by omega]
    interval_cases s <;> simp <;> omega
  rw [bitAt_eq low, putBe32, blockAt_set (by omega) (by omega), blockAt_set (by omega) (by omega),
    blockAt_set (by omega) (by omega), blockAt_set (by omega) (by omega)]
  split
  next here => rw [if_pos (by omega)]; exact byte 0 (by decide) here
  split
  next here => rw [if_pos (by omega)]; exact byte 1 (by decide) here
  split
  next here => rw [if_pos (by omega)]; exact byte 2 (by decide) here
  split
  next here => rw [if_pos (by omega)]; exact byte 3 (by decide) here
  · rw [if_neg (by omega), bitAt_eq low]

theorem test_bit (x : Byte) {j : ℕ} (low : j < 8) :
    (x &&& (1 <<< UInt8.ofNat (7 - j)) ≠ 0) = (x.toBitVec.getLsbD (7 - j) = true) := by
  have all (y : BitVec 8) (i : Fin 8) :
      (y &&& (1 <<< i.val) ≠ 0) = (y.getLsbD i = true) := by revert y i; decide
  have here := all x.toBitVec ⟨7 - j, by omega⟩
  interval_cases j <;> (rw [ne_eq, ← UInt8.toBitVec_inj]; exact here)

theorem getLsbD_shiftedWord (w : UInt32) (before : Byte) {j : ℕ} (small : j < 32) :
    (if before &&& 0x01 ≠ 0 then w >>> 1 ||| 0x80000000 else w >>> 1).toBitVec.getLsbD j =
      if j = 31 then before.toBitVec.getLsbD 0 else w.toBitVec.getLsbD (j + 1) := by
  have carry : (before &&& 0x01 ≠ 0) = (before.toBitVec.getLsbD 0 = true) :=
    test_bit before (by decide : 7 < 8)
  have shifted : (w >>> 1).toBitVec.getLsbD j = w.toBitVec.getLsbD (j + 1) := by
    change (w.toBitVec >>> 1).getLsbD j = _
    rw [BitVec.getLsbD_ushiftRight, Nat.add_comm]
  have top : (0x80000000 : UInt32).toBitVec.getLsbD j = decide (j = 31) := by
    interval_cases j <;> rfl
  by_cases set : before.toBitVec.getLsbD 0 = true
  · rw [if_pos (carry ▸ set), UInt32.toBitVec_or, BitVec.getLsbD_or, shifted, top, set]
    by_cases last : j = 31 <;> simp [last]
  · rw [if_neg (carry ▸ set), shifted, Bool.eq_false_iff.mpr set]
    by_cases last : j = 31 <;> simp [last]

theorem bitAt_shiftRightWord (v : Block) (off : Fin 13) (behind : 0 < off.val) (small : k < 128) :
    bitAt (shiftRightWord v off v[off.val - 1]) k =
      if 8 * off.val ≤ k ∧ k < 8 * off.val + 32 then bitAt v (k - 1) else bitAt v k := by
  rw [shiftRightWord, bitAt_putBe32 off _ small]
  by_cases inside : 8 * off.val ≤ k ∧ k < 8 * off.val + 32
  · rw [if_pos inside, if_pos inside, getLsbD_shiftedWord _ _ (by omega)]
    split
    · rw [getElem_eq_blockAt, show k - 1 = 8 * (off - 1) + 7 by omega, bitAt_eq (by decide)]
    · rw [bitAt_getBe32 off (by omega)]
      congr 1
      omega
  · rw [if_neg inside, if_neg inside]

theorem bitAt_shiftRightBlock (v : Block) (small : k < 128) :
    bitAt (shiftRightBlock v) k = (decide (0 < k) && bitAt v (k - 1)) := by
  rw [shiftRightBlock]
  set v₁ := shiftRightWord v 12 v[11]
  set v₂ := shiftRightWord v₁ 8 v₁[7]
  set v₃ := shiftRightWord v₂ 4 v₂[3]
  have word₁ {k : ℕ} (small : k < 128) :
      bitAt v₁ k = if 96 ≤ k ∧ k < 128 then bitAt v (k - 1) else bitAt v k :=
    bitAt_shiftRightWord v 12 (by decide) small
  have word₂ {k : ℕ} (small : k < 128) :
      bitAt v₂ k = if 64 ≤ k ∧ k < 96 then bitAt v₁ (k - 1) else bitAt v₁ k :=
    bitAt_shiftRightWord v₁ 8 (by decide) small
  have word₃ {k : ℕ} (small : k < 128) :
      bitAt v₃ k = if 32 ≤ k ∧ k < 64 then bitAt v₂ (k - 1) else bitAt v₂ k :=
    bitAt_shiftRightWord v₂ 4 (by decide) small
  have before : bitAt v₃ k = if 32 ≤ k then bitAt v (k - 1) else bitAt v k := by
    rw [word₃ small, word₂ small, word₂ (by omega), word₁ small, word₁ (by omega),
      word₁ (by omega)]
    split_ifs <;> first | rfl | omega
  have first (near : k < 32) : bitAt v₃ (k - 1) = bitAt v (k - 1) := by
    rw [word₃ (by omega), if_neg (by omega), word₂ (by omega), if_neg (by omega), word₁ (by omega),
      if_neg (by omega)]
  have low := bitAt_putBe32 (b := v₃) 0 (getBe32 v₃ 0 >>> 1) small
  rw [low]
  change (if 0 ≤ k ∧ k < 32 then ((getBe32 v₃ 0).toBitVec >>> 1).getLsbD (31 - k) else _) = _
  split
  next inside =>
    rw [BitVec.getLsbD_ushiftRight]
    by_cases zero : k = 0
    · simp [zero, BitVec.getLsbD_of_ge]
    · rw [bitAt_getBe32 0 (by omega), show 8 * (0 : Fin 13).val + (31 - (1 + (31 - k))) = k - 1 by
        simp; omega, first inside.2]
      simp [Nat.pos_of_ne_zero zero]
  next outside =>
    rw [before, if_pos (by omega)]
    simp [show 0 < k by omega]

/-- The next multiple: the bits move on, and `X ^ 128` is `X ^ 7 + X ^ 2 + X + 1`. -/
theorem bitAt_gfMultBit (x : Byte) (zv : Block × Block) (j : ℕ) (small : k < 128) :
    bitAt (gfMultBit x zv j).2 k =
      ((decide (0 < k) && bitAt zv.2 (k - 1)) ^^
        (bitAt zv.2 127 && decide (k ∈ [0, 1, 2, 7]))) := by
  have carry : (zv.2[15] &&& 0x01 ≠ 0) = (bitAt zv.2 127 = true) := by
    rw [getElem_eq_blockAt]
    exact test_bit _ (by decide : 7 < 8)
  simp only [gfMultBit, carry]
  cases bitAt zv.2 127
  · simp [bitAt_shiftRightBlock zv.2 small]
  · simp only [if_true, Bool.true_and, ← bitAt_shiftRightBlock zv.2 small]
    obtain ⟨q, m, low, rfl⟩ : ∃ q m, m < 8 ∧ k = 8 * q + m := ⟨k / 8, k % 8, by omega, by omega⟩
    rw [bitAt_eq low, blockAt_set (by decide) (by omega), bitAt_eq low]
    by_cases first : q = 0
    · subst first
      rw [if_pos rfl, getElem_eq_blockAt, UInt8.toBitVec_xor, BitVec.getLsbD_xor]
      congr 1
      interval_cases m <;> rfl
    · have behind : 8 * q + m ∉ [0, 1, 2, 7] := by simp; omega
      simp [first, behind]

end Bits

section Field

variable {R : Type*} [CommRing R] (α : R)

def lowSum (n : ℕ) (b : Block) : R :=
  ∑ k ∈ Finset.range n, if bitAt b k then α ^ k else 0

def toField (b : Block) : R :=
  lowSum α 128 b

def Multiplied (x y : Block) (n : ℕ) (zv : Block × Block) : Prop :=
  toField α zv.1 = lowSum α n x * toField α y ∧ toField α zv.2 = α ^ n * toField α y

variable {α} (two : (2 : R) = 0)
include two

theorem ite_xor (p q : Bool) (a : R) :
    (if p ^^ q then a else 0) = (if p then a else 0) + if q then a else 0 := by
  have double : a + a = 0 := by rw [← two_mul, two, zero_mul]
  cases p <;> cases q <;> simp [double]

theorem toField_xorBlock (a b : Block) :
    toField α (xorBlock a b) = toField α a + toField α b := by
  simp only [toField, lowSum, ← Finset.sum_add_distrib]
  refine Finset.sum_congr rfl fun k inside => ?_
  rw [bitAt_xorBlock (Finset.mem_range.mp inside), ite_xor two]

variable (root : α ^ 128 = α ^ 7 + α ^ 2 + α + 1)
include root

theorem toField_next (x : Byte) (zv : Block × Block) (j : ℕ) :
    toField α (gfMultBit x zv j).2 = α * toField α zv.2 := by
  have reduced : ∑ k ∈ Finset.range 128, (if bitAt zv.2 127 && decide (k ∈ [0, 1, 2, 7]) then α ^ k
      else 0) = if bitAt zv.2 127 then α ^ 128 else 0 := by
    cases bitAt zv.2 127
    · simp
    · have few : {k ∈ Finset.range 128 | k ∈ [0, 1, 2, 7]} = {0, 1, 2, 7} := by decide
      simp only [Bool.true_and, decide_eq_true_eq, if_true]
      rw [← Finset.sum_filter, few, root]
      simp
      ring
  have moved : ∑ k ∈ Finset.range 128, (if decide (0 < k) && bitAt zv.2 (k - 1) then α ^ k else 0) =
      α * lowSum α 127 zv.2 := by
    rw [Finset.sum_range_succ', lowSum, Finset.mul_sum]
    simp [pow_succ']
  calc toField α (gfMultBit x zv j).2
      = ∑ k ∈ Finset.range 128, ((if decide (0 < k) && bitAt zv.2 (k - 1) then α ^ k else 0) +
          if bitAt zv.2 127 && decide (k ∈ [0, 1, 2, 7]) then α ^ k else 0) := by
        rw [toField, lowSum]
        refine Finset.sum_congr rfl fun k inside => ?_
        rw [bitAt_gfMultBit x zv j (Finset.mem_range.mp inside), ite_xor two]
    _ = α * lowSum α 127 zv.2 + if bitAt zv.2 127 then α ^ 128 else 0 := by
        rw [Finset.sum_add_distrib, moved, reduced]
    _ = α * toField α zv.2 := by
        rw [toField, lowSum, lowSum, Finset.sum_range_succ _ 127, mul_add, mul_ite, mul_zero,
          ← pow_succ']

variable {x y : Block} {zv : Block × Block} {i : ℕ}

theorem Multiplied.bit {j : ℕ} (done : Multiplied α x y (8 * i + j) zv) (low : j < 8) :
    Multiplied α x y (8 * i + j + 1) (gfMultBit (blockAt x i) zv j) := by
  obtain ⟨sum, multiple⟩ := done
  refine ⟨?_, by rw [toField_next two root, multiple, ← mul_assoc, ← pow_succ']⟩
  have test := test_bit (blockAt x i) low
  rw [← bitAt_eq low] at test
  rw [lowSum, Finset.sum_range_succ]
  simp only [gfMultBit, test]
  cases bitAt x (8 * i + j)
  · simpa [lowSum] using sum
  · simp only [if_true]
    rw [toField_xorBlock two, sum, multiple, lowSum, add_mul]

theorem Multiplied.byte (done : Multiplied α x y (8 * i) zv) {m : ℕ} (few : m ≤ 8) :
    Multiplied α x y (8 * i + m) ((List.range m).foldl (gfMultBit (blockAt x i)) zv) := by
  induction m with
  | zero => exact done
  | succ m ih =>
    rw [List.range_succ, List.foldl_append]
    exact (ih (by omega)).bit two root (by omega)

theorem toField_gfMult (x y : Block) : toField α (gfMult x y) = toField α x * toField α y := by
  have zero : toField α (Vector.replicate 16 0) = 0 := by
    have none (i : ℕ) : blockAt (Vector.replicate 16 0) i = 0 := by
      rw [blockAt, Vector.toList_replicate, List.getD_eq_getElem?_getD, List.getElem?_replicate]
      split <;> rfl
    simp [toField, lowSum, bitAt, none]
  have bytes : x.toList = (List.range 16).map (blockAt x) :=
    List.ext_getElem (by simp) fun i short _ => by
      have small : i < 16 := by simpa using short
      simp [blockAt, small]
  have all (n : ℕ) : Multiplied α x y (8 * n) ((List.range n).foldl
      (fun zv i => (List.range 8).foldl (gfMultBit (blockAt x i)) zv)
      (Vector.replicate 16 0, y)) := by
    induction n with
    | zero => exact ⟨by simp [lowSum, zero], by simp⟩
    | succ n ih =>
      rw [List.range_succ (n := n), List.foldl_append]
      exact ih.byte two root le_rfl
  rw [gfMult, bytes, List.foldl_map]
  exact (all 16).1

theorem toField_ghashLoop (h : Block) (n : ℕ) (text : List Byte) (y : Block)
    (whole : text.length / 16 = n) :
    toField α (ghashLoop h n text y) = toField α y * toField α h ^ ((text.length + 15) / 16) +
      ∑ i ∈ Finset.range ((text.length + 15) / 16), toField α (toBlock (text.drop (16 * i))) *
        toField α h ^ ((text.length + 15) / 16 - i) := by
  induction n generalizing text y with
  | zero =>
    rw [ghashLoop]
    split
    next empty => simp [empty]
    next some =>
      have one : (text.length + 15) / 16 = 1 := by
        have := List.length_pos_iff.mpr some
        omega
      rw [one, toField_gfMult two root, toField_xorBlock two]
      simp
      ring
  | succ n ih =>
    have later : (text.length + 15) / 16 = ((text.drop 16).length + 15) / 16 + 1 := by
      rw [List.length_drop]
      omega
    rw [ghashLoop, ih _ _ (by rw [List.length_drop]; omega), toField_gfMult two root,
      toField_xorBlock two, toBlock_take, later, Finset.sum_range_succ']
    simp only [List.drop_drop, Nat.add_sub_add_right, Nat.mul_add, Nat.mul_zero, List.drop_zero,
      Nat.sub_zero, Nat.mul_one, Nat.add_comm 16]
    ring

end Field

theorem bit_ext {a b : Block} (same : ∀ k < 128, bitAt a k = bitAt b k) : a = b := by
  refine block_ext fun i small => UInt8.toBitVec_inj.mp (BitVec.eq_of_getLsbD_eq fun j low => ?_)
  have here := same (8 * i + (7 - j)) (by omega)
  rwa [bitAt_eq (by omega), bitAt_eq (by omega), show 7 - (7 - j) = j by omega] at here

theorem toField_injective {f : (ZMod 2)[X]} (degree : f.degree = 128) :
    Function.Injective (toField (AdjoinRoot.root f)) := by
  intro a b same
  have image (c : Block) : AdjoinRoot.mk f (toField X c) = toField (AdjoinRoot.root f) c := by
    simp [toField, lowSum, map_sum, apply_ite]
  have bound (c : Block) : toField (X : (ZMod 2)[X]) c ∈ degreeLT (ZMod 2) 128 := by
    rw [toField, lowSum]
    refine Submodule.sum_mem _ fun k inside => ?_
    split
    · rw [mem_degreeLT, degree_X_pow]
      exact_mod_cast Finset.mem_range.mp inside
    · exact Submodule.zero_mem _
  have coeff (c : Block) {k : ℕ} (small : k < 128) :
      (toField (X : (ZMod 2)[X]) c).coeff k = if bitAt c k then 1 else 0 := by
    rw [toField, lowSum, finsetSum_coeff, Finset.sum_eq_single k]
    · split <;> simp
    · intro j _ other
      split <;> simp [coeff_X_pow, other.symm]
    · exact fun out => absurd (Finset.mem_range.mpr small) out
  have equal : toField (X : (ZMod 2)[X]) a - toField X b = 0 := by
    have divides : f ∣ toField X a - toField X b :=
      AdjoinRoot.mk_eq_mk.mp (by rw [image, image, same])
    refine eq_zero_of_dvd_of_degree_lt divides ?_
    rw [degree]
    exact mem_degreeLT.mp (Submodule.sub_mem _ (bound a) (bound b))
  refine bit_ext fun k small => ?_
  have here := congrArg (Polynomial.coeff · k) equal
  simp only [coeff_sub, coeff_zero, coeff a small, coeff b small] at here
  revert here
  cases bitAt a k <;> cases bitAt b k <;> simp

theorem gcmPoly_degree : gcmPoly.degree = 128 := by
  unfold gcmPoly
  compute_degree!

-- `f` keeps the ring's modulus from being unfolded with the polynomial.
theorem root_pow {f : (ZMod 2)[X]} (shape : f = gcmPoly) :
    (2 : AdjoinRoot f) = 0 ∧ AdjoinRoot.root f ^ 128 =
      AdjoinRoot.root f ^ 7 + AdjoinRoot.root f ^ 2 + AdjoinRoot.root f + 1 := by
  have two : (2 : AdjoinRoot f) = 0 := by
    rw [← map_ofNat (AdjoinRoot.of f) 2, show (OfNat.ofNat 2 : ZMod 2) = 0 from rfl, map_zero]
  have zero : AdjoinRoot.mk f (X ^ 128 + X ^ 7 + X ^ 2 + X + 1) = 0 := by
    unfold gcmPoly at shape
    rw [← shape, AdjoinRoot.mk_self]
  simp only [map_add, map_pow, map_one, AdjoinRoot.mk_X] at zero
  refine ⟨two, ?_⟩
  linear_combination zero - (AdjoinRoot.root f ^ 7 + AdjoinRoot.root f ^ 2 +
    AdjoinRoot.root f + 1) * two

/-- The element of the field of GCM that a block stands for. -/
noncomputable def element : Block → AdjoinRoot gcmPoly :=
  toField (AdjoinRoot.root gcmPoly)

/-- `gf_mult` is the product of the field, no two blocks stand for the same element of it, and
`ghash` of the `n` zero-padded blocks of a text is
`Y H ^ n + X₁ H ^ n + X₂ H ^ (n - 1) + ... + Xₙ H`. -/
theorem ghash_eq_polynomial :
    Function.Injective element ∧ (∀ x y, element (gfMult x y) = element x * element y) ∧
    ∀ h text y, element (ghash h text y) =
      element y * element h ^ ((text.length + 15) / 16) +
        ∑ i ∈ Finset.range ((text.length + 15) / 16),
          element (toBlock (text.drop (16 * i))) * element h ^ ((text.length + 15) / 16 - i) := by
  obtain ⟨two, root⟩ := root_pow rfl
  exact ⟨toField_injective gcmPoly_degree, toField_gfMult two root,
    fun h text y => toField_ghashLoop two root h _ text y rfl⟩

end Rtl88x2bu.Crypto
