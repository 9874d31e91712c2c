import Rtl88x2bu.Crypto.Block

/-!
# AES-GCM

`aes_gcm_ae_typed`, `aes_gcm_ad_typed` and `aes_gmac_typed` of `rust/aes_gcm.rs`, for any block
cipher. The context of the cipher is there, the output buffers have the sizes of their results, and
the lengths in bits wrap around as `u64`.
-/

namespace Rtl88x2bu.Crypto

variable (aes : BlockCipher) (iv : List Byte)

variable (icb j0 : Block) (input plain aad crypt : List Byte)

def getBe32 (block : Block) (off : Fin 13) : UInt32 :=
  (block[off.val].toUInt32 <<< 24) ||| (block[off.val + 1].toUInt32 <<< 16) |||
    (block[off.val + 2].toUInt32 <<< 8) ||| block[off.val + 3].toUInt32

def putBe32 (block : Block) (off : Fin 13) (val : UInt32) : Block :=
  (((block.set off.val (val >>> 24).toUInt8).set (off.val + 1) (val >>> 16).toUInt8).set
    (off.val + 2) (val >>> 8).toUInt8).set (off.val + 3) val.toUInt8

def inc32 (block : Block) : Block :=
  putBe32 block 12 (getBe32 block 12 + 1)

/-- One of the four steps of `shift_right_block`, with the lowest bit of the byte before it. -/
def shiftRightWord (v : Block) (off : Fin 13) (before : Byte) : Block :=
  let val := getBe32 v off >>> 1
  putBe32 v off (if before &&& 0x01 ≠ 0 then val ||| 0x80000000 else val)

def shiftRightBlock (v : Block) : Block :=
  let v := shiftRightWord v 12 v[11]
  let v := shiftRightWord v 8 v[7]
  let v := shiftRightWord v 4 v[3]
  putBe32 v 0 (getBe32 v 0 >>> 1)

/-- The body of the two loops of `gf_mult`, at bit `j` of the byte `x` of the first factor. -/
def gfMultBit (x : Byte) (zv : Block × Block) (j : ℕ) : Block × Block :=
  let z := if x &&& (1 <<< UInt8.ofNat (7 - j)) ≠ 0 then xorBlock zv.1 zv.2 else zv.1
  let v := shiftRightBlock zv.2
  (z, if zv.2[15] &&& 0x01 ≠ 0 then v.set 0 (v[0] ^^^ 0xe1) else v)

def gfMult (x y : Block) : Block :=
  (x.toList.foldl (fun zv byte => (List.range 8).foldl (gfMultBit byte) zv)
    (Vector.replicate 16 0, y)).1

def ghashLoop (h : Block) : ℕ → List Byte → Block → Block
  | 0, x, y => if x = [] then y else gfMult (xorBlock y (toBlock x)) h
  | n + 1, x, y => ghashLoop h n (x.drop 16) (gfMult (xorBlock y (toBlock (x.take 16))) h)

def ghash (h : Block) (x : List Byte) (y : Block) : Block :=
  ghashLoop h (x.length / 16) x y

def gctrLoop (aes : BlockCipher) : ℕ → Block → List Byte → List Byte
  | 0, cb, x => if x = [] then [] else List.zipWith (· ^^^ ·) (aes cb).toList x
  | n + 1, cb, x =>
    List.zipWith (· ^^^ ·) (aes cb).toList (x.take 16) ++ gctrLoop aes n (inc32 cb) (x.drop 16)

def aesGctr (x : List Byte) : List Byte :=
  if x = [] then [] else gctrLoop aes (x.length / 16) icb x

def hashSubkey : Block :=
  aes (Vector.replicate 16 0)

def aesGcmPrepareJ0 (h : Block) : Block :=
  if iv.length = 12 then toBlock (iv ++ [0, 0, 0, 1])
  else
    let j0 := ghash h iv (Vector.replicate 16 0)
    ghash h (putBe64 0 ++ putBe64 (iv.length * 8)) j0

def aesGcmGctr : List Byte :=
  if input = [] then [] else aesGctr aes (inc32 j0) input

def aesGcmGhash (h : Block) (aad crypt : List Byte) : Block :=
  let s := ghash h aad (Vector.replicate 16 0)
  let s := ghash h crypt s
  ghash h (putBe64 (aad.length * 8) ++ putBe64 (crypt.length * 8)) s

def gcmTag : List Byte :=
  let h := hashSubkey aes
  aesGctr aes (aesGcmPrepareJ0 iv h) (aesGcmGhash h aad crypt).toList

def aesGcmAe : List Byte × List Byte :=
  let crypt := aesGcmGctr aes (aesGcmPrepareJ0 iv (hashSubkey aes)) plain
  (crypt, gcmTag aes iv aad crypt)

/-- `aes_gcm_ad_typed`: whether the tag is right, and what the output buffer holds either way. -/
def aesGcmAd (aad tag : List Byte) : Bool × List Byte :=
  (decide (tag = gcmTag aes iv aad crypt),
    aesGcmGctr aes (aesGcmPrepareJ0 iv (hashSubkey aes)) crypt)

def aesGmac : List Byte :=
  (aesGcmAe aes iv [] aad).2

section

variable {aes : BlockCipher}

theorem gctrLoop_eq (n k : ℕ) (x : List Byte) : gctrLoop aes n (inc32^[k] icb) x = Ctr.run (· ^^^ ·)
    16 (fun k => (aes (inc32^[k] icb)).toList) n k x :=
  @Ctr.eq_run Byte (· ^^^ ·) 16 Block (gctrLoop aes) (fun cb => (aes cb).toList) inc32
    (fun _ => rfl) (fun _ _ rest => if_neg rest) (fun _ _ _ => rfl) icb n k x

theorem aesGctr_eq (x : List Byte) :
    aesGctr aes icb x = xorStream (fun k => aes (inc32^[k] icb)) x := by
  by_cases empty : x = []
  · rw [aesGctr, if_pos empty, empty, xorStream_nil]
  · rw [aesGctr, if_neg empty]
    exact gctrLoop_eq icb _ 0 x

theorem aesGcmGctr_eq :
    aesGcmGctr aes j0 input = xorStream (fun k => aes (inc32^[k] (inc32 j0))) input := by
  by_cases empty : input = []
  · rw [aesGcmGctr, if_pos empty, empty, xorStream_nil]
  · rw [aesGcmGctr, if_neg empty, aesGctr_eq]

@[simp] theorem length_aesGctr (x : List Byte) : (aesGctr aes icb x).length = x.length := by
  rw [aesGctr_eq, length_xorStream]

@[simp] theorem length_aesGcmGctr : (aesGcmGctr aes j0 input).length = input.length := by
  rw [aesGcmGctr_eq, length_xorStream]

@[simp] theorem aesGcmGctr_aesGcmGctr : aesGcmGctr aes j0 (aesGcmGctr aes j0 input) = input := by
  rw [aesGcmGctr_eq, aesGcmGctr_eq, xorStream_xorStream]

@[simp] theorem length_gcmTag : (gcmTag aes iv aad crypt).length = 16 := by
  rw [gcmTag, length_aesGctr, Vector.length_toList]

@[simp] theorem length_aesGcmAe : (aesGcmAe aes iv plain aad).1.length = plain.length :=
  length_aesGcmGctr _ plain

theorem aesGcmAe_aesGcmAd (aad tag : List Byte) :
    aesGcmAe aes iv (aesGcmAd aes iv crypt aad tag).2 aad = (crypt, gcmTag aes iv aad crypt) := by
  simp only [aesGcmAe, aesGcmAd, aesGcmGctr_aesGcmGctr]

theorem aesGcmAd_aesGcmAe : aesGcmAd aes iv (aesGcmAe aes iv plain aad).1
    aad (aesGcmAe aes iv plain aad).2 = (true, plain) := by
  simp only [aesGcmAe, aesGcmAd, aesGcmGctr_aesGcmGctr, decide_true]

end

/-- Decryption gives the plaintext of every encryption back, and accepts a tag exactly if encrypting
what it decrypts gives that tag. -/
theorem gcm_round_trip (aes : BlockCipher) (iv aad : List Byte) :
    (∀ plain, aesGcmAd aes iv (aesGcmAe aes iv plain aad).1 aad (aesGcmAe aes iv plain aad).2 =
      (true, plain)) ∧
    ∀ crypt tag, (aesGcmAd aes iv crypt aad tag).1 = true ↔
      aesGcmAe aes iv (aesGcmAd aes iv crypt aad tag).2 aad = (crypt, tag) := by
  refine ⟨fun plain => aesGcmAd_aesGcmAe iv plain aad, fun crypt tag => ?_⟩
  rw [aesGcmAe_aesGcmAd, Prod.mk.injEq, aesGcmAd, decide_eq_true_iff, eq_comm]
  exact (and_iff_right rfl).symm

end Rtl88x2bu.Crypto
