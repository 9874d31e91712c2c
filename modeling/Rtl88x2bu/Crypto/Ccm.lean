import Rtl88x2bu.Crypto.Block

/-!
# AES-CCM

`aes_ccm_ae_typed` and `aes_ccm_ad_typed` of `rust/aes_ccm.rs`, for any block cipher. The context of
the cipher is there (`aes_encrypt_init` does not fail) and the output buffers have the sizes of
their results.
-/

namespace Rtl88x2bu.Crypto

variable (aes : BlockCipher)

abbrev Nonce := Vector Byte 13

variable (nonce : Nonce)

variable (m : ℕ) (input : List Byte)

/-- The first byte of the first block. `m.wrapping_sub(2)` wraps around for an `m` below 2. -/
def ccmFlags (aad : List Byte) : Byte :=
  (if aad = [] then (0 : Byte) else 0x40) |||
    (UInt8.ofNat ((m + (2 ^ 64 - 2)) % 2 ^ 64 / 2) <<< 3) ||| 1

def aesCcmAuthStart (nonce : Nonce) (aad : List Byte) (plainLen : ℕ) : Block :=
  let x := aes (toBlock (ccmFlags m aad :: (nonce.toList ++ putBe16 plainLen)))
  if aad = [] then x
  else
    let aadBuf := putBe16 aad.length ++ aad
    let x := aes (xorBlock (toBlock aadBuf) x)
    if aad.length > 14 then aes (xorBlock (toBlock (aadBuf.drop 16)) x) else x

def authLoop (aes : BlockCipher) : ℕ → List Byte → Block → Block
  | 0, data, x => if data = [] then x else aes (xorBlock x (toBlock data))
  | n + 1, data, x => authLoop aes n (data.drop 16) (aes (xorBlock x (toBlock (data.take 16))))

def aesCcmAuth (data : List Byte) (x : Block) : Block :=
  authLoop aes (data.length / 16) data x

/-- `a` as `aes_ccm_encr_start` leaves it, with the counter `i`, an `u16`, put behind the nonce. -/
def ccmCounter (i : ℕ) : Block :=
  toBlock (1 :: (nonce.toList ++ putBe16 i))

def encrLoop (aes : BlockCipher) (nonce : Nonce) : ℕ → ℕ → List Byte → List Byte
  | 0, i, input =>
    if input = [] then []
    else List.zipWith (· ^^^ ·) (aes (ccmCounter nonce i)).toList input
  | n + 1, i, input =>
    List.zipWith (· ^^^ ·) (aes (ccmCounter nonce i)).toList (input.take 16) ++
      encrLoop aes nonce n (i + 1) (input.drop 16)

def aesCcmEncr : List Byte :=
  encrLoop aes nonce (input.length / 16) 1 input

/-- `aes_ccm_encr_auth` of the first `m` bytes of `x`, and `aes_ccm_decr_auth` of a tag. -/
def ccmTag (bytes : List Byte) : List Byte :=
  List.zipWith (· ^^^ ·) (aes (ccmCounter nonce 0)).toList (bytes.take m)

def aesCcmAe (plain aad : List Byte) : Option (List Byte × List Byte) :=
  if aad.length > 30 ∨ m > 16 then none
  else
    let x := aesCcmAuth aes plain (aesCcmAuthStart aes m nonce aad plain.length)
    some (aesCcmEncr aes nonce plain, ccmTag aes nonce m x.toList)

/-- `aes_ccm_ad_typed`: whether the tag is right, and what the output buffer holds either way. -/
def aesCcmAd (crypt aad auth : List Byte) : Option (Bool × List Byte) :=
  if aad.length > 30 ∨ m > 16 ∨ auth.length < m then none
  else
    let t := ccmTag aes nonce m auth
    let plain := aesCcmEncr aes nonce crypt
    let x := aesCcmAuth aes plain (aesCcmAuthStart aes m nonce aad crypt.length)
    some (decide (x.toList.take m = t), plain)

section

variable {aes : BlockCipher} {nonce : Nonce} {m : ℕ}

theorem encrLoop_eq (n k : ℕ) (input : List Byte) :
    encrLoop aes nonce n (k + 1) input =
      Ctr.run (· ^^^ ·) 16 (fun k => (aes (ccmCounter nonce (k + 1))).toList) n k input := by
  have counter (k : ℕ) : Nat.succ^[k] 1 = k + 1 := by
    rw [Nat.succ_iterate, Nat.add_comm]
  have looped := @Ctr.eq_run Byte (· ^^^ ·) 16 ℕ (encrLoop aes nonce)
    (fun i => (aes (ccmCounter nonce i)).toList) Nat.succ (fun _ => rfl)
    (fun _ _ rest => if_neg rest) (fun _ _ _ => rfl) 1 n k input
  simp only [counter] at looped
  exact looped

theorem aesCcmEncr_eq :
    aesCcmEncr aes nonce input = xorStream (fun k => aes (ccmCounter nonce (k + 1))) input :=
  encrLoop_eq _ 0 input

@[simp] theorem length_aesCcmEncr : (aesCcmEncr aes nonce input).length = input.length := by
  rw [aesCcmEncr_eq, length_xorStream]

@[simp]
theorem aesCcmEncr_aesCcmEncr :
    aesCcmEncr aes nonce (aesCcmEncr aes nonce input) = input := by
  rw [aesCcmEncr_eq, aesCcmEncr_eq, xorStream_xorStream]

theorem length_ccmTag (x : Block) (fits : m ≤ 16) : (ccmTag aes nonce m x.toList).length = m := by
  rw [ccmTag, List.length_zipWith, List.length_take, Vector.length_toList, Vector.length_toList]
  omega

theorem take_eq_ccmTag_iff (x : Block) {auth : List Byte} (length : auth.length = m)
    (fits : m ≤ 16) :
    x.toList.take m = ccmTag aes nonce m auth ↔ ccmTag aes nonce m x.toList = auth := by
  have size : (aes (ccmCounter nonce 0)).toList.length = 16 := Vector.length_toList
  have whole : auth.take m = auth := List.take_of_length_le length.le
  rw [ccmTag, ccmTag, whole]
  refine xor_eq_iff _ _ _ ?_ (by omega)
  rw [List.length_take, Vector.length_toList]
  omega

theorem aesCcmAd_eq (crypt : List Byte) {aad auth : List Byte} (short : aad.length ≤ 30)
    (fits : m ≤ 16) (length : auth.length = m) :
    ∃ ok, aesCcmAd aes nonce m crypt aad auth = some (ok, aesCcmEncr aes nonce crypt) ∧
      (ok = true ↔
        aesCcmAe aes nonce m (aesCcmEncr aes nonce crypt) aad = some (crypt, auth)) := by
  have accepts : ¬ (aad.length > 30 ∨ m > 16 ∨ auth.length < m) := by omega
  have accepts' : ¬ (aad.length > 30 ∨ m > 16) := by omega
  refine ⟨_, if_neg accepts, ?_⟩
  rw [decide_eq_true_iff, take_eq_ccmTag_iff _ length fits, aesCcmAe, if_neg accepts']
  simp only [aesCcmEncr_aesCcmEncr, length_aesCcmEncr, Option.some.injEq, Prod.mk.injEq, true_and]

theorem aesCcmAe_spec (plain : List Byte) {aad : List Byte} (short : aad.length ≤ 30)
    (fits : m ≤ 16) :
    ∃ crypt tag, aesCcmAe aes nonce m plain aad = some (crypt, tag) ∧
      crypt.length = plain.length ∧ tag.length = m ∧
      aesCcmAd aes nonce m crypt aad tag = some (true, plain) := by
  have accepts : ¬ (aad.length > 30 ∨ m > 16) := by omega
  have encrypts : aesCcmAe aes nonce m plain aad = some (aesCcmEncr aes nonce plain, _) :=
    if_neg accepts
  refine ⟨_, _, encrypts, length_aesCcmEncr plain, length_ccmTag _ fits, ?_⟩
  obtain ⟨ok, decrypts, accepted⟩ :=
    aesCcmAd_eq (aesCcmEncr aes nonce plain) short fits (length_ccmTag _ fits)
  rw [aesCcmEncr_aesCcmEncr] at decrypts accepted
  rw [decrypts, accepted.mpr encrypts]

end

/-- Decryption gives the plaintext of every encryption back, and accepts a tag exactly if encrypting
what it decrypts gives that tag. -/
theorem ccm_round_trip (aes : BlockCipher) (nonce : Nonce) (m : ℕ) (aad : List Byte) (fits : m ≤ 16)
    (short : aad.length ≤ 30) :
    (∀ plain, ∃ crypt tag, aesCcmAe aes nonce m plain aad = some (crypt, tag) ∧
      aesCcmAd aes nonce m crypt aad tag = some (true, plain)) ∧
    ∀ crypt tag, tag.length = m → ∃ ok plain,
      aesCcmAd aes nonce m crypt aad tag = some (ok, plain) ∧
        (ok = true ↔ aesCcmAe aes nonce m plain aad = some (crypt, tag)) := by
  constructor
  · intro plain
    obtain ⟨crypt, tag, encrypts, -, -, decrypts⟩ := aesCcmAe_spec plain short fits
    exact ⟨crypt, tag, encrypts, decrypts⟩
  · intro crypt tag length
    obtain ⟨ok, decrypts, accepted⟩ := aesCcmAd_eq crypt short fits length
    exact ⟨ok, _, decrypts, accepted⟩

theorem ccm_round_trip_five :
    ∃ crypt tag, aesCcmAe id (Vector.replicate 13 7) 8 [1, 2, 3, 4, 5] [9] = some (crypt, tag) ∧
      aesCcmAd id (Vector.replicate 13 7) 8 crypt [9] tag = some (true, [1, 2, 3, 4, 5]) :=
  (ccm_round_trip id (Vector.replicate 13 7) 8 [9] (by decide) (by decide)).1 [1, 2, 3, 4, 5]

end Rtl88x2bu.Crypto
