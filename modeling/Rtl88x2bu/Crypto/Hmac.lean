import Rtl88x2bu.Crypto.Sha256

/-!
# HMAC-SHA256 and the key derivation

`hmac_sha256_vector_typed` of `rust/sha256.rs`, with the HMAC of RFC 2104, and
`sha256_prf_bits_typed` of `rust/sha256_prf.rs`, with the key derivation function of 802.11.
-/

namespace Rtl88x2bu.Crypto.Sha256

open List

variable (key label : List Byte)

/-! ## The model -/

/-- `k_pad`, once every byte is combined with `IPAD` or `OPAD`. -/
def kPad (pad : Byte) : List Byte :=
  (key ++ replicate (64 - key.length) 0).map (· ^^^ pad)

def hmacSha256VectorTyped (parts : List (List Byte)) : Option (List Byte) :=
  if parts.length > 5 then none
  else
    (if key.length > 64 then sha256VectorTyped [key] else some key).bind fun key =>
      (sha256VectorTyped (kPad key 0x36 :: parts)).bind fun mac =>
        sha256VectorTyped [kPad key 0x5c, mac]

/-- `wpa_put_le16` of a number that is kept in an `u16`. -/
def wpaPutLe16 (val : ℕ) : List Byte :=
  [.ofNat val, .ofNat (val / 256)]

/-- The loop, with `plen` bytes to go; `mac` has the other arguments of `hmac_sha256_vector`. -/
def prfLoop (mac : ℕ → Option (List Byte)) : ℕ → ℕ → ℕ → Option (List Byte)
  | 0, _, plen => if plen = 0 then some [] else none
  | fuel + 1, counter, plen =>
    if plen = 0 then some []
    else (mac counter).bind fun hash =>
      if 32 ≤ plen then (prfLoop mac fuel (counter + 1) (plen - 32)).map (hash ++ ·)
      else some (hash.take plen)

/-- The bits of the last byte that are not asked for are cleared. -/
def maskLast (bits : ℕ) (buf : List Byte) : List Byte :=
  if bits % 8 = 0 then buf
  else buf.modify (bits / 8) (· &&& (0xff <<< UInt8.ofNat (8 - bits % 8)))

/-- `sha256_prf_bits_typed`: what `buf` holds afterwards. Every round writes a byte. -/
def sha256PrfBitsTyped (data buf : List Byte) (bufLenBits : ℕ) : Option (List Byte) :=
  let bufLen := (bufLenBits + 7) / 8
  if buf.length < bufLen then none
  else
    (prfLoop (fun counter => hmacSha256VectorTyped key
      [wpaPutLe16 counter, label, data, wpaPutLe16 bufLenBits]) bufLen 1 bufLen).map
        fun out => maskLast bufLenBits out ++ buf.drop bufLen

/-! ## RFC 2104 and 802.11 -/

/-- The key, hashed if it is longer than a block, with zeros up to the length of a block. -/
def blockKey : List Byte :=
  let key := if key.length ≤ 64 then key else sha256 key
  key ++ replicate (64 - key.length) 0

def hmac (text : List Byte) : List Byte :=
  sha256 ((blockKey key).map (· ^^^ 0x5c) ++ sha256 ((blockKey key).map (· ^^^ 0x36) ++ text))

/-- Block `i` of the derived key. -/
def kdfBlock (context : List Byte) (length i : ℕ) : List Byte :=
  hmac key (wpaPutLe16 i ++ label ++ context ++ wpaPutLe16 length)

/-- The first `n` bits of a text, with zeros up to the end of a byte. -/
def firstBits (n : ℕ) (text : List Byte) : List Byte :=
  text.take (n / 8) ++ if n % 8 = 0 then [] else
    [UInt8.ofNat ((text.getD (n / 8) 0).toNat / 2 ^ (8 - n % 8) * 2 ^ (8 - n % 8))]

/-- The first `length` bits of the blocks from 1 on. -/
def kdf (context : List Byte) (length : ℕ) : List Byte :=
  firstBits length ((range' 1 (length / 256 + 1)).flatMap (kdfBlock key label context length))

/-! ## The functions compute them -/

theorem length_bytes (s : Words) : s.bytes.length = 32 := rfl

theorem length_kPad {key : List Byte} (short : key.length ≤ 64) (pad : Byte) :
    (kPad key pad).length = 64 := by
  rw [kPad, length_map, length_append, length_replicate]
  omega

theorem hmacSha256VectorTyped_eq {key : List Byte} {parts : List (List Byte)}
    (few : parts.length ≤ 5) (shortKey : key.length < 2 ^ 61)
    (short : parts.flatten.length < 2 ^ 61 - 64) :
    hmacSha256VectorTyped key parts = some (hmac key parts.flatten) := by
  have k₀ : (if key.length > 64 then sha256VectorTyped [key] else some key) =
      some (if key.length ≤ 64 then key else sha256 key) := by
    split_ifs with long
    · omega
    · exact sha256VectorTyped_eq (flatten_singleton ..) shortKey
    · rfl
    · omega
  have fits : (if key.length ≤ 64 then key else sha256 key).length ≤ 64 := by
    split_ifs with small
    · exact small
    · rw [sha256, length_bytes]
      decide
  have padded (pad : Byte) : (blockKey key).map (· ^^^ pad) =
      kPad (if key.length ≤ 64 then key else sha256 key) pad := rfl
  rw [hmacSha256VectorTyped, if_neg (by omega), k₀, hmac, padded, padded]
  rw [Option.bind_some, sha256VectorTyped_eq flatten_cons, Option.bind_some, sha256VectorTyped_eq]
  · simp
  · rw [length_append, length_kPad fits, sha256, length_bytes]
    decide
  · rw [length_append, length_kPad fits]
    omega

theorem prfLoop_eq {mac : ℕ → Option (List Byte)} {block : ℕ → List Byte}
    (each : ∀ i, mac i = some (block i)) (size : ∀ i, (block i).length = 32)
    {fuel counter plen n : ℕ} (enough : plen ≤ fuel) (blocks : plen ≤ 32 * n) :
    prfLoop mac fuel counter plen = some (((range' counter n).flatMap block).take plen) := by
  induction fuel generalizing counter plen n with
  | zero =>
    obtain rfl := Nat.le_zero.mp enough
    rfl
  | succ fuel ih =>
    rw [prfLoop]
    by_cases nothing : plen = 0
    · rw [if_pos nothing, nothing, take_zero]
    · obtain ⟨n, rfl⟩ := Nat.exists_eq_succ_of_ne_zero (show n ≠ 0 by omega)
      rw [if_neg nothing, each, Option.bind_some, range'_succ, flatMap_cons, take_append, size]
      split_ifs with whole
      · have all : (block counter).take plen = block counter := take_of_length_le (by rwa [size])
        rw [ih (by omega) (show plen - 32 ≤ 32 * n by omega), Option.map_some, all]
      · rw [show plen - 32 = 0 by omega, take_zero, append_nil]

theorem and_shiftLeft_eq (b : Byte) {r : ℕ} (low : r < 8) :
    b &&& (0xff <<< UInt8.ofNat r) = UInt8.ofNat (b.toNat / 2 ^ r * 2 ^ r) := by
  revert b
  interval_cases r <;> decide +kernel

theorem modify_concat {l : List Byte} {b : Byte} {i : ℕ} {f : Byte → Byte} (last : l.length = i) :
    (l ++ [b]).modify i f = l ++ [f b] := by
  subst last
  simp [modify_eq_set_getElem?]

theorem maskLast_take {n : ℕ} {text : List Byte} (enough : n ≤ 8 * text.length) :
    maskLast n (text.take ((n + 7) / 8)) = firstBits n text := by
  rw [maskLast, firstBits]
  split_ifs with whole
  · rw [append_nil, show (n + 7) / 8 = n / 8 by omega]
  · have inside : n / 8 < text.length := by omega
    rw [show (n + 7) / 8 = n / 8 + 1 by omega, take_add_one, getElem?_eq_getElem inside,
      getD_eq_getElem _ _ inside, Option.toList_some, ← and_shiftLeft_eq _ (by omega)]
    exact modify_concat (by simp; omega)

/-- The MAC of the concatenation, or an error for more than five parts. -/
theorem hmac_sha256_vector_rfc2104 (key : List Byte) (parts : List (List Byte))
    (shortKey : key.length < 2 ^ 61) (short : parts.flatten.length < 2 ^ 61 - 64) :
    hmacSha256VectorTyped key parts =
      if parts.length ≤ 5 then some (hmac key parts.flatten) else none := by
  split_ifs with few
  · exact hmacSha256VectorTyped_eq few shortKey short
  · rw [hmacSha256VectorTyped, if_pos (by omega)]

theorem hmac_sha256_vector_rfc2104_two :
    hmacSha256VectorTyped [0x4a] [[1], [2, 3]] = some (hmac [0x4a] [1, 2, 3]) :=
  hmac_sha256_vector_rfc2104 [0x4a] [[1], [2, 3]] (by decide) (by decide)

/-- The derived key goes to the front of a buffer that has room for it, whatever its length. -/
theorem sha256_prf_bits_kdf (key label data buf : List Byte) (bufLenBits : ℕ)
    (room : (bufLenBits + 7) / 8 ≤ buf.length) (shortKey : key.length < 2 ^ 61)
    (short : label.length + data.length < 2 ^ 61 - 68) :
    sha256PrfBitsTyped key label data buf bufLenBits =
      some (kdf key label data bufLenBits ++ buf.drop ((bufLenBits + 7) / 8)) := by
  have each (i : ℕ) : hmacSha256VectorTyped key
      [wpaPutLe16 i, label, data, wpaPutLe16 bufLenBits] =
        some (kdfBlock key label data bufLenBits i) := by
    refine (hmacSha256VectorTyped_eq (by simp) shortKey ?_).trans (by simp [kdfBlock])
    simp only [flatten_cons, flatten_nil, length_append, length_nil, wpaPutLe16, length_cons]
    omega
  have size (i : ℕ) : (kdfBlock key label data bufLenBits i).length = 32 := rfl
  rw [sha256PrfBitsTyped, if_neg (by omega), prfLoop_eq each size le_rfl
    (show _ ≤ 32 * (bufLenBits / 256 + 1) by omega), Option.map_some, kdf, maskLast_take]
  simp only [length_flatMap, size, map_const', length_range', sum_replicate, smul_eq_mul]
  omega

theorem sha256_prf_bits_kdf_nine :
    sha256PrfBitsTyped [1] [2] [3] [4, 5, 6] 9 = some (kdf [1] [2] [3] 9 ++ [6]) :=
  sha256_prf_bits_kdf [1] [2] [3] [4, 5, 6] 9 (by decide) (by decide) (by decide)

end Rtl88x2bu.Crypto.Sha256
