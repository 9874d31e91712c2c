import Rtl88x2bu.Crypto.Gcm
import Rtl88x2bu.Crypto.Header

/-!
# GCMP

`gcmp_encrypt_inner` and `gcmp_decrypt_inner` of `rust/gcmp.rs`, for any block cipher in the place
of AES with the key.
-/

namespace Rtl88x2bu.Crypto

open List hiding Vector

variable (malloc : Malloc) (amsduMode : Byte) (aes : BlockCipher)

/-- `gcmp_aad_nonce`. -/
def gcmpAadNonce (hdr data : List Byte) : List Byte × List Byte :=
  if data.length < 8 then ([], List.replicate 12 0)
  else
    let fc := getLe16 hdr 0
    (headerAad amsduMode hdr (maskedFc fc) (hasAddr4 fc) (isQosData fc),
      slice hdr 10 6 ++ noncePn data)

/-- `gcmp_encrypt_inner`. -/
def gcmpEncryptInner (mem : List Byte) (len hdrlen : ℕ) (pn : Option (Vector Byte 6)) (keyid : ℤ) :
    Option (List Byte) :=
  if len < hdrlen ∨ hdrlen < 24 then none
  else if !malloc (hdrlen + 8 + (len - hdrlen) + 16 + 16) then none
  else
    let opened := openFrame mem hdrlen (len - hdrlen) pn keyid
    let aadNonce := gcmpAadNonce amsduMode opened.1 (slice opened.1 hdrlen 8)
    let sealed := aesGcmAe aes aadNonce.2 opened.2 aadNonce.1
    some (opened.1 ++ sealed.1 ++ sealed.2)

/-- `gcmp_decrypt_inner`. -/
def gcmpDecryptInner (hdr data : List Byte) : Option (List Byte × ℕ) :=
  if data.length < 8 + 16 then none
  else if !malloc (data.length + 16) then none
  else
    let mlen := data.length - 8 - 16
    let aadNonce := gcmpAadNonce amsduMode hdr data
    let opened := aesGcmAd aes aadNonce.2 (slice data 8 mlen) aadNonce.1 (data.drop (8 + mlen))
    if opened.1 then some (opened.2, mlen) else none

section

variable {malloc amsduMode aes}

theorem gcmpAadNonce_append {hdr data : List Byte} (rest behind : List Byte)
    (header : 32 ≤ hdr.length) (number : 8 ≤ data.length) :
    gcmpAadNonce amsduMode (hdr ++ rest) (data ++ behind) = gcmpAadNonce amsduMode hdr data := by
  have long : ¬ data.length < 8 := by omega
  have long' : ¬ (data ++ behind).length < 8 := by
    rw [length_append]
    omega
  rw [gcmpAadNonce, gcmpAadNonce, if_neg long, if_neg long', getLe16_append (by omega),
    slice_append (by omega), noncePn_append number]
  simp only [headerAad_append amsduMode _ _ _ header]

theorem gcmpAadNonce_nonce (hdr : List Byte) (pn : Vector Byte 6) (keyid : ℤ) :
    (gcmpAadNonce amsduMode hdr (pnHeader pn keyid)).2 = slice hdr 10 6 ++ pn.toList := by
  rw [gcmpAadNonce, if_neg (by rw [length_pnHeader]; omega), noncePn_pnHeader]

theorem gcmpEncryptInner_pn {hdr : List Byte} (header : 24 ≤ hdr.length) (payload : List Byte)
    (pn : Vector Byte 6) (keyid : ℤ)
    (given : malloc (hdr.length + 8 + payload.length + 16 + 16) = true) :
    gcmpEncryptInner malloc amsduMode aes (hdr ++ payload) (hdr ++ payload).length hdr.length
        (some pn) keyid =
      let aadNonce := gcmpAadNonce amsduMode (hdr ++ pnHeader pn keyid) (pnHeader pn keyid)
      let sealed := aesGcmAe aes aadNonce.2 payload aadNonce.1
      some (hdr ++ (pnHeader pn keyid ++ (sealed.1 ++ sealed.2))) := by
  have accepts : ¬ ((hdr ++ payload).length < hdr.length ∨ hdr.length < 24) := by
    rw [length_append]
    omega
  have rest : (hdr ++ payload).length - hdr.length = payload.length := by
    rw [length_append]
    omega
  rw [gcmpEncryptInner, if_neg accepts, rest, given, if_neg nofun]
  simp only [openFrame, take_left, slice_right hdr payload rfl,
    slice_right hdr (pnHeader pn keyid) (length_pnHeader pn keyid), append_assoc]

theorem gcmpDecryptInner_append (hdr : List Byte) {iv crypt tag : List Byte}
    (number : iv.length = 8) (whole : tag.length = 16)
    (given : malloc (8 + crypt.length + 16 + 16) = true) :
    gcmpDecryptInner malloc amsduMode aes hdr (iv ++ (crypt ++ tag)) =
      let aadNonce := gcmpAadNonce amsduMode hdr (iv ++ (crypt ++ tag))
      let opened := aesGcmAd aes aadNonce.2 crypt aadNonce.1 tag
      if opened.1 then some (opened.2, crypt.length) else none := by
  have lengths : (iv ++ (crypt ++ tag)).length = 8 + crypt.length + 16 := by
    rw [length_append, length_append]
    omega
  have long : ¬ (iv ++ (crypt ++ tag)).length < 8 + 16 := by omega
  have mlen : (iv ++ (crypt ++ tag)).length - 8 - 16 = crypt.length := by omega
  have text : slice (iv ++ (crypt ++ tag)) 8 crypt.length = crypt := by
    rw [slice, ← number, drop_left, take_left]
  have behind : (iv ++ (crypt ++ tag)).drop (8 + crypt.length) = tag := by
    rw [← number, ← drop_drop, drop_left, drop_left]
  rw [gcmpDecryptInner, if_neg long, lengths, given, if_neg (by decide), ← lengths]
  simp only [mlen, text, behind]

end

/-- The receiver gets the payload of every frame and its length back, and its nonce has the
transmitter's packet number, if `os_malloc` gives both their buffers. -/
theorem gcmp_frame_round_trip (hdr payload : List Byte) (header : 24 ≤ hdr.length)
    (pn : Vector Byte 6) (keyid : ℤ)
    (sends_in : malloc (hdr.length + 8 + payload.length + 16 + 16) = true)
    (receives_in : malloc (8 + payload.length + 16 + 16) = true) :
    ∃ frame,
      gcmpEncryptInner malloc amsduMode aes (hdr ++ payload) (hdr ++ payload).length hdr.length
        (some pn) keyid = some frame ∧
      frame.take hdr.length = hdr ∧
      gcmpDecryptInner malloc amsduMode aes frame (frame.drop hdr.length) =
        some (payload, payload.length) ∧
      (gcmpAadNonce amsduMode frame (frame.drop hdr.length)).2 = slice hdr 10 6 ++ pn.toList := by
  refine ⟨_, gcmpEncryptInner_pn header payload pn keyid sends_in, take_left, ?_⟩
  have long : 32 ≤ (hdr ++ pnHeader pn keyid).length := by
    rw [length_append, length_pnHeader]
    omega
  rw [drop_left]
  set aadNonce := gcmpAadNonce amsduMode (hdr ++ pnHeader pn keyid) (pnHeader pn keyid)
    with sent
  set sealed := aesGcmAe aes aadNonce.2 payload aadNonce.1 with sealing
  -- the receiver reads the header from the frame, where the packet number stands behind it
  have received : gcmpAadNonce amsduMode (hdr ++ (pnHeader pn keyid ++ (sealed.1 ++ sealed.2)))
      (pnHeader pn keyid ++ (sealed.1 ++ sealed.2)) = aadNonce := by
    rw [← append_assoc hdr]
    exact gcmpAadNonce_append _ _ long (length_pnHeader pn keyid).ge
  constructor
  · have tag : sealed.2.length = 16 := length_gcmTag _ _ _
    have crypt : sealed.1.length = payload.length := length_aesGcmAe ..
    rw [gcmpDecryptInner_append _ (length_pnHeader pn keyid) tag (crypt ▸ receives_in), received]
    simp only [sealing, aesGcmAd_aesGcmAe, if_true, length_aesGcmAe]
  · rw [received, sent, gcmpAadNonce_nonce, slice_append (by omega)]

theorem gcmp_frame_round_trip_qos :
    ∃ frame,
      gcmpEncryptInner (fun size => decide (size ≤ 75)) 0 id
        ([0x88, 0x43] ++ List.replicate 30 1 ++ [1, 2, 3])
        ([0x88, 0x43] ++ List.replicate 30 1 ++ [1, 2, 3]).length
        ([0x88, 0x43] ++ List.replicate 30 1 : List Byte).length (some (Vector.replicate 6 5)) 1 =
          some frame ∧
      gcmpDecryptInner (fun size => decide (size ≤ 75)) 0 id frame (frame.drop 32) =
        some ([1, 2, 3], 3) := by
  obtain ⟨frame, encrypts, -, decrypts, -⟩ :=
    gcmp_frame_round_trip (fun size => decide (size ≤ 75)) 0 id
      ([0x88, 0x43] ++ List.replicate 30 1) [1, 2, 3] (by decide) (Vector.replicate 6 5) 1
      (by decide) (by decide)
  exact ⟨frame, encrypts, decrypts⟩

end Rtl88x2bu.Crypto
