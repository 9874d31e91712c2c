import Rtl88x2bu.Crypto.Ccm
import Rtl88x2bu.Crypto.Header

/-!
# CCMP

`_rtw_ccmp_encrypt` and `_rtw_ccmp_decrypt` of `rust/rtw_swcrypto.rs` with what they call of
`rust/ccmp.rs`, for any block cipher in the place of AES with the key. The lengths, each an `u32`,
add up without wrapping around.
-/

namespace Rtl88x2bu.Crypto

open List hiding Vector

variable (host : Endian) (malloc : Malloc) (amsduMode : Byte) (aes : BlockCipher)

def toNonce (bytes : List Byte) : Nonce :=
  ⟨((bytes ++ List.replicate 13 0).take 13).toArray, by simp⟩

/-- `ccmp_aad_nonce`. -/
def ccmpAadNonce (hdr data : List Byte) : List Byte × Nonce :=
  if data.length < 8 then ([], Vector.replicate 13 0)
  else
    let fc := getLe16 hdr 0
    let flags : Byte :=
      if isQosData fc then byteAt hdr (qosOffset (hasAddr4 fc)) &&& 0x0f
      else if isData fc then 0
      else if isMgmt fc then 0x10
      else 0
    (headerAad amsduMode hdr (maskedFc fc ||| fcIsWep) (hasAddr4 fc) (isQosData fc),
      toNonce (flags :: (slice hdr 10 6 ++ noncePn data)))

/-- `frame_control |= WLAN_FC_ISWEP`: its upper half is the second byte only on a little-endian
host. -/
def setIsWep : List Byte → List Byte
  | low :: high :: rest =>
    match host with
    | .little => low :: (high ||| 0x40) :: rest
    | .big => (low ||| 0x40) :: high :: rest
  | short => short

def isWepSet (hdr : List Byte) : Prop :=
  match host with
  | .little => byteAt hdr 1 &&& 0x40 = 0x40
  | .big => byteAt hdr 0 &&& 0x40 = 0x40

/-- `ccmp_encrypt_inner`. -/
def ccmpEncryptInner (mem : List Byte) (len hdrlen : ℕ) (pn : Option (Vector Byte 6)) (keyid : ℤ)
    (micLen : ℕ) : Option (List Byte) :=
  if len < hdrlen ∨ hdrlen < 24 then none
  else if !malloc (hdrlen + 8 + (len - hdrlen) + micLen + 16) then none
  else
    let opened := openFrame mem hdrlen (len - hdrlen) pn keyid
    let front := setIsWep host opened.1
    let aadNonce := ccmpAadNonce amsduMode front (slice front hdrlen 8)
    (aesCcmAe aes aadNonce.2 micLen opened.2 aadNonce.1).map fun sealed =>
      front ++ sealed.1 ++ sealed.2

/-- `ccmp_decrypt_inner`. -/
def ccmpDecryptInner (hdr data : List Byte) (micLen : ℕ) : Option (List Byte × ℕ) :=
  if data.length < 8 + micLen then none
  else if !malloc (data.length + 16) then none
  else
    let mlen := data.length - 8 - micLen
    let aadNonce := ccmpAadNonce amsduMode hdr data
    match aesCcmAd aes aadNonce.2 micLen (slice data 8 mlen) aadNonce.1 (data.drop (8 + mlen)) with
    | some (true, plain) => some (plain, mlen)
    | _ => none

def ccmpMicLen : ℕ → Option ℕ
  | 16 => some 8
  | 32 => some 16
  | _ => none

/-- `_rtw_ccmp_encrypt`: the memory from the frame on afterwards. -/
def rtwCcmpEncrypt (keyLen hdrlen : ℕ) (mem : List Byte) (plen : ℕ) : Ret × List Byte :=
  match ccmpMicLen keyLen with
  | none => (.fail, mem)
  | some micLen =>
    match ccmpEncryptInner host malloc amsduMode aes mem (hdrlen + plen) hdrlen none 0 micLen with
    | none => (.fail, mem)
    | some enc => (.success, enc ++ mem.drop enc.length)

/-- `_rtw_ccmp_decrypt`. Here `plen` is the length of the whole frame. -/
def rtwCcmpDecrypt (keyLen hdrlen : ℕ) (mem : List Byte) (plen : ℕ) : Ret × List Byte :=
  if plen < hdrlen then (.fail, mem)
  else
    match ccmpMicLen keyLen with
    | none => (.fail, mem)
    | some micLen =>
      match ccmpDecryptInner malloc amsduMode aes mem (slice mem hdrlen (plen - hdrlen)) micLen with
      | none => (.fail, mem)
      | some (plain, plainLen) =>
        (.success,
          mem.take (hdrlen + 8) ++ plain.take plainLen ++ mem.drop (hdrlen + 8 + plainLen))

section

variable {host malloc amsduMode aes} {hdr : List Byte} {keyLen mic : ℕ}

theorem ccmpAadNonce_append {data : List Byte} (rest behind : List Byte)
    (header : 32 ≤ hdr.length) (number : 8 ≤ data.length) :
    ccmpAadNonce amsduMode (hdr ++ rest) (data ++ behind) = ccmpAadNonce amsduMode hdr data := by
  have long : ¬ data.length < 8 := by omega
  have long' : ¬ (data ++ behind).length < 8 := by
    rw [length_append]
    omega
  have offset (addr4 : Bool) : qosOffset addr4 < hdr.length := by
    cases addr4 <;> simp only [qosOffset, if_true, if_false, Bool.false_eq_true] <;> omega
  rw [ccmpAadNonce, ccmpAadNonce, if_neg long, if_neg long', getLe16_append (by omega),
    slice_append (by omega), noncePn_append number]
  simp only [headerAad_append amsduMode _ _ _ header, byteAt_append (offset _)]

theorem length_ccmpAad_le (hdr data : List Byte) :
    (ccmpAadNonce amsduMode hdr data).1.length ≤ 30 := by
  rw [ccmpAadNonce]
  split
  · exact Nat.zero_le 30
  · exact length_headerAad_le amsduMode _ _ _

theorem ccmpMicLen_le (key : ccmpMicLen keyLen = some mic) : mic ≤ 16 := by
  revert key
  fun_cases ccmpMicLen keyLen
  · rintro ⟨⟩
    decide
  · rintro ⟨⟩
    decide
  · exact nofun

@[simp]
theorem length_setIsWep (host : Endian) (mem : List Byte) :
    (setIsWep host mem).length = mem.length := by
  match mem with
  | [] => rfl
  | [_] => rfl
  | _ :: _ :: _ => cases host <;> rfl

theorem setIsWep_append {mem : List Byte} (long : 2 ≤ mem.length) (rest : List Byte) :
    setIsWep host (mem ++ rest) = setIsWep host mem ++ rest := by
  match mem, long with
  | _ :: _ :: _, _ => cases host <;> rfl

theorem or_eq_self_iff (b bits : Byte) : b ||| bits = b ↔ b &&& bits = bits := by
  constructor <;>
  · intro h
    rw [← h]
    apply UInt8.toBitVec_inj.mp
    ext i
    simp only [UInt8.toBitVec_or, UInt8.toBitVec_and, BitVec.getElem_or, BitVec.getElem_and]
    cases b.toBitVec[i] <;> cases bits.toBitVec[i] <;> rfl

theorem setIsWep_eq_self_iff (long : 2 ≤ hdr.length) :
    setIsWep host hdr = hdr ↔ isWepSet host hdr := by
  match hdr, long with
  | low :: high :: rest, _ =>
    cases host with
    | little =>
      change low :: (high ||| 0x40) :: rest = low :: high :: rest ↔ high &&& 0x40 = 0x40
      simp only [cons.injEq, true_and, and_true, or_eq_self_iff]
    | big =>
      change (low ||| 0x40) :: high :: rest = low :: high :: rest ↔ low &&& 0x40 = 0x40
      simp only [cons.injEq, and_true, or_eq_self_iff]

theorem aesCcm_frame (hdr data payload : List Byte) (fits : mic ≤ 16) :
    ∃ crypt tag,
      aesCcmAe aes (ccmpAadNonce amsduMode hdr data).2 mic payload
        (ccmpAadNonce amsduMode hdr data).1 = some (crypt, tag) ∧
      crypt.length = payload.length ∧ tag.length = mic ∧
      aesCcmAd aes (ccmpAadNonce amsduMode hdr data).2 mic crypt
        (ccmpAadNonce amsduMode hdr data).1 tag = some (true, payload) :=
  aesCcmAe_spec payload (length_ccmpAad_le hdr data) fits

theorem rtwCcmpEncrypt_eq (key : ccmpMicLen keyLen = some mic) {iv : List Byte}
    (header : 24 ≤ hdr.length) (number : iv.length = 8) (payload room : List Byte)
    (given : malloc (hdr.length + 8 + payload.length + mic + 16) = true) :
    ∃ crypt tag, crypt.length = payload.length ∧ tag.length = mic ∧
      aesCcmAd aes (ccmpAadNonce amsduMode (setIsWep host hdr ++ iv) iv).2 mic crypt
        (ccmpAadNonce amsduMode (setIsWep host hdr ++ iv) iv).1 tag = some (true, payload) ∧
      rtwCcmpEncrypt host malloc amsduMode aes keyLen hdr.length
          (hdr ++ (iv ++ (payload ++ room))) payload.length =
        (.success, setIsWep host hdr ++ (iv ++ (crypt ++ (tag ++ room.drop mic)))) := by
  obtain ⟨crypt, tag, encrypts, cryptLen, tagLen, decrypts⟩ :=
    aesCcm_frame (setIsWep host hdr ++ iv) iv payload (ccmpMicLen_le key)
  refine ⟨crypt, tag, cryptLen, tagLen, decrypts, ?_⟩
  have accepts : ¬ (hdr.length + payload.length < hdr.length ∨ hdr.length < 24) := by omega
  have rest : hdr.length + payload.length - hdr.length = payload.length := by omega
  -- what `ccmp_encrypt_inner` takes out of the buffer: header and packet number, and the payload
  have front : (hdr ++ (iv ++ (payload ++ room))).take (hdr.length + 8) = hdr ++ iv := by
    rw [← number, ← length_append, ← append_assoc, take_left]
  have text : slice (hdr ++ (iv ++ (payload ++ room))) (hdr.length + 8) payload.length =
      payload := by
    rw [← append_assoc]
    exact slice_middle _ payload room (by rw [length_append, number])
  have marked : setIsWep host (hdr ++ iv) = setIsWep host hdr ++ iv :=
    setIsWep_append (by omega) iv
  have behind : slice (setIsWep host hdr ++ iv) hdr.length 8 = iv := by
    rw [← length_setIsWep host hdr]
    exact slice_right _ iv number
  have sent : ccmpEncryptInner host malloc amsduMode aes (hdr ++ (iv ++ (payload ++ room)))
      (hdr.length + payload.length) hdr.length none 0 mic =
        some (setIsWep host hdr ++ iv ++ crypt ++ tag) := by
    rw [ccmpEncryptInner, if_neg accepts, rest, given, if_neg nofun]
    simp only [openFrame, front, text, marked, behind, encrypts, Option.map_some]
  -- the MIC is written over the room behind the payload
  have left : (hdr ++ (iv ++ (payload ++ room))).drop
      (setIsWep host hdr ++ iv ++ crypt ++ tag).length = room.drop mic := by
    rw [length_append, length_append, length_append, length_setIsWep, cryptLen,
      tagLen, ← drop_drop, ← drop_drop, ← drop_drop, drop_left,
      drop_left, drop_left]
  simp only [rtwCcmpEncrypt, key, sent, left]
  simp only [append_assoc]

theorem rtwCcmpDecrypt_eq (key : ccmpMicLen keyLen = some mic) {iv crypt tag payload : List Byte}
    (behind : List Byte) (header : 24 ≤ hdr.length) (number : iv.length = 8)
    (whole : tag.length = mic) (length : crypt.length = payload.length)
    (given : malloc (8 + payload.length + mic + 16) = true)
    (decrypts : aesCcmAd aes (ccmpAadNonce amsduMode (hdr ++ iv) iv).2 mic crypt
      (ccmpAadNonce amsduMode (hdr ++ iv) iv).1 tag = some (true, payload)) :
    rtwCcmpDecrypt malloc amsduMode aes keyLen hdr.length
        (hdr ++ (iv ++ (crypt ++ (tag ++ behind)))) (hdr.length + 8 + payload.length + mic) =
      (.success, hdr ++ (iv ++ (payload ++ (tag ++ behind)))) := by
  have long : ¬ hdr.length + 8 + payload.length + mic < hdr.length := by omega
  have size : hdr.length + 8 + payload.length + mic - hdr.length =
      (iv ++ (crypt ++ tag)).length := by
    simp only [length_append]
    omega
  -- the data that is passed on ends with the MIC, whatever lies behind it
  have data : slice (hdr ++ (iv ++ (crypt ++ (tag ++ behind)))) hdr.length
      (iv ++ (crypt ++ tag)).length = iv ++ (crypt ++ tag) := by
    rw [show iv ++ (crypt ++ (tag ++ behind)) = iv ++ (crypt ++ tag) ++ behind by
      simp only [append_assoc]]
    exact slice_middle hdr _ behind rfl
  -- both sides authenticate the same bytes: nothing behind the packet number is read for that
  have aadNonce : ccmpAadNonce amsduMode (hdr ++ (iv ++ (crypt ++ (tag ++ behind))))
      (iv ++ (crypt ++ tag)) = ccmpAadNonce amsduMode (hdr ++ iv) iv := by
    rw [← append_assoc hdr]
    exact ccmpAadNonce_append _ _ (by rw [length_append]; omega) number.ge
  have lengths : (iv ++ (crypt ++ tag)).length = 8 + crypt.length + mic := by
    simp only [length_append]
    omega
  have received : ccmpDecryptInner malloc amsduMode aes (hdr ++ (iv ++ (crypt ++ (tag ++ behind))))
      (iv ++ (crypt ++ tag)) mic = some (payload, payload.length) := by
    have enough : ¬ (iv ++ (crypt ++ tag)).length < 8 + mic := by omega
    have mlen : (iv ++ (crypt ++ tag)).length - 8 - mic = crypt.length := by omega
    have text : slice (iv ++ (crypt ++ tag)) 8 crypt.length = crypt :=
      slice_middle iv crypt tag number
    have mac : (iv ++ (crypt ++ tag)).drop (8 + crypt.length) = tag := by
      rw [← number, ← drop_drop, drop_left, drop_left]
    rw [ccmpDecryptInner, if_neg enough, lengths, length, given, if_neg nofun, ← length]
    simp only [← lengths, mlen, text, mac, aadNonce, decrypts]
  have front : (hdr ++ (iv ++ (crypt ++ (tag ++ behind)))).take (hdr.length + 8) = hdr ++ iv := by
    rw [← number, ← length_append, ← append_assoc, take_left]
  have left : (hdr ++ (iv ++ (crypt ++ (tag ++ behind)))).drop
      (hdr.length + 8 + payload.length) = tag ++ behind := by
    rw [← number, ← length, ← drop_drop, ← drop_drop, drop_left, drop_left,
      drop_left]
  rw [rtwCcmpDecrypt, if_neg long, size, data]
  simp only [key, received, front, left, take_length, append_assoc]

theorem rtwCcmpDecrypt_fail {hdrlen plen : ℕ} {mem : List Byte}
    (failed : (rtwCcmpDecrypt malloc amsduMode aes keyLen hdrlen mem plen).1 = .fail) :
    (rtwCcmpDecrypt malloc amsduMode aes keyLen hdrlen mem plen).2 = mem := by
  revert failed
  fun_cases rtwCcmpDecrypt malloc amsduMode aes keyLen hdrlen mem plen
  iterate 3 exact fun _ => rfl
  exact nofun

end

/-- Header, packet number and payload are in memory, with room for the MIC behind them. -/
def CcmpRestores (keyLen mic : ℕ) (hdr iv payload room : List Byte) : Prop :=
  ∃ sent received,
    rtwCcmpEncrypt host malloc amsduMode aes keyLen hdr.length (hdr ++ (iv ++ (payload ++ room)))
      payload.length = (.success, sent) ∧
    rtwCcmpDecrypt malloc amsduMode aes keyLen hdr.length sent
      (hdr.length + 8 + payload.length + mic) = (.success, received) ∧
    received.take hdr.length = hdr ∧
    slice received (hdr.length + 8) payload.length = payload

/-- The payload is restored whenever the buffers are there, and the header exactly if it had the bit
already that the transmitter sets. A failed decryption leaves the frame as it was. -/
theorem ccmp_restores_iff (keyLen mic : ℕ) (key : ccmpMicLen keyLen = some mic)
    (hdr iv payload room : List Byte) (header : 24 ≤ hdr.length) (number : iv.length = 8)
    (sends_in : malloc (hdr.length + 8 + payload.length + mic + 16) = true)
    (receives_in : malloc (8 + payload.length + mic + 16) = true) :
    (CcmpRestores host malloc amsduMode aes keyLen mic hdr iv payload room ↔ isWepSet host hdr) ∧
    ∀ malloc keyLen hdrlen mem plen,
      (rtwCcmpDecrypt malloc amsduMode aes keyLen hdrlen mem plen).1 = .fail →
        (rtwCcmpDecrypt malloc amsduMode aes keyLen hdrlen mem plen).2 = mem := by
  refine ⟨?_, fun _ _ _ _ _ => rtwCcmpDecrypt_fail⟩
  obtain ⟨crypt, tag, length, whole, decrypts, sends⟩ :
      ∃ crypt tag, _ ∧ _ ∧ _ ∧ rtwCcmpEncrypt host malloc amsduMode aes _ _ _ _ = _ :=
    rtwCcmpEncrypt_eq key header number payload room sends_in
  have receives := rtwCcmpDecrypt_eq key (room.drop mic)
    ((length_setIsWep host hdr).symm ▸ header) number whole length receives_in decrypts
  rw [length_setIsWep] at receives
  have kept (rest : List Byte) :
      (setIsWep host hdr ++ rest).take hdr.length = setIsWep host hdr := by
    rw [← length_setIsWep host hdr, take_left]
  -- the header that comes back is the one with the bit set
  rw [← setIsWep_eq_self_iff (by omega)]
  constructor
  · rintro ⟨sent, received, sends', receives', restored, -⟩
    cases sends.symm.trans sends'
    cases receives.symm.trans receives'
    exact (kept _).symm.trans restored
  · intro same
    refine ⟨_, _, sends, receives, (kept _).trans same, ?_⟩
    rw [← append_assoc]
    refine slice_middle _ payload _ ?_
    rw [length_append, length_setIsWep, number]

theorem ccmp_restores_protected :
    CcmpRestores .little (fun size => decide (size ≤ 64)) 0 id 16 8
      ([0x08, 0x41] ++ List.replicate 22 1) (List.replicate 8 2) [1, 2, 3] (List.replicate 8 0) :=
  (ccmp_restores_iff .little (fun size => decide (size ≤ 64)) 0 id 16 8 rfl
    ([0x08, 0x41] ++ List.replicate 22 1) (List.replicate 8 2) [1, 2, 3] (List.replicate 8 0)
    (by decide) (by decide) (by decide) (by decide)).1.mpr rfl

theorem big_endian_header_not_restored :
    (rtwCcmpDecrypt (fun _ => true) 0 id 16 24
      (rtwCcmpEncrypt .big (fun _ => true) 0 id 16 24
        ([0x08, 0x41] ++ List.replicate 22 1 ++ List.replicate 8 2 ++ [1, 2, 3] ++
          List.replicate 8 0) 3).2 43).map id (List.take 35) =
      (.success, [0x48, 0x41] ++ List.replicate 22 1 ++ List.replicate 8 2 ++ [1, 2, 3]) := by
  decide +kernel

end Rtl88x2bu.Crypto
