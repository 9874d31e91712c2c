import Rtl88x2bu.Crypto.Ccmp
import Rtl88x2bu.Crypto.Gcm

/-!
# BIP

The BIP branch of `rtw_mgmt_xmitframe_coalesce` and `rtw_bip_verify`, with `rtw_calculate_bip_mic`.
The two MACs are any functions: `omac1_aes_128` and `omac1_aes_256` of the key and the data, GMAC of
any block cipher. Allocations succeed.
-/

namespace Rtl88x2bu.Crypto

open List

inductive BipCipher
  | cmac128
  | cmac256
  | gmac128
  | gmac256
  | other
deriving DecidableEq, Repr

variable (gmcs : BipCipher)

structure Macs where
  omac1Aes : List Byte → List Byte → Block
  aes : List Byte → BlockCipher

variable (macs : Macs)

/-- `_bip_gcmp_protect`: GMAC with the transmitter address and the IPN before the MIC as nonce. -/
def bipGcmpProtect (whdr : List Byte) (len : ℕ) (key data : List Byte) : List Byte :=
  let ipn := len - 16 - 6
  aesGmac (macs.aes key)
    (slice whdr 10 6 ++ [byteAt whdr (ipn + 5), byteAt whdr (ipn + 4), byteAt whdr (ipn + 3),
      byteAt whdr (ipn + 2), byteAt whdr (ipn + 1), byteAt whdr ipn]) data

def rtwCalculateBipMic (gmcs : BipCipher) (whdr : List Byte) (len : ℕ) (key data : List Byte) :
    Option (List Byte) :=
  match gmcs with
  | .cmac128 => some (macs.omac1Aes (key.take 16) data).toList
  | .cmac256 => some (macs.omac1Aes (key.take 32) data).toList
  | .gmac128 => some (bipGcmpProtect macs whdr len (key.take 16) data)
  | .gmac256 => some (bipGcmpProtect macs whdr len (key.take 32) data)
  | .other => none

/-- The first 20 bytes of `BIP_AAD`: the masked frame control and the three addresses. -/
def bipAad (whdr : List Byte) : List Byte :=
  [byteAt whdr 0, byteAt whdr 1 &&& ~~~0x08 &&& ~~~0x10 &&& ~~~0x20] ++ slice whdr 4 18

def putLe64 (val : ℕ) : List Byte :=
  [UInt8.ofNat val, UInt8.ofNat (val / 2 ^ 8), UInt8.ofNat (val / 2 ^ 16),
    UInt8.ofNat (val / 2 ^ 24), UInt8.ofNat (val / 2 ^ 32), UInt8.ofNat (val / 2 ^ 40),
    UInt8.ofNat (val / 2 ^ 48), UInt8.ofNat (val / 2 ^ 56)]

def getLe : List Byte → ℕ
  | [] => 0
  | byte :: bytes => byte.toNat + 256 * getLe bytes

/-- `mme_cont`: the key id, the IPN as eight bytes from the third on, and zeros. -/
def mmeCont (keyid txpn : ℕ) : List Byte :=
  UInt8.ofNat keyid :: 0 :: putLe64 txpn ++ List.replicate 14 0

def rtwSetIe (index : Byte) (len : ℕ) (source : List Byte) : List Byte :=
  index :: UInt8.ofNat len :: source.take len

structure BipTxState where
  dot11wCipher : BipCipher
  dot11wBIPKeyid : ℕ
  dot11wBIPKey : ℕ → List Byte
  dot11wBIPtxpn : ℕ

def mmeClen : ℕ :=
  if gmcs = .cmac128 then 16 else 24

def bipMicLen : ℕ :=
  if gmcs = .cmac128 then 8 else 16

/-- The BIP branch of `rtw_mgmt_xmitframe_coalesce`. The next IPN is used up in any case. -/
def bipTransmit (sec : BipTxState) (frame : List Byte) : Option (List Byte) × BipTxState :=
  let sec := { sec with dot11wBIPtxpn := (sec.dot11wBIPtxpn + 1) % 2 ^ 64 }
  let frame := frame ++
    rtwSetIe 76 (mmeClen sec.dot11wCipher) (mmeCont sec.dot11wBIPKeyid sec.dot11wBIPtxpn)
  let data := bipAad frame ++ slice frame 24 (frame.length - 24)
  let mic := rtwCalculateBipMic macs sec.dot11wCipher frame frame.length
    (sec.dot11wBIPKey sec.dot11wBIPKeyid) data
  let micLen := bipMicLen sec.dot11wCipher
  (mic.map fun mic => frame.take (frame.length - micLen) ++ mic.take micLen, sec)

/-- What `rtw_bip_verify` returns: `RTW_RX_HANDLED`, `_FAIL`, or `_SUCCESS` with the new `*ipn`. -/
inductive BipResult
  | handled
  | fail
  | success (ipn : ℕ)
deriving DecidableEq, Repr

def rtwBipVerify (gmcs : BipCipher) (pktLen : ℕ) (whdr : List Byte) (flen : ℕ) (key : List Byte)
    (keyid : UInt16) (ipn : ℕ) : BipResult :=
  let micLen := bipMicLen gmcs
  if flen < 24 ∨ flen - 24 < micLen then .handled
  else
    let mme := flen - if micLen = 8 then 18 else 26
    if byteAt whdr mme ≠ 76 then .handled
    else if getLe16 whdr (mme + 2) ≠ keyid then .fail
    else
      let pktIpn := getLe (slice whdr (mme + 4) 6)
      if pktIpn ≤ ipn then .fail
      else
        -- the buffer comes zeroed, so the place of the MIC is zero
        let data := bipAad whdr ++ slice whdr 24 (flen - 24 - micLen) ++ List.replicate micLen 0
        match rtwCalculateBipMic macs gmcs whdr pktLen key data with
        | none => .fail
        | some mic =>
          if mic.take micLen = slice whdr (flen - micLen) micLen then .success pktIpn else .fail

def mmeHead (keyid txpn : ℕ) : List Byte :=
  [76, UInt8.ofNat (mmeClen gmcs), UInt8.ofNat keyid, 0] ++ (putLe64 txpn).take 6

section

variable {macs : Macs} {gmcs : BipCipher} {keyid txpn : ℕ}

theorem getLe_putLe64 (small : txpn < 2 ^ 48) : getLe ((putLe64 txpn).take 6) = txpn := by
  simp only [putLe64, take_succ_cons, take_zero, getLe, UInt8.toNat_ofNat']
  omega

theorem putLe64_eq (small : txpn < 2 ^ 48) : putLe64 txpn = (putLe64 txpn).take 6 ++ [0, 0] := by
  have first : txpn / 2 ^ 48 = 0 := Nat.div_eq_of_lt small
  have second : txpn / 2 ^ 56 = 0 := Nat.div_eq_of_lt (by omega)
  simp only [putLe64, first, second]
  rfl

theorem rtwSetIe_mme (small : txpn < 2 ^ 48) :
    rtwSetIe 76 (mmeClen gmcs) (mmeCont keyid txpn) =
      mmeHead gmcs keyid txpn ++ List.replicate (bipMicLen gmcs) 0 := by
  rw [mmeCont, putLe64_eq small]
  cases gmcs <;> rfl

@[simp]
theorem length_mmeHead : (mmeHead gmcs keyid txpn).length = 10 := rfl

theorem bipAad_append {whdr : List Byte} (header : 24 ≤ whdr.length) (rest : List Byte) :
    bipAad (whdr ++ rest) = bipAad whdr := by
  rw [bipAad, byteAt_append (by omega), byteAt_append (by omega), slice_append (by omega), bipAad]

theorem rtwCalculateBipMic_append {whdr : List Byte} (header : 24 ≤ whdr.length)
    (rest key data : List Byte) :
    rtwCalculateBipMic macs gmcs (whdr ++ rest) (whdr.length + bipMicLen gmcs) key data =
      rtwCalculateBipMic macs gmcs whdr (whdr.length + bipMicLen gmcs) key data := by
  have protect (key : List Byte) : bipGcmpProtect macs (whdr ++ rest) (whdr.length + 16) key data =
      bipGcmpProtect macs whdr (whdr.length + 16) key data := by
    simp only [bipGcmpProtect, Nat.add_sub_cancel]
    rw [slice_append (by omega), byteAt_append (by omega), byteAt_append (by omega),
      byteAt_append (by omega), byteAt_append (by omega), byteAt_append (by omega),
      byteAt_append (by omega)]
  cases gmcs with
  | cmac128 => rfl
  | cmac256 => rfl
  | gmac128 => exact congrArg some (protect _)
  | gmac256 => exact congrArg some (protect _)
  | other => rfl

theorem length_of_rtwCalculateBipMic {whdr key data mic : List Byte} {len : ℕ}
    (computed : rtwCalculateBipMic macs gmcs whdr len key data = some mic) : mic.length = 16 := by
  cases gmcs with
  | cmac128 =>
    cases computed
    exact Vector.length_toList
  | cmac256 =>
    cases computed
    exact Vector.length_toList
  | gmac128 =>
    cases computed
    exact length_gcmTag _ _ _
  | gmac256 =>
    cases computed
    exact length_gcmTag _ _ _
  | other => cases computed

theorem bipMicLen_le : bipMicLen gmcs ≤ 16 := by
  cases gmcs <;> decide

/-- What both sides authenticate: the masked header, the body and the MME with a MIC of zeros. -/
def bipData (gmcs : BipCipher) (frame head : List Byte) : List Byte :=
  bipAad frame ++ (frame.drop 24 ++ head) ++ List.replicate (bipMicLen gmcs) 0

variable (macs) in
theorem bipTransmit_eq {sec : BipTxState} {frame head : List Byte} (header : 24 ≤ frame.length)
    (small : sec.dot11wBIPtxpn + 1 < 2 ^ 48)
    (element : head = mmeHead sec.dot11wCipher sec.dot11wBIPKeyid (sec.dot11wBIPtxpn + 1)) :
    bipTransmit macs sec frame =
      ((rtwCalculateBipMic macs sec.dot11wCipher (frame ++ head)
          ((frame ++ head).length + bipMicLen sec.dot11wCipher)
          (sec.dot11wBIPKey sec.dot11wBIPKeyid) (bipData sec.dot11wCipher frame head)).map
        fun mic => frame ++ (head ++ mic.take (bipMicLen sec.dot11wCipher)),
        { sec with dot11wBIPtxpn := sec.dot11wBIPtxpn + 1 }) := by
  have next : (sec.dot11wBIPtxpn + 1) % 2 ^ 64 = sec.dot11wBIPtxpn + 1 :=
    Nat.mod_eq_of_lt (by omega)
  obtain ⟨zeros, zeros_eq⟩ : ∃ zeros : List Byte,
    List.replicate (bipMicLen sec.dot11wCipher) 0 = zeros := ⟨_, rfl⟩
  have appended : rtwSetIe 76 (mmeClen sec.dot11wCipher)
      (mmeCont sec.dot11wBIPKeyid (sec.dot11wBIPtxpn + 1)) = head ++ zeros := by
    rw [rtwSetIe_mme small, element, zeros_eq]
  have micLen : zeros.length = bipMicLen sec.dot11wCipher := by
    rw [← zeros_eq, length_replicate]
  have long : 24 ≤ (frame ++ head).length := by
    rw [length_append]
    omega
  have whole : (frame ++ (head ++ zeros)).length =
      (frame ++ head).length + bipMicLen sec.dot11wCipher := by
    rw [← append_assoc, length_append, micLen]
  have body : slice (frame ++ (head ++ zeros)) 24 ((frame ++ (head ++ zeros)).length - 24) =
      frame.drop 24 ++ (head ++ zeros) := by
    rw [slice, drop_append_of_le_length header]
    refine take_of_length_le ?_
    simp only [length_append, length_drop]
    omega
  have front : (frame ++ (head ++ zeros)).take
      ((frame ++ (head ++ zeros)).length - bipMicLen sec.dot11wCipher) = frame ++ head := by
    rw [whole, Nat.add_sub_cancel, ← append_assoc, take_left]
  simp only [bipTransmit, next, appended, body, front, bipAad_append header]
  rw [whole, ← append_assoc frame, rtwCalculateBipMic_append long, bipData, zeros_eq]
  simp only [append_assoc]

theorem getLe16_mme (front back : List Byte) (small : keyid < 256) :
    getLe16 (front ++ (mmeHead gmcs keyid txpn ++ back)) (front.length + 2) =
      UInt16.ofNat keyid := by
  rw [getLe16_add]
  change (UInt8.ofNat keyid).toUInt16 ||| ((0 : Byte).toUInt16 <<< 8) = UInt16.ofNat keyid
  apply UInt16.toNat_inj.mp
  simp
  omega

theorem rtwBipVerify_eq {frame head sent key mic : List Byte} {ipn : ℕ}
    (header : 24 ≤ frame.length) (keyid_small : keyid < 256) (small : txpn < 2 ^ 48)
    (newer : ipn < txpn) (element : head = mmeHead gmcs keyid txpn)
    (computed : rtwCalculateBipMic macs gmcs (frame ++ head)
      ((frame ++ head).length + bipMicLen gmcs) key (bipData gmcs frame head) = some mic)
    (composed : frame ++ (head ++ mic.take (bipMicLen gmcs)) = sent) :
    rtwBipVerify macs gmcs sent.length sent sent.length key (UInt16.ofNat keyid) ipn =
      .success txpn := by
  have size : (mic.take (bipMicLen gmcs)).length = bipMicLen gmcs := by
    rw [length_take, length_of_rtwCalculateBipMic computed]
    exact Nat.min_eq_left bipMicLen_le
  have headLen : (frame ++ head).length = frame.length + 10 := by
    rw [length_append, element, length_mmeHead]
  have whole : sent.length = (frame ++ head).length + bipMicLen gmcs := by
    rw [← composed, ← append_assoc, length_append, size]
  have long : ¬ (sent.length < 24 ∨ sent.length - 24 < bipMicLen gmcs) := by omega
  -- the receiver looks for the element at a fixed distance from the end, by the length of the MIC
  have mme : (sent.length - if bipMicLen gmcs = 8 then 18 else 26) = frame.length := by
    have offset : (if bipMicLen gmcs = 8 then 18 else 26) = 10 + bipMicLen gmcs := by
      cases gmcs <;> rfl
    omega
  have first : byteAt sent frame.length = 76 := by
    rw [← composed, element]
    exact byteAt_right frame _ 0
  have number : getLe16 sent (frame.length + 2) = UInt16.ofNat keyid := by
    rw [← composed, element]
    exact getLe16_mme frame _ keyid_small
  have received : getLe (slice sent (frame.length + 4) 6) = txpn := by
    rw [← composed, element, slice_add]
    exact getLe_putLe64 small
  have replay : ¬ txpn ≤ ipn := by omega
  have body : slice sent 24 (sent.length - 24 - bipMicLen gmcs) = frame.drop 24 ++ head := by
    have rest : sent.length - 24 - bipMicLen gmcs = (frame.drop 24 ++ head).length := by
      have parts : (frame ++ head).length = frame.length + head.length := length_append
      rw [length_append, length_drop]
      omega
    rw [rest, slice, ← composed, drop_append_of_le_length header, ← append_assoc,
      take_left]
  -- it computes the MIC over the frame with the MIC field zeroed, as the transmitter did
  have data : bipAad sent ++ (frame.drop 24 ++ head) ++ List.replicate (bipMicLen gmcs) 0 =
      bipData gmcs frame head := by
    rw [← composed, bipAad_append header, bipData]
  have mac : rtwCalculateBipMic macs gmcs sent sent.length key (bipData gmcs frame head) =
      some mic := by
    rw [whole, ← computed, ← composed, ← append_assoc]
    exact rtwCalculateBipMic_append (by omega) _ _ _
  have tag : slice sent (sent.length - bipMicLen gmcs) (bipMicLen gmcs) =
      mic.take (bipMicLen gmcs) := by
    rw [whole, Nat.add_sub_cancel, ← composed, ← append_assoc]
    exact slice_right _ _ size
  simp only [rtwBipVerify, if_neg long, mme, first, number, received, replay, body, data, mac, tag,
    ne_eq, not_true_eq_false, if_false, if_true]

theorem byteAt_cons_cons {i : ℕ} (a b c : Byte) (rest : List Byte) (behind : 2 ≤ i) :
    byteAt (a :: b :: rest) i = byteAt (a :: c :: rest) i := by
  obtain ⟨i, rfl⟩ := Nat.exists_eq_add_of_le' behind
  rfl

theorem slice_cons_cons {off : ℕ} (a b c : Byte) (rest : List Byte) (len : ℕ) (behind : 2 ≤ off) :
    slice (a :: b :: rest) off len = slice (a :: c :: rest) off len := by
  obtain ⟨off, rfl⟩ := Nat.exists_eq_add_of_le' behind
  rfl

theorem rtwCalculateBipMic_cons_cons (a b c : Byte) {rest : List Byte} (header : 22 ≤ rest.length)
    (key data : List Byte) :
    rtwCalculateBipMic macs gmcs (a :: b :: rest) ((a :: b :: rest).length + bipMicLen gmcs) key
        data =
      rtwCalculateBipMic macs gmcs (a :: c :: rest) ((a :: c :: rest).length + bipMicLen gmcs) key
        data := by
  have protect (key : List Byte) :
      bipGcmpProtect macs (a :: b :: rest) (rest.length + 2 + 16) key data =
        bipGcmpProtect macs (a :: c :: rest) (rest.length + 2 + 16) key data := by
    simp only [bipGcmpProtect, Nat.add_sub_cancel]
    rw [slice_cons_cons a b c rest 6 (by omega), byteAt_cons_cons a b c rest (by omega),
      byteAt_cons_cons a b c rest (by omega), byteAt_cons_cons a b c rest (by omega),
      byteAt_cons_cons a b c rest (by omega), byteAt_cons_cons a b c rest (by omega),
      byteAt_cons_cons a b c rest (by omega)]
  cases gmcs with
  | cmac128 => rfl
  | cmac256 => rfl
  | gmac128 => exact congrArg some (protect _)
  | gmac256 => exact congrArg some (protect _)
  | other => rfl

theorem bipData_cons_cons (a b c : Byte) (rest head : List Byte)
    (masked : b &&& ~~~0x38 = c &&& ~~~0x38) :
    bipData gmcs (a :: b :: rest) head = bipData gmcs (a :: c :: rest) head := by
  have bits (x : Byte) : x &&& ~~~0x08 &&& ~~~0x10 &&& ~~~0x20 = x &&& ~~~0x38 := by
    rw [UInt8.and_assoc, UInt8.and_assoc]
    rfl
  rw [bipData, bipAad, bits, slice_cons_cons a b c rest 18 (by omega)]
  change _ = [a, c &&& ~~~0x08 &&& ~~~0x10 &&& ~~~0x20] ++ _ ++ _ ++ _
  rw [bits, ← masked]
  rfl

end

/-- Every frame that the BIP branch sends is accepted by a receiver with the same key whose IPN is
smaller, also if the retry, power management and more data bits change on the way. -/
theorem bip_frame_accepted (macs : Macs) (sec : BipTxState) (frame : List Byte) (fc : Byte)
    (ipn : ℕ) (cipher : sec.dot11wCipher ≠ .other) (keyid : sec.dot11wBIPKeyid < 6)
    (header : 24 ≤ frame.length) (small : sec.dot11wBIPtxpn + 1 < 2 ^ 48)
    (newer : ipn < sec.dot11wBIPtxpn + 1)
    (transit : byteAt frame 1 &&& ~~~0x38 = fc &&& ~~~0x38) :
    ∃ sent, (bipTransmit macs sec frame).1 = some sent ∧
      rtwBipVerify macs sec.dot11wCipher sent.length (sent.set 1 fc) sent.length
        (sec.dot11wBIPKey sec.dot11wBIPKeyid) (UInt16.ofNat sec.dot11wBIPKeyid) ipn =
        .success (sec.dot11wBIPtxpn + 1) := by
  obtain ⟨head, element⟩ : ∃ head,
    head = mmeHead sec.dot11wCipher sec.dot11wBIPKeyid (sec.dot11wBIPtxpn + 1) := ⟨_, rfl⟩
  have sends := bipTransmit_eq macs header small element
  obtain ⟨mic, computed⟩ : ∃ mic, rtwCalculateBipMic macs sec.dot11wCipher (frame ++ head)
      ((frame ++ head).length + bipMicLen sec.dot11wCipher)
      (sec.dot11wBIPKey sec.dot11wBIPKeyid) (bipData sec.dot11wCipher frame head) = some mic := by
    cases kind : sec.dot11wCipher with
    | other => exact absurd kind cipher
    | cmac128 | cmac256 | gmac128 | gmac256 => exact ⟨_, rfl⟩
  rw [computed, Option.map_some] at sends
  refine ⟨_, congrArg Prod.fst sends, ?_⟩
  -- the second byte may have changed on the way: the MIC is that of the frame as it arrives
  match frame, header, transit with
  | a :: b :: rest, header, transit =>
    have computed' : rtwCalculateBipMic macs sec.dot11wCipher (a :: fc :: rest ++ head)
        ((a :: fc :: rest ++ head).length + bipMicLen sec.dot11wCipher)
        (sec.dot11wBIPKey sec.dot11wBIPKeyid) (bipData sec.dot11wCipher (a :: fc :: rest) head) =
          some mic := by
      rw [← computed, bipData_cons_cons a b fc rest head transit]
      refine rtwCalculateBipMic_cons_cons a fc b ?_ _ _
      change 22 ≤ (rest ++ head).length
      rw [length_cons, length_cons] at header
      rw [length_append]
      omega
    have accepted := rtwBipVerify_eq (show 24 ≤ (a :: fc :: rest).length from header) (by omega)
      small newer element computed' rfl
    exact accepted

theorem bip_deauth_accepted :
    ∃ sent,
      (bipTransmit ⟨fun _ _ => Vector.replicate 16 9, fun _ => id⟩ ⟨.gmac128, 4, fun _ => [], 7⟩
        (0xc0 :: 0x00 :: List.replicate 24 1)).1 = some sent ∧
      rtwBipVerify ⟨fun _ _ => Vector.replicate 16 9, fun _ => id⟩ .gmac128 sent.length
        (sent.set 1 0x08) sent.length [] (UInt16.ofNat 4) 3 = .success 8 :=
  bip_frame_accepted _ ⟨.gmac128, 4, fun _ => [], 7⟩ (0xc0 :: 0x00 :: List.replicate 24 1) 0x08 3
    (by decide) (by decide) (by decide) (by decide) (by decide) (by decide)

end Rtl88x2bu.Crypto
