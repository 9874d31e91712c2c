import Rtl88x2bu.Rx.Station

/-!
# Decryption

`decryptor` and `recvframe_chkmic` of `core/rtw_recv.c` with the per-cipher functions they call
(`rust/rtw_security.rs`, `rust/rtw_security_rest.rs`, `rust/rtw_swcrypto.rs`). The ciphers
themselves are parameters: nothing below depends on what they compute.
-/

namespace Rtl88x2bu.Rx

variable (precvframe : RecvFrame)
  (authDecrypt : List UInt8 → List UInt8 → List UInt8 → Option (List UInt8))

variable {cr : Crypto} {sec : SecurityPriv} {stations : StaTable} {f : RecvFrame}

/-- The cryptographic primitives, as functions of the octets they are given. `none` is the null
pointer or error code of a primitive that rejects its input. -/
structure Crypto where
  -- `rtw_seccalctkipmic`: key, header, data and priority
  seccalctkipmic : List UInt8 → List UInt8 → List UInt8 → BitVec 8 → List UInt8
  -- `arcfour_init` and `arcfour_encrypt`: key and data
  arcfour : List UInt8 → List UInt8 → List UInt8
  -- `phase1_inner` and `phase2_inner`: temporal key, transmitter and IV to the RC4 key
  tkipMix : List UInt8 → MacAddr → List UInt8 → List UInt8
  -- `getcrc32`, in the octet order of the ICV
  getcrc32 : List UInt8 → List UInt8
  -- `ccmp_decrypt` and `ccmp_256_decrypt`: key, MAC header and the octets after it
  ccmpDecrypt : List UInt8 → List UInt8 → List UInt8 → Option (List UInt8)
  -- `gcmp_decrypt`: key, MAC header and the octets after it
  gcmpDecrypt : List UInt8 → List UInt8 → List UInt8 → Option (List UInt8)
  -- `omac1_aes_128` and `omac1_aes_256`: key and data
  omac1Aes : List UInt8 → List UInt8 → Option (List UInt8)
  -- `aes_gmac`: key, nonce and data
  aesGmac : List UInt8 → List UInt8 → List UInt8 → Option (List UInt8)

def memcpyAt (buf : List UInt8) (offset : ℕ) (src : List UInt8) : List UInt8 :=
  buf.take offset ++ src ++ buf.drop (offset + src.length)

/-! ## Moving the ends of a frame -/

def recvframePull (sz : ℕ) : RecvFrame :=
  if precvframe.rxData.length < sz then precvframe
  else { precvframe with
    headroom := precvframe.headroom + sz
    rxData := precvframe.rxData.drop sz }

def recvframePullTail (sz : ℕ) : RecvFrame :=
  if precvframe.rxData.length < sz then precvframe
  else { precvframe with
    rxData := precvframe.rxData.take (precvframe.rxData.length - sz)
    tailroom := precvframe.tailroom + sz }

/-- `_rtw_memcpy` to `rx_tail` and `recvframe_put`, which does nothing when it would cross
`rx_end`. -/
def recvframePut (data : List UInt8) : RecvFrame :=
  if precvframe.tailroom < data.length then precvframe
  else { precvframe with
    rxData := precvframe.rxData ++ data
    tailroom := precvframe.tailroom - data.length }

/-! ## Keys -/

section

variable (cr sec stations f)

/-- The group key that the IV names, or the pairwise key. `matchKeyid`: only the installed group
key. -/
def decryptKey (matchKeyid : Bool) (f : RecvFrame) : Option (List UInt8) :=
  match rtwGetStainfo stations f.attrib.ta with
  | none => none
  | some stainfo =>
    if isMcast f.attrib.ra then
      if !sec.binstallGrpkey then none
      else if matchKeyid && sec.dot118021XGrpKeyid != f.attrib.keyIndex.setWidth 32 then none
      else some (sec.dot118021XGrpKey f.attrib.keyIndex)
    else some stainfo.dot118021xUncstKey

/-! ## One function per cipher -/

/-- `rtw_wep_decrypt`, which reports no status: the ICV is computed and not compared. -/
def rtwWepDecrypt : RecvFrame :=
  let payload := f.attrib.hdrlen + f.attrib.ivLen
  if f.rxData.length < payload + 4 then f
  else
    let wepkey := (f.rxData.drop f.attrib.hdrlen).take 3 ++ sec.dot11DefKey f.attrib.keyIndex
    { f with rxData := memcpyAt f.rxData payload (cr.arcfour wepkey (f.rxData.drop payload)) }

/-- `rtw_tkip_decrypt`: only the ICV is checked here. -/
def rtwTkipDecrypt : Status × RecvFrame :=
  match decryptKey sec stations false f with
  | none => (.fail, f)
  | some prwskey =>
    let payload := f.attrib.hdrlen + f.attrib.ivLen
    if f.rxData.length < payload + 4 then (.fail, f)
    else
      let iv := (f.rxData.drop f.attrib.hdrlen).take 8
      let rc4key := cr.tkipMix (prwskey.take 16) f.attrib.ta iv
      let plain := cr.arcfour rc4key (f.rxData.drop payload)
      let f := { f with rxData := memcpyAt f.rxData payload plain }
      if cr.getcrc32 (plain.take (plain.length - 4)) = plain.drop (plain.length - 4) then
        (.success, f)
      else (.fail, f)

/-- `_rtw_ccmp_decrypt` and `_rtw_gcmp_decrypt`: the plain text goes where the cipher text was. -/
def aeadDecrypt (prwskey : List UInt8) (f : RecvFrame) : Status × RecvFrame :=
  if f.rxData.length < f.attrib.hdrlen then (.fail, f)
  else
    match authDecrypt prwskey (f.rxData.take f.attrib.hdrlen) (f.rxData.drop f.attrib.hdrlen) with
    | none => (.fail, f)
    | some plain =>
      (.success, { f with rxData := memcpyAt f.rxData (f.attrib.hdrlen + 8) plain })

def prwskeylen : SecurityType → ℕ
  | .ccmp256 | .gcmp256 => 32
  | _ => 16

def rtwAesDecrypt : Status × RecvFrame :=
  match decryptKey sec stations true f with
  | none => (.fail, f)
  | some prwskey => aeadDecrypt cr.ccmpDecrypt (prwskey.take (prwskeylen f.attrib.encrypt)) f

def rtwGcmpDecrypt : Status × RecvFrame :=
  match decryptKey sec stations true f with
  | none => (.fail, f)
  | some prwskey => aeadDecrypt cr.gcmpDecrypt (prwskey.take (prwskeylen f.attrib.encrypt)) f

/-! ## The dispatch -/

def ivKeyIndex : BitVec 2 :=
  (((f.rxData.getD (f.attrib.hdrlen + 3) 0).toBitVec >>> 6) &&& 0x3).setWidth 2

def RecvFrame.noteKeyIndex : RecvFrame := { f with attrib.keyIndex := ivKeyIndex f }

def RecvFrame.markDecrypted : RecvFrame := { f with attrib.bdecrypted := true }

/-- The `switch` of `decryptor`. A cipher without a case is left as it came, with `_SUCCESS`. -/
def swDecrypt : Status × RecvFrame :=
  match f.attrib.encrypt with
  | .wep40 | .wep104 => (.success, rtwWepDecrypt cr sec f)
  | .tkip => rtwTkipDecrypt cr sec stations f
  | .aes | .ccmp256 => rtwAesDecrypt cr sec stations f
  | .gcmp | .gcmp256 => rtwGcmpDecrypt cr sec stations f
  | _ => (.success, f)

/-- `decryptor`. `none` is a frame that failed and has been put back on the free queue. -/
def decryptor : Option RecvFrame :=
  if f.attrib.encrypt = .noPrivacy then some f.markDecrypted
  -- the hardware has decrypted the frame
  else if f.attrib.bdecrypted then some f.noteKeyIndex
  else
    match swDecrypt cr sec stations f.noteKeyIndex with
    | (.fail, _) => none
    | (_, f) => some f.markDecrypted

end

def micOverhead (attrib : RxPktAttrib) : ℕ :=
  attrib.hdrlen + attrib.ivLen + attrib.icvLen + 8

section

variable (cr sec stations f)

/-- `datalen` of `recvframe_chkmic`, an unsigned difference. -/
def micDatalen : BitVec 32 :=
  BitVec.ofNat 32 f.rxData.length - BitVec.ofNat 32 (micOverhead f.attrib)

def pframemic : ℕ :=
  f.attrib.hdrlen + f.attrib.ivLen + (micDatalen f).toNat

/-- `recvframe_chkmic`. The last component is not in the source: whether the data and the MIC that
are read lie in the frame. -/
def recvframeChkmic : Status × RecvFrame × Bool :=
  if f.attrib.encrypt ≠ .tkip then (.success, f, true)
  else
    match rtwGetStainfo stations f.attrib.ta with
    -- without a station entry nothing is compared, but the MIC is still cut off
    | none => (.success, recvframePullTail f 8, true)
    | some stainfo =>
      if isMcast f.attrib.ra && !sec.binstallGrpkey then (.fail, f, true)
      else
        let mickey :=
          if isMcast f.attrib.ra then sec.dot118021XGrprxmickey f.attrib.keyIndex
          else stainfo.dot11tkiprxmickey
        let payload := f.rxData.drop (f.attrib.hdrlen + f.attrib.ivLen)
        let miccode := cr.seccalctkipmic mickey f.rxData (payload.take (micDatalen f).toNat)
          f.attrib.priority
        (if miccode = (f.rxData.drop (pframemic f)).take 8 then .success else .fail,
          recvframePullTail f 8, decide (pframemic f + 8 ≤ f.rxData.length))

/-! ## The frame stays the same frame -/

end

end Rtl88x2bu.Rx
