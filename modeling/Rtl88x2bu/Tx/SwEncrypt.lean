import Rtl88x2bu.Tx.Frame

/-!
# The TKIP MIC and software encryption

`xmitframe_addmic` (`core/rtw_xmit.c`) and the encryption loops (`rust/rtw_security.rs`,
`rust/rtw_security_rest.rs`): which octets they work on, as offsets from the start of the buffer.
-/

namespace Rtl88x2bu.Tx

/-- The values of `frag_len` that `rtw_wx_set_frag` accepts. -/
structure FragLen where
  val : ℕ
  low : 256 ≤ val
  high : val ≤ 2346
  even : 2 ∣ val

/-- The members of `struct pkt_attrib` that `rtw_xmitframe_coalesce` computes for the functions it
calls afterwards; `nr_frags` is an octet. -/
structure FragCount where
  nrFrags : ℕ
  lastTxcmdsz : ℕ
  deriving DecidableEq, Repr

section
variable (fragLen : FragLen) (pattrib : PktAttrib) (lastTxcmdsz : ℕ)

/-- The loop of `xmitframe_addmic` over the fragments that are left, with the pointer `payload`. -/
def addmicLoop : ℕ → ℕ → List Extent × ℕ
  | 0, payload => ([], payload)
  | left + 1, payload =>
    let payload := rnd4 payload + pattrib.hdrlen + pattrib.ivLen
    if left = 0 then
      let length := lastTxcmdsz - pattrib.hdrlen - pattrib.ivLen - pattrib.swIcvLen
      ([⟨payload, length⟩], payload + length)
    else
      let length := fragLen.val - pattrib.hdrlen - pattrib.ivLen - pattrib.swIcvLen
      let rest := addmicLoop left (payload + length + pattrib.icvLen)
      (⟨payload, length⟩ :: rest.1, rest.2)

def encryptLoop : ℕ → ℕ → List Extent
  | 0, _ => []
  | left + 1, pframe =>
    let sz := if left = 0 then lastTxcmdsz else fragLen.val
    ⟨pframe + pattrib.hdrlen + pattrib.ivLen,
      sz - pattrib.hdrlen - pattrib.ivLen - pattrib.icvLen⟩ ::
      encryptLoop left (rnd4 (pframe + fragLen.val))

end

section
variable (fragLen : FragLen) (pattrib : PktAttrib) (count : FragCount) (pframe : ℕ)

def wepEncryptInner : List Extent :=
  if pattrib.encrypt ≠ .wep40 ∧ pattrib.encrypt ≠ .wep104 then []
  else encryptLoop fragLen pattrib count.lastTxcmdsz count.nrFrags pframe

def tkipEncryptInner : List Extent :=
  if pattrib.encrypt ≠ .tkip then []
  else encryptLoop fragLen pattrib count.lastTxcmdsz count.nrFrags pframe

def aesEncryptFragNewCrypto : List Extent :=
  encryptLoop fragLen pattrib count.lastTxcmdsz count.nrFrags pframe

def gcmpEncryptFrags : List Extent :=
  encryptLoop fragLen pattrib count.lastTxcmdsz count.nrFrags pframe

def xmitframeSwencrypt : List Extent :=
  if pattrib.bswenc then
    match pattrib.encrypt with
    | .wep40 | .wep104 => wepEncryptInner fragLen pattrib count pframe
    | .tkip => tkipEncryptInner fragLen pattrib count pframe
    | .aes | .ccmp256 => aesEncryptFragNewCrypto fragLen pattrib count pframe
    | .gcmp | .gcmp256 => gcmpEncryptFrags fragLen pattrib count pframe
    | _ => []
  else []

end

def swCipher (pattrib : PktAttrib) : Bool :=
  match pattrib.encrypt with
  | .wep40 | .wep104 | .tkip | .aes | .ccmp256 | .gcmp | .gcmp256 => true
  | _ => false

variable {fragLen : FragLen} {pattrib : PktAttrib} {count : FragCount} {pframe : ℕ}

theorem xmitframeSwencrypt_eq (software : pattrib.bswenc = true)
    (cipher : swCipher pattrib = true) :
    xmitframeSwencrypt fragLen pattrib count pframe =
      encryptLoop fragLen pattrib count.lastTxcmdsz count.nrFrags pframe := by
  simp only [xmitframeSwencrypt, software, if_true]
  cases encrypt : pattrib.encrypt <;>
    simp_all [swCipher, wepEncryptInner, tkipEncryptInner, aesEncryptFragNewCrypto,
      gcmpEncryptFrags]

theorem xmitframeSwencrypt_nil (hardware : pattrib.bswenc = false ∨ swCipher pattrib = false) :
    xmitframeSwencrypt fragLen pattrib count pframe = [] := by
  rcases hardware with off | other
  · simp [xmitframeSwencrypt, off]
  · cases encrypt : pattrib.encrypt <;> simp_all [swCipher, xmitframeSwencrypt]

theorem addmicLoop_one (lastTxcmdsz payload : ℕ) :
    let start := rnd4 payload + pattrib.hdrlen + pattrib.ivLen
    let length := lastTxcmdsz - pattrib.hdrlen - pattrib.ivLen - pattrib.swIcvLen
    addmicLoop fragLen pattrib lastTxcmdsz 1 payload = ([⟨start, length⟩], start + length) := rfl

theorem encryptLoop_one (lastTxcmdsz : ℕ) :
    encryptLoop fragLen pattrib lastTxcmdsz 1 pframe = [⟨pframe + pattrib.hdrlen + pattrib.ivLen,
      lastTxcmdsz - pattrib.hdrlen - pattrib.ivLen - pattrib.icvLen⟩] := rfl

theorem encryptLoop_length (lastTxcmdsz left : ℕ) :
    (encryptLoop fragLen pattrib lastTxcmdsz left pframe).length = left := by
  induction left generalizing pframe with
  | zero => rfl
  | succ left ih => simp only [encryptLoop, List.length_cons, ih]

end Rtl88x2bu.Tx
