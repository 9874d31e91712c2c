import Rtl88x2bu.Rx.Defrag

/-!
# Management frame protection

`validate_recv_mgnt_frame` with `validate_mgmt_protect` (`core/rtw_recv.c`) and the BIP check of
`core/rtw_security_rest.c`, on an adapter that is not in mesh mode.
-/

namespace Rtl88x2bu.Rx

variable (pframe : List UInt8) (cr : Crypto) (zmalloc : ℕ → Bool) (gmcs : SecurityType)
  (whdr : List UInt8)

variable {ptr : List UInt8} {sec : SecurityPriv}

/-! ## Header fields -/

def getFrameSubType : UInt8 := pframe.getD 0 0 &&& 0xfc

def wifiDisassoc : UInt8 := 0xa0

def wifiDeauth : UInt8 := 0xc0

def wifiAction : UInt8 := 0xd0

def actionCategory : UInt8 := pframe.getD 24 0

/-- `CATEGORY_IS_GROUP_PRIVACY`: mesh and multihop actions. -/
def categoryIsGroupPrivacy (cat : UInt8) : Bool := cat == 13 || cat == 14

/-- `CATEGORY_IS_ROBUST`: all but public, HT, unprotected WNM, self-protected, VHT and P2P. -/
def categoryIsRobust (cat : UInt8) : Bool :=
  !(cat == 4 || cat == 7 || cat == 11 || cat == 15 || cat == 21 || cat == 0x7f)

def isDeauthOrDisassoc : Bool :=
  getFrameSubType pframe == wifiDeauth || getFrameSubType pframe == wifiDisassoc

def isRobustAction : Bool :=
  getFrameSubType pframe == wifiAction && categoryIsRobust (actionCategory pframe)

def isGroupPrivacyAction : Bool :=
  getFrameSubType pframe == wifiAction && categoryIsGroupPrivacy (actionCategory pframe)

/-! ## BIP -/

def bipMicLen : ℕ := if gmcs = .bipCmac128 then 8 else 16

def mmeOf : List UInt8 :=
  whdr.drop (whdr.length - (if bipMicLen gmcs = 8 then 18 else 26))

def pktIpn : BitVec 64 :=
  BitVec.ofNat 64 (leNat (((mmeOf gmcs whdr).drop 4).take 6))

/-- `BIP_AAD`: the masked frame control, the three addresses, and the body with a zero MIC. -/
def bipAad (micLen : ℕ) (whdr : List UInt8) : List UInt8 :=
  [whdr.getD 0 0, whdr.getD 1 0 &&& 0xc7] ++ (whdr.drop 4).take 18 ++
    (whdr.drop 24).take (whdr.length - 24 - micLen) ++ List.replicate micLen 0

/-- `_bip_gcmp_protect`: the nonce is the transmitter and the IPN, most significant octet first. -/
def bipGcmpProtect (len : BitVec 16) (key data : List UInt8) : Option (List UInt8) :=
  let ipn := (whdr.drop (len.toNat - 16 - 6)).take 6
  cr.aesGmac key ((getAddr2 whdr).toList ++ ipn.reverse) data

def rtwCalculateBipMic (len : BitVec 16) (key data : List UInt8) : Option (List UInt8) :=
  match gmcs with
  | .bipCmac128 => cr.omac1Aes (key.take 16) data
  | .bipCmac256 => cr.omac1Aes (key.take 32) data
  | .bipGmac128 => bipGcmpProtect cr whdr len (key.take 16) data
  | .bipGmac256 => bipGcmpProtect cr whdr len (key.take 32) data
  | _ => none

/-- `rtw_bip_verify`, with the value it leaves in `*ipn`. `zmalloc` tells which sizes `rtw_zmalloc`
can allocate. -/
def rtwBipVerify (pktLen : BitVec 16) (whdr key : List UInt8) (keyid : BitVec 16)
    (ipn : BitVec 64) : Status × BitVec 64 :=
  let micLen := bipMicLen gmcs
  if whdr.length < 24 ∨ whdr.length - 24 < micLen then (.handled, ipn)
  -- without the element at its end, the frame is not a BIP frame
  else if (mmeOf gmcs whdr).getD 0 0 ≠ 76 then (.handled, ipn)
  else if le16At (mmeOf gmcs whdr) 2 ≠ keyid then (.fail, ipn)
  else if pktIpn gmcs whdr ≤ ipn then (.fail, ipn)
  else if !zmalloc (whdr.length - 24 + 20) then (.fail, ipn)
  else
    match rtwCalculateBipMic cr gmcs whdr pktLen key (bipAad micLen whdr) with
    | none => (.fail, ipn)
    | some mic =>
      if mic.take micLen = whdr.drop (whdr.length - micLen) then (.success, pktIpn gmcs whdr)
      else (.fail, ipn)

def bipVerify (sec : SecurityPriv) (f : RecvFrame) : Status × BitVec 64 :=
  rtwBipVerify cr zmalloc sec.dot11wCipher f.attrib.pktLen f.rxData
    (sec.dot11wBIPKey sec.dot11wBIPKeyid) (sec.dot11wBIPKeyid.setWidth 16) sec.dot11wBIPrxpn

/-! ## The checks -/

inductive MgmtCheck
  | pass
  | drop
  | bip
  deriving DecidableEq, Repr

/-- The branches of `validate_mgmt_protect` for a frame whose Protected bit is clear. -/
def unprotectedCheck (psta : Option StaInfo) (ptr : List UInt8) : MgmtCheck :=
  match psta with
  | none => .pass
  | some psta =>
    if !psta.mfp then .pass
    else if isMcast (getAddr1 ptr) then
      if isGroupPrivacyAction ptr then .drop
      else if isRobustAction ptr then .bip
      else if isDeauthOrDisassoc ptr then .bip
      else .pass
    else if isDeauthOrDisassoc ptr then .drop
    else if isRobustAction ptr && psta.bpairwiseKeyInstalled then .drop
    else .pass

/-- A unicast deauthentication or disassociation for a class 2 or class 3 frame. -/
def asksSaQuery (ptr : List UInt8) : Bool :=
  !isMcast (getAddr1 ptr) && isDeauthOrDisassoc ptr && (le16At ptr 24 == 6 || le16At ptr 24 == 7)

def setIceIvLen : SecurityType → ℕ × ℕ
  | .wep40 | .wep104 => (4, 4)
  | .tkip => (8, 4)
  | .aes => (8, 8)
  | .gcmp | .gcmp256 | .ccmp256 => (8, 16)
  | .sms4 => (18, 16)
  | _ => (0, 0)

def SecurityPriv.setBipRxpn (sec : SecurityPriv) (ipn : BitVec 64) : SecurityPriv :=
  { sec with dot11wBIPrxpn := ipn }

structure MgmtProtect where
  status : Status
  sec : SecurityPriv
  frame : RecvFrame
  freed : List ℕ := []
  saQuery : Bool := false

/-- The frame that `validate_mgmt_protect` gives to `decryptor`. -/
def prepareMgmt (psta : StaInfo) (f : RecvFrame) : RecvFrame :=
  { f with attrib := { f.attrib with
      bdecrypted := false
      encrypt := psta.dot118021XPrivacy
      hdrlen := 24
      ivLen := (setIceIvLen psta.dot118021XPrivacy).1
      icvLen := (setIceIvLen psta.dot118021XPrivacy).2
      ra := getAddr1 f.rxData
      ta := getAddr2 f.rxData } }

def mgmtDataLen (f : RecvFrame) : ℕ :=
  (f.attrib.pktLen.setWidth 32 -
    BitVec.ofNat 32 (f.attrib.hdrlen + f.attrib.ivLen + f.attrib.icvLen)).toNat

def stripMgmtIv (f : RecvFrame) : RecvFrame :=
  let body := (f.rxData.drop (f.attrib.hdrlen + f.attrib.ivLen)).take (mgmtDataLen f)
  { f with
    rxData := memcpyAt f.rxData f.attrib.hdrlen body
    attrib.pktLen := f.attrib.pktLen - BitVec.ofNat 16 (f.attrib.ivLen + f.attrib.icvLen) }

/-- `validate_mgmt_protect`. `psta` is the station entry of the transmitter. -/
def validateMgmtProtect (sec : SecurityPriv) (stations : StaTable) (psta : Option StaInfo)
    (f : RecvFrame) : MgmtProtect :=
  -- only an installed IGTK switches the checks on
  if !sec.binstallBIPkey then { status := .success, sec, frame := f }
  else if !f.attrib.privacy then
    match unprotectedCheck psta f.rxData with
    | .pass => { status := .success, sec, frame := f }
    | .drop => { status := .fail, sec, frame := f, saQuery := asksSaQuery f.rxData }
    | .bip =>
      match bipVerify cr zmalloc sec f with
      | (.success, ipn) => { status := .success, sec := sec.setBipRxpn ipn, frame := f }
      | (_, ipn) => { status := .fail, sec := sec.setBipRxpn ipn, frame := f }
  else
    match psta with
    | none => { status := .fail, sec, frame := f }
    | some psta =>
      if !psta.mfp then { status := .fail, sec, frame := f }
      else
        let f := prepareMgmt psta f
        if !zmalloc (mgmtDataLen f) then { status := .fail, sec, frame := f }
        else
          match decryptor cr sec stations f with
          -- `decryptor` has already freed the frame it rejects
          | none => { status := .fail, sec, frame := f, freed := [f.slot] }
          | some f => { status := .success, sec, frame := stripMgmtIv f }

structure RecvMgnt where
  sec : SecurityPriv
  stations : StaTable
  -- the frame given to `mgt_dispatcher`
  dispatched : Option RecvFrame
  freed : List ℕ

def attachPsta (stations : StaTable) (f : RecvFrame) : RecvFrame :=
  { f with psta := (rtwGetStainfo stations (getAddr2 f.rxData)).map fun _ =>
      staAddr (getAddr2 f.rxData) }

def validateRecvMgntFrame (sec : SecurityPriv) (stations : StaTable) (f : RecvFrame) : RecvMgnt :=
  let psta := rtwGetStainfo stations (getAddr2 f.rxData)
  let checked := validateMgmtProtect cr zmalloc sec stations psta (attachPsta stations f)
  if checked.status = .fail then ⟨checked.sec, stations, none, checked.freed⟩
  else
    let out := recvframeChkDefrag cr checked.sec stations checked.frame
    ⟨checked.sec, out.stations, out.frame, out.freed⟩

/-! ## What each check guarantees -/

theorem rtwBipVerify_cases (pktLen : BitVec 16) (whdr key : List UInt8) (keyid : BitVec 16)
    (ipn : BitVec 64) :
    (rtwBipVerify cr zmalloc gmcs pktLen whdr key keyid ipn = (.success, pktIpn gmcs whdr) ∧
      ipn < pktIpn gmcs whdr) ∨
    ((rtwBipVerify cr zmalloc gmcs pktLen whdr key keyid ipn).1 ≠ .success ∧
      (rtwBipVerify cr zmalloc gmcs pktLen whdr key keyid ipn).2 = ipn) := by
  unfold rtwBipVerify
  dsimp only
  split_ifs with short noMme otherKey replayed noMemory
  · exact .inr ⟨nofun, rfl⟩
  · exact .inr ⟨nofun, rfl⟩
  · exact .inr ⟨nofun, rfl⟩
  · exact .inr ⟨nofun, rfl⟩
  · exact .inr ⟨nofun, rfl⟩
  · cases rtwCalculateBipMic cr gmcs whdr pktLen key (bipAad (bipMicLen gmcs) whdr) with
    | none => exact .inr ⟨nofun, rfl⟩
    | some mic =>
      dsimp only
      split_ifs
      · exact .inl ⟨rfl, BitVec.not_le.mp replayed⟩
      · exact .inr ⟨nofun, rfl⟩

theorem not_action_of_deauthOrDisassoc (leave : isDeauthOrDisassoc ptr = true) :
    (getFrameSubType ptr == wifiAction) = false := by
  simp only [isDeauthOrDisassoc, Bool.or_eq_true, beq_iff_eq] at leave
  cases leave with
  | inl deauth => rw [deauth]; decide
  | inr disassoc => rw [disassoc]; decide

theorem unprotectedCheck_group {psta : StaInfo} (mfp : psta.mfp = true)
    (group : isMcast (getAddr1 ptr) = true)
    (robust : isDeauthOrDisassoc ptr = true ∨ getFrameSubType ptr = wifiAction ∧
      categoryIsRobust (actionCategory ptr) = true ∧
      categoryIsGroupPrivacy (actionCategory ptr) = false) :
    unprotectedCheck (some psta) ptr = .bip := by
  cases robust with
  | inl leave =>
    -- the two tests on action frames come first and do not apply
    have other := not_action_of_deauthOrDisassoc leave
    simp [unprotectedCheck, mfp, group, isGroupPrivacyAction, isRobustAction, other, leave]
  | inr action =>
    obtain ⟨subtype, robust, notPrivate⟩ := action
    simp [unprotectedCheck, mfp, group, isGroupPrivacyAction, isRobustAction, subtype, robust,
      notPrivate]

def RecvFrame.lastFragment (f : RecvFrame) : Bool := !f.attrib.mfrag && f.attrib.fragNum != 0

theorem recvframeChkDefrag_passes {cr : Crypto} {stations : StaTable} {f g : RecvFrame}
    (notLast : f.lastFragment = false)
    (passed : (recvframeChkDefrag cr sec stations f).frame = some g) :
    f.attrib.privacy = false → g = f := by
  intro clear
  have queued : (queueFragment stations f).frame = some f ∨
      (queueFragment stations f).frame = none := by
    rcases queueFragment_cases stations f with ⟨_, whole⟩ | ⟨_, dropped⟩ |
      ⟨_, _, _, _, _, _, _, kept⟩ | ⟨_, _, _, last, fragment, _, _⟩
    · exact .inl (by rw [whole])
    · exact .inr (by rw [dropped])
    · exact .inr (by rw [kept])
    · -- a fragment without MoreFrag is a last fragment
      simp [RecvFrame.lastFragment, RecvFrame.isFragment, last] at notLast fragment
      exact absurd notLast fragment
  simp only [recvframeChkDefrag] at passed
  cases queued with
  | inl whole => simpa [whole, clear] using passed.symm
  | inr nothing => simp [nothing] at passed

theorem validateMgmtProtect_cases (cr : Crypto) (zmalloc : ℕ → Bool)
    (installed : sec.binstallBIPkey = true) (stations : StaTable) (psta : Option StaInfo)
    (f : RecvFrame) :
    let out := validateMgmtProtect cr zmalloc sec stations psta f
    (out.status = .fail ∧ out.sec = sec) ∨
    (f.attrib.privacy = false ∧ unprotectedCheck psta f.rxData = .pass ∧
      out = { status := .success, sec, frame := f }) ∨
    (f.attrib.privacy = false ∧ unprotectedCheck psta f.rxData = .bip ∧
      ∃ ipn, bipVerify cr zmalloc sec f = (.success, ipn) ∧ sec.dot11wBIPrxpn < ipn ∧
        out = { status := .success, sec := sec.setBipRxpn ipn, frame := f }) ∨
    (f.attrib.privacy = true ∧ ∃ sta, psta = some sta ∧ ∃ g,
      decryptor cr sec stations (prepareMgmt sta f) = some g ∧
        out = { status := .success, sec, frame := stripMgmtIv g }) := by
  intro out
  cases privacy : f.attrib.privacy with
  | false =>
    cases check : unprotectedCheck psta f.rxData with
    | pass => exact .inr (.inl ⟨rfl, rfl, by simp [out, validateMgmtProtect, *]⟩)
    | drop => exact .inl (by simp [out, validateMgmtProtect, *])
    | bip =>
      simp only [out, validateMgmtProtect, installed, privacy, check, Bool.not_true,
        Bool.not_false, Bool.false_eq_true, if_false, if_true]
      rcases rtwBipVerify_cases cr zmalloc sec.dot11wCipher f.attrib.pktLen f.rxData
        (sec.dot11wBIPKey sec.dot11wBIPKeyid) (sec.dot11wBIPKeyid.setWidth 16) sec.dot11wBIPrxpn
        with ⟨accepted, newer⟩ | ⟨rejected, same⟩
      · change bipVerify cr zmalloc sec f = _ at accepted
        rw [accepted]
        exact .inr (.inr (.inl ⟨trivial, trivial, _, rfl, newer, rfl⟩))
      · change (bipVerify cr zmalloc sec f).1 ≠ _ at rejected
        change (bipVerify cr zmalloc sec f).2 = _ at same
        generalize bipVerify cr zmalloc sec f = verified at rejected same ⊢
        obtain ⟨status, ipn⟩ := verified
        subst same
        cases status with
        | success => exact absurd rfl rejected
        | fail => exact .inl ⟨rfl, rfl⟩
        | handled => exact .inl ⟨rfl, rfl⟩
  | true =>
    cases psta with
    | none => exact .inl (by simp [out, validateMgmtProtect, installed, privacy])
    | some sta =>
      simp only [out, validateMgmtProtect, installed, privacy, Bool.not_true, Bool.false_eq_true,
        if_false]
      split_ifs with other noMemory
      · exact .inl ⟨rfl, rfl⟩
      · exact .inl ⟨rfl, rfl⟩
      · cases decrypted : decryptor cr sec stations (prepareMgmt sta f) with
        | none => exact .inl ⟨rfl, rfl⟩
        | some g => exact .inr (.inr (.inr ⟨trivial, sta, rfl, g, decrypted, rfl⟩))

theorem validateRecvMgntFrame_dispatched {cr : Crypto} {zmalloc : ℕ → Bool}
    (installed : sec.binstallBIPkey = true) {stations : StaTable} {f g : RecvFrame}
    (notLast : f.lastFragment = false)
    (dispatched : (validateRecvMgntFrame cr zmalloc sec stations f).dispatched = some g) :
    let psta := rtwGetStainfo stations (getAddr2 f.rxData)
    (f.attrib.privacy = false ∧ g.rxData = f.rxData ∧
      (unprotectedCheck psta f.rxData = .pass ∨ unprotectedCheck psta f.rxData = .bip ∧
        ∃ ipn, bipVerify cr zmalloc sec f = (.success, ipn) ∧ sec.dot11wBIPrxpn < ipn)) ∨
    (f.attrib.privacy = true ∧ ∃ sta, psta = some sta ∧ ∃ h,
      decryptor cr sec stations (prepareMgmt sta (attachPsta stations f)) = some h) := by
  intro psta
  simp only [validateRecvMgntFrame] at dispatched
  split_ifs at dispatched with failed
  -- noting the station does not touch the fragment number
  have unchanged : (attachPsta stations f).lastFragment = false := notLast
  rcases validateMgmtProtect_cases cr zmalloc installed stations psta (attachPsta stations f) with
    ⟨fail, _⟩ | ⟨clear, check, out⟩ | ⟨clear, check, ipn, accepted, newer, out⟩ |
    ⟨privacy, sta, known, h, decrypted, _⟩
  · exact absurd fail failed
  · rw [out] at dispatched
    change (recvframeChkDefrag cr _ stations _).frame = some g at dispatched
    have same := recvframeChkDefrag_passes unchanged dispatched clear
    exact .inl ⟨clear, by rw [same]; rfl, .inl check⟩
  · rw [out] at dispatched
    change (recvframeChkDefrag cr _ stations _).frame = some g at dispatched
    have same := recvframeChkDefrag_passes unchanged dispatched clear
    exact .inl ⟨clear, by rw [same]; rfl, .inr ⟨check, ipn, accepted, newer⟩⟩
  · exact .inr ⟨privacy, sta, known, h, decrypted⟩

end Rtl88x2bu.Rx
