import Rtl88x2bu.Rx.MgmtProtect

/-!
# Data frame validation

`validate_recv_data_frame` (`core/rtw_recv.c`) with the header checks of a station
(`rust/rtw_recv_sta_validate.rs`) and of an access point (`core/rtw_ap.c`).
-/

namespace Rtl88x2bu.Rx

variable (f : RecvFrame)

structure AdapterMode where
  station : Bool := false
  ap : Bool := false
  asoc : Bool := false
  underLinking : Bool := false
  monitor : Bool := false
  mpMode : Bool := false
  rxBindicatePkt : Bool := false
  macAddr : MacAddr := Vector.replicate 6 0
  deriving DecidableEq, Repr

variable (mode : AdapterMode)

variable (otherHdr : RecvFrame → Status × Option MacAddr) (sec : SecurityPriv) (stations : StaTable)
  (addr : MacAddr) (psta : StaInfo)

/-! ## Header fields -/

/-- The header fields that `validate_recv_frame` copies from a frame to its attributes. -/
def RecvFrame.parse : RecvFrame :=
  let frameCtl := le16At f.rxData 0
  { f with attrib := { f.attrib with
      toFrDs := frameCtl.extractLsb' 8 2
      mfrag := frameCtl.getLsbD 10
      privacy := frameCtl.getLsbD 14
      order := frameCtl.getLsbD 15
      fragNum := (le16At f.rxData 22).setWidth 4
      seqNum := (le16At f.rxData 22 >>> 4).setWidth 12 } }

def a4Shift : ℕ := if f.attrib.toFrDs = 3 then 6 else 0

def qosControl : BitVec 16 := le16At f.rxData (24 + a4Shift f)

def etherType : BitVec 16 :=
  let ptr := f.attrib.hdrlen + f.attrib.ivLen + 6
  (f.rxData.getD ptr 0).toBitVec ++ (f.rxData.getD (ptr + 1) 0).toBitVec

def eapolType : BitVec 16 := 0x888e

def RecvFrame.setAddrs (ra ta dst : MacAddr) : RecvFrame :=
  { f with attrib := { f.attrib with ra, ta, dst } }

/-! ## The transmitter -/

structure HdrCheck where
  status : Status
  frame : RecvFrame
  psta : Option MacAddr

def hasNoData (whdr : List UInt8) : Bool := getFrameSubType whdr &&& 0x40 != 0

def rtwStaRxDataValidateHdr (f : RecvFrame) : HdrCheck :=
  let whdr := f.rxData
  let ta := getAddr2 whdr
  -- frames outside the distribution system come before the association is checked
  if f.attrib.toFrDs = 0 then
    let f := f.setAddrs (getAddr1 whdr) ta (getAddr1 whdr)
    if getAddr3 whdr ≠ ta then ⟨.fail, f, none⟩
    else if (rtwGetStainfo stations ta).isNone then ⟨.fail, f, none⟩
    else ⟨.success, f, some (staAddr ta)⟩
  else if !(mode.asoc || mode.underLinking) then ⟨.fail, f, none⟩
  else if f.attrib.toFrDs = 1 then ⟨.handled, f.setAddrs (getAddr1 whdr) ta f.attrib.dst, none⟩
  else
    let src := if f.attrib.toFrDs = 2 then getAddr3 whdr else getAddr4 whdr
    let dst := if f.attrib.toFrDs = 2 then getAddr1 whdr else getAddr3 whdr
    let f := f.setAddrs (getAddr1 whdr) ta dst
    -- a frame with this adapter as its source has come back
    if !f.attrib.amsdu && src == mode.macAddr then ⟨.fail, f, none⟩
    else if (rtwGetStainfo stations ta).isNone then ⟨.fail, f, none⟩
    else ⟨if hasNoData whdr then .handled else .success, f, some (staAddr ta)⟩

def rtwApRxDataValidateHdr (f : RecvFrame) : HdrCheck :=
  let whdr := f.rxData
  let ta := getAddr2 whdr
  if !mode.asoc then ⟨.fail, f, none⟩
  else if f.attrib.toFrDs = 1 && isMcast (getAddr1 whdr) then ⟨.fail, f, none⟩
  else if f.attrib.toFrDs = 0 || f.attrib.toFrDs = 2 then ⟨.handled, f, none⟩
  else
    let f := f.setAddrs (getAddr1 whdr) ta (getAddr3 whdr)
    if (rtwGetStainfo stations ta).isNone then ⟨.handled, f, none⟩
    else ⟨if hasNoData whdr then .handled else .success, f, some (staAddr ta)⟩

/-- The header check of the mode. `otherHdr` answers for the modes that are neither. -/
def validateDataHdr (f : RecvFrame) : HdrCheck :=
  let whdr := f.rxData
  if mode.ap then rtwApRxDataValidateHdr mode stations f
  else if mode.station then rtwStaRxDataValidateHdr mode stations f
  else if f.attrib.toFrDs = 3 then ⟨.fail, f, none⟩
  else
    let dst := if f.attrib.toFrDs = 1 then getAddr3 whdr else getAddr1 whdr
    let f := f.setAddrs (getAddr1 whdr) (getAddr2 whdr) dst
    ⟨(otherHdr f).1, f, (otherHdr f).2⟩

/-! ## The checks -/

def noteAmsdu : RecvFrame :=
  { f with attrib.amsdu := f.attrib.qos && (qosControl f).getLsbD 7 }

def noteStation (f : RecvFrame) : RecvFrame :=
  { f with
    psta := some addr
    preorderCtrl := none
    attrib.priority := if f.attrib.qos then ((qosControl f).setWidth 4).setWidth 8 else 0
    attrib.hdrlen := (if f.attrib.qos then 26 else 24) + a4Shift f +
      if f.attrib.order then 4 else 0 }

def notePreorderCtrl (f : RecvFrame) : RecvFrame :=
  if f.attrib.qos then { f with preorderCtrl := some ⟨addr, f.attrib.priority.setWidth 4⟩ } else f

def getEncryAlgo (bmcst : Bool) : SecurityType :=
  if sec.dot11AuthAlgrthm = .ieee8021X then
    if bmcst then sec.dot118021XGrpPrivacy else psta.dot118021XPrivacy
  else sec.dot11PrivacyAlgrthm

def RecvFrame.setCipher (encrypt : SecurityType) : RecvFrame :=
  { f with attrib := { f.attrib with
      encrypt
      ivLen := (setIceIvLen encrypt).1
      icvLen := (setIceIvLen encrypt).2 } }

def noteCipher (f : RecvFrame) : RecvFrame :=
  if f.attrib.privacy then f.setCipher (getEncryAlgo sec psta (isMcast f.attrib.ra))
  else f.setCipher .noPrivacy

/-- Unprotected in a protected network, or an EAPOL frame to forward before the handshake is over.
-/
def dropsUnprotected (f : RecvFrame) : Bool :=
  if sec.dot11PrivacyAlgrthm = .noPrivacy then false
  else if isMcast f.attrib.ra then !f.attrib.privacy
  -- EAPOL may come in the clear, but not inside an A-MSDU
  else if sec.dot11AuthAlgrthm = .ieee8021X then
    (!f.attrib.privacy && etherType f != eapolType) || (!f.attrib.privacy && f.attrib.amsdu) ||
      (etherType f == eapolType && mode.ap && psta.dot118021XPrivacy = .noPrivacy &&
        mode.macAddr != f.attrib.dst)
  else !f.attrib.privacy

def checkCipher (f : RecvFrame) : Status × RecvFrame :=
  let f := noteCipher sec psta f
  (if dropsUnprotected mode sec psta f then .fail else .success, f)

def setRecvpriv (recvpriv : StaRecvPriv) : StaTable :=
  Function.update stations addr (some { psta with recvpriv })

structure DataCheck where
  status : Status
  frame : RecvFrame
  sec : SecurityPriv
  stations : StaTable

/-- `validate_recv_data_frame` once it has a station: the caches, the cipher and the plaintext
check. -/
def validateStaData (f : RecvFrame) : DataCheck :=
  match kernelRecvDecache psta.recvpriv f with
  | (.success, recvpriv) =>
    if isMcast f.attrib.ra then
      -- the packet numbers of group frames belong to the key, not to the station
      let stations := setRecvpriv stations addr psta recvpriv
      match kernelRecvBcastPnDecache mode.station sec.ivSeq f with
      | (.success, ivSeq) =>
        let (status, f) := checkCipher mode sec psta f
        ⟨status, f, { sec with ivSeq }, stations⟩
      | (_, _) => ⟨.fail, f, sec, stations⟩
    else
      let f := notePreorderCtrl addr f
      match kernelRecvUcastPnDecache recvpriv f with
      | (.success, recvpriv) =>
        let (status, f) := checkCipher mode sec psta f
        ⟨status, f, sec, setRecvpriv stations addr psta recvpriv⟩
      | (_, recvpriv) => ⟨.fail, f, sec, setRecvpriv stations addr psta recvpriv⟩
  | (_, recvpriv) => ⟨.fail, f, sec, setRecvpriv stations addr psta recvpriv⟩

def validateRecvDataFrame (f : RecvFrame) : DataCheck :=
  let hdr := validateDataHdr mode otherHdr stations (noteAmsdu f)
  if hdr.status ≠ .success then ⟨hdr.status, hdr.frame, sec, stations⟩
  else
    match hdr.psta with
    | none => ⟨.fail, hdr.frame, sec, stations⟩
    | some addr =>
      match stations addr with
      | none => ⟨.fail, hdr.frame, sec, stations⟩
      | some psta =>
        if psta.amsduDisable && hdr.frame.attrib.amsdu then ⟨.fail, hdr.frame, sec, stations⟩
        else validateStaData mode sec stations addr psta (noteStation addr hdr.frame)

/-! ## What it leaves alone -/

section Header

variable (mode : AdapterMode) (stations : StaTable) (f : RecvFrame)

theorem rtwApRxDataValidateHdr_frame :
    ∃ ra ta dst, (rtwApRxDataValidateHdr mode stations f).frame = f.setAddrs ra ta dst := by
  simp only [rtwApRxDataValidateHdr, apply_ite HdrCheck.frame, ite_self]
  split
  · exact ⟨f.attrib.ra, f.attrib.ta, f.attrib.dst, rfl⟩
  split
  · exact ⟨f.attrib.ra, f.attrib.ta, f.attrib.dst, rfl⟩
  split
  · exact ⟨f.attrib.ra, f.attrib.ta, f.attrib.dst, rfl⟩
  · exact ⟨_, _, _, rfl⟩

theorem rtwStaRxDataValidateHdr_frame :
    ∃ ra ta dst, (rtwStaRxDataValidateHdr mode stations f).frame = f.setAddrs ra ta dst := by
  simp only [rtwStaRxDataValidateHdr, apply_ite HdrCheck.frame, ite_self]
  split
  · exact ⟨_, _, _, rfl⟩
  split
  · exact ⟨f.attrib.ra, f.attrib.ta, f.attrib.dst, rfl⟩
  split <;> exact ⟨_, _, _, rfl⟩

theorem validateDataHdr_frame (otherHdr : RecvFrame → Status × Option MacAddr) :
    ∃ ra ta dst, (validateDataHdr mode otherHdr stations f).frame = f.setAddrs ra ta dst := by
  unfold validateDataHdr
  split
  · exact rtwApRxDataValidateHdr_frame mode stations f
  split
  · exact rtwStaRxDataValidateHdr_frame mode stations f
  split
  · exact ⟨f.attrib.ra, f.attrib.ta, f.attrib.dst, rfl⟩
  · exact ⟨_, _, _, rfl⟩

end Header

end Rtl88x2bu.Rx
