import Rtl88x2bu.Rx.Reorder
import Rtl88x2bu.Rx.ReplayCache

/-!
# Stations and keys

`struct sta_info` and `struct security_priv` with the members that the receive path uses, and the
station table behind `rtw_get_stainfo`.
-/

namespace Rtl88x2bu.Rx

/-- `struct sta_info`, with the values of `rtw_alloc_stainfo`; `mfp` and `amsduDisable` are bits of
`flags`. -/
structure StaInfo where
  keytrack : BitVec 32 := 0
  defragQ : List RecvFrame := []
  recvreorderCtrl : BitVec 4 → RecvReorderCtrl := fun _ => {}
  recvpriv : StaRecvPriv := .fresh
  mfp : Bool := false
  ieee8021xBlocked : Bool := false
  bpairwiseKeyInstalled : Bool := false
  dot118021XPrivacy : SecurityType := .noPrivacy
  dot118021xUncstKey : List UInt8 := []
  dot11tkiprxmickey : List UInt8 := []
  amsduDisable : Bool := false

inductive AuthAlgrthm
  | openSystem
  | shared
  | ieee8021X
  | auto
  | wapi
  deriving DecidableEq, Repr

/-- `struct security_priv`. `wpapsk`: `ndisauthtype` is `Ndis802_11AuthModeWPAPSK`. -/
structure SecurityPriv where
  dot11AuthAlgrthm : AuthAlgrthm := .openSystem
  dot11PrivacyAlgrthm : SecurityType := .noPrivacy
  dot118021XGrpPrivacy : SecurityType := .noPrivacy
  wpapsk : Bool := false
  swDecrypt : Bool := false
  busetkipkey : Bool := false
  ivSeq : BitVec 2 → BitVec 64 := fun _ => 0
  binstallGrpkey : Bool := false
  dot118021XGrpKeyid : BitVec 32 := 0
  dot118021XGrpKey : BitVec 2 → List UInt8 := fun _ => []
  dot118021XGrprxmickey : BitVec 2 → List UInt8 := fun _ => []
  dot11DefKey : BitVec 2 → List UInt8 := fun _ => []
  binstallBIPkey : Bool := false
  dot11wCipher : SecurityType := .bipCmac128
  dot11wBIPKeyid : BitVec 32 := 0
  dot11wBIPKey : BitVec 32 → List UInt8 := fun _ => []
  dot11wBIPrxpn : BitVec 64 := 0

abbrev StaTable := MacAddr → Option StaInfo

def rtwGetStainfo (stations : StaTable) (hwaddr : MacAddr) : Option StaInfo :=
  stations (staAddr hwaddr)

inductive FrameType
  | mgt
  | ctrl
  | data
  | reserved
  deriving DecidableEq, Repr

def getFrameType (pframe : List UInt8) : FrameType :=
  let frameCtl := pframe.getD 0 0
  match frameCtl &&& 0x08 != 0, frameCtl &&& 0x04 != 0 with
  | false, false => .mgt
  | false, true => .ctrl
  | true, false => .data
  | true, true => .reserved

@[simp]
theorem staAddr_bcAddr : staAddr bcAddr = bcAddr := by decide

theorem eq_of_staAddr {hwaddr addr : MacAddr} (found : staAddr hwaddr = addr)
    (unicast : addr ≠ bcAddr) : hwaddr = addr := by
  unfold staAddr at found
  split_ifs at found
  · exact absurd found.symm unicast
  · exact found

end Rtl88x2bu.Rx
