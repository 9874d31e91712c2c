import Mathlib

/-!
# Receive frames

`union recv_frame` and `struct rx_pkt_attrib` (`include/rtw_recv.h`). A frame keeps the number of
its slot in the receive pool; its buffer is the bytes between `rx_data` and `rx_tail` with the room
on either side.
-/

namespace Rtl88x2bu.Rx

variable (pframe : List UInt8)

inductive Status
  | success
  | fail
  | handled
  deriving DecidableEq, Repr

inductive SecurityType
  | noPrivacy
  | wep40
  | tkip
  | tkipWtmic
  | aes
  | wep104
  | sms4
  | gcmp
  | ccmp256
  | gcmp256
  | bipCmac128
  | bipGmac128
  | bipGmac256
  | bipCmac256
  deriving DecidableEq, Repr

def SecurityType.hasPn : SecurityType → Bool
  | .aes | .ccmp256 | .gcmp | .gcmp256 => true
  | _ => false

abbrev MacAddr := Vector UInt8 6

def nullAddr : MacAddr := Vector.replicate 6 0

def bcAddr : MacAddr := Vector.replicate 6 0xff

def isMcast (da : MacAddr) : Bool := da[0] &&& 0x01 != 0

/-- The address under which `rtw_get_stainfo` looks a station up: every group address stands for
the broadcast station. -/
def staAddr (hwaddr : MacAddr) : MacAddr := if isMcast hwaddr then bcAddr else hwaddr

structure ReorderRef where
  sta : MacAddr
  tid : BitVec 4
  deriving DecidableEq, Repr

/-- `struct rx_pkt_attrib`. The defaults are the zeroes the RX descriptor parser starts from. -/
structure RxPktAttrib where
  pktLen : BitVec 16 := 0
  hdrlen : ℕ := 0
  toFrDs : BitVec 2 := 0
  order : Bool := false
  amsdu : Bool := false
  qos : Bool := false
  priority : BitVec 8 := 0
  seqNum : BitVec 12 := 0
  fragNum : BitVec 4 := 0
  mfrag : Bool := false
  privacy : Bool := false
  bdecrypted : Bool := false
  encrypt : SecurityType := .noPrivacy
  ivLen : ℕ := 0
  icvLen : ℕ := 0
  ta : MacAddr := Vector.replicate 6 0
  ra : MacAddr := Vector.replicate 6 0
  dst : MacAddr := Vector.replicate 6 0
  keyIndex : BitVec 2 := 0
  deriving DecidableEq, Repr

/-- `struct recv_frame_hdr`. `headroom` is `rx_data - rx_head` and `tailroom` is
`rx_end - rx_tail`. -/
structure RecvFrame where
  slot : ℕ := 0
  attrib : RxPktAttrib := {}
  keytrack : BitVec 32 := 0
  headroom : ℕ := 0
  rxData : List UInt8 := []
  tailroom : ℕ := 0
  psta : Option MacAddr := none
  preorderCtrl : Option ReorderRef := none
  deriving DecidableEq, Repr

structure RecvCounters where
  rxDrop : BitVec 64 := 0
  dbgRxDropCount : BitVec 64 := 0
  dbgRxAmpduDropCount : BitVec 64 := 0
  dbgRxAmpduForcedIndicateCount : BitVec 64 := 0
  dbgRxAmpduLossCount : BitVec 64 := 0
  dbgRxAmpduWindowShiftCnt : BitVec 64 := 0
  deriving DecidableEq, Repr

def le16At (offset : ℕ) : BitVec 16 :=
  (pframe.getD (offset + 1) 0).toBitVec ++ (pframe.getD offset 0).toBitVec

def leNat : List UInt8 → ℕ
  | [] => 0
  | octet :: rest => octet.toNat + 256 * leNat rest

def le64At (offset : ℕ) : BitVec 64 :=
  BitVec.ofNat 64 (leNat ((pframe.drop offset).take 8))

def macAt (offset : ℕ) : MacAddr :=
  #v[pframe.getD offset 0, pframe.getD (offset + 1) 0, pframe.getD (offset + 2) 0,
    pframe.getD (offset + 3) 0, pframe.getD (offset + 4) 0, pframe.getD (offset + 5) 0]

def getAddr1 : MacAddr := macAt pframe 4

def getAddr2 : MacAddr := macAt pframe 10

def getAddr3 : MacAddr := macAt pframe 16

def getAddr4 : MacAddr := macAt pframe 24

end Rtl88x2bu.Rx
