import Rtl88x2bu.Basic
import Rtl88x2bu.Rx.DataFrame

/-!
# Transmit frames and stations

`struct xmit_frame`, `struct pkt_attrib`, `struct tx_servq` (`include/rtw_xmit.h`) and the members
of `struct sta_info` that the transmit path uses. Mesh, WDS, TDLS and A-MSDU are not compiled in.
-/

namespace Rtl88x2bu.Tx

open Rx (MacAddr SecurityType isMcast)

def txdescSize : ℕ := 48

def packetOffsetSz : ℕ := 8

def rnd4 (sz : ℕ) : ℕ := Align.roundUp 2 sz

/-! ## Queues -/

inductive Ac
  | vo
  | vi
  | be
  | bk
  deriving DecidableEq, Repr

/-- The entries of `hwxmits`: one per access category and, last, the management queue. -/
inductive HwQueue
  | ac (ac : Ac)
  | mgmt
  deriving DecidableEq, Repr

def acOf (priority : BitVec 8) : Ac :=
  if priority = 1 ∨ priority = 2 then .bk
  else if priority = 4 ∨ priority = 5 then .vi
  else if priority = 6 ∨ priority = 7 then .vo
  else .be

/-! ## Frames -/

inductive DataSubtype
  | data
  | qosData
  deriving DecidableEq, Repr

def DataSubtype.code : DataSubtype → UInt8
  | .data => 0x08
  | .qosData => 0x88

/-- `struct pkt_attrib`. `psta` is the address of the station that the pointer refers to. -/
structure PktAttrib where
  subtype : DataSubtype := .data
  bswenc : Bool := false
  etherType : BitVec 16 := 0x0800
  encrypt : SecurityType := .noPrivacy
  iv : Vector UInt8 18 := Vector.replicate 18 0
  icv : Vector UInt8 16 := Vector.replicate 16 0
  priority : BitVec 8 := 0
  ackPolicy : BitVec 2 := 0
  dst : MacAddr := Vector.replicate 6 0
  src : MacAddr := Vector.replicate 6 0
  ta : MacAddr := Vector.replicate 6 0
  ra : MacAddr := Vector.replicate 6 0
  qosEn : Bool := false
  amsdu : Bool := false
  mdata : Bool := false
  triggered : Bool := false
  qsel : BitVec 8 := 0
  eosp : Bool := false
  psta : Option MacAddr := none
  dot11tkiptxmickey : Vector UInt8 16 := Vector.replicate 16 0
  psDontq : Bool := false
  deriving DecidableEq, Repr

namespace PktAttrib

variable (pattrib : PktAttrib)

def hdrlen : ℕ := if pattrib.subtype = .qosData then 26 else 24

def ivLen : ℕ :=
  match pattrib.encrypt with
  | .wep40 | .wep104 => 4
  | .tkip | .aes | .gcmp | .gcmp256 | .ccmp256 => 8
  | _ => 0

def icvLen : ℕ :=
  match pattrib.encrypt with
  | .wep40 | .wep104 | .tkip => 4
  | .aes => 8
  | .gcmp | .gcmp256 | .ccmp256 => 16
  | _ => 0

def micLen : ℕ := if pattrib.encrypt = .tkip then 8 else 0

def swIcvLen : ℕ := if pattrib.bswenc then pattrib.icvLen else 0

def ac : Ac := acOf pattrib.priority

theorem hdrlen_le : pattrib.hdrlen ≤ 26 := by
  simp only [hdrlen]
  split <;> decide

theorem le_hdrlen : 24 ≤ pattrib.hdrlen := by
  simp only [hdrlen]
  split <;> decide

theorem ivLen_le : pattrib.ivLen ≤ 8 := by
  simp only [ivLen]
  split <;> decide

theorem icvLen_le : pattrib.icvLen ≤ 16 := by
  simp only [icvLen]
  split <;> decide

theorem swIcvLen_le : pattrib.swIcvLen ≤ 16 := by
  simp only [swIcvLen]
  split
  · exact pattrib.icvLen_le
  · decide

end PktAttrib

/-- `struct xmit_frame`. `skb` names the socket buffer and `pkt` is what it holds after the Ethernet
header, so that `pktlen` is the length of `pkt`. -/
structure XmitFrame where
  attrib : PktAttrib := {}
  skb : ℕ := 0
  pkt : List UInt8 := []
  deriving DecidableEq, Repr

def XmitFrame.ac (f : XmitFrame) : Ac := f.attrib.ac

/-! ## Stations -/

/-- `struct tx_servq` without its `tx_pending` node, which is an entry of a service list. -/
structure TxServq where
  staPending : List XmitFrame := []
  qcnt : ℤ := 0
  deriving DecidableEq, Repr

/-- `struct sta_info`, with the values of `rtw_alloc_stainfo`; `asoc` and `sleep` are bits of
`state`, and `uapsd` holds the four `uapsd_` members. -/
structure StaInfo where
  aid : ℕ := 0
  asoc : Bool := false
  sleep : Bool := false
  uapsd : Ac → BitVec 8 := fun _ => 0
  hasLegacyAc : Bool := false
  txservq : HwQueue → TxServq := fun _ => {}
  sleepQ : List XmitFrame := []
  sleepqLen : UInt32 := 0
  sleepqAcLen : UInt32 := 0
  mgmtSleepQ : List XmitFrame := []
  mgmtSleepqLen : UInt32 := 0

/-- `txseq_tid` of a station: the last sequence number it was given for each TID. -/
abbrev TxSeq := BitVec 8 → BitVec 12

end Rtl88x2bu.Tx
