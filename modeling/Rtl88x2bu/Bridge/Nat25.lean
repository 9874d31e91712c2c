import Rtl88x2bu.Bridge.Nat25Db
import Rtl88x2bu.Lib.OnesComplement

/-!
# Handling frames for NAT2.5

`nat25_db_handle` of `rtw_br_ext.c` and its two callers, `nat25_handle_frame` and `rtw_br_client_tx`
of `rtw_xmit.c`. Not compiled and left out: `SUPPORT_TX_MCAST2UNI`, `SUPPORT_RX_UNI2MCAST`,
`BR_EXT_DEBUG`.
-/

namespace Rtl88x2bu.Bridge

open Rx (MacAddr bcAddr nullAddr)
open Tape

/-- The `method` of `nat25_db_handle`. -/
inductive Nat25Method
  | check
  | insert
  | lookup
  deriving DecidableEq, Repr

/-- The value that `nat25_db_handle` returns, `none` if it does not return, and what it leaves. -/
structure Handled where
  ret : Option ℤ
  priv : Adapter
  skb : SkBuff

/-! ## IPv4 and ARP -/

variable (env : Env) (priv : Adapter) (skb : SkBuff)

variable (method : Nat25Method)

/-- The addresses are read to be logged. -/
def logIpAddrs : SkBuff :=
  if env.logInfo then (skb.touch 26 4).touch 30 4 else skb

/-- A client's IPv4 frame is recorded. -/
def ipInsert : Handled :=
  let skb := skb.touch 26 4
  let saddr := ipAt skb.data 26
  if saddr = nullIp then ⟨some 0, priv, skb⟩
  else
    let skb := (logIpAddrs env skb).touch 6 6
    ⟨some 0, dbNetworkInsert env.malloc priv (macAt skb.data 6) (.ipv4 saddr), skb⟩

/-- A frame for an address without an entry: broadcast, or for the bridge. -/
def ipUnknown : Handled :=
  let skb := skb.touch 33 1
  if skb.data 33 = 0xff then ⟨some 0, priv, skb.store 0 bcAddr.toList⟩
  else
    let priv := if priv.brMac = nullAddr then netdevBrInit priv else priv
    ⟨some 0, priv, skb.store 0 priv.brMac.toList⟩

/-- The destination of a received IPv4 frame is replaced. -/
def ipLookup : Handled :=
  let skb := (logIpAddrs env skb).touch 30 4
  match dbNetworkLookupAndReplace env priv skb (.ipv4 (ipAt skb.data 30)) with
  | (priv, skb, true) => ⟨some 0, priv, skb⟩
  | (priv, skb, false) => ipUnknown priv skb

/-- The branch for `ETH_P_IP`. -/
def handleIp : Handled :=
  let skb := skb.touch 14 1
  let ihl := (skb.data 14).toNat % 16
  if ethHlen + (ihl <<< 2) ≥ ethHlen + skb.len then ⟨some (-1), priv, skb⟩
  else
    match method with
    | .check => ⟨some (-1), priv, skb⟩
    | .insert => ipInsert env priv skb
    | .lookup => ipLookup env priv skb

/-- A client's ARP frame is recorded and its hardware address replaced. -/
def arpInsert : Handled :=
  -- the sender's hardware address becomes the station's before the lengths are looked at
  let skb := skb.store 22 priv.macAddr.toList
  let skb := skb.touch 18 1
  let sender := 22 + (skb.data 18).toNat
  let skb := (skb.touch sender 4).touch 6 6
  let priv := dbNetworkInsert env.malloc priv (macAt skb.data 6) (.ipv4 (ipAt skb.data sender))
  ⟨some 0, priv, skb⟩

/-- Both destinations of a received ARP frame are replaced. -/
def arpLookup : Handled :=
  let skb := (skb.touch 18 1).touch 19 1
  let hln := (skb.data 18).toNat
  let pln := (skb.data 19).toNat
  let target := 22 + hln + (hln + pln)
  let skb := skb.touch target 4
  let (priv, skb, _) := dbNetworkLookupAndReplace env priv skb (.ipv4 (ipAt skb.data target))
  let skb := skb.touch 0 6
  ⟨some 0, priv, skb.store (22 + (hln + pln)) (macAt skb.data 0).toList⟩

/-- The branch for `ETH_P_ARP`. -/
def handleArp : Handled :=
  let skb := skb.touch 16 2
  if be16 skb.data 16 ≠ 0x0800 then ⟨some (-1), priv, skb⟩
  else
    match method with
    | .check => ⟨some 0, priv, skb⟩
    | .insert => arpInsert env priv skb
    | .lookup => arpLookup env priv skb

/-! ## PPPoE -/

def tagHdrLen : ℕ := 4
def magicCodeLen : ℕ := 2
def rtlRelayTagLen : ℕ := ethAlen
def magicCode : ℕ := 0x8186
def pttRelaySid : ℕ := 0x0110
def padiCode : Byte := 0x09
def padoCode : Byte := 0x07
def padrCode : Byte := 0x19
def padsCode : Byte := 0x65
def waitTimePppoe : ℕ := 5
def tagBufLen : ℕ := 40

/-- Where the tags of a discovery frame start. -/
def tagsAt : ℕ := 20

/-- The loop of `__nat25_find_pppoe_tag`. -/
def findPppoeTagLoop (type : ℕ) : ℕ → SkBuff → ℕ → SkBuff × Option ℕ
  | 0, skb, _ => (skb, none)
  | fuel + 1, skb, cur =>
    let skb := skb.touch 18 2
    if cur < be16 skb.data 18 then
      let skb := skb.touch (tagsAt + cur) 4
      if be16 skb.data (tagsAt + cur) = type then (skb, some cur)
      else findPppoeTagLoop type fuel skb (cur + tagHdrLen + be16 skb.data (tagsAt + cur + 2))
    else (skb, none)

/-- `__nat25_find_pppoe_tag`. A round moves on by four bytes at least, and the length field has 16
bits. -/
def findPppoeTag (type : ℕ) : SkBuff × Option ℕ :=
  findPppoeTagLoop type 65536 skb 0

/-- `skb_pull_and_merge`: the buffer without the `n` bytes from `src` on, or its refusal. -/
def skbPullAndMerge (src n : ℕ) : SkBuff × Bool :=
  if src + n > skb.len ∨ skb.len < n then (skb, false)
  else ((skb.memmove src (src + n) (skb.len - (src + n))).trim n, true)

/-- The length field of the PPPoE header is changed by `n`. -/
def addToLength (n : ℤ) : SkBuff :=
  (skb.touch 18 2).store 18 (htons ((be16 skb.data 18 + n) % 65536).toNat)

/-- `__nat25_add_pppoe_tag` for the tag at the start of `tag_buf`, whose written part is `tag`. -/
def addPppoeTag (tag : List Byte) : SkBuff × Bool :=
  let tagBuf := paste env.stack 0 tag
  -- the source reads the length that it stored in network order as a number of the host
  let dataLen := native16 env.order tagBuf 2 + tagHdrLen
  if skb.tailroom < dataLen then (skb, false)
  else
    let skb := (skb.put dataLen).touch 18 2
    let skb := skb.memmove (tagsAt + dataLen) tagsAt (be16 skb.data 18)
    let skb := addToLength skb dataLen
    let skb := skb.store tagsAt (window tagBuf 0 dataLen)
    ({ skb with inside := skb.inside && decide (dataLen ≤ tagBufLen) }, true)

/-- The tag that carries a client's address, with the bytes of its own tag. -/
def relayTag (client : MacAddr) (old : List Byte) : List Byte :=
  htons pttRelaySid ++ htons (magicCodeLen + rtlRelayTagLen + old.length) ++ htons magicCode ++
    client.toList ++ old

/-- The relay tag is put in front of the other tags. -/
def addRelayTag (old : List Byte) : Handled :=
  let skb := skb.touch 6 6
  match addPppoeTag env skb (relayTag (macAt skb.data 6) old) with
  | (skb, false) => ⟨some (-1), priv, skb⟩
  | (skb, true) => ⟨some 0, priv, skb⟩

/-- A client's Relay-Session-Id tag at offset `cur` goes into the one that is added. -/
def replaceRelayTag (cur : ℕ) : Handled :=
  let oldTag := tagsAt + cur
  let skb := skb.touch (oldTag + 2) 2
  let oldTagLen := be16 skb.data (oldTag + 2)
  if oldTagLen + tagHdrLen + magicCodeLen + rtlRelayTagLen > tagBufLen then ⟨some (-1), priv, skb⟩
  else
    let skb := skb.touch (oldTag + tagHdrLen) oldTagLen
    let old := window skb.data (oldTag + tagHdrLen) oldTagLen
    match skbPullAndMerge skb oldTag (tagHdrLen + oldTagLen) with
    | (skb, false) => ⟨some (-1), priv, skb⟩
    | (skb, true) => addRelayTag env priv (addToLength skb (-(tagHdrLen + oldTagLen : ℕ))) old

/-- PADI and PADR with `addPPPoETag`. -/
def insertRelayTag : Handled :=
  match findPppoeTag skb pttRelaySid with
  | (skb, none) => addRelayTag env priv skb []
  | (skb, some cur) => replaceRelayTag env priv skb cur

/-- The address in a relay tag becomes the destination; of the tag only the client's own bytes stay.
-/
def cutRelayTag (tag tagLen : ℕ) : Handled :=
  let skb := skb.touch (tag + tagHdrLen + magicCodeLen) 6
  let skb := skb.store 0 (macAt skb.data (tag + tagHdrLen + magicCodeLen)).toList
  let offset := if tagLen > magicCodeLen + rtlRelayTagLen then tagHdrLen else 0
  let gone := tagHdrLen + magicCodeLen + rtlRelayTagLen - offset
  match skbPullAndMerge skb (tag + offset) gone with
  | (skb, false) => ⟨some (-1), priv, skb⟩
  | (skb, true) =>
    let skb := addToLength skb (-(gone : ℕ))
    if offset > 0 then
      ⟨some 0, priv, skb.store (tag + 2) (htons (tagLen - magicCodeLen - rtlRelayTagLen))⟩
    else ⟨some 0, priv, skb⟩

/-- The checks on a relay tag that came back. -/
def takeRelayTag (cur : ℕ) : Handled :=
  let tag := tagsAt + cur
  let skb := skb.touch tag 4
  let tagLen := be16 skb.data (tag + 2)
  if be16 skb.data tag ≠ pttRelaySid ∨ tagLen < magicCodeLen + rtlRelayTagLen then
    ⟨some (-1), priv, skb⟩
  else
    let skb := skb.touch (tag + tagHdrLen) 2
    if be16 skb.data (tag + tagHdrLen) ≠ magicCode then ⟨some (-1), priv, skb⟩
    else cutRelayTag priv skb tag tagLen

/-- PADO and PADS with `addPPPoETag`. -/
def lookupRelayTag : Handled :=
  match findPppoeTag skb pttRelaySid with
  | (skb, none) => ⟨some (-1), priv, skb⟩
  | (skb, some cur) => takeRelayTag priv skb cur

abbrev sidAt (data : ℕ → Byte) : Vector Byte 2 := addrAt 2 data 16

/-- A client's frame without a session. -/
def pppoeDiscovery : Handled :=
  let skb := skb.touch 15 1
  if skb.data 15 = padiCode ∨ skb.data 15 = padrCode then
    if priv.ethBrExtInfo.addPPPoETag then insertRelayTag env priv skb
    else
      let skb := skb.touch 6 6
      let sa := macAt skb.data 6
      if priv.pppoeConnectionInProgress ≠ 0 ∧ sa ≠ priv.pppoeAddr then ⟨some (-2), priv, skb⟩
      else
        ⟨some 0,
          { priv with
            pppoeAddr := if priv.pppoeConnectionInProgress = 0 then sa else priv.pppoeAddr
            pppoeConnectionInProgress := waitTimePppoe },
          skb⟩
  else ⟨some (-1), priv, skb⟩

/-- A client's frame of a session. -/
def pppoeSession : Handled :=
  let skb := ((skb.touch 0 6).touch 16 2).touch 6 6
  let sa := macAt skb.data 6
  let priv := dbNetworkInsert env.malloc priv sa (.pppoe (sidAt skb.data) (macAt skb.data 0))
  if ¬ priv.ethBrExtInfo.addPPPoETag ∧ priv.pppoeConnectionInProgress ≠ 0 ∧
      sa = priv.pppoeAddr then
    ⟨some 0, { priv with pppoeConnectionInProgress := 0 }, skb⟩
  else ⟨some 0, priv, skb⟩

/-- A client's PPPoE frame. -/
def pppoeInsert : Handled :=
  let skb := skb.touch 16 2
  if be16 skb.data 16 = 0 then pppoeDiscovery env priv skb else pppoeSession env priv skb

/-- A received PPPoE frame. -/
def pppoeLookup : Handled :=
  let skb := skb.touch 15 1
  if skb.data 15 = padoCode ∨ skb.data 15 = padsCode then
    if priv.ethBrExtInfo.addPPPoETag then lookupRelayTag priv skb
    else if priv.pppoeConnectionInProgress = 0 then ⟨some (-1), priv, skb⟩
    else
      ⟨some 0, { priv with pppoeConnectionInProgress := waitTimePppoe },
        skb.store 0 priv.pppoeAddr.toList⟩
  else
    let skb := skb.touch 16 2
    if be16 skb.data 16 ≠ 0 then
      let skb := (skb.touch 6 6).touch 16 2
      let (priv, skb, _) :=
        dbNetworkLookupAndReplace env priv skb (.pppoe (sidAt skb.data) (macAt skb.data 6))
      ⟨some 0, priv, skb⟩
    else ⟨some (-1), priv, skb⟩

/-- The branch for `ETH_P_PPP_DISC` and `ETH_P_PPP_SES`. -/
def handlePppoe : Handled :=
  match method with
  | .check =>
    let skb := skb.touch 16 2
    if be16 skb.data 16 = 0 then ⟨some 0, priv, skb⟩ else ⟨some 1, priv, skb⟩
  | .insert => pppoeInsert env priv skb
  | .lookup => pppoeLookup env priv skb

/-! ## IPv6 -/

/-- Where an ICMPv6 message starts. -/
def icmpAt : ℕ := 54

/-- How a scan of options ends. -/
inductive Scan
  | found (mac : ℕ)
  | missing
  | endless

/-- The loop of `scan_tlv`. -/
def scanTlvLoop (tag len8b : Byte) : ℕ → SkBuff → ℕ → ℕ → SkBuff × Scan
  | 0, skb, _, _ => (skb, .endless)
  | fuel + 1, skb, data, len =>
    if len > 0 then
      let skb := (skb.touch data 1).touch (data + 1) 1
      let optLen := (skb.data (data + 1)).toNat * 8
      if skb.data data = tag ∧ skb.data (data + 1) = len8b ∧ len ≥ len8b.toNat * 8 then
        (skb, .found (data + 2))
      else scanTlvLoop tag len8b fuel skb (data + optLen) (len - optLen)
    else (skb, .missing)

/-- `scan_tlv`. With `len` bytes left, more than `len` rounds do not end. -/
def scanTlv (data len : ℕ) (tag len8b : Byte) : SkBuff × Scan :=
  scanTlvLoop tag len8b (len + 1) skb data len

/-- Per type of message: where the options start and the option that has the address. -/
def ndOptions (icmpType : Byte) : Option (ℕ × Byte) :=
  if icmpType = 133 then some (8, 1)
  else if icmpType = 134 then some (16, 1)
  else if icmpType = 135 then some (24, 1)
  else if icmpType = 136 then some (24, 2)
  else if icmpType = 137 then some (40, 2)
  else none

/-- `update_nd_link_layer_addr`. -/
def updateNdLinkLayerAddr (len : ℕ) (replaceMac : MacAddr) : SkBuff × Option Bool :=
  let skb := skb.touch icmpAt 1
  match ndOptions (skb.data icmpAt) with
  | none => (skb, some false)
  | some (start, tag) =>
    if len ≥ start then
      match scanTlv skb (icmpAt + start) (len - start) tag 1 with
      | (skb, .found mac) => (skb.store mac replaceMac.toList, some true)
      | (skb, .missing) => (skb, some false)
      | (skb, .endless) => (skb, none)
    else (skb, some false)

/-- `csum_partial`: the sum of the 16-bit words, not yet folded. -/
def onesSum : List Byte → ℕ
  | [] => 0
  | [high] => high.toNat * 256
  | high :: low :: bytes => high.toNat * 256 + low.toNat + onesSum bytes

/-- `csum_ipv6_magic`. -/
def csumIpv6Magic (saddr daddr : List Byte) (len proto sum : ℕ) : ℕ :=
  65535 - OnesComplement.fold
    (onesSum saddr + onesSum daddr + len / 65536 + len % 65536 + proto + sum)

/-- The length that goes to the kernel's functions: `payload_len` as it is stored. -/
def csumPartialLen : ℕ :=
  native16 env.order skb.data 18

/-- The checksum of a message whose address was replaced. -/
def updateIcmpCksum : SkBuff :=
  let skb := skb.store (icmpAt + 2) [0, 0]
  let skb := ((skb.touch 22 16).touch 38 16).touch 18 2
  let payloadLen := csumPartialLen env skb
  let skb := skb.touch icmpAt payloadLen
  skb.store (icmpAt + 2)
    (htons (csumIpv6Magic (window skb.data 22 16) (window skb.data 38 16) payloadLen 58
      (onesSum (window skb.data icmpAt payloadLen))))

abbrev ipv6At (data : ℕ → Byte) (offset : ℕ) : Vector Byte 16 := addrAt 16 data offset

def ipv6HdrLen : ℕ := 40

/-- The link-layer address in a client's message is replaced. -/
def ipv6Rewrite : Handled :=
  match updateNdLinkLayerAddr skb (skb.len - ethHlen - ipv6HdrLen) priv.macAddr with
  | (skb, some true) => ⟨some 0, priv, updateIcmpCksum env skb⟩
  | (skb, some false) => ⟨some 0, priv, skb⟩
  | (skb, none) => ⟨none, priv, skb⟩

/-- A client's IPv6 frame is recorded. -/
def ipv6Insert : Handled :=
  let skb := skb.touch 22 16
  let saddr := ipv6At skb.data 22
  if saddr = Vector.replicate 16 0 then ⟨some 0, priv, skb⟩
  else
    let skb := (skb.touch 6 6).touch 20 1
    let priv := dbNetworkInsert env.malloc priv (macAt skb.data 6) (.ipv6 saddr)
    if skb.data 20 = 58 ∧ skb.len > ethHlen + ipv6HdrLen + 4 then ipv6Rewrite env priv skb
    else ⟨some 0, priv, skb⟩

/-- The branch for `ETH_P_IPV6`. -/
def handleIpv6 : Handled :=
  if ipv6HdrLen ≥ skb.len - ethHlen then ⟨some (-1), priv, skb⟩
  else
    match method with
    | .check =>
      let skb := skb.touch 0 1
      if skb.data 0 &&& 1 ≠ 0 then ⟨some 0, priv, skb⟩ else ⟨some (-1), priv, skb⟩
    | .insert => ipv6Insert env priv skb
    | .lookup =>
      let skb := skb.touch 38 16
      let (priv, skb, _) := dbNetworkLookupAndReplace env priv skb (.ipv6 (ipv6At skb.data 38))
      ⟨some 0, priv, skb⟩

/-! ## All protocols -/

def ethPIp : ℕ := 0x0800
def ethPArp : ℕ := 0x0806
def ethP8021Q : ℕ := 0x8100
def ethPIpv6 : ℕ := 0x86dd
def ethPPppDisc : ℕ := 0x8863
def ethPPppSes : ℕ := 0x8864

/-- Protocols that are only let through. -/
def handleOther : Handled :=
  match method with
  | .check => ⟨some (-1), priv, skb⟩
  | .insert => ⟨some 0, priv, skb⟩
  | .lookup => ⟨some 0, priv, skb⟩

/-- `nat25_db_handle`. -/
def nat25DbHandle : Handled :=
  let skb := skb.touch (2 * ethAlen) 2
  let protocol := be16 skb.data (2 * ethAlen)
  if protocol = ethPIp then handleIp env priv skb method
  else if protocol = ethPArp then handleArp env priv skb method
  else if protocol = ethPPppDisc ∨ protocol = ethPPppSes then handlePppoe env priv skb method
  else if protocol = 0x888e then handleOther priv skb method
  else if protocol = 0xe2ae ∨ protocol = 0xe2af then handleOther priv skb method
  else if protocol = ethPIpv6 then handleIpv6 env priv skb method
  else ⟨some (-1), priv, skb⟩

/-! ## Received frames and frames of clients -/

/-- The addresses are moved over the 802.1Q header and the four bytes in front are pulled. -/
def stripVlan : SkBuff :=
  { skb.touch 0 16 with
    data := fun i => if i < 12 then skb.data i else skb.data (i + 4)
    len := skb.len - 4 }

/-- The header is put back, with the addresses in front of it. -/
def restoreVlan (vlanHdr : List Byte) : SkBuff :=
  SkBuff.touch
    { skb with
      data := paste (fun i => if i < 12 then skb.data i else skb.data (i - 4)) 12
        (htons ethP8021Q ++ vlanHdr)
      len := skb.len + 4 }
    0 16

/-- The value of the 802.1Q header, if there is one. -/
def vlanHdrOf : Option (List Byte) :=
  if be16 skb.data 12 = ethP8021Q then some (window skb.data 14 2) else none

def stripVlan? : Option (List Byte) → SkBuff
  | none => skb
  | some _ => stripVlan skb

def restoreVlan? : Option (List Byte) → SkBuff
  | none => skb
  | some vlanHdr => restoreVlan skb vlanHdr

/-- The lookup of `nat25_handle_frame`, with the shortcut for IPv4. -/
def lookupFrame : Handled :=
  let protocol := be16 skb.data 12
  if ¬ priv.ethBrExtInfo.nat25Disable then
    if ¬ priv.ethBrExtInfo.nat25scDisable ∧ protocol = ethPIp then
      let skb := skb.touch (ethHlen + 16) 4
      if priv.scdbIp = ipAt skb.data (ethHlen + 16) then
        ⟨some 0, priv, skb.store 0 priv.scdbMac.toList⟩
      else nat25DbHandle env priv skb .lookup
    else nat25DbHandle env priv skb .lookup
  else if protocol = ethPIp then
    let skb := skb.touch (ethHlen + 16) 4
    if priv.brIp = ipAt skb.data (ethHlen + 16) then nat25DbHandle env priv skb .lookup
    else ⟨some 0, priv, skb⟩
  else if protocol = ethPArp then
    let skb := skb.touch (ethHlen + 24) 4
    if priv.brIp = ipAt skb.data (ethHlen + 24) then nat25DbHandle env priv skb .lookup
    else ⟨some 0, priv, skb⟩
  else ⟨some 0, priv, skb⟩

/-- `nat25_handle_frame`. -/
def nat25HandleFrame : Handled :=
  let skb := skb.touch 0 1
  if skb.data 0 &&& 1 = 0 then
    let skb := skb.touch 12 2
    let vlanHdr := vlanHdrOf skb
    let handled := lookupFrame env priv (stripVlan? skb vlanHdr)
    { handled with skb := restoreVlan? handled.skb vlanHdr }
  else ⟨some 0, priv, skb⟩

/-- What becomes of a client's frame. -/
inductive ClientTx
  | sent
  | passed
  | dropped
  | endless
  deriving DecidableEq, Repr

structure ClientHandled where
  res : ClientTx
  priv : Adapter
  skb : SkBuff

/-- Entry of the shortcut: `ageing_timer` is set, wherever it is in the table. -/
def Adapter.refresh (addr : NetworkAddr) : Adapter :=
  priv.modify addr fun db => { db with ageingTimer := priv.jiffies }

/-- The update of the shortcut for a client's IPv4 frame, and whether the database is still to be
asked. -/
def updateScdb (sa : MacAddr) (saddr : IpAddr) : Adapter × Bool :=
  if priv.scdbMac ≠ sa then
    match scdbFindEntry priv saddr with
    | some entry =>
      (({ priv with scdbMac := sa, scdbIp := saddr, scdbEntry := some entry }).refresh entry, false)
    | none => ({ priv with scdbEntry := none }, true)
  else
    match priv.scdbEntry with
    | some entry => (priv.refresh entry, false)
    | none => ({ priv with scdbMac := nullAddr, scdbIp := nullIp }, true)

/-- The rest of `rtw_br_client_tx` when the database is to be asked: the frame is recorded in it. -/
def clientInsert : ClientHandled :=
  let checked := nat25DbHandle env priv skb .check
  let inserted := nat25DbHandle env checked.priv checked.skb .insert
  match inserted.ret with
  | none => ⟨.endless, inserted.priv, inserted.skb⟩
  | some res =>
    if res < 0 then
      if res = -2 then ⟨.dropped, inserted.priv, inserted.skb⟩
      else ⟨.passed, inserted.priv, inserted.skb⟩
    else ⟨.sent, inserted.priv, inserted.skb⟩

/-- `rtw_br_client_tx` on a frame without 802.1Q header that does not take the first shortcut. -/
def clientFrame : ClientHandled :=
  let sa := macAt skb.data 6
  let saddr := ipAt skb.data (ethHlen + 12)
  let isIp := be16 skb.data 12 = ethPIp
  let priv := if sa = priv.brMac ∧ isIp then { priv with brIp := saddr } else priv
  let (priv, doNat25) := if isIp then updateScdb priv sa saddr else (priv, true)
  let handled := if doNat25 then clientInsert env priv skb else ⟨.sent, priv, skb⟩
  match handled.res with
  | .sent => { handled with skb := handled.skb.store 6 priv.macAddr.toList }
  | _ => handled

/-- `rtw_br_client_tx`; `brPort`: the interface is in a bridge. Its own accesses are not checked,
and `dhcp_flag_bcast` is left out. -/
def rtwBrClientTx (brPort : Bool) (priv : Adapter) (skb : SkBuff) : ClientHandled :=
  let sa := macAt skb.data 6
  if skb.data 0 &&& 1 = 0 ∧ brPort ∧ sa ≠ priv.brMac ∧ be16 skb.data 12 ≠ ethP8021Q ∧
      be16 skb.data 12 = ethPIp ∧ priv.scdbMac = sa ∧ priv.scdbEntry.isSome then
    ⟨.sent, (priv.scdbEntry.map priv.refresh).getD priv, skb.store 6 priv.macAddr.toList⟩
  else
    let vlanHdr := vlanHdrOf skb
    let handled := clientFrame env priv (stripVlan? skb vlanHdr)
    -- a frame that is passed on early keeps its header stripped
    match handled.res with
    | .sent => { handled with skb := restoreVlan? handled.skb vlanHdr }
    | _ => handled

end Rtl88x2bu.Bridge
