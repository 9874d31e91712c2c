import Rtl88x2bu.Rx.Llc

/-!
# From Ethernet to 802.11 and back

`rtw_put_snap` puts an LLC header before the payload of an Ethernet frame; `recv_process_mpdu`
parses it and `wlanhdr_to_ethhdr_kernel` writes an Ethernet header in front of the payload.
-/

namespace Rtl88x2bu.Rx

open List hiding Vector

def rxAddrs (toFrDs : BitVec 2) (whdr : List UInt8) : MacAddr × MacAddr :=
  if toFrDs = 0 then (getAddr1 whdr, getAddr2 whdr)
  else if toFrDs = 1 then (getAddr3 whdr, getAddr2 whdr)
  else if toFrDs = 2 then (getAddr1 whdr, getAddr3 whdr)
  else (getAddr3 whdr, getAddr4 whdr)

def ethHlen : ℕ := 14

def wlanhdrToEthhdr (f : RecvFrame) (src : MacAddr) (llcHdl : LlcHdl) : Option RecvFrame :=
  let f := if f.attrib.encrypt ≠ .noPrivacy then recvframePullTail f f.attrib.icvLen else f
  let rmvLen := f.attrib.hdrlen + f.attrib.ivLen + if llcHdl = .remove then snapSize else 0
  let len := BitVec.ofNat 16 f.rxData.length - BitVec.ofNat 16 rmvLen
  let pull := rmvLen - ethHlen + if llcHdl = .remove then 2 else 0
  if f.rxData.length < pull then none
  else
    let f := recvframePull f pull
    let data := memcpyAt (memcpyAt f.rxData 0 f.attrib.dst.toList) 6 src.toList
    some { f with rxData := if llcHdl = .keep then memcpyAt data 12 (putBe16 len) else data }

def decapsulate (f : RecvFrame) : Option RecvFrame :=
  let f := f.parse
  let addrs := rxAddrs f.attrib.toFrDs f.rxData
  let offset := f.attrib.hdrlen + f.attrib.ivLen
  let msduLen := BitVec.ofNat 16 f.rxData.length - BitVec.ofNat 16 offset -
    BitVec.ofNat 16 (if f.attrib.encrypt ≠ .noPrivacy then f.attrib.icvLen else 0)
  wlanhdrToEthhdr { f with attrib.dst := addrs.1 } addrs.2
    (recvLlcParse (f.rxData.drop offset) msduLen)

/-- An 802.11 data header, apart from its destination and source. -/
structure DataHdr where
  frameCtl : Vector UInt8 2
  duration : Vector UInt8 2
  seqCtl : Vector UInt8 2
  -- the BSSID; between access points the receiver
  bssid : MacAddr
  -- the transmitter between access points
  transmitter : MacAddr
  qosCtl : List UInt8

variable (hdr : DataHdr)

def DataHdr.toFrDs : BitVec 2 := (le16At hdr.frameCtl.toList 0).extractLsb' 8 2

/-- The four addresses of 802.11, in the order of the ToDS and FromDS bits. The fourth is only there
between access points. -/
def DataHdr.addrs (dst src : MacAddr) : MacAddr × MacAddr × MacAddr × List UInt8 :=
  if hdr.toFrDs = 0 then (dst, src, hdr.bssid, [])
  else if hdr.toFrDs = 1 then (hdr.bssid, src, dst, [])
  else if hdr.toFrDs = 2 then (dst, hdr.bssid, src, [])
  else (hdr.bssid, hdr.transmitter, dst, src.toList)

def DataHdr.bytes (dst src : MacAddr) : List UInt8 :=
  let addrs := hdr.addrs dst src
  hdr.frameCtl.toList ++ (hdr.duration.toList ++ (addrs.1.toList ++ (addrs.2.1.toList ++
    (addrs.2.2.1.toList ++ (hdr.seqCtl.toList ++ (addrs.2.2.2 ++ hdr.qosCtl))))))

/-- What goes around an MSDU: the header, the IV and the ICV, which only a protected frame has. -/
structure Encapsulation where
  hdr : DataHdr
  encrypt : SecurityType
  iv : List UInt8
  icv : List UInt8
  plain : encrypt = .noPrivacy → icv = []

def Encapsulation.frame (e : Encapsulation) (dst src : MacAddr) (etherType : BitVec 16)
    (payload : List UInt8) : RecvFrame :=
  { attrib :=
      { hdrlen := (e.hdr.bytes dst src).length, ivLen := e.iv.length, icvLen := e.icv.length
        encrypt := e.encrypt }
    rxData := e.hdr.bytes dst src ++ e.iv ++ (Tx.rtwPutSnap etherType ++ payload) ++ e.icv }

section Addresses

variable {front rest : List UInt8} {mac : MacAddr}

theorem macAt_append {whdr : List UInt8} {offset : ℕ} (parts : whdr = front ++ (mac.toList ++ rest))
    (before : front.length = offset) : macAt whdr offset = mac := by
  subst parts before
  have byte (i : ℕ) (inside : i < 6) :
      (front ++ (mac.toList ++ rest)).getD (front.length + i) 0 = mac[i] := by
    rw [getD_append_right _ _ _ _ (Nat.le_add_right _ _), Nat.add_sub_cancel_left,
      getD_append _ _ _ _ (by rw [Vector.length_toList]; exact inside),
      getD_eq_getElem _ _ (by rw [Vector.length_toList]; exact inside), Vector.getElem_toList]
  apply Vector.ext
  intro i inside
  rw [macAt]
  match i, inside with
  | 0, _ => exact byte 0 (by decide)
  | 1, _ => exact byte 1 (by decide)
  | 2, _ => exact byte 2 (by decide)
  | 3, _ => exact byte 3 (by decide)
  | 4, _ => exact byte 4 (by decide)
  | 5, _ => exact byte 5 (by decide)

theorem toFrDs_bytes (dst src : MacAddr) (rest : List UInt8) :
    (le16At (hdr.bytes dst src ++ rest) 0).extractLsb' 8 2 = hdr.toFrDs := by
  obtain ⟨⟨⟨bytes⟩, length⟩, duration, seqCtl, bssid, transmitter, qosCtl⟩ := hdr
  match bytes, length with
  | [_, _], _ => rfl

theorem rxAddrs_bytes (dst src : MacAddr) (rest : List UInt8) :
    rxAddrs hdr.toFrDs (hdr.bytes dst src ++ rest) = (dst, src) := by
  obtain ⟨⟨a1, a2, a3, a4⟩, addrs⟩ : ∃ addrs, hdr.addrs dst src = addrs := ⟨_, rfl⟩
  obtain ⟨whdr, whdr_eq⟩ : ∃ whdr, hdr.bytes dst src ++ rest = whdr := ⟨_, rfl⟩
  have parts : whdr = hdr.frameCtl.toList ++ (hdr.duration.toList ++ (a1.toList ++ (a2.toList ++
      (a3.toList ++ (hdr.seqCtl.toList ++ (a4 ++ (hdr.qosCtl ++ rest))))))) := by
    rw [← whdr_eq, DataHdr.bytes, addrs]
    simp only [append_assoc]
  have first : getAddr1 whdr = a1 :=
    @macAt_append (hdr.frameCtl.toList ++ hdr.duration.toList) _ a1 _ 4
      (by rw [parts]; simp only [append_assoc]; rfl) (by simp)
  have second : getAddr2 whdr = a2 :=
    @macAt_append (hdr.frameCtl.toList ++ hdr.duration.toList ++ a1.toList) _ a2 _ 10
      (by rw [parts]; simp only [append_assoc]; rfl) (by simp)
  have third : getAddr3 whdr = a3 :=
    @macAt_append (hdr.frameCtl.toList ++ hdr.duration.toList ++ a1.toList ++ a2.toList) _ a3 _ 16
      (by rw [parts]; simp only [append_assoc]; rfl) (by simp)
  have fourth (mac : MacAddr) (there : a4 = mac.toList) : getAddr4 whdr = mac :=
    @macAt_append (hdr.frameCtl.toList ++ hdr.duration.toList ++ a1.toList ++ a2.toList ++
      a3.toList ++ hdr.seqCtl.toList) _ mac _ 24
      (by rw [parts, there]; simp only [append_assoc]; rfl) (by simp)
  rw [whdr_eq, rxAddrs, first, second, third]
  rw [DataHdr.addrs] at addrs
  split_ifs at addrs ⊢ <;> cases addrs
  · rfl
  · rfl
  · rfl
  · rw [fourth src rfl]

end Addresses

section Decapsulate

theorem memcpyAt_append {front old new rest : List UInt8} (size : old.length = new.length) :
    memcpyAt (front ++ (old ++ rest)) front.length new = front ++ (new ++ rest) := by
  rw [memcpyAt, take_left, ← size, append_assoc, ← drop_drop, drop_left,
    drop_left]

theorem memcpyAt_addrs {old₁ old₂ rest : List UInt8} (size₁ : old₁.length = 6)
    (size₂ : old₂.length = 6) (dst src : MacAddr) :
    memcpyAt (memcpyAt (old₁ ++ (old₂ ++ rest)) 0 dst.toList) 6 src.toList =
      dst.toList ++ (src.toList ++ rest) := by
  have first : memcpyAt ([] ++ (old₁ ++ (old₂ ++ rest))) 0 dst.toList =
      [] ++ (dst.toList ++ (old₂ ++ rest)) :=
    @memcpyAt_append [] old₁ dst.toList _ (by rw [size₁, Vector.length_toList])
  have second : memcpyAt (dst.toList ++ (old₂ ++ rest)) 6 src.toList =
      dst.toList ++ (src.toList ++ rest) := by
    have placed := @memcpyAt_append dst.toList old₂ src.toList rest
      (by rw [size₂, Vector.length_toList])
    rwa [Vector.length_toList] at placed
  rw [nil_append, nil_append] at first
  rw [first, second]

/-- A decrypted frame, part by part: the header and the IV, the MSDU and the ICV. -/
structure Parts (f : RecvFrame) (front msdu icv : List UInt8) : Prop where
  data : f.rxData = front ++ msdu ++ icv
  offset : f.attrib.hdrlen + f.attrib.ivLen = front.length
  header : ethHlen ≤ front.length
  icvLen : f.attrib.icvLen = icv.length
  plain : f.attrib.encrypt = .noPrivacy → icv = []

variable {f : RecvFrame} {front msdu icv : List UInt8}

theorem Parts.cut (parts : Parts f front msdu icv) :
    ∃ g, (if f.attrib.encrypt ≠ .noPrivacy then recvframePullTail f f.attrib.icvLen else f) = g ∧
      g.rxData = front ++ msdu ∧ g.attrib = f.attrib := by
  split
  · refine ⟨_, rfl, ?_⟩
    have room : ¬ f.rxData.length < f.attrib.icvLen := by
      rw [parts.icvLen, parts.data, List.length_append]
      omega
    rw [recvframePullTail, if_neg room]
    refine ⟨?_, rfl⟩
    rw [parts.icvLen, parts.data, List.length_append, Nat.add_sub_cancel, take_left]
  next open_frame =>
    refine ⟨f, rfl, ?_, rfl⟩
    rw [parts.data, parts.plain (not_not.mp open_frame), append_nil]

theorem Parts.pull (parts : Parts f front msdu icv) {n : ℕ} (short : n ≤ ethHlen) :
    ∃ last, last.length = n ∧ ∀ g : RecvFrame, g.rxData = front ++ msdu → g.attrib = f.attrib →
      ¬ g.rxData.length < front.length - n ∧
      (recvframePull g (front.length - n)).rxData = last ++ msdu ∧
      (recvframePull g (front.length - n)).attrib = f.attrib := by
  have header := parts.header
  refine ⟨front.drop (front.length - n), by rw [length_drop]; omega, fun g data attrib => ?_⟩
  have room : ¬ g.rxData.length < front.length - n := by
    rw [data, List.length_append]
    omega
  refine ⟨room, ?_⟩
  rw [recvframePull, if_neg room]
  refine ⟨?_, attrib⟩
  rw [data]
  exact drop_append_of_le_length (Nat.sub_le _ _)

theorem Parts.remove {oui rest : List UInt8} (parts : Parts f front (oui ++ rest) icv)
    (size : oui.length = snapSize) (src : MacAddr) :
    (wlanhdrToEthhdr f src .remove).map RecvFrame.rxData =
      some (f.attrib.dst.toList ++ (src.toList ++ rest)) := by
  obtain ⟨g, cut, data, attrib⟩ := parts.cut
  obtain ⟨last, six, pulls⟩ := parts.pull (show 6 ≤ ethHlen by decide)
  obtain ⟨room, pulled, attrib'⟩ := pulls g data attrib
  have pull : g.attrib.hdrlen + g.attrib.ivLen + snapSize - ethHlen + 2 = front.length - 6 := by
    have header := parts.header
    rw [attrib, parts.offset, snapSize, ethHlen]
    rw [ethHlen] at header
    omega
  simp only [wlanhdrToEthhdr, cut, if_true, pull, if_neg room, Option.map_some, reduceCtorEq,
    if_false, pulled, attrib']
  rw [memcpyAt_addrs six size]

theorem length_memcpyAt {buf src : List UInt8} {offset : ℕ}
    (fits : offset + src.length ≤ buf.length) :
    (memcpyAt buf offset src).length = buf.length := by
  simp only [memcpyAt, List.length_append, length_take, length_drop]
  omega

theorem Parts.length_keep (parts : Parts f front msdu icv) (src : MacAddr) :
    (wlanhdrToEthhdr f src .keep).map (List.length ∘ RecvFrame.rxData) =
      some (ethHlen + msdu.length) := by
  obtain ⟨g, cut, data, attrib⟩ := parts.cut
  obtain ⟨last, whole, pulls⟩ := parts.pull (Nat.le_refl ethHlen)
  obtain ⟨room, pulled, attrib'⟩ := pulls g data attrib
  have pull : g.attrib.hdrlen + g.attrib.ivLen + 0 - ethHlen + 0 = front.length - ethHlen := by
    rw [attrib, parts.offset]
    rfl
  have header : (last ++ msdu).length = ethHlen + msdu.length := by rw [List.length_append, whole]
  have fits : 14 ≤ (last ++ msdu).length := by
    rw [header, ethHlen]
    omega
  simp only [wlanhdrToEthhdr, cut, reduceCtorEq, if_false, pull, if_neg room, Option.map_some,
    if_true, pulled, attrib', Function.comp_apply]
  rw [length_memcpyAt, length_memcpyAt, length_memcpyAt, header]
  · rw [Vector.length_toList]
    omega
  · rw [length_memcpyAt (by rw [Vector.length_toList]; omega), Vector.length_toList]
    omega
  · rw [length_memcpyAt, length_memcpyAt, length_putBe16]
    · exact fits
    · rw [Vector.length_toList]
      omega
    · rw [length_memcpyAt (by rw [Vector.length_toList]; omega), Vector.length_toList]
      omega

end Decapsulate

section RoundTrip

variable (e : Encapsulation) (dst src : MacAddr) (etherType : BitVec 16) (payload : List UInt8)

theorem le_length_bytes (hdr : DataHdr) : 24 ≤ (hdr.bytes dst src).length := by
  simp only [DataHdr.bytes, List.length_append, Vector.length_toList]
  omega

theorem msduLen_toNat (front msdu icv : ℕ) :
    (BitVec.ofNat 16 (front + msdu + icv) - BitVec.ofNat 16 front - BitVec.ofNat 16 icv).toNat =
      msdu % 65536 := by
  simp only [BitVec.toNat_sub, BitVec.toNat_ofNat]
  omega

theorem decapsulate_frame :
    ∃ f msduLen, Parts f (e.hdr.bytes dst src ++ e.iv) (Tx.rtwPutSnap etherType ++ payload) e.icv ∧
      f.attrib.dst = dst ∧ msduLen.toNat = (8 + payload.length) % 65536 ∧
      decapsulate (e.frame dst src etherType payload) =
        wlanhdrToEthhdr f src
          (recvLlcParse (Tx.rtwPutSnap etherType ++ (payload ++ e.icv)) msduLen) := by
  obtain ⟨g, g_eq⟩ : ∃ g, (e.frame dst src etherType payload).parse = g := ⟨_, rfl⟩
  have attrib : g.attrib.hdrlen = (e.hdr.bytes dst src).length ∧ g.attrib.ivLen = e.iv.length ∧
      g.attrib.icvLen = e.icv.length ∧ g.attrib.encrypt = e.encrypt := by
    rw [← g_eq]
    exact ⟨rfl, rfl, rfl, rfl⟩
  have data : g.rxData =
      e.hdr.bytes dst src ++ e.iv ++ (Tx.rtwPutSnap etherType ++ payload) ++ e.icv := by
    rw [← g_eq]
    rfl
  have toFrDs : g.attrib.toFrDs = e.hdr.toFrDs := by
    rw [← toFrDs_bytes e.hdr dst src (e.iv ++ (Tx.rtwPutSnap etherType ++ payload) ++ e.icv),
      ← g_eq]
    simp only [RecvFrame.parse, Encapsulation.frame, append_assoc]
  have addrs : rxAddrs g.attrib.toFrDs g.rxData = (dst, src) := by
    rw [toFrDs, data, append_assoc, append_assoc]
    exact rxAddrs_bytes e.hdr dst src _
  have offset : g.attrib.hdrlen + g.attrib.ivLen = (e.hdr.bytes dst src ++ e.iv).length := by
    rw [attrib.1, attrib.2.1, List.length_append]
  have icvLen : (if g.attrib.encrypt ≠ .noPrivacy then g.attrib.icvLen else 0) = e.icv.length := by
    split
    · exact attrib.2.2.1
    next open_frame =>
      rw [e.plain (attrib.2.2.2.symm.trans (not_not.mp open_frame))]
      rfl
  have size : g.rxData.length = (e.hdr.bytes dst src ++ e.iv).length + (8 + payload.length) +
      e.icv.length := by
    simp only [data, List.length_append, Tx.rtwPutSnap_length]
  have msdu : g.rxData.drop (e.hdr.bytes dst src ++ e.iv).length =
      Tx.rtwPutSnap etherType ++ (payload ++ e.icv) := by
    rw [data, append_assoc (e.hdr.bytes dst src ++ e.iv), drop_left, append_assoc]
  refine ⟨{ g with attrib.dst := dst }, _, ⟨data, offset, ?_, attrib.2.2.1, ?_⟩, rfl,
    msduLen_toNat (e.hdr.bytes dst src ++ e.iv).length (8 + payload.length) e.icv.length, ?_⟩
  · have header := le_length_bytes dst src e.hdr
    rw [List.length_append, ethHlen]
    omega
  · exact fun open_frame => e.plain (attrib.2.2.2.symm.trans open_frame)
  · simp only [decapsulate, g_eq, addrs, offset, icvLen, size, msdu]

theorem decapsulate_ne_of_overflow {e : Encapsulation} {dst src : MacAddr} {etherType : BitVec 16}
    {payload : List UInt8} (short : (8 + payload.length) % 65536 < 8) :
    (decapsulate (e.frame dst src etherType payload)).map RecvFrame.rxData ≠
      some (ethernetFrame dst src etherType payload) := by
  obtain ⟨f, msduLen, parts, -, size, received⟩ := decapsulate_frame e dst src etherType payload
  have kept : recvLlcParse (Tx.rtwPutSnap etherType ++ (payload ++ e.icv)) msduLen = .keep := by
    rw [recvLlcParse, if_pos (by rw [size]; exact short)]
  intro same
  rw [received, kept] at same
  have sizes := congrArg (Option.map List.length) same
  rw [Option.map_map, parts.length_keep] at sizes
  simp only [Option.map_some, Option.some.injEq, ethernetFrame, List.length_append,
    Vector.length_toList, length_putBe16, Tx.rtwPutSnap_length, ethHlen] at sizes
  omega

end RoundTrip

/-- For every header form, protection, destination, source, type and payload, an Ethernet frame
comes back as it was sent exactly if the length of the MSDU, in 16 bits, has room for the LLC
header. -/
theorem ethernet_framing_round_trip_iff (e : Encapsulation) (dst src : MacAddr)
    (etherType : BitVec 16) (payload : List UInt8) :
    (decapsulate (e.frame dst src etherType payload)).map RecvFrame.rxData =
        some (ethernetFrame dst src etherType payload) ↔
      8 ≤ (8 + payload.length) % 65536 := by
  obtain ⟨f, msduLen, parts, dst_eq, size, received⟩ :=
    decapsulate_frame e dst src etherType payload
  rw [received, ← size]
  by_cases long : 8 ≤ msduLen.toNat
  · -- the header is taken off
    obtain ⟨oui, written, oui_size, -⟩ := rtwPutSnap_eq etherType
    rw [written, append_assoc] at parts
    rw [recvLlcParse_putSnap etherType _ long, parts.remove oui_size, dst_eq, ethernetFrame]
    exact iff_of_true rfl long
  · -- the header is taken for payload
    rw [← received]
    exact iff_of_false (decapsulate_ne_of_overflow (by omega)) long

def fromDsFrame : Encapsulation where
  hdr :=
    { frameCtl := #v[0x08, 0x02], duration := #v[0, 0], seqCtl := #v[0, 0]
      bssid := Vector.replicate 6 1, transmitter := Vector.replicate 6 1, qosCtl := [] }
  encrypt := .noPrivacy
  iv := []
  icv := []
  plain _ := rfl

theorem long_payload_keeps_llc :
    (decapsulate (fromDsFrame.frame (Vector.replicate 6 2) (Vector.replicate 6 3) 0x0800
        (List.replicate 65528 0))).map RecvFrame.rxData ≠
      some (ethernetFrame (Vector.replicate 6 2) (Vector.replicate 6 3) 0x0800
        (List.replicate 65528 0)) := by
  apply decapsulate_ne_of_overflow
  rw [length_replicate]
  decide

end Rtl88x2bu.Rx
