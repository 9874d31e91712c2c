import Rtl88x2bu.Rx.Amsdu
import Rtl88x2bu.Rx.EthernetFraming

/-!
# Packing an A-MSDU

`rtw_xmitframe_coalesce_amsdu` (`core/rtw_xmit.c`) packs one or two frames; the first is padded to a
multiple of four with whatever the buffer holds. Here a list of frames is packed.
-/

namespace Rtl88x2bu.Tx

open List
open Rx (MacAddr SecurityType RecvFrame Status Subframe AmsduEnv Parts putBe16 be16At ethHdrSize
  paddingLen subframeAt subframeLength subframesFrom delivered amsduBody amsduToMsdu
  validateAmsduContent
  ethernetFrame recvframePull recvframePullTail length_putBe16)

variable (stale : ℕ → UInt8)

def amsduSubframe (f : XmitFrame) : List UInt8 :=
  f.attrib.dst.toList ++ (f.attrib.src.toList ++
    (putBe16 (BitVec.ofNat 16 (8 + f.pkt.length)) ++ (rtwPutSnap f.attrib.etherType ++ f.pkt)))

def amsduPadding (f : XmitFrame) : ℕ :=
  let padding := 4 - (ethHdrSize + (8 + f.pkt.length)) % 4
  if padding = 4 then 0 else padding

/-- The body: `pxmitframe_queue`, if there is one, and `pxmitframe`. The padding is not written, so
that it is what the buffer holds. -/
def coalesceAmsduBody (pxmitframe : XmitFrame) (pxmitframeQueue : Option XmitFrame) : List UInt8 :=
  match pxmitframeQueue with
  | none => amsduSubframe pxmitframe
  | some queue =>
    amsduSubframe queue ++ ((List.range (amsduPadding queue)).map stale ++ amsduSubframe pxmitframe)

def amsduIcv (pattrib : PktAttrib) : List UInt8 :=
  if pattrib.icvLen > 0 && pattrib.bswenc then pattrib.icv.toList.take pattrib.icvLen else []

/-- `rtw_xmitframe_coalesce_amsdu` up to the MIC and the encryption. -/
def rtwXmitframeCoalesceAmsdu (env : XmitEnv) (psta : Option (MacAddr × StaInfo)) (txseqTid : TxSeq)
    (stale : ℕ → UInt8) (pxmitframe : XmitFrame) (pxmitframeQueue : Option XmitFrame) :
    Option (List UInt8 × TxSeq) :=
  let pattrib := { pxmitframe.attrib with amsdu := true }
  match rtwMakeWlanhdr env psta txseqTid pattrib with
  | none => none
  | some (hdr, txseqTid) =>
    some ((clearMFrag hdr).take pattrib.hdrlen ++ pattrib.iv.toList.take pattrib.ivLen ++
      coalesceAmsduBody stale pxmitframe pxmitframeQueue ++ amsduIcv pattrib, txseqTid)

def packSubframes (stale : ℕ → UInt8) : List XmitFrame → List UInt8
  | [] => []
  | [f] => amsduSubframe f
  | f :: g :: rest =>
    amsduSubframe f ++ ((List.range (amsduPadding f)).map stale ++ packSubframes stale (g :: rest))

theorem coalesceAmsduBody_eq (pxmitframe : XmitFrame) (pxmitframeQueue : Option XmitFrame) :
    coalesceAmsduBody stale pxmitframe pxmitframeQueue =
      packSubframes stale (pxmitframeQueue.toList ++ [pxmitframe]) := by
  cases pxmitframeQueue <;> rfl

def XmitFrame.subframe (f : XmitFrame) : Subframe where
  da := f.attrib.dst
  sa := f.attrib.src
  msdu := rtwPutSnap f.attrib.etherType ++ f.pkt

section

variable {f : XmitFrame} {front rest : List UInt8}

theorem amsduPadding_eq : amsduPadding f = paddingLen (8 + f.pkt.length) := by
  rw [amsduPadding, paddingLen, Nat.add_comm]

theorem length_amsduSubframe : (amsduSubframe f).length = ethHdrSize + (8 + f.pkt.length) := by
  simp only [amsduSubframe, length_append, Vector.length_toList, length_putBe16,
    rtwPutSnap_length, ethHdrSize]
  omega

theorem subframeLength_pack (short : 8 + f.pkt.length < 65536) :
    subframeLength (front ++ (amsduSubframe f ++ rest)) front.length = 8 + f.pkt.length := by
  have place : front.length + 12 =
      (front ++ (f.attrib.dst.toList ++ f.attrib.src.toList)).length := by
    rw [length_append, length_append, Vector.length_toList, Vector.length_toList]
  have parts : front ++ (amsduSubframe f ++ rest) =
      front ++ (f.attrib.dst.toList ++ f.attrib.src.toList) ++
        (putBe16 (BitVec.ofNat 16 (8 + f.pkt.length)) ++
          (rtwPutSnap f.attrib.etherType ++ f.pkt ++ rest)) := by
    simp only [amsduSubframe, append_assoc]
  rw [subframeLength, place, parts, Rx.be16At_putBe16, BitVec.toNat_ofNat, Nat.mod_eq_of_lt short]

theorem subframeAt_pack (short : 8 + f.pkt.length < 65536) :
    subframeAt (front ++ (amsduSubframe f ++ rest)) front.length = f.subframe := by
  have da : Rx.macAt (front ++ (amsduSubframe f ++ rest)) front.length = f.attrib.dst :=
    Rx.macAt_append (by rw [amsduSubframe]; simp only [append_assoc]; rfl) rfl
  have sa : Rx.macAt (front ++ (amsduSubframe f ++ rest)) (front.length + 6) = f.attrib.src :=
    @Rx.macAt_append (front ++ f.attrib.dst.toList) _ _ _ _
      (by rw [amsduSubframe]; simp only [append_assoc]; rfl)
      (by rw [length_append, Vector.length_toList])
  have msdu : ((front ++ (amsduSubframe f ++ rest)).drop (front.length + ethHdrSize)).take
      (8 + f.pkt.length) = rtwPutSnap f.attrib.etherType ++ f.pkt := by
    have header : (f.attrib.dst.toList ++ (f.attrib.src.toList ++
        putBe16 (BitVec.ofNat 16 (8 + f.pkt.length)))).length = ethHdrSize := by
      simp only [length_append, Vector.length_toList, length_putBe16, ethHdrSize]
    have parts : amsduSubframe f ++ rest =
        (f.attrib.dst.toList ++ (f.attrib.src.toList ++
          putBe16 (BitVec.ofNat 16 (8 + f.pkt.length)))) ++
        (rtwPutSnap f.attrib.etherType ++ f.pkt ++ rest) := by
      simp only [amsduSubframe, append_assoc]
    have size : (rtwPutSnap f.attrib.etherType ++ f.pkt).length = 8 + f.pkt.length := by
      rw [length_append, rtwPutSnap_length]
    rw [← drop_drop, drop_left, parts, ← header, drop_left, ← size, take_left]
  rw [subframeAt, subframeLength_pack short, da, sa, msdu, XmitFrame.subframe]

theorem subframesFrom_pack_cons (short : 8 + f.pkt.length < 65536) :
    subframesFrom (front ++ (amsduSubframe f ++ rest)) front.length =
      f.subframe :: subframesFrom (front ++ (amsduSubframe f ++ rest))
        (front.length + (amsduSubframe f).length + amsduPadding f) := by
  have size : (front ++ (amsduSubframe f ++ rest)).length - front.length =
      ethHdrSize + (8 + f.pkt.length) + rest.length := by
    rw [length_append, length_append, length_amsduSubframe]
    omega
  rw [subframesFrom, subframeLength_pack short, size, if_neg (by omega), if_neg (by omega),
    subframeAt_pack short, amsduPadding_eq, length_amsduSubframe,
    Nat.add_assoc front.length ethHdrSize (8 + f.pkt.length)]

theorem subframesFrom_pack (fs : List XmitFrame) (front : List UInt8)
    (short : ∀ f ∈ fs, 8 + f.pkt.length < 65536) :
    subframesFrom (front ++ packSubframes stale fs) front.length =
      fs.map XmitFrame.subframe := by
  fun_induction packSubframes stale fs generalizing front with
  | case1 =>
    apply Rx.subframesFrom_of_short
    rw [append_nil, Nat.sub_self]
    exact Nat.zero_le _
  | case2 f =>
    have last := @subframesFrom_pack_cons f front [] (short f mem_cons_self)
    rw [append_nil] at last
    rw [last, Rx.subframesFrom_of_short]
    · rfl
    · rw [length_append]
      omega
  | case3 f g rest ih =>
    rw [subframesFrom_pack_cons (short f mem_cons_self)]
    -- the walk goes on with everything so far in front of it
    have next := ih (front ++ (amsduSubframe f ++ (List.range (amsduPadding f)).map stale))
      fun h member => short h (mem_cons_of_mem _ member)
    have place : (front ++ (amsduSubframe f ++ (List.range (amsduPadding f)).map stale)).length =
        front.length + (amsduSubframe f).length + amsduPadding f := by
      rw [length_append, length_append, length_map, length_range, Nat.add_assoc]
    rw [place] at next
    simp only [append_assoc] at next
    rw [next]
    rfl

theorem packet_subframe (short : 8 + f.pkt.length < 65536) :
    f.subframe.packet = ethernetFrame f.attrib.dst f.attrib.src f.attrib.etherType f.pkt := by
  have removed : f.subframe.llcHdl = .remove := by
    apply Rx.recvLlcParse_putSnap
    change 8 ≤ (BitVec.ofNat 16 (rtwPutSnap f.attrib.etherType ++ f.pkt).length).toNat
    rw [BitVec.toNat_ofNat, length_append, rtwPutSnap_length, Nat.mod_eq_of_lt short]
    exact Nat.le_add_right _ _
  rw [Subframe.packet, removed, Rx.allocMsduPkt, ethernetFrame]
  change f.attrib.dst.toList ++ (f.attrib.src.toList ++
    (rtwPutSnap f.attrib.etherType ++ f.pkt).drop Rx.snapSize) = _
  rw [Rx.drop_putSnap]

end

variable {f : RecvFrame}

theorem delivered_eq_map {env : AmsduEnv} {attrib : Rx.RxPktAttrib} {subs : List Subframe}
    (valid : ∀ sub ∈ subs, validateAmsduContent env attrib sub.da sub.sa ≠ .fail)
    (indicated : ∀ sub ∈ subs, sub.indicated env = true) :
    delivered env attrib subs = subs.map Subframe.packet := by
  have all : subs.takeWhile (Subframe.valid env attrib) = subs :=
    takeWhile_eq_self_iff.mpr fun sub member => bne_iff_ne.mpr (valid sub member)
  rw [delivered, all, filter_eq_self.mpr indicated]

theorem recvframePull_of_le {n : ℕ} (fits : n ≤ f.rxData.length) :
    (recvframePull f n).rxData = f.rxData.drop n ∧ (recvframePull f n).attrib = f.attrib := by
  rw [recvframePull, if_neg (Nat.not_lt.mpr fits)]
  exact ⟨rfl, rfl⟩

theorem amsduBody_parts {front body icv : List UInt8} (parts : Parts f front body icv) :
    amsduBody f = body := by
  have size : f.rxData.length = f.attrib.hdrlen + f.attrib.ivLen + body.length + icv.length := by
    rw [parts.data, length_append, length_append, parts.offset]
  obtain ⟨pulled, attrib⟩ := @recvframePull_of_le f f.attrib.hdrlen (by omega)
  obtain ⟨g, g_eq⟩ : ∃ g, recvframePull f f.attrib.hdrlen = g := ⟨_, rfl⟩
  rw [g_eq] at pulled attrib
  obtain ⟨h, h_eq, data, attrib'⟩ : ∃ h,
      (if g.attrib.ivLen > 0 then recvframePull g g.attrib.ivLen else g) = h ∧
      h.rxData = body ++ icv ∧ h.attrib = f.attrib := by
    have rest : f.rxData.drop (f.attrib.hdrlen + f.attrib.ivLen) = body ++ icv := by
      rw [parts.data, parts.offset, append_assoc, drop_left]
    rw [attrib]
    split
    · obtain ⟨pulled', attrib'⟩ := @recvframePull_of_le g f.attrib.ivLen
        (by rw [pulled, length_drop]; omega)
      exact ⟨_, rfl, by rw [pulled', pulled, drop_drop, rest], attrib'.trans attrib⟩
    next no_iv =>
      refine ⟨g, rfl, ?_, attrib⟩
      rw [pulled, ← rest, Nat.eq_zero_of_not_pos no_iv, Nat.add_zero]
  rw [amsduBody, g_eq]
  simp only [h_eq, attrib']
  split
  · have room : ¬ h.rxData.length < f.attrib.icvLen := by
      rw [data, parts.icvLen, length_append]
      omega
    rw [recvframePullTail, if_neg room]
    change h.rxData.take (h.rxData.length - f.attrib.icvLen) = body
    rw [data, parts.icvLen, length_append, Nat.add_sub_cancel, take_left]
  next open_frame => rw [data, parts.plain (not_not.mp open_frame), append_nil]

/-- A frame as it comes back from the air, decrypted; there may be an ICV behind it. -/
structure ReceivedAs (f : RecvFrame) (pattrib : PktAttrib) (mpdu : List UInt8) : Prop where
  hdrlen : f.attrib.hdrlen = pattrib.hdrlen
  ivLen : f.attrib.ivLen = pattrib.ivLen
  encrypt : f.attrib.encrypt = pattrib.encrypt
  data : ∃ icv, f.rxData = mpdu ++ icv ∧ f.attrib.icvLen = (amsduIcv pattrib).length + icv.length ∧
    (pattrib.encrypt = .noPrivacy → icv = [])

theorem parts_of_coalesce {env : XmitEnv} {psta : Option (MacAddr × StaInfo)}
    {txseqTid txseqTid' : TxSeq} {stale : ℕ → UInt8} {pxmitframe : XmitFrame}
    {pxmitframeQueue : Option XmitFrame} {mpdu : List UInt8}
    (packed : rtwXmitframeCoalesceAmsdu env psta txseqTid stale pxmitframe pxmitframeQueue =
      some (mpdu, txseqTid'))
    (received : ReceivedAs f pxmitframe.attrib mpdu) :
    ∃ front icv, Parts f front (coalesceAmsduBody stale pxmitframe pxmitframeQueue) icv := by
  simp only [rtwXmitframeCoalesceAmsdu] at packed
  split at packed
  · cases packed
  next hdr seq made =>
  cases packed
  obtain ⟨w, seqnum, -, hdr_eq⟩ := rtwMakeWlanhdr_some made
  obtain ⟨hwIcv, data, icvLen, plain⟩ := received.data
  have hdr_length : (clearMFrag hdr).length = wlanhdrOffset := by
    rw [clearMFrag, length_modify, hdr_eq, wlanHdr_length]
  have hdrlen_le : pxmitframe.attrib.hdrlen ≤ wlanhdrOffset :=
    Nat.le_trans pxmitframe.attrib.hdrlen_le (by decide)
  have ivLen_le : pxmitframe.attrib.ivLen ≤ 18 :=
    Nat.le_trans pxmitframe.attrib.ivLen_le (by decide)
  refine ⟨(clearMFrag hdr).take pxmitframe.attrib.hdrlen ++
    pxmitframe.attrib.iv.toList.take pxmitframe.attrib.ivLen,
    amsduIcv pxmitframe.attrib ++ hwIcv, ?_, ?_, ?_, ?_, ?_⟩
  · rw [data, ← append_assoc]
    rfl
  · rw [received.hdrlen, received.ivLen, length_append, length_take, length_take,
      hdr_length, Vector.length_toList, Nat.min_eq_left hdrlen_le, Nat.min_eq_left ivLen_le]
  · have header := pxmitframe.attrib.le_hdrlen
    rw [length_append, length_take, hdr_length, Nat.min_eq_left hdrlen_le, Rx.ethHlen]
    omega
  · rw [icvLen, length_append]
  · intro open_frame
    rw [received.encrypt] at open_frame
    have none_there : pxmitframe.attrib.icvLen = 0 := by rw [PktAttrib.icvLen, open_frame]
    rw [plain open_frame, append_nil, amsduIcv, none_there]
    rfl

/-- What is packed comes out again: the frames of an A-MSDU are delivered in order, each as the
Ethernet frame it was, and nothing else, if the receiver accepts their addresses and their lengths
fit into the length field. -/
theorem amsdu_round_trip (env : AmsduEnv) (xmitEnv : XmitEnv) (psta : Option (MacAddr × StaInfo))
    (txseqTid txseqTid' : TxSeq) (stale : ℕ → UInt8) (pxmitframe : XmitFrame)
    (pxmitframeQueue : Option XmitFrame) (mpdu : List UInt8) (f : RecvFrame)
    (packed : rtwXmitframeCoalesceAmsdu xmitEnv psta txseqTid stale pxmitframe pxmitframeQueue =
      some (mpdu, txseqTid'))
    (received : ReceivedAs f pxmitframe.attrib mpdu)
    (short : ∀ m ∈ pxmitframeQueue.toList ++ [pxmitframe], m.pkt.length ≤ 65527)
    (valid : ∀ m ∈ pxmitframeQueue.toList ++ [pxmitframe],
      validateAmsduContent env f.attrib m.attrib.dst m.attrib.src ≠ .fail)
    (indicated : ∀ m ∈ pxmitframeQueue.toList ++ [pxmitframe], m.subframe.indicated env = true) :
    ∃ out, amsduToMsdu env f = some out ∧
      out.subframes = (pxmitframeQueue.toList ++ [pxmitframe]).map fun m =>
        ethernetFrame m.attrib.dst m.attrib.src m.attrib.etherType m.pkt := by
  obtain ⟨front, icv, parts⟩ := parts_of_coalesce packed received
  obtain ⟨fs, fs_eq⟩ : ∃ fs, pxmitframeQueue.toList ++ [pxmitframe] = fs := ⟨_, rfl⟩
  have few : fs.length ≤ 64 := by
    rw [← fs_eq]
    cases pxmitframeQueue <;> simp
  rw [fs_eq] at short valid indicated ⊢
  have short' : ∀ m ∈ fs, 8 + m.pkt.length < 65536 := by
    intro m member
    have bound := short m member
    omega
  obtain ⟨out, finished, -, packets⟩ := @Rx.amsduRounds_spec env f.attrib (amsduBody f) {} _
    (Nat.lt_succ_self _) (by decide) rfl
  have found : subframesFrom (amsduBody f) 0 = fs.map XmitFrame.subframe := by
    rw [amsduBody_parts parts, coalesceAmsduBody_eq, fs_eq]
    exact subframesFrom_pack stale fs [] short'
  have all : delivered env f.attrib (fs.map XmitFrame.subframe) =
      (fs.map XmitFrame.subframe).map Subframe.packet := by
    apply delivered_eq_map
    · intro sub member
      obtain ⟨m, there, rfl⟩ := mem_map.mp member
      exact valid m there
    · intro sub member
      obtain ⟨m, there, rfl⟩ := mem_map.mp member
      exact indicated m there
  refine ⟨out, finished, ?_⟩
  change out.subframes = (delivered env f.attrib (subframesFrom (amsduBody f) 0)).take 64 at packets
  rw [packets, found, all, map_map, take_of_length_le (by rw [length_map]; exact few)]
  exact map_congr_left fun m member => packet_subframe (short' m member)

def apFrame (dst : MacAddr) (etherType : BitVec 16) (pkt : List UInt8) : XmitFrame :=
  { attrib := { dst, src := Vector.replicate 6 3, etherType, psta := some someSta }, pkt }

def receivedAmsdu (mpdu : List UInt8) : RecvFrame :=
  { attrib := { hdrlen := 24 }, rxData := mpdu ++ [] }

theorem amsdu_round_trip_pair :
    ∃ mpdu txseqTid', rtwXmitframeCoalesceAmsdu { fragLen := smallestFragLen } asocSta (fun _ => 0)
        (fun _ => 0xaa) (apFrame someSta 0x0800 [1, 2, 3]) (some (apFrame someSta 0x8137 [])) =
          some (mpdu, txseqTid') ∧
      ∃ out, amsduToMsdu Rx.protectedStation (receivedAmsdu mpdu) = some out ∧
        out.subframes = [apFrame someSta 0x8137 [], apFrame someSta 0x0800 [1, 2, 3]].map fun m =>
          ethernetFrame m.attrib.dst m.attrib.src m.attrib.etherType m.pkt := by
  obtain ⟨⟨mpdu, txseqTid'⟩, packed⟩ : ∃ result, rtwXmitframeCoalesceAmsdu
    { fragLen := smallestFragLen } asocSta (fun _ => 0) (fun _ => 0xaa)
    (apFrame someSta 0x0800 [1, 2, 3]) (some (apFrame someSta 0x8137 [])) = some result := ⟨_, rfl⟩
  have valid : ∀ m ∈ [apFrame someSta 0x8137 [], apFrame someSta 0x0800 [1, 2, 3]],
      validateAmsduContent Rx.protectedStation { hdrlen := 24 } m.attrib.dst m.attrib.src ≠
        .fail := by
    decide
  refine ⟨mpdu, txseqTid', packed, ?_⟩
  exact amsdu_round_trip Rx.protectedStation { fragLen := smallestFragLen } asocSta (fun _ => 0)
    txseqTid' (fun _ => 0xaa) (apFrame someSta 0x0800 [1, 2, 3]) (some (apFrame someSta 0x8137 []))
    mpdu (receivedAmsdu mpdu) packed ⟨rfl, rfl, rfl, [], rfl, rfl, fun _ => rfl⟩ (by decide)
    valid (by decide)

theorem refused_subframe_not_delivered :
    ((rtwXmitframeCoalesceAmsdu { fragLen := smallestFragLen } asocSta (fun _ => 0) (fun _ => 0)
        (apFrame #v[0xaa, 0xaa, 0x03, 0, 0, 0] 0x0800 [1, 2, 3]) none).bind fun packed =>
      (amsduToMsdu Rx.protectedStation (receivedAmsdu packed.1)).map Rx.AmsduLoop.subframes) =
      some [] := by
  decide +kernel

end Rtl88x2bu.Tx
