import Rtl88x2bu.Tx.Coalesce

/-!
# Fragments at the receiver

All fragments of a frame copy one header and carry one IV, so the receiver can only use a frame that
was not cut.
-/

namespace Rtl88x2bu.Tx

open List
open Rx

/-! ## The fragment number -/

theorem setWidth_append_low (high low : BitVec 8) :
    ((high ++ low : BitVec 16).setWidth 4) = low.setWidth 4 := by
  apply BitVec.eq_of_getLsbD_eq
  intro i small
  have octet : i < 8 := by omega
  rw [BitVec.getLsbD_setWidth, BitVec.getLsbD_setWidth, BitVec.getLsbD_append, if_pos octet]

theorem memcpyAt_getElem? {buf src : List UInt8} {offset i : ℕ}
    (fits : offset + src.length ≤ buf.length) (after : offset + src.length ≤ i) :
    (memcpyAt buf offset src)[i]? = buf[i]? := by
  have front : (buf.take offset ++ src).length = offset + src.length := by
    rw [length_append, length_take]
    omega
  rw [memcpyAt, List.getElem?_append_right (by omega), front, List.getElem?_drop]
  congr 1
  omega

theorem wlanAddrs_seqCtrl (subtype : DataSubtype) (w : WlanAddressing) :
    (wlanAddrs subtype w)[22]? = some 0 := by
  simp only [wlanAddrs]
  rw [memcpyAt_getElem? (by simp [memcpyAt, wlanhdrOffset]) (by simp),
    memcpyAt_getElem? (by simp [memcpyAt, wlanhdrOffset]) (by simp),
    memcpyAt_getElem? (by simp [wlanhdrOffset]) (by simp)]
  simp [wlanhdrOffset]

theorem wlanHdr_fragNum {pattrib : PktAttrib} {w : WlanAddressing}
    (qos : w.qosOption = true → pattrib.subtype = .qosData) (seqnum : BitVec 12) :
    (le16At (wlanHdr pattrib w seqnum) 22).setWidth 4 = 0#4 := by
  have octet : (wlanHdr pattrib w seqnum)[22]? =
      some (UInt8.ofBitVec ((seqnum <<< 4).setWidth 8)) := by
    have addrs := wlanAddrs_seqCtrl pattrib.subtype w
    simp only [wlanHdr, setSeqNum]
    generalize wlanAddrs pattrib.subtype w = hdr at addrs
    split_ifs with qosOption
    all_goals simp [PktAttrib.hdrlen, *]
  rw [le16At, setWidth_append_low, getD_eq_getElem?_getD, octet]
  ext i h
  simp
/-! ## What the receiver sees -/

/-- After decryption: the ICV is still at the end, and the buffer has `room` octets left. -/
def TxFragment.received (pattrib : PktAttrib) (room : ℕ) (t : TxFragment) : RecvFrame :=
  let rxData := t.hdr ++ t.iv ++ t.llc ++ t.payload ++ pattrib.icv.toList.take pattrib.icvLen
  RecvFrame.parse {
    attrib := {
      hdrlen := pattrib.hdrlen
      qos := pattrib.subtype = .qosData
      encrypt := pattrib.encrypt
      ivLen := pattrib.ivLen
      icvLen := pattrib.icvLen
      ta := getAddr2 rxData
      ra := getAddr1 rxData }
    rxData
    tailroom := room }

def handedUp (stations : StaTable) : List RecvFrame → List RecvFrame
  | [] => []
  | f :: rest =>
    let out := queueFragment stations f
    out.frame.toList ++ handedUp out.stations rest

def recvBody (f : RecvFrame) : List UInt8 :=
  (f.rxData.drop (f.attrib.hdrlen + f.attrib.ivLen)).take
    (f.rxData.length - (f.attrib.hdrlen + f.attrib.ivLen) - f.attrib.icvLen)

/-- The packet number in an IV; TKIP stores its two low octets the other way round, with the WEP
seed between them. -/
def ivPn (encrypt : SecurityType) (iv : List UInt8) : ℕ :=
  let low := if encrypt = .tkip then [iv.getD 2 0, iv.getD 0 0] else [iv.getD 0 0, iv.getD 1 0]
  leNat (low ++ [iv.getD 4 0, iv.getD 5 0, iv.getD 6 0, iv.getD 7 0])

structure Reassemblable (stations : StaTable) (room : ℕ) (f : XmitFrame) (frags : List TxFragment) :
    Prop where
  numbers : frags.map (fun t => (t.received f.attrib room).attrib.fragNum.toNat) =
    List.range frags.length
  moreFrag : frags.map (fun t => (t.received f.attrib room).attrib.mfrag) =
    List.replicate (frags.length - 1) true ++ [false]
  pns : f.attrib.encrypt.hasPn = true ∨ f.attrib.encrypt = .tkip →
    (frags.map fun t => ivPn f.attrib.encrypt t.iv).IsChain fun a b => b = a + 1
  joined : (handedUp stations (frags.map (TxFragment.received f.attrib room))).map recvBody =
    [rtwPutSnap f.attrib.etherType ++ f.pkt]

/-! ## The headers of the fragments -/

section
variable {front back hdr : List UInt8} {offset n : ℕ}

theorem le16At_append (inside : offset + 1 < front.length) :
    le16At (front ++ back) offset = le16At front offset := by
  simp only [le16At]
  rw [getD_append _ _ _ _ inside, getD_append _ _ _ _ (Nat.lt_of_succ_lt inside)]

theorem le16At_take (inside : offset + 1 < n) : le16At (hdr.take n) offset = le16At hdr offset := by
  simp only [le16At, getD_eq_getElem?_getD]
  rw [List.getElem?_take_of_lt inside, List.getElem?_take_of_lt (Nat.lt_of_succ_lt inside)]

theorem le16At_modify {change : UInt8 → UInt8} (before : n < offset) :
    le16At (hdr.modify n change) offset = le16At hdr offset := by
  have low : n ≠ offset := before.ne
  have high : n ≠ offset + 1 := by omega
  simp [le16At, low, high]

end

variable {fragLen : FragLen} {pattrib : PktAttrib} {pktlen hwOffset frgInx memStart : ℕ}
  {hdr pktfile : List UInt8} {frags : List TxFragment}

variable (pattrib) in
theorem TxFragment.received_fragNum {t : TxFragment} (room : ℕ) (whole : 24 ≤ t.hdr.length) :
    (t.received pattrib room).attrib.fragNum = (le16At t.hdr 22).setWidth 4 := by
  simp only [received, RecvFrame.parse, append_assoc]
  rw [le16At_append (by omega)]

theorem FragmentsOf.seqCtrl
    (of : FragmentsOf fragLen pattrib pktlen hdr hwOffset frgInx memStart pktfile frags)
    (whole : pattrib.hdrlen ≤ hdr.length) :
    ∀ t ∈ frags, t.hdr.length = pattrib.hdrlen ∧ le16At t.hdr 22 = le16At hdr 22 := by
  obtain ⟨front, last, rfl, marked, unmarked, _⟩ := of.headers
  have hdrlen := pattrib.le_hdrlen
  intro t member
  have shape : t.hdr = setMFrag (hdr.take pattrib.hdrlen) ∨
      t.hdr = clearMFrag (setMFrag (hdr.take pattrib.hdrlen)) := by
    rcases mem_append.mp member with early | final
    · exact .inl (marked t early)
    · cases mem_singleton.mp final
      exact .inr unmarked
  rcases shape with shape | shape
  · rw [shape]
    constructor
    · simpa [setMFrag] using whole
    · rw [setMFrag, le16At_modify (by decide), le16At_take (by omega)]
  · rw [shape]
    constructor
    · simpa [setMFrag, clearMFrag] using whole
    · rw [clearMFrag, le16At_modify (by decide), setMFrag, le16At_modify (by decide),
        le16At_take (by omega)]

variable (hdr) in
theorem clearMFrag_mfrag : (le16At (clearMFrag hdr) 0).getLsbD 10 = false := by
  simp only [le16At, BitVec.getLsbD_append]
  rw [if_neg (by decide), getD_eq_getElem?_getD, clearMFrag, List.getElem?_modify_eq]
  cases hdr[0 + 1]? with
  | none => rfl
  | some o => simp

/-! ## Cut and whole frames -/

theorem FragmentsOf.not_numbered {room : ℕ}
    (of : FragmentsOf fragLen pattrib pktlen hdr hwOffset 0 memStart pktfile frags)
    (whole : pattrib.hdrlen ≤ hdr.length) (several : frags.length ≠ 1) :
    frags.map (fun t => (t.received pattrib room).attrib.fragNum.toNat) ≠
      List.range frags.length := by
  have headers := of.seqCtrl whole
  have hdrlen := pattrib.le_hdrlen
  obtain ⟨t, u, rest, rfl, -⟩ := of.cut several
  intro numbered
  obtain ⟨tLength, tCtrl⟩ := headers t (by simp)
  obtain ⟨uLength, uCtrl⟩ := headers u (by simp)
  simp only [map_cons, length_cons, range_succ_eq_map, map_map,
    cons.injEq] at numbered
  obtain ⟨first, second, -⟩ := numbered
  rw [t.received_fragNum pattrib room (by omega), tCtrl] at first
  rw [u.received_fragNum pattrib room (by omega), uCtrl, first] at second
  exact absurd second (by decide)

theorem reassemblable_single {room : ℕ} {f : XmitFrame} {stations : StaTable} {t : TxFragment}
    (length : t.hdr.length = f.attrib.hdrlen)
    (number : (le16At t.hdr 22).setWidth 4 = 0#4) (final : (le16At t.hdr 0).getLsbD 10 = false)
    (iv : t.iv.length = f.attrib.ivLen) (icv : (f.attrib.icv.toList.take f.attrib.icvLen).length =
      f.attrib.icvLen)
    (body : t.llc ++ t.payload = rtwPutSnap f.attrib.etherType ++ f.pkt) :
    Reassemblable stations room f [t] := by
  have hdrlen := f.attrib.le_hdrlen
  have fragNum := t.received_fragNum f.attrib room (by omega)
  have mfrag : (t.received f.attrib room).attrib.mfrag = false := by
    simp only [TxFragment.received, RecvFrame.parse, append_assoc]
    rw [le16At_append (by omega), final]
  constructor
  case numbers => simp [fragNum, number]
  case moreFrag => simp [mfrag]
  case pns => simp
  case joined =>
    have complete : (t.received f.attrib room).isFragment = false := by
      simp [RecvFrame.isFragment, mfrag, fragNum, number]
    simp only [map_cons, map_nil, handedUp, queueFragment, complete]
    simp only [Bool.not_false, if_true, Option.toList_some, append_nil, map_cons,
      map_nil, cons.injEq, and_true]
    have front : (t.hdr ++ t.iv).length = f.attrib.hdrlen + f.attrib.ivLen := by
      rw [length_append, length, iv]
    have shape : (t.received f.attrib room).rxData = (t.hdr ++ t.iv) ++ ((t.llc ++ t.payload) ++
        f.attrib.icv.toList.take f.attrib.icvLen) := by
      simp [TxFragment.received, RecvFrame.parse]
    have between : (t.received f.attrib room).rxData.length - (f.attrib.hdrlen + f.attrib.ivLen) -
        f.attrib.icvLen = (t.llc ++ t.payload).length := by
      simp only [shape, length_append, length, iv, icv]
      omega
    calc recvBody (t.received f.attrib room)
        = ((t.received f.attrib room).rxData.drop (f.attrib.hdrlen + f.attrib.ivLen)).take
          ((t.received f.attrib room).rxData.length - (f.attrib.hdrlen + f.attrib.ivLen) -
            f.attrib.icvLen) := rfl
      _ = t.llc ++ t.payload := by rw [between, shape, drop_left' front, take_left]
      _ = rtwPutSnap f.attrib.etherType ++ f.pkt := body

variable {env : XmitEnv} {f : XmitFrame} {bufAddr pktOffset : ℕ} {psta : Option (MacAddr × StaInfo)}
  {txseqTid txseqTid' : TxSeq} {c : Coalesced}

/-- `update_attrib` makes room for the QoS control field that `rtw_make_wlanhdr` writes. -/
def QosHeaderFits (env : XmitEnv) (pattrib : PktAttrib) : Prop :=
  ∀ w, wlanAddressing env pattrib = some w → w.qosOption = true → pattrib.subtype = .qosData

/-- The receiver gets back exactly the frames that were not cut. -/
theorem coalesce_reassemblable (stations : StaTable) (room : ℕ)
    (done : rtwXmitframeCoalesce env f bufAddr pktOffset psta txseqTid = some (txseqTid', some c)) :
    (c.frags.length ≠ 1 → ¬ Reassemblable stations room f c.frags) ∧
      (QosHeaderFits env f.attrib → c.frags.length = 1 →
        Reassemblable stations room f c.frags) := by
  obtain ⟨hdr, made, protect⟩ := rtwXmitframeCoalesce_some done
  obtain ⟨frags, -⟩ := protectFrags_some protect
  obtain ⟨w, seqnum, addressed, rfl⟩ := rtwMakeWlanhdr_some made
  have of := coalesceFrags_of env f bufAddr pktOffset (wlanHdr f.attrib w seqnum)
  rw [← frags] at of
  have whole : f.attrib.hdrlen ≤ (wlanHdr f.attrib w seqnum).length := by
    rw [wlanHdr_length]
    exact f.attrib.hdrlen_le.trans (by decide)
  constructor
  · intro several reassemblable
    exact of.not_numbered whole several reassemblable.numbers
  · intro qos one
    have headers := of.seqCtrl whole
    obtain ⟨t, only, _, tHdr, tIv, llc, payload, _⟩ := of.single le_rfl one
    obtain ⟨length, seqCtrl⟩ := headers t (by simp [only])
    rw [only]
    apply reassemblable_single length
    · rw [seqCtrl]
      exact wlanHdr_fragNum (qos w addressed) seqnum
    · rw [tHdr]
      exact clearMFrag_mfrag _
    · simpa [tIv] using f.attrib.ivLen_le.trans (by decide)
    · simpa using f.attrib.icvLen_le
    · rw [llc, payload]
      rfl

def cutFrame : XmitFrame :=
  { ccmpFrame 300 with
    attrib := { (ccmpFrame 300).attrib with iv := (Vector.replicate 18 0).set 0 1 } }

def sentRun : Option (TxSeq × Option Coalesced) :=
  rtwXmitframeCoalesce { fragLen := smallestFragLen } cutFrame 0 1 asocSta fun _ => 0

def senderOnly : StaTable := fun addr => if addr = Vector.replicate 6 0 then some {} else none

structure SentView where
  numbers : List ℕ
  pns : List ℕ
  handedUp : List (List UInt8)
  deriving DecidableEq

def sentView (c : Coalesced) : SentView where
  numbers := c.frags.map fun t => (t.received cutFrame.attrib 2000).attrib.fragNum.toNat
  pns := c.frags.map fun t => ivPn .aes t.iv
  handedUp :=
    (handedUp senderOnly (c.frags.map (TxFragment.received cutFrame.attrib 2000))).map recvBody

theorem sentRun_view : (sentRun.bind Prod.snd).map sentView =
    some ⟨[0, 0], [1, 1], [List.replicate 96 0]⟩ := by
  decide +kernel

theorem sentRun_some : ∃ seq c, sentRun = some (seq, some c) ∧
    sentView c = ⟨[0, 0], [1, 1], [List.replicate 96 0]⟩ := by
  have view := sentRun_view
  rcases run : sentRun with _ | ⟨seq, _ | c⟩ <;> rw [run] at view
  · cases view
  · cases view
  · exact ⟨seq, c, rfl, Option.some.inj view⟩

theorem coalesce_reassemblable_cut : ∃ seq c, sentRun = some (seq, some c) ∧
    c.frags.length = 2 ∧ ¬ Reassemblable senderOnly 2000 cutFrame c.frags := by
  obtain ⟨seq, c, run, view⟩ := sentRun_some
  have two : c.frags.length = 2 := by simpa [sentView] using congrArg (·.numbers.length) view
  exact ⟨seq, c, run, two, (coalesce_reassemblable senderOnly 2000 run).1 (by omega)⟩

theorem coalesce_fragments_lost : ∃ seq c, sentRun = some (seq, some c) ∧
    (sentView c).numbers = [0, 0] ∧ (sentView c).pns = [1, 1] ∧
    (sentView c).handedUp = [List.replicate 96 0] ∧
    ¬ Reassemblable senderOnly 2000 cutFrame c.frags := by
  obtain ⟨seq, c, run, view⟩ := sentRun_some
  refine ⟨seq, c, run, by rw [view], by rw [view], by rw [view], ?_⟩
  intro reassemblable
  have joined := reassemblable.joined
  have handed := congrArg SentView.handedUp view
  rw [show (sentView c).handedUp = [rtwPutSnap cutFrame.attrib.etherType ++ cutFrame.pkt] from
    joined] at handed
  have lengths := congrArg List.length (cons.inj handed).1
  have sent : cutFrame.pkt.length = 300 := length_replicate
  rw [length_append, rtwPutSnap_length, sent, length_replicate] at lengths
  exact absurd lengths (by decide)

end Rtl88x2bu.Tx
