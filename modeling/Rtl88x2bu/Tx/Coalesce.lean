import Rtl88x2bu.Tx.SwEncrypt

/-!
# Writing a frame into the transmit buffer

`rtw_xmitframe_coalesce` with `rtw_make_wlanhdr` (`core/rtw_xmit.c`) and
`rtw_calculate_wlan_pkt_size_by_attribue` (`rust/rtw_xmit.rs`). Addresses are offsets from the start
of the transmit buffer, which `rtw_alloc_xmitbuf` aligns to 512 octets.
-/

namespace Rtl88x2bu.Tx

open List hiding Vector
open Rx (MacAddr SecurityType isMcast memcpyAt)

variable (pattrib : PktAttrib) (hdr : List UInt8)

/-- The bits of `fw_state` that `rtw_make_wlanhdr` looks at, in the order it looks at them. -/
inductive FwState
  | station
  | ap
  | adhoc
  | other
  deriving DecidableEq, Repr

/-- What the transmit path reads of the adapter, with the group transmit MIC key in use. -/
structure XmitEnv where
  fragLen : FragLen
  fwState : FwState := .ap
  bssid : MacAddr := Vector.replicate 6 0
  qosOption : Bool := false
  grptxmickey : Vector UInt8 16 := Vector.replicate 16 0

variable (env : XmitEnv)

def rtwCalculateWlanPktSizeByAttribue (pktlen : ℕ) : ℕ :=
  pattrib.hdrlen + pattrib.ivLen + 8 + pktlen + pattrib.micLen + pattrib.swIcvLen

def rtwWlanPktSize (f : XmitFrame) : ℕ := rtwCalculateWlanPktSizeByAttribue f.attrib f.pkt.length

/-! ## The header -/

def wlanhdrOffset : ℕ := 64

structure WlanAddressing where
  ds : UInt8
  addr1 : MacAddr
  addr2 : MacAddr
  addr3 : MacAddr
  qosOption : Bool

def wlanAddressing (pattrib : PktAttrib) : Option WlanAddressing :=
  match env.fwState with
  | .station => some ⟨0x01, env.bssid, pattrib.ta, pattrib.dst, env.qosOption⟩
  | .ap => some ⟨0x02, pattrib.dst, env.bssid, pattrib.src, pattrib.qosEn⟩
  | .adhoc => some ⟨0x00, pattrib.dst, pattrib.ta, env.bssid, pattrib.qosEn⟩
  | .other => none

/-- `SetPriority`, `SetEOSP`, `SetAckpolicy` and `SetAMsdu` on the first octet of the QoS control
field. -/
def setQosControl (qc : UInt8) : UInt8 :=
  let qc := if pattrib.priority ≠ 0 then
    (qc &&& 0xf0) ||| (UInt8.ofBitVec pattrib.priority &&& 0x0f) else qc
  let qc := (qc &&& 0xef) ||| (if pattrib.eosp then (0x10 : UInt8) else 0)
  let qc := (qc &&& 0x9f) ||| UInt8.ofBitVec (pattrib.ackPolicy.setWidth 8 <<< (5 : ℕ))
  if pattrib.amsdu then qc ||| 0x80 else qc

def setSeqNum (seqnum : BitVec 12) : List UInt8 :=
  let low : UInt8 := UInt8.ofBitVec ((seqnum <<< 4).setWidth 8)
  let high : UInt8 := UInt8.ofBitVec ((seqnum >>> 4).setWidth 8)
  (hdr.modify 22 fun o => (o &&& 0x0f) ||| low).modify 23 fun _ => high

def setMFrag : List UInt8 := hdr.modify 1 fun o => o ||| 0x04

def clearMFrag : List UInt8 := hdr.modify 1 fun o => o &&& 0xfb

/-- The frame control field and the addresses, in `WLANHDR_OFFSET` octets that were cleared. -/
def wlanAddrs (subtype : DataSubtype) (w : WlanAddressing) : List UInt8 :=
  let hdr := List.replicate wlanhdrOffset 0
  let hdr := hdr.modify 0 fun o => (o &&& 0x03) ||| subtype.code
  let hdr := hdr.modify 1 fun o => o ||| w.ds
  let hdr := memcpyAt hdr 4 w.addr1.toList
  let hdr := memcpyAt hdr 10 w.addr2.toList
  memcpyAt hdr 16 w.addr3.toList

def wlanHdr (w : WlanAddressing) (seqnum : BitVec 12) : List UInt8 :=
  let hdr := wlanAddrs pattrib.subtype w
  let hdr := if pattrib.mdata then hdr.modify 1 fun o => o ||| 0x20 else hdr
  let hdr := if pattrib.encrypt ≠ .noPrivacy then hdr.modify 1 fun o => o ||| 0x40 else hdr
  let hdr := if w.qosOption then hdr.modify (pattrib.hdrlen - 2) (setQosControl pattrib) else hdr
  setSeqNum hdr seqnum

/-- `rtw_make_wlanhdr`, with the next sequence numbers. `psta` is what `rtw_get_stainfo` finds. -/
def rtwMakeWlanhdr (psta : Option (MacAddr × StaInfo)) (txseqTid : TxSeq) (pattrib : PktAttrib) :
    Option (List UInt8 × TxSeq) :=
  match wlanAddressing env pattrib, psta with
  | some w, some (addr, sta) =>
    if pattrib.psta ≠ some addr then none
    else if !sta.asoc then none
    else
      let seqnum := txseqTid pattrib.priority + 1
      some (wlanHdr pattrib w seqnum, Function.update txseqTid pattrib.priority seqnum)
  | _, _ => none

theorem wlanHdr_length (w : WlanAddressing) (seqnum : BitVec 12) :
    (wlanHdr pattrib w seqnum).length = wlanhdrOffset := by
  simp only [wlanHdr, setSeqNum]
  split_ifs <;> simp [wlanAddrs, memcpyAt, wlanhdrOffset]

theorem rtwMakeWlanhdr_some {env : XmitEnv} {psta : Option (MacAddr × StaInfo)}
    {txseqTid txseqTid' : TxSeq} {pattrib : PktAttrib} {hdr : List UInt8}
    (made : rtwMakeWlanhdr env psta txseqTid pattrib = some (hdr, txseqTid')) :
    ∃ w seqnum, wlanAddressing env pattrib = some w ∧ hdr = wlanHdr pattrib w seqnum := by
  cases found : wlanAddressing env pattrib with
  | none => simp [rtwMakeWlanhdr, found] at made
  | some w =>
    cases psta with
    | none => simp [rtwMakeWlanhdr, found] at made
    | some psta =>
      simp only [rtwMakeWlanhdr, found] at made
      split_ifs at made
      exact ⟨w, _, rfl, (Prod.mk.inj (Option.some.inj made)).1.symm⟩

def rtwPutSnap (hProto : BitVec 16) : List UInt8 :=
  let oui : List UInt8 :=
    if hProto = 0x8137 ∨ hProto = 0x80f3 then [0x00, 0x00, 0xf8] else [0x00, 0x00, 0x00]
  [0xaa, 0xaa, 0x03] ++ oui ++
    [UInt8.ofBitVec (hProto.extractLsb' 8 8), UInt8.ofBitVec (hProto.extractLsb' 0 8)]

@[simp]
theorem rtwPutSnap_length (hProto : BitVec 16) : (rtwPutSnap hProto).length = 8 := by
  simp only [rtwPutSnap]
  split <;> rfl

/-! ## The fragments -/

structure TxFragment where
  memStart : ℕ
  hdr : List UInt8
  iv : List UInt8
  llc : List UInt8
  payload : List UInt8
  icv : List UInt8

def TxFragment.mpdu (t : TxFragment) : List UInt8 := t.hdr ++ t.iv ++ t.llc ++ t.payload ++ t.icv

def TxFragment.finish (t : TxFragment) : ℕ := t.memStart + t.mpdu.length

section
variable (fragLen : FragLen) (pattrib : PktAttrib) (pktlen : ℕ) (hdr : List UInt8)

/-- Only the first fragment carries the LLC header. -/
def llcOf (frgInx : ℕ) : List UInt8 := if frgInx = 0 then rtwPutSnap pattrib.etherType else []

/-- What the source has left of `mpdu_len` when it reads the payload. -/
def mpduLen (frgInx : ℕ) : ℕ :=
  fragLen.val - 4 - pattrib.hdrlen - pattrib.ivLen - (llcOf pattrib frgInx).length -
    pattrib.swIcvLen

/-- Group addressed frames are not fragmented. -/
def readLen (frgInx : ℕ) : ℕ :=
  if isMcast pattrib.ra then pktlen else mpduLen fragLen pattrib frgInx

def coalesceTurn (frgInx memStart : ℕ) (pktfile : List UInt8) : TxFragment where
  memStart
  hdr := setMFrag (hdr.take pattrib.hdrlen)
  iv := pattrib.iv.toList.take pattrib.ivLen
  llc := llcOf pattrib frgInx
  payload := pktfile.take (readLen fragLen pattrib pktlen frgInx)
  icv := pattrib.icv.toList.take pattrib.swIcvLen

def coalesceLoop (hwHdrOffset : ℕ) : ℕ → ℕ → ℕ → List UInt8 → List TxFragment
  | 0, _, _, _ => []
  | fuel + 1, frgInx, memStart, pktfile =>
    let t := coalesceTurn fragLen pattrib pktlen hdr frgInx memStart pktfile
    let rest := pktfile.drop t.payload.length
    if isMcast pattrib.ra ∨ rest = [] then [{ t with hdr := clearMFrag t.hdr }]
    else t :: coalesceLoop hwHdrOffset fuel (frgInx + 1) (rnd4 t.finish + hwHdrOffset) rest

end

def fragCount (frags : List TxFragment) : FragCount :=
  let nrFrags := frags.length % 256
  match frags.getLast? with
  | none => ⟨nrFrags, 0⟩
  | some t => ⟨nrFrags, pattrib.hdrlen + pattrib.ivLen + (if nrFrags = 1 then t.llc.length else 0) +
      pattrib.swIcvLen + t.payload.length⟩

/-! ## The whole frame -/

/-- What `rtw_xmitframe_coalesce` leaves: the fragments, the MIC with its offset, the encrypted
payloads and the counts. -/
structure Coalesced where
  frags : List TxFragment
  micRead : List Extent
  micAt : Option ℕ
  encrypted : List Extent
  count : FragCount

def micKey (pattrib : PktAttrib) : Vector UInt8 16 :=
  if isMcast pattrib.ra then env.grptxmickey else pattrib.dot11tkiptxmickey

def hwHdrOffset (pktOffset : ℕ) : ℕ := txdescSize + pktOffset * packetOffsetSz

section
variable (env : XmitEnv) (f : XmitFrame) (bufAddr pktOffset : ℕ)

def coalesceFrags (hdr : List UInt8) : List TxFragment :=
  coalesceLoop env.fragLen f.attrib f.pkt.length hdr (hwHdrOffset pktOffset) (f.pkt.length + 1) 0
    (bufAddr + hwHdrOffset pktOffset) f.pkt

def protectFrags (frags : List TxFragment) : Option Coalesced :=
  let pframe := bufAddr + hwHdrOffset pktOffset
  let count := fragCount f.attrib frags
  if f.attrib.encrypt = .tkip then
    if micKey env f.attrib = Vector.replicate 16 0 then none
    else
      let mic := addmicLoop env.fragLen f.attrib count.lastTxcmdsz count.nrFrags pframe
      let count := { count with lastTxcmdsz := count.lastTxcmdsz + 8 }
      some ⟨frags, mic.1, some mic.2, xmitframeSwencrypt env.fragLen f.attrib count pframe, count⟩
  else some ⟨frags, [], none, xmitframeSwencrypt env.fragLen f.attrib count pframe, count⟩

/-- `rtw_xmitframe_coalesce`. A frame that fails behind its header has used up a sequence number. -/
def rtwXmitframeCoalesce (psta : Option (MacAddr × StaInfo)) (txseqTid : TxSeq) :
    Option (TxSeq × Option Coalesced) :=
  (rtwMakeWlanhdr env psta txseqTid f.attrib).map fun (hdr, txseqTid) =>
    (txseqTid, protectFrags env f bufAddr pktOffset (coalesceFrags env f bufAddr pktOffset hdr))

end

/-! ## What the loop writes -/

section
variable {fragLen : FragLen} {pattrib : PktAttrib} {pktlen : ℕ} {hdr : List UInt8} {hwOffset : ℕ}

variable (pattrib) in
theorem llcOf_length_le (frgInx : ℕ) : (llcOf pattrib frgInx).length ≤ 8 := by
  simp only [llcOf]
  split <;> simp

variable (fragLen pattrib) in
theorem mpduLen_pos (frgInx : ℕ) : 0 < mpduLen fragLen pattrib frgInx := by
  have low := fragLen.low
  have hdrlen := pattrib.hdrlen_le
  have ivLen := pattrib.ivLen_le
  have icvLen := pattrib.swIcvLen_le
  have llc := llcOf_length_le pattrib frgInx
  simp only [mpduLen]
  omega

variable (fragLen pattrib pktlen hdr hwOffset) in
/-- Only the last fragment may be shorter than its room, and a group addressed packet is one
fragment. -/
inductive FragmentsOf : ℕ → ℕ → List UInt8 → List TxFragment → Prop
  | last {frgInx memStart : ℕ} {pktfile : List UInt8} {t : TxFragment}
      (ends : isMcast pattrib.ra = true ∨ pktfile.length ≤ mpduLen fragLen pattrib frgInx)
      (turn : t = coalesceTurn fragLen pattrib pktlen hdr frgInx memStart pktfile) :
      FragmentsOf frgInx memStart pktfile [{ t with hdr := clearMFrag t.hdr }]
  | more {frgInx memStart : ℕ} {pktfile : List UInt8} {t : TxFragment} {rest : List TxFragment}
      (unicast : isMcast pattrib.ra = false)
      (long : mpduLen fragLen pattrib frgInx < pktfile.length)
      (turn : t = coalesceTurn fragLen pattrib pktlen hdr frgInx memStart pktfile)
      (later : FragmentsOf (frgInx + 1) (rnd4 t.finish + hwOffset)
        (pktfile.drop (mpduLen fragLen pattrib frgInx)) rest) :
      FragmentsOf frgInx memStart pktfile (t :: rest)

theorem coalesceLoop_fragmentsOf {fuel : ℕ} (frgInx memStart : ℕ) {pktfile : List UInt8}
    (enough : pktfile.length < fuel) :
    FragmentsOf fragLen pattrib pktlen hdr hwOffset frgInx memStart pktfile
      (coalesceLoop fragLen pattrib pktlen hdr hwOffset fuel frgInx memStart pktfile) := by
  induction fuel generalizing frgInx memStart pktfile with
  | zero => omega
  | succ fuel ih =>
    simp only [coalesceLoop]
    have room := mpduLen_pos fragLen pattrib frgInx
    cases group : isMcast pattrib.ra with
    | true =>
      rw [if_pos (Or.inl rfl)]
      exact .last (.inl group) rfl
    | false =>
      have taken :
          (coalesceTurn fragLen pattrib pktlen hdr frgInx memStart pktfile).payload.length =
            min (mpduLen fragLen pattrib frgInx) pktfile.length := by
        simp [coalesceTurn, readLen, group]
      rw [taken]
      by_cases long : mpduLen fragLen pattrib frgInx < pktfile.length
      · rw [min_eq_left long.le, if_neg (by simp [long])]
        exact .more group long rfl (ih _ _ (by rw [length_drop]; omega))
      · rw [min_eq_right (not_lt.mp long), if_pos (by simp)]
        exact .last (.inr (not_lt.mp long)) rfl

namespace FragmentsOf

variable {frgInx memStart : ℕ} {pktfile : List UInt8} {frags : List TxFragment}
  (of : FragmentsOf fragLen pattrib pktlen hdr hwOffset frgInx memStart pktfile frags)

include of

theorem payloads
    (whole : pktfile.length ≤ pktlen) : frags.flatMap TxFragment.payload = pktfile := by
  induction of with
  | last ends turn =>
    subst turn
    simp only [coalesceTurn, readLen, flatMap_cons, flatMap_nil, append_nil]
    split
    · exact take_of_length_le whole
    next unicast => exact take_of_length_le (ends.resolve_left unicast)
  | more unicast _ turn _ ih =>
    subst turn
    rw [flatMap_cons, ih (by rw [length_drop]; omega)]
    simp only [coalesceTurn, readLen, unicast, Bool.false_eq_true, if_false]
    exact take_append_drop _ _

theorem llc (later : 0 < frgInx) : ∀ t ∈ frags, t.llc = [] := by
  induction of with
  | last _ turn =>
    intro t member
    cases mem_singleton.mp member
    simp [turn, coalesceTurn, llcOf, later.ne']
  | more _ _ turn _ ih =>
    intro t member
    rcases mem_cons.mp member with first | rest
    · simp [first, turn, coalesceTurn, llcOf, later.ne']
    · exact ih (Nat.succ_pos _) t rest

theorem headers :
    ∃ front last, frags = front ++ [last] ∧
      (∀ t ∈ front, t.hdr = setMFrag (hdr.take pattrib.hdrlen)) ∧
      last.hdr = clearMFrag (setMFrag (hdr.take pattrib.hdrlen)) ∧
      ∀ t ∈ frags, t.iv = pattrib.iv.toList.take pattrib.ivLen := by
  induction of with
  | last _ turn =>
    subst turn
    refine ⟨[], _, rfl, by simp, rfl, ?_⟩
    intro t member
    cases mem_singleton.mp member
    rfl
  | @more _ _ _ t _ _ _ turn _ ih =>
    obtain ⟨front, last, split, marked, unmarked, ivs⟩ := ih
    refine ⟨t :: front, last, by rw [split]; rfl, ?_, unmarked, ?_⟩
    · simp only [forall_mem_cons]
      exact ⟨by rw [turn]; rfl, marked⟩
    · simp only [forall_mem_cons]
      exact ⟨by rw [turn]; rfl, ivs⟩

theorem single (whole : pktfile.length ≤ pktlen) (one : frags.length = 1) :
    ∃ t, frags = [t] ∧ t.memStart = memStart ∧
      t.hdr = clearMFrag (setMFrag (hdr.take pattrib.hdrlen)) ∧
      t.iv = pattrib.iv.toList.take pattrib.ivLen ∧ t.llc = llcOf pattrib frgInx ∧
      t.payload = pktfile ∧ t.icv = pattrib.icv.toList.take pattrib.swIcvLen := by
  have payloads := of.payloads whole
  cases of with
  | last ends turn =>
    subst turn
    refine ⟨_, rfl, rfl, rfl, rfl, rfl, ?_, rfl⟩
    simpa using payloads
  | more _ _ _ later =>
    cases later <;> simp at one

theorem cut (several : frags.length ≠ 1) :
    ∃ t u rest, frags = t :: u :: rest ∧ t.memStart = memStart ∧ t.llc = llcOf pattrib frgInx ∧
      t.payload.length = mpduLen fragLen pattrib frgInx ∧ ∀ v ∈ u :: rest, v.llc = [] := by
  cases of with
  | last => simp at several
  | @more _ _ _ t rest unicast long turn later =>
    have llcs := later.llc (Nat.succ_pos _)
    subst turn
    cases rest with
    | nil => cases later
    | cons u rest =>
      refine ⟨_, u, rest, rfl, rfl, rfl, ?_, llcs⟩
      simp [coalesceTurn, readLen, unicast, long.le]

end FragmentsOf

end

theorem coalesceFrags_of (f : XmitFrame) (bufAddr pktOffset : ℕ) (hdr : List UInt8) :
    FragmentsOf env.fragLen f.attrib f.pkt.length hdr (hwHdrOffset pktOffset) 0
      (bufAddr + hwHdrOffset pktOffset) f.pkt (coalesceFrags env f bufAddr pktOffset hdr) :=
  coalesceLoop_fragmentsOf _ _ (Nat.lt_succ_self _)

theorem fragCount_nrFrags (frags : List TxFragment) :
    (fragCount pattrib frags).nrFrags = frags.length % 256 := by
  simp only [fragCount]
  split <;> rfl

theorem protectFrags_some {env : XmitEnv} {f : XmitFrame} {bufAddr pktOffset : ℕ}
    {frags : List TxFragment} {c : Coalesced}
    (ok : protectFrags env f bufAddr pktOffset frags = some c) :
    c.frags = frags ∧
      c.count = ⟨frags.length % 256, (fragCount f.attrib frags).lastTxcmdsz + f.attrib.micLen⟩ ∧
      c.encrypted = xmitframeSwencrypt env.fragLen f.attrib c.count
        (bufAddr + hwHdrOffset pktOffset) ∧
      if f.attrib.encrypt = .tkip then
        (c.micRead, c.micAt) = Prod.map id some (addmicLoop env.fragLen f.attrib
          (fragCount f.attrib frags).lastTxcmdsz (frags.length % 256)
          (bufAddr + hwHdrOffset pktOffset))
      else c.micAt = none := by
  simp only [← fragCount_nrFrags f.attrib frags]
  simp only [protectFrags, PktAttrib.micLen] at ok ⊢
  split at ok
  next tkip =>
    split at ok
    · cases ok
    · cases ok
      exact ⟨rfl, by rw [if_pos tkip], rfl, by rw [if_pos tkip]; rfl⟩
  next other =>
    cases ok
    exact ⟨rfl, by rw [if_neg other]; rfl, rfl, by rw [if_neg other]⟩

theorem rtwXmitframeCoalesce_some {env : XmitEnv} {f : XmitFrame} {bufAddr pktOffset : ℕ}
    {psta : Option (MacAddr × StaInfo)} {txseqTid txseqTid' : TxSeq} {c : Coalesced}
    (done : rtwXmitframeCoalesce env f bufAddr pktOffset psta txseqTid =
      some (txseqTid', some c)) :
    ∃ hdr, rtwMakeWlanhdr env psta txseqTid f.attrib = some (hdr, txseqTid') ∧
      protectFrags env f bufAddr pktOffset (coalesceFrags env f bufAddr pktOffset hdr) =
        some c := by
  obtain ⟨⟨hdr, seq⟩, made, rest⟩ := Option.map_eq_some_iff.mp done
  obtain ⟨rfl, protect⟩ := Prod.mk.inj rest
  exact ⟨hdr, made, protect⟩

/-! ## Inputs for runs on fixed values -/

def smallestFragLen : FragLen := ⟨256, by decide, by decide, by decide⟩

def someSta : MacAddr := Rx.macAt [2, 0, 0, 0, 0, 1] 0

def plainFrame (len : ℕ) : XmitFrame :=
  { attrib := { dst := someSta, ra := someSta, psta := some someSta }
    pkt := List.replicate len 0 }

def ccmpFrame (len : ℕ) : XmitFrame :=
  { plainFrame len with
    attrib := { (plainFrame len).attrib with encrypt := .aes, bswenc := true } }

def asocSta : Option (MacAddr × StaInfo) := some (someSta, { asoc := true })

end Rtl88x2bu.Tx
