import Rtl88x2bu.Tx.Aggregate

/-!
# Layout of a transmit buffer

The estimate of a frame in one piece is exact, so such frames lie side by side; what is written for
a frame in several pieces, or for one that is shorter than the header room that `rtw_make_wlanhdr`
clears, runs past its end.
-/

namespace Rtl88x2bu.Tx

open List Option
open Rx (MacAddr isMcast staAddr)

/-- All writes of `rtw_xmitframe_coalesce`; payloads that are encrypted are written once more. -/
def Coalesced.written (pattrib : PktAttrib) (hdrAt : ℕ) (c : Coalesced) : List Extent :=
  ⟨hdrAt, wlanhdrOffset⟩ :: (c.frags.map (fun t => ⟨t.memStart, t.mpdu.length⟩) ++
    c.micAt.toList.map (⟨·, 8⟩) ++ c.encrypted.map fun x => ⟨x.start, x.len + pattrib.icvLen⟩)

/-- A frame that one fragment can carry: group addressed, or short enough for `frag_len - 4`. -/
def Unfragmented (env : XmitEnv) (f : XmitFrame) : Prop :=
  isMcast f.attrib.ra = true ∨ f.pkt.length ≤ mpduLen env.fragLen f.attrib 0

section
variable {fragLen : FragLen} {pattrib : PktAttrib} {pktlen hwOffset memStart : ℕ}
  {hdr pktfile : List UInt8} {frags : List TxFragment}

section

variable (of : FragmentsOf fragLen pattrib pktlen hdr hwOffset 0 memStart pktfile frags)
include of

theorem FragmentsOf.length_eq_one_iff :
    frags.length = 1 ↔ isMcast pattrib.ra = true ∨ pktfile.length ≤ mpduLen fragLen pattrib 0 := by
  cases of with
  | last ends => exact iff_of_true rfl ends
  | more unicast long _ later =>
    apply iff_of_false
    · cases later <;> simp
    · rintro (group | short)
      · rw [unicast] at group
        cases group
      · omega

theorem FragmentsOf.lastTxcmdsz_lt (whole : pktfile.length ≤ pktlen) (several : frags.length ≠ 1) :
    (fragCount pattrib frags).lastTxcmdsz + pattrib.micLen <
      rtwCalculateWlanPktSizeByAttribue pattrib pktfile.length := by
  have payloads := of.payloads whole
  obtain ⟨t, u, rest, rfl, _, _, _, llcs⟩ := of.cut several
  obtain ⟨last, final, member⟩ : ∃ last, (t :: u :: rest).getLast? = some last ∧
      last ∈ u :: rest := by
    refine ⟨(u :: rest).getLast (cons_ne_nil _ _), ?_, getLast_mem _⟩
    rw [List.getLast?_cons_cons, List.getLast?_eq_some_getLast]
  have short : last.payload.length ≤ pktfile.length := by
    rw [← payloads, flatMap_cons, length_append]
    have part : last.payload.Sublist ((u :: rest).flatMap TxFragment.payload) :=
      sublist_flatten_of_mem (mem_map_of_mem member)
    exact part.length_le.trans (Nat.le_add_left _ _)
  simp only [fragCount, final, llcs last member, length_nil, ite_self,
    rtwCalculateWlanPktSizeByAttribue]
  omega

end

end

section
variable {env : XmitEnv} {f : XmitFrame} {bufAddr pktOffset : ℕ} {psta : Option (MacAddr × StaInfo)}
  {txseqTid txseqTid' : TxSeq} {c : Coalesced}

def InPlace (f : XmitFrame) (bufAddr pktOffset : ℕ) (c : Coalesced) : Prop :=
  (∀ x ∈ c.written f.attrib (bufAddr + hwHdrOffset pktOffset),
    bufAddr ≤ x.start ∧ x.finish ≤ bufAddr + reservedLen f pktOffset) ∧
  c.count.lastTxcmdsz = rtwWlanPktSize f

section

variable (aligned : 4 ∣ bufAddr) (done : rtwXmitframeCoalesce env f bufAddr pktOffset psta
  txseqTid = some (txseqTid', some c))
include aligned done

theorem single_writes (one : c.frags.length = 1) :
    let body := bufAddr + hwHdrOffset pktOffset + f.attrib.hdrlen + f.attrib.ivLen
    c.count.lastTxcmdsz = rtwWlanPktSize f ∧
      (∃ t, c.frags = [t] ∧ t.memStart = bufAddr + hwHdrOffset pktOffset ∧
        t.mpdu.length + f.attrib.micLen = rtwWlanPktSize f) ∧
      (∀ at' ∈ c.micAt, f.attrib.micLen = 8 ∧ at' = body + 8 + f.pkt.length) ∧
      ∀ x ∈ c.encrypted, f.attrib.swIcvLen = f.attrib.icvLen ∧ x.start = body ∧
        x.len = 8 + f.pkt.length + f.attrib.micLen := by
  intro body
  obtain ⟨hdr, made, protect⟩ := rtwXmitframeCoalesce_some done
  obtain ⟨w, seqnum, _, rfl⟩ := rtwMakeWlanhdr_some made
  obtain ⟨frags, count, encrypted, mic⟩ := protectFrags_some protect
  have of := coalesceFrags_of env f bufAddr pktOffset (wlanHdr f.attrib w seqnum)
  rw [← frags] at of
  rw [← frags] at count mic
  obtain ⟨t, only, start, tHdr, tIv, llc, payload, tIcv⟩ := of.single le_rfl one
  have base : rnd4 (bufAddr + hwHdrOffset pktOffset) = bufAddr + hwHdrOffset pktOffset :=
    rnd4_of_dvd (aligned.add (four_dvd_hwHdrOffset pktOffset))
  have counted : [t].length % 256 = 1 := rfl
  have llcLen : t.llc.length = 8 := by rw [llc, llcOf, if_pos rfl, rtwPutSnap_length]
  have size : rtwWlanPktSize f = f.attrib.hdrlen + f.attrib.ivLen + 8 + f.pkt.length +
    f.attrib.micLen + f.attrib.swIcvLen := rfl
  rw [only, fragCount_single, counted, llcLen, payload] at count mic
  refine ⟨?_, ⟨t, only, start, ?_⟩, ?_, ?_⟩
  · rw [count, size]
    dsimp only
    omega
  · have hdrlen : t.hdr.length = f.attrib.hdrlen := by
      have fits := f.attrib.hdrlen_le.trans (show 26 ≤ wlanhdrOffset by decide)
      simpa [tHdr, setMFrag, clearMFrag, wlanHdr_length] using fits
    have ivLen : t.iv.length = f.attrib.ivLen := by
      simpa [tIv] using f.attrib.ivLen_le.trans (by decide)
    have icvLen : t.icv.length = f.attrib.swIcvLen := by simpa [tIcv] using f.attrib.swIcvLen_le
    simp only [TxFragment.mpdu, length_append, hdrlen, ivLen, llcLen, payload, icvLen, size]
    omega
  · intro at' member
    split at mic
    next tkip =>
      rw [addmicLoop_one, base] at mic
      have written := (Prod.mk.inj mic).2
      rw [written] at member
      cases member
      refine ⟨by rw [PktAttrib.micLen, if_pos tkip], ?_⟩
      dsimp only [body]
      omega
    next other =>
      rw [mic] at member
      cases member
  · intro x member
    rw [encrypted] at member
    by_cases software : f.attrib.bswenc = true ∧ swCipher f.attrib = true
    · have icv := swIcvLen_software software.1
      rw [xmitframeSwencrypt_eq software.1 software.2, count, encryptLoop_one,
        mem_singleton] at member
      subst member
      refine ⟨icv, rfl, ?_⟩
      dsimp only
      omega
    · rw [xmitframeSwencrypt_nil (by simpa [or_iff_not_imp_left] using software)] at member
      cases member

theorem inPlace_iff :
    InPlace f bufAddr pktOffset c ↔ Unfragmented env f ∧ wlanhdrOffset ≤ rtwWlanPktSize f := by
  obtain ⟨hdr, _, protect⟩ := rtwXmitframeCoalesce_some done
  obtain ⟨frags, count, -⟩ := protectFrags_some protect
  have of := coalesceFrags_of env f bufAddr pktOffset hdr
  rw [← frags] at of count
  have pieces : c.frags.length = 1 ↔ Unfragmented env f := of.length_eq_one_iff
  constructor
  · rintro ⟨inside, size⟩
    constructor
    · rw [← pieces]
      by_contra several
      have short := of.lastTxcmdsz_lt le_rfl several
      rw [count] at size
      exact short.ne size
    · have cleared := inside ⟨_, wlanhdrOffset⟩ List.mem_cons_self
      simp only [Extent.finish, reservedLen] at cleared
      omega
  · rintro ⟨unfragmented, long⟩
    obtain ⟨size, ⟨t, only, start, length⟩, mic, encrypted⟩ :=
      single_writes aligned done (pieces.mpr unfragmented)
    refine ⟨?_, size⟩
    have estimate : rtwWlanPktSize f = f.attrib.hdrlen + f.attrib.ivLen + 8 + f.pkt.length +
      f.attrib.micLen + f.attrib.swIcvLen := rfl
    intro x member
    simp only [Coalesced.written, mem_cons, mem_append, only, map_cons, map_nil,
      List.not_mem_nil, or_false, List.mem_map] at member
    rcases member with rfl | (rfl | ⟨at', micWrite, rfl⟩) | ⟨y, payloadWrite, rfl⟩
    all_goals simp only [reservedLen, Extent.finish]
    · omega
    · omega
    · obtain ⟨micLen, written⟩ := mic at' (mem_toList.mp micWrite)
      omega
    · obtain ⟨icv, yStart, yLen⟩ := encrypted y payloadWrite
      omega

end

end

def Placement.finish (p : Placement) : ℕ := p.start + reservedLen p.frame p.pktOffset

/-- Each frame has an aligned place of its own in the buffer, of the size that its descriptor says.
-/
structure LaidOut (placed : List Placement) : Prop where
  aligned : ∀ p ∈ placed, 8 ∣ p.start
  inPlace : ∀ p ∈ placed, InPlace p.frame p.start p.pktOffset p.out
  apart : placed.Pairwise fun p q => p.finish ≤ q.start
  within : ∀ p ∈ placed, p.finish ≤ maxXmitbufSz

def Placement.Made (env : XmitEnv) (p : Placement) : Prop :=
  ∃ psta txseqTid txseqTid',
    rtwXmitframeCoalesce env p.frame p.start p.pktOffset psta txseqTid =
      some (txseqTid', some p.out)

structure Packed (env : XmitEnv) (first : Placement) (pbuf : ℕ) (placed : List Placement) :
    Prop where
  room : 8 ∣ pbuf
  made : ∀ p ∈ placed, p.Made env
  aligned : ∀ p ∈ placed, 8 ∣ p.start
  apart : placed.Pairwise fun p q => p.finish ≤ q.start
  before : ∀ p ∈ placed, p.finish ≤ pbuf
  fits : ∃ later, placed = first :: later ∧ ∀ p ∈ later, p.finish ≤ maxXmitbufSz

section
variable {env : XmitEnv} {hal : HalUsb} {s : TxState}

theorem coalesceAt_some {txseqTid txseqTid' : MacAddr → TxSeq} {f : XmitFrame}
    {bufAddr pktOffset : ℕ} {out : Coalesced}
    (done : coalesceAt env s txseqTid f bufAddr pktOffset = (txseqTid', some out)) :
    Placement.Made env ⟨f, bufAddr, pktOffset, out⟩ := by
  simp only [coalesceAt] at done
  split at done
  · cases done
  next seq written coalesced =>
    obtain ⟨-, rfl⟩ := Prod.mk.inj done
    exact ⟨_, _, _, coalesced⟩

theorem Packed.first {p : Placement} (made : p.Made env) (start : p.start = 0) :
    Packed env p (AggVars.first hal s p).pbuf (AggVars.first hal s p).placed where
  room := Align.dvd_roundUp 3 _
  made := forall_mem_singleton.mpr made
  aligned := forall_mem_singleton.mpr (start ▸ Nat.dvd_zero 8)
  apart := pairwise_singleton _ _
  before := by
    refine forall_mem_singleton.mpr ?_
    rw [Placement.finish, start, Nat.zero_add]
    exact Align.le_roundUp 3 _
  fits := ⟨[], rfl, forall_mem_nil _⟩

theorem Packed.place {first : Placement} {pbuf : ℕ} {placed : List Placement} {f : XmitFrame}
    {out : Coalesced} (packed : Packed env first pbuf placed)
    (fits : rnd8 (pbuf + reservedLen f 0) ≤ maxXmitbufSz)
    (made : Placement.Made env ⟨f, pbuf, 0, out⟩) :
    Packed env first (rnd8 (pbuf + reservedLen f 0)) (placed ++ [⟨f, pbuf, 0, out⟩]) := by
  have grows : pbuf + reservedLen f 0 ≤ rnd8 (pbuf + reservedLen f 0) := Align.le_roundUp 3 _
  constructor
  case room => exact Align.dvd_roundUp 3 _
  case made =>
    exact forall_mem_append.mpr ⟨packed.made, forall_mem_singleton.mpr made⟩
  case aligned =>
    exact forall_mem_append.mpr ⟨packed.aligned, forall_mem_singleton.mpr packed.room⟩
  case apart =>
    refine pairwise_append.mpr ⟨packed.apart, pairwise_singleton _ _, ?_⟩
    intro p member q new
    rw [mem_singleton.mp new]
    exact packed.before p member
  case before =>
    refine forall_mem_append.mpr ⟨?_, forall_mem_singleton.mpr grows⟩
    intro p member
    have := packed.before p member
    omega
  case fits =>
    obtain ⟨later, rfl, small⟩ := packed.fits
    refine ⟨later ++ [⟨f, pbuf, 0, out⟩], rfl, ?_⟩
    exact forall_mem_append.mpr ⟨small, forall_mem_singleton.mpr (grows.trans fits)⟩

theorem aggLoop_packed {first : Placement} {qsel : BitVec 8} {v : AggVars}
    {queue : List XmitFrame} (packed : Packed env first v.pbuf v.placed) :
    Packed env first (aggLoop env hal s qsel v queue).vars.pbuf
      (aggLoop env hal s qsel v queue).vars.placed := by
  induction queue generalizing v with
  | nil => exact packed
  | cons f rest ih =>
    rw [aggLoop]
    split
    · exact packed
    · split
      · exact packed
      next fits =>
        split
        · exact ih packed
        next txseqTid out done =>
          have placed := packed.place (not_lt.mp fits) (coalesceAt_some done)
          dsimp only
          split
          · exact placed
          · split
            · exact placed
            · exact ih placed

theorem pickFirst_made {inx : List Ac} {fuel : ℕ} {s s' : TxState} {p : Placement}
    (picked : pickFirst env inx fuel s = some (s', some p)) : p.Made env ∧ p.start = 0 := by
  induction fuel generalizing s with
  | zero => cases picked
  | succ fuel ih =>
    rw [pickFirst] at picked
    split at picked
    · cases picked
    · split at picked
      · exact ih picked
      next out done =>
        cases picked
        exact ⟨coalesceAt_some done, rfl⟩

theorem complete_packed {inx : List Ac} {s s' : TxState} {b : TxBuffer}
    (sent : rtl8822buXmitframeComplete env hal inx s = some (s', some b)) :
    (∀ p ∈ b.placed, ∃ addr ac, p.frame ∈ s.pending addr (.ac ac)) ∧
      ∃ first pbuf, Packed env first pbuf b.placed := by
  have kept : ∀ v, (finishBuffer hal v).placed = v.placed := by
    intro v
    simp only [finishBuffer]
    split <;> rfl
  simp only [rtl8822buXmitframeComplete] at sent
  split at sent
  · cases sent
  · obtain ⟨⟨s₁, found⟩, picked, filled⟩ := map_eq_some_iff.mp sent
    cases found with
    | none => cases filled
    | some p =>
      obtain ⟨made, start⟩ := pickFirst_made picked
      obtain ⟨left, origin⟩ := pickFirst_pending picked
      have first : Packed env p (AggVars.first hal s₁ p).pbuf (AggVars.first hal s₁ p).placed :=
        Packed.first made start
      have itself : ∀ p' ∈ (AggVars.first hal s₁ p).placed,
          ∃ addr ac, p'.frame ∈ s.pending addr (.ac ac) :=
        forall_mem_singleton.mpr (origin p rfl)
      dsimp only at filled
      split at filled
      next addr _ _ _ _ =>
        cases filled
        rw [kept]
        refine ⟨fun p' placed => ?_, p, _, aggLoop_packed first⟩
        rcases aggLoop_placed_mem placed with old | later
        · exact itself p' old
        · exact ⟨addr, p.frame.ac, left _ _ later⟩
      · cases filled
        rw [kept]
        exact ⟨itself, p, _, first⟩

/-- The frames of a buffer come from the queues, and they are laid out as meant exactly when each is
in one piece and no shorter than the header room, and the first fits in the buffer by itself. -/
theorem aggregation_layout_iff {inx : List Ac} {s s' : TxState} {b : TxBuffer}
    (sent : rtl8822buXmitframeComplete env hal inx s = some (s', some b)) :
    (∀ p ∈ b.placed, ∃ addr ac, p.frame ∈ s.pending addr (.ac ac)) ∧
      (LaidOut b.placed ↔
        (∀ p ∈ b.placed, Unfragmented env p.frame ∧ wlanhdrOffset ≤ rtwWlanPktSize p.frame) ∧
          ∀ p ∈ b.placed.head?, p.finish ≤ maxXmitbufSz) := by
  obtain ⟨origin, first, pbuf, packed⟩ := complete_packed sent
  have exact : ∀ p ∈ b.placed, (InPlace p.frame p.start p.pktOffset p.out ↔
      Unfragmented env p.frame ∧ wlanhdrOffset ≤ rtwWlanPktSize p.frame) := by
    intro p member
    obtain ⟨_, _, _, coalesced⟩ := packed.made p member
    exact inPlace_iff ((show 4 ∣ 8 by decide).trans (packed.aligned p member)) coalesced
  obtain ⟨later, placed, small⟩ := packed.fits
  refine ⟨origin, ?_, ?_⟩
  · intro laid
    refine ⟨fun p member => (exact p member).mp (laid.inPlace p member), fun p head => ?_⟩
    exact laid.within p (mem_of_head? head)
  · rintro ⟨frames, head⟩
    refine ⟨packed.aligned, fun p member => (exact p member).mpr (frames p member), packed.apart,
      ?_⟩
    rw [placed] at head ⊢
    exact forall_mem_cons.mpr ⟨head first rfl, small⟩

end

def beQueue (frames : List XmitFrame) : TxState where
  stations addr := if addr = someSta then
      some {
        asoc := true
        txservq := Function.update (fun _ => {}) (.ac .be) ⟨frames, frames.length⟩ }
    else none
  staQueue := Function.update (fun _ => []) (.ac .be) [someSta]
  accnt := Function.update (fun _ => 0) (.ac .be) frames.length

def bufferRun (frames : List XmitFrame) : Option (TxState × Option TxBuffer) :=
  rtl8822buXmitframeComplete { fragLen := smallestFragLen } {} [.vo, .vi, .be, .bk] (beQueue frames)

theorem bufferRun_some {View : Type} {view : TxBuffer → View} {frames : List XmitFrame} {x : View}
    (seen : ((bufferRun frames).bind Prod.snd).map view = some x) :
    ∃ s' b, bufferRun frames = some (s', some b) ∧ view b = x := by
  rcases run : bufferRun frames with _ | ⟨s', _ | b⟩ <;> rw [run] at seen
  · cases seen
  · cases seen
  · exact ⟨s', b, rfl, some.inj seen⟩

theorem aggregation_layout_iff_two : ∃ s' b,
    bufferRun [plainFrame 100, ccmpFrame 60] = some (s', some b) ∧ b.placed.length = 2 ∧
      LaidOut b.placed := by
  obtain ⟨s', b, run, view⟩ := bufferRun_some
    (show ((bufferRun [plainFrame 100, ccmpFrame 60]).bind Prod.snd).map
      (fun b => b.placed.map fun p => (p.frame, p.finish)) =
        some [(plainFrame 100, 188), (ccmpFrame 60, 348)] by decide +kernel)
  refine ⟨s', b, run, by simpa using congrArg List.length view, ?_⟩
  have listed : ∀ p ∈ b.placed,
      (p.frame, p.finish) ∈ [(plainFrame 100, 188), (ccmpFrame 60, 348)] := by
    intro p member
    rw [← view]
    exact mem_map_of_mem member
  refine (aggregation_layout_iff run).2.mpr ⟨fun p member => ?_, fun p head => ?_⟩
  · rcases mem_pair.mp (listed p member) with known | known <;>
      rw [(Prod.mk.inj known).1, Unfragmented] <;> decide
  · rcases mem_pair.mp (listed p (mem_of_head? head)) with known | known <;>
      rw [(Prod.mk.inj known).2] <;> decide

theorem aggregation_overruns : ∃ s' b,
    bufferRun [plainFrame 300, plainFrame 60] = some (s', some b) ∧ ¬ LaidOut b.placed := by
  obtain ⟨s', b, run, view⟩ := bufferRun_some
    (show ((bufferRun [plainFrame 300, plainFrame 60]).bind Prod.snd).map
      (fun b => b.placed.map fun p => (rtwWlanPktSize p.frame, p.out.count.lastTxcmdsz)) =
        some [(332, 104), (92, 92)] by decide +kernel)
  refine ⟨s', b, run, fun laid => ?_⟩
  obtain ⟨p, member, sizes⟩ : ∃ p ∈ b.placed,
      (rtwWlanPktSize p.frame, p.out.count.lastTxcmdsz) = (332, 104) := by
    rw [← List.mem_map, view]
    exact List.mem_cons_self
  have exact := (laid.inPlace p member).2
  rw [(Prod.mk.inj sizes).1, (Prod.mk.inj sizes).2] at exact
  cases exact

end Rtl88x2bu.Tx
