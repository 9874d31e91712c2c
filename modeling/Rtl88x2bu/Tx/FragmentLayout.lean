import Rtl88x2bu.Tx.Coalesce

/-!
# Where the fragments are

`rtw_xmitframe_coalesce` cuts at `frag_len - 4` and leaves room for a descriptor between two
fragments. The functions that come back to the fragments cut at `frag_len` and leave no room.
-/

namespace Rtl88x2bu.Tx

open Rx (MacAddr isMcast)

def TxFragment.body (pattrib : PktAttrib) (t : TxFragment) : Extent :=
  ⟨t.memStart + pattrib.hdrlen + pattrib.ivLen, t.llc.length + t.payload.length⟩

/-- The bodies of the fragments once the MIC stands at the end of the last one. -/
def withMic (pattrib : PktAttrib) : List Extent → List Extent
  | [] => []
  | [x] => [⟨x.start, x.len + pattrib.micLen⟩]
  | x :: y :: rest => x :: withMic pattrib (y :: rest)

/-- The MIC was computed over the bodies that were written, and the same bodies were encrypted. -/
structure LayoutAgrees (pattrib : PktAttrib) (c : Coalesced) : Prop where
  addmic : pattrib.encrypt = .tkip → c.micRead = c.frags.map (TxFragment.body pattrib)
  encrypt : c.encrypted = withMic pattrib (c.frags.map (TxFragment.body pattrib))

theorem withMic_length (pattrib : PktAttrib) (bodies : List Extent) :
    (withMic pattrib bodies).length = bodies.length := by
  induction bodies using withMic.induct with
  | case1 => rfl
  | case2 => rfl
  | case3 x y rest ih => simpa only [withMic, List.length_cons, add_left_inj] using ih

section
variable {fragLen : FragLen} {pattrib : PktAttrib}

theorem swIcvLen_software (software : pattrib.bswenc = true) :
    pattrib.swIcvLen = pattrib.icvLen := by
  rw [PktAttrib.swIcvLen, software, if_pos rfl]

theorem cut_not_encrypted {pktlen hwOffset memStart : ℕ} {hdr pktfile : List UInt8}
    {frags : List TxFragment} (pframe lastTxcmdsz : ℕ)
    (of : FragmentsOf fragLen pattrib pktlen hdr hwOffset 0 memStart pktfile frags)
    (software : pattrib.bswenc = true) (several : frags.length ≠ 1) :
    encryptLoop fragLen pattrib lastTxcmdsz (frags.length % 256) pframe ≠
      withMic pattrib (frags.map (TxFragment.body pattrib)) := by
  intro same
  have counted := congrArg List.length same
  rw [encryptLoop_length, withMic_length, List.length_map] at counted
  rw [counted] at same
  obtain ⟨t, u, rest, rfl, _, llc, room, _⟩ := of.cut several
  simp only [List.length_cons, encryptLoop, List.map_cons, withMic, List.cons.injEq] at same
  have length := congrArg Extent.len same.1
  have low := fragLen.low
  have hdrlen := pattrib.hdrlen_le
  have ivLen := pattrib.ivLen_le
  have icvLen := pattrib.icvLen_le
  simp only [TxFragment.body, llc, room, mpduLen, llcOf, if_true, rtwPutSnap_length,
    swIcvLen_software software, if_neg (Nat.succ_ne_zero _)] at length
  omega

theorem rnd4_of_dvd {sz : ℕ} (aligned : 4 ∣ sz) : rnd4 sz = sz := by
  have spec := Align.roundUp_spec 2 sz
  simp only [rnd4]
  omega

theorem four_dvd_hwHdrOffset (pktOffset : ℕ) : 4 ∣ hwHdrOffset pktOffset :=
  Dvd.dvd.add (by decide) (Dvd.dvd.mul_left (by decide) _)

theorem fragCount_single {t : TxFragment} :
    fragCount pattrib [t] = ⟨1, pattrib.hdrlen + pattrib.ivLen + t.llc.length + pattrib.swIcvLen +
      t.payload.length⟩ := rfl

end

variable {env : XmitEnv} {f : XmitFrame} {bufAddr pktOffset : ℕ} {psta : Option (MacAddr × StaInfo)}
  {txseqTid txseqTid' : TxSeq} {c : Coalesced}

/-- The layouts agree for exactly the frames that are not fragmented. -/
theorem coalesce_layout_iff (aligned : 4 ∣ bufAddr) (software : f.attrib.bswenc = true)
    (cipher : swCipher f.attrib = true)
    (done : rtwXmitframeCoalesce env f bufAddr pktOffset psta txseqTid = some (txseqTid', some c)) :
    LayoutAgrees f.attrib c ↔ c.frags.length = 1 := by
  obtain ⟨hdr, _, protect⟩ := rtwXmitframeCoalesce_some done
  obtain ⟨frags, count, encrypted, mic⟩ := protectFrags_some protect
  have of := coalesceFrags_of env f bufAddr pktOffset hdr
  rw [← frags] at of
  rw [← frags] at count mic
  rw [xmitframeSwencrypt_eq software cipher] at encrypted
  constructor
  · intro agrees
    by_contra several
    apply cut_not_encrypted (bufAddr + hwHdrOffset pktOffset) c.count.lastTxcmdsz of
      software several
    rw [← agrees.encrypt, encrypted, count]
  · intro one
    obtain ⟨t, only, start, _, _, llc, payload, _⟩ := of.single le_rfl one
    have base : rnd4 (bufAddr + hwHdrOffset pktOffset) = bufAddr + hwHdrOffset pktOffset :=
      rnd4_of_dvd (aligned.add (four_dvd_hwHdrOffset pktOffset))
    have counted : [t].length % 256 = 1 := rfl
    have icv := swIcvLen_software software
    rw [only, fragCount_single, counted, llc, payload] at count mic
    constructor
    · intro tkip
      rw [if_pos tkip, addmicLoop_one, base] at mic
      rw [(Prod.mk.inj mic).1, only]
      simp only [id, List.map_cons, List.map_nil, TxFragment.body, start, llc, payload,
        List.cons.injEq, Extent.mk.injEq, and_true, true_and]
      omega
    · rw [encrypted, count, only, encryptLoop_one]
      simp only [List.map_cons, List.map_nil, withMic, TxFragment.body, start, llc, payload,
        List.cons.injEq, Extent.mk.injEq, and_true, true_and]
      omega

def cutRun : Option (TxSeq × Option Coalesced) :=
  rtwXmitframeCoalesce { fragLen := smallestFragLen } (ccmpFrame 300) 0 1 asocSta fun _ => 0

def cutView (c : Coalesced) : List Extent × List Extent :=
  (c.frags.map (TxFragment.body (ccmpFrame 300).attrib), c.encrypted)

theorem cutRun_view : (cutRun.bind Prod.snd).map cutView =
    some ([⟨88, 212⟩, ⟨396, 96⟩], [⟨88, 216⟩, ⟨344, 96⟩]) := by
  decide +kernel

theorem cutRun_some : ∃ seq c, cutRun = some (seq, some c) ∧
    c.frags.map (TxFragment.body (ccmpFrame 300).attrib) = [⟨88, 212⟩, ⟨396, 96⟩] ∧
    c.encrypted = [⟨88, 216⟩, ⟨344, 96⟩] := by
  have view := cutRun_view
  rcases run : cutRun with _ | ⟨seq, _ | c⟩ <;> rw [run] at view
  · cases view
  · cases view
  · obtain ⟨bodies, encrypted⟩ := Prod.mk.inj (Option.some.inj view)
    exact ⟨seq, c, rfl, bodies, encrypted⟩

theorem coalesce_layout_iff_ccmp : ∃ seq c, cutRun = some (seq, some c) ∧
    (LayoutAgrees (ccmpFrame 300).attrib c ↔ c.frags.length = 1) := by
  obtain ⟨seq, c, run, _⟩ := cutRun_some
  exact ⟨seq, c, run, coalesce_layout_iff (by decide) rfl rfl run⟩

theorem coalesce_layout_differs : ∃ seq c, cutRun = some (seq, some c) ∧ c.frags.length = 2 ∧
    ¬ LayoutAgrees (ccmpFrame 300).attrib c := by
  obtain ⟨seq, c, run, bodies, encrypted⟩ := cutRun_some
  refine ⟨seq, c, run, by simpa using congrArg List.length bodies, ?_⟩
  intro agrees
  have same := agrees.encrypt
  rw [bodies, encrypted] at same
  revert same
  decide

end Rtl88x2bu.Tx
