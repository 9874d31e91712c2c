import Rtl88x2bu.Lib.Serial
import Rtl88x2bu.Rx.Frame

/-!
# Replay and duplicate caches

The caches of `rust/rtw_recv.rs` that header validation consults. Packet numbers are compared by
half-window modulo `2 ^ 48`, and a stored zero means that nothing has been seen yet.
-/

namespace Rtl88x2bu.Rx

open List Function

variable (ivSeq : BitVec 2 → BitVec 64) (rframe : RecvFrame)

variable (k : BitVec 2)

/-! ## Packet numbers -/

def ccmph2Pn (ch : BitVec 64) : BitVec 64 :=
  (ch &&& 0xffff) ||| ((ch &&& 0xffffffff00000000) >>> 16)

def ccmph2Keyid (ch : BitVec 64) : BitVec 2 := ((ch &&& 0x00000000c0000000) >>> 30).setWidth 2

def pnLessChk (a b : BitVec 64) : Bool := (a - b) &&& 0x800000000000 != 0

def validPnChk (newPn oldPn : BitVec 64) : Bool := oldPn == 0 || pnLessChk oldPn newPn

def RecvFrame.ccmpHeader : BitVec 64 :=
  le64At rframe.rxData rframe.attrib.hdrlen

def RecvFrame.pn : BitVec 64 := ccmph2Pn rframe.ccmpHeader

def RecvFrame.keyId : BitVec 2 := ccmph2Keyid rframe.ccmpHeader

/-- `b` is at most half the packet number space ahead of `a`, or `a` is the zero that stands for no
packet number. -/
def PnAdvances (a b : BitVec 64) : Prop :=
  a = 0 ∨ (1 ≤ Serial.ahead (2 ^ 48) a.toNat b.toNat ∧
    Serial.ahead (2 ^ 48) a.toNat b.toNat ≤ 2 ^ 47)

theorem ccmph2Pn_lt (ch : BitVec 64) : (ccmph2Pn ch).toNat < 2 ^ 48 := by
  simp only [ccmph2Pn, BitVec.toNat_or]
  apply Nat.or_lt_two_pow
  · -- the low sixteen bits
    rw [BitVec.toNat_and]
    exact Nat.lt_of_le_of_lt Nat.and_le_right (by decide)
  · have word := (ch &&& 0xffffffff00000000).isLt
    rw [BitVec.toNat_ushiftRight, Nat.shiftRight_eq_div_pow]
    omega

theorem pnLessChk_iff (a b : BitVec 64) :
    pnLessChk a b = true ↔ Serial.Less (2 ^ 47) a.toNat b.toNat := by
  have bit := Serial.sub_and_twoPow_ne_zero (k := 47) (by decide) a b
  have mask : BitVec.twoPow 64 47 = 0x800000000000#64 := by decide
  rw [mask] at bit
  simpa [pnLessChk] using bit

theorem validPnChk_iff (newPn oldPn : BitVec 64) :
    validPnChk newPn oldPn = true ↔ PnAdvances oldPn newPn := by
  simp only [validPnChk, Bool.or_eq_true, beq_iff_eq, pnLessChk_iff, PnAdvances]
  rw [Serial.less_iff_ahead (by decide)]
  rfl

/-! ## Group frames -/

/-- `kernel_recv_bcast_pn_decache`; `ivSeq` are the packet numbers the group keys last saw. -/
def kernelRecvBcastPnDecache (station : Bool) (ivSeq : BitVec 2 → BitVec 64) (rframe : RecvFrame) :
    Status × (BitVec 2 → BitVec 64) :=
  if rframe.attrib.encrypt ≠ .aes then (.success, ivSeq)
  else if !station then (.success, ivSeq)
  else
    let currPn := ivSeq rframe.keyId &&& 0x0000ffffffffffff
    if !validPnChk rframe.pn currPn then (.fail, ivSeq)
    else (.success, Function.update ivSeq rframe.keyId rframe.pn)

def bcastAccepted (station : Bool) : (BitVec 2 → BitVec 64) → List RecvFrame → List RecvFrame
  | _, [] => []
  | ivSeq, rframe :: rest =>
    match kernelRecvBcastPnDecache station ivSeq rframe with
    | (.success, ivSeq') => rframe :: bcastAccepted station ivSeq' rest
    | (_, ivSeq') => bcastAccepted station ivSeq' rest

def ccmpPns (rframes : List RecvFrame) : List (BitVec 64) :=
  (rframes.filter fun f => f.attrib.encrypt = .aes ∧ f.keyId = k).map RecvFrame.pn

def storedPn : BitVec 64 :=
  ivSeq k &&& 0x0000ffffffffffff

theorem storedPn_update_same :
    storedPn (Function.update ivSeq rframe.keyId rframe.pn) rframe.keyId = rframe.pn := by
  -- a packet number is stored as it is
  rw [storedPn, update_self]
  apply BitVec.eq_of_toNat_eq
  rw [BitVec.toNat_and]
  exact (Nat.and_two_pow_sub_one_eq_mod _ 48).trans (Nat.mod_eq_of_lt (ccmph2Pn_lt _))

theorem storedPn_update_other {k : BitVec 2} {rframe : RecvFrame} (other : rframe.keyId ≠ k) :
    storedPn (Function.update ivSeq rframe.keyId rframe.pn) k = storedPn ivSeq k := by
  rw [storedPn, storedPn, update_of_ne other.symm]

theorem ccmpPns_cons (rframe : RecvFrame) (later : List RecvFrame) : ccmpPns k (rframe :: later) =
    if rframe.attrib.encrypt = .aes ∧ rframe.keyId = k then rframe.pn :: ccmpPns k later else
    ccmpPns k later := by
  by_cases suited : rframe.attrib.encrypt = .aes ∧ rframe.keyId = k <;> simp [ccmpPns, suited]

theorem bcastAccepted_chain (rframes : List RecvFrame) :
    (storedPn ivSeq k :: ccmpPns k (bcastAccepted true ivSeq rframes)).IsChain PnAdvances := by
  induction rframes generalizing ivSeq with
  | nil => exact .singleton _
  | cons rframe rest ih =>
    simp only [bcastAccepted, kernelRecvBcastPnDecache]
    split_ifs with plain other replayed
    · -- a frame of another cipher is accepted and leaves the cache alone
      rw [ccmpPns_cons, if_neg fun suited => plain suited.1]
      exact ih ivSeq
    · simp at other
    · exact ih ivSeq
    · have aes : rframe.attrib.encrypt = .aes := by simpa using plain
      have advances : PnAdvances (storedPn ivSeq rframe.keyId) rframe.pn := by
        rw [← validPnChk_iff]
        simpa [storedPn] using replayed
      by_cases same : rframe.keyId = k
      · subst same
        rw [ccmpPns_cons, if_pos ⟨aes, rfl⟩, isChain_cons_cons]
        refine ⟨advances, ?_⟩
        simpa only [storedPn_update_same] using
          ih (Function.update ivSeq rframe.keyId rframe.pn)
      · -- the packet numbers of the other keys are kept
        rw [ccmpPns_cons, if_neg fun suited => same suited.2]
        simpa only [storedPn_update_other ivSeq same] using
          ih (Function.update ivSeq rframe.keyId rframe.pn)

theorem increasing_of_advances {low : ℕ} {pns : List (BitVec 64)} (chain : pns.IsChain PnAdvances)
    (nonzero : ∀ p ∈ pns, p ≠ 0)
    (near : ∀ p ∈ pns, low ≤ p.toNat ∧ p.toNat < low + 2 ^ 47) :
    pns.Pairwise fun a b => a.toNat < b.toNat := by
  have : IsTrans (BitVec 64) fun a b => a.toNat < b.toNat := ⟨fun _ _ _ => Nat.lt_trans⟩
  apply isChain_iff_pairwise.mp
  apply List.IsChain.imp_of_mem_imp _ chain
  intro a b inA inB advances
  have nearA := near a inA
  have nearB := near b inB
  -- going back would be going forward by more than half the number space
  have ahead := advances.resolve_left (nonzero a inA)
  unfold Serial.ahead at ahead
  omega

theorem ccmpPns_bcastAccepted_subset (station : Bool) (ivSeq : BitVec 2 → BitVec 64) (k : BitVec 2)
    (rframes : List RecvFrame) :
    ∀ p ∈ ccmpPns k (bcastAccepted station ivSeq rframes),
      ∃ f ∈ rframes, f.attrib.encrypt = .aes ∧ f.keyId = k ∧ f.pn = p := by
  have accepted : ∀ f ∈ bcastAccepted station ivSeq rframes, f ∈ rframes := by
    induction rframes generalizing ivSeq with
    | nil => simp [bcastAccepted]
    | cons rframe rest ih =>
      intro f member
      simp only [bcastAccepted] at member
      split at member
      · rcases mem_cons.mp member with rfl | later
        · exact mem_cons_self
        · exact mem_cons_of_mem _ (ih _ f later)
      · exact mem_cons_of_mem _ (ih _ f member)
  intro p member
  obtain ⟨f, selected, rfl⟩ := mem_map.mp member
  obtain ⟨kept, suited⟩ := mem_filter.mp selected
  obtain ⟨aes, key⟩ := of_decide_eq_true suited
  exact ⟨f, accepted f kept, aes, key, rfl⟩

/-- At a station the packet numbers accepted under one group key advance by at most half the number
space each. While the packet numbers offered under that key are non-zero and lie, with the one
installed, inside half the number space, they increase strictly. -/
theorem bcast_pn_replay (ivSeq : BitVec 2 → BitVec 64) (k : BitVec 2) (rframes : List RecvFrame) :
    let pns := ccmpPns k (bcastAccepted true ivSeq rframes)
    (storedPn ivSeq k :: pns).IsChain PnAdvances ∧
    ∀ low : ℕ,
      (∀ f ∈ rframes, f.attrib.encrypt = .aes → f.keyId = k →
        f.pn ≠ 0 ∧ low ≤ f.pn.toNat ∧ f.pn.toNat < low + 2 ^ 47) →
      (storedPn ivSeq k = 0 ∨
        (low ≤ (storedPn ivSeq k).toNat ∧ (storedPn ivSeq k).toNat < low + 2 ^ 47)) →
      (storedPn ivSeq k :: pns).Pairwise fun a b => a.toNat < b.toNat := by
  intro pns
  have chain : (storedPn ivSeq k :: pns).IsChain PnAdvances := bcastAccepted_chain ivSeq k rframes
  refine ⟨chain, ?_⟩
  intro low offered installed
  have accepted : ∀ p ∈ pns, p ≠ 0 ∧ low ≤ p.toNat ∧ p.toNat < low + 2 ^ 47 := by
    intro p member
    obtain ⟨f, inFrames, aes, key, rfl⟩ :=
      ccmpPns_bcastAccepted_subset true ivSeq k rframes p member
    exact offered f inFrames aes key
  by_cases fresh : storedPn ivSeq k = 0
  · -- nothing was seen under the key, so the first packet number is free
    constructor
    · intro p member
      rw [fresh]
      apply Nat.pos_of_ne_zero
      intro zero
      exact (accepted p member).1 (BitVec.eq_of_toNat_eq zero)
    · exact increasing_of_advances chain.of_cons (fun p member => (accepted p member).1)
        fun p member => (accepted p member).2
  · apply increasing_of_advances chain
    · intro p member
      rcases mem_cons.mp member with rfl | later
      · exact fresh
      · exact (accepted p later).1
    · intro p member
      rcases mem_cons.mp member with rfl | later
      · exact installed.resolve_left fresh
      · exact (accepted p later).2

def ccmpFrame (encrypt : SecurityType) (keyId : BitVec 2) (pn : BitVec 48) : RecvFrame :=
  let octet (i : ℕ) : UInt8 := .ofBitVec (pn.extractLsb' (8 * i) 8)
  { attrib := { encrypt := encrypt, hdrlen := 24 }
    rxData := List.replicate 24 (0 : UInt8) ++
      [octet 0, octet 1, 0, .ofBitVec (keyId.setWidth 8 <<< 6),
      octet 2, octet 3, octet 4, octet 5] }

theorem bcast_pn_replayed :
    let once := ccmpFrame .aes 1 1
    let zero := ccmpFrame .aes 1 0
    let gcmp := ccmpFrame .gcmp 1 7
    bcastAccepted true (fun _ => 0)
      [once, ccmpFrame .aes 1 0x800000000000, ccmpFrame .aes 1 0xffffffffffff, once] =
      [once, ccmpFrame .aes 1 0x800000000000, ccmpFrame .aes 1 0xffffffffffff, once] ∧
    bcastAccepted true (fun _ => 0) [zero, zero] = [zero, zero] ∧
    bcastAccepted true (fun _ => 0) [gcmp, gcmp] = [gcmp, gcmp] := by
  decide

theorem bcast_pn_replay_once :
    let rframes := [ccmpFrame .aes 2 4, ccmpFrame .aes 2 9, ccmpFrame .aes 2 9]
    ccmpPns 2 (bcastAccepted true (fun _ => 3) rframes) = [4, 9] ∧
      (3 :: ccmpPns 2 (bcastAccepted true (fun _ => 3) rframes)).Pairwise
        fun a b : BitVec 64 => a.toNat < b.toNat := by
  refine ⟨by decide, (bcast_pn_replay (fun _ => 3) 2 _).2 0 ?_ (.inr (by decide))⟩
  decide

/-! ## Frames of one station -/

/-- The receive caches of a station: `struct stainfo_rxcache`, the sequence controls that
`struct sta_recv_priv` keeps beside it, and the duplicate counter. -/
structure StaRecvPriv where
  tidRxseq : Fin 16 → BitVec 16
  bmcTidRxseq : Fin 16 → BitVec 16
  nonqosRxseq : BitVec 16
  nonqosBmcRxseq : BitVec 16
  iv : Fin 16 → BitVec 64
  lastTid : BitVec 8
  duplicateCnt : BitVec 32

variable (sta : StaRecvPriv)

/-- The place where the sequence control of a frame is remembered. -/
inductive RxSeqSlot
  | tid (tid : Fin 16)
  | bmcTid (tid : Fin 16)
  | nonqos
  | nonqosBmc
  deriving DecidableEq, Repr

variable (slot : RxSeqSlot)

def StaRecvPriv.rxseq : RxSeqSlot → BitVec 16
  | .tid tid => sta.tidRxseq tid
  | .bmcTid tid => sta.bmcTidRxseq tid
  | .nonqos => sta.nonqosRxseq
  | .nonqosBmc => sta.nonqosBmcRxseq

def StaRecvPriv.setRxseq (seqCtrl : BitVec 16) : StaRecvPriv :=
  match slot with
  | .tid tid => { sta with tidRxseq := Function.update sta.tidRxseq tid seqCtrl }
  | .bmcTid tid => { sta with bmcTidRxseq := Function.update sta.bmcTidRxseq tid seqCtrl }
  | .nonqos => { sta with nonqosRxseq := seqCtrl }
  | .nonqosBmc => { sta with nonqosBmcRxseq := seqCtrl }

def RecvFrame.tid : Option (Fin 16) :=
  if inRange : rframe.attrib.priority.toNat < 16 then some ⟨_, inRange⟩ else none

def RecvFrame.seqCtrl : BitVec 16 :=
  (rframe.attrib.seqNum.setWidth 16 <<< 4) ||| (rframe.attrib.fragNum.setWidth 16 &&& 0xf)

def RecvFrame.rxSeqSlot (tid : Fin 16) : RxSeqSlot :=
  if rframe.attrib.qos then
    if isMcast rframe.attrib.ra then .bmcTid tid else .tid tid
  else if isMcast rframe.attrib.ra then .nonqosBmc
  else .nonqos

/-- `kernel_recv_decache` on the caches of the station that the frame's `psta` points to. -/
def kernelRecvDecache (rframe : RecvFrame) : Status × StaRecvPriv :=
  if rframe.psta.isNone then (.fail, sta)
  else match rframe.tid with
    | none => (.fail, sta)
    | some tid =>
      if rframe.seqCtrl = sta.rxseq (rframe.rxSeqSlot tid) then
        (.fail, { sta with duplicateCnt := sta.duplicateCnt + 1 })
      else
        (.success, sta.setRxseq (rframe.rxSeqSlot tid) rframe.seqCtrl)

/-- `kernel_recv_ucast_pn_decache`. A packet number that does not advance is not an error. -/
def kernelRecvUcastPnDecache (rframe : RecvFrame) : Status × StaRecvPriv :=
  if rframe.psta.isNone then (.fail, sta)
  else match rframe.tid with
    | none => (.fail, sta)
    | some tid =>
      if rframe.attrib.encrypt ≠ .aes then (.success, sta)
      else
        let currPn := ccmph2Pn (sta.iv tid)
        if validPnChk rframe.pn currPn then
          (.success, { sta with
            lastTid := rframe.attrib.priority
            iv := Function.update sta.iv tid rframe.ccmpHeader })
        else (.success, sta)

def ucastPassed : StaRecvPriv → List RecvFrame → List RecvFrame
  | _, [] => []
  | sta, rframe :: rest =>
    match kernelRecvDecache sta rframe with
    | (.success, sta) =>
      match kernelRecvUcastPnDecache sta rframe with
      | (.success, sta) => rframe :: ucastPassed sta rest
      | (_, sta) => ucastPassed sta rest
    | (_, sta) => ucastPassed sta rest

@[simp]
theorem StaRecvPriv.rxseq_setRxseq (other : RxSeqSlot) (seqCtrl : BitVec 16) :
    (sta.setRxseq slot seqCtrl).rxseq other =
      if other = slot then seqCtrl else sta.rxseq other := by
  cases slot <;> cases other <;> simp [setRxseq, rxseq, update_apply]

theorem kernelRecvDecache_success {sta sta' : StaRecvPriv} {rframe : RecvFrame}
    (passed : kernelRecvDecache sta rframe = (.success, sta')) :
    rframe.psta.isSome = true ∧ ∃ tid, rframe.tid = some tid ∧
      rframe.seqCtrl ≠ sta.rxseq (rframe.rxSeqSlot tid) ∧
      sta' = sta.setRxseq (rframe.rxSeqSlot tid) rframe.seqCtrl := by
  unfold kernelRecvDecache at passed
  cases station : rframe.psta with
  | none => simp [station] at passed
  | some address =>
    cases valid : rframe.tid with
    | none => simp [station, valid] at passed
    | some tid =>
      simp only [station, valid, Option.isNone_some, Bool.false_eq_true, if_false] at passed
      split_ifs at passed with duplicate
      · simp at passed
      · exact ⟨rfl, tid, rfl, duplicate, (Prod.mk.inj passed).2.symm⟩

theorem kernelRecvDecache_fail_rxseq {sta : StaRecvPriv} {rframe : RecvFrame}
    (failed : (kernelRecvDecache sta rframe).1 ≠ .success) :
    (kernelRecvDecache sta rframe).2.rxseq slot = sta.rxseq slot := by
  unfold kernelRecvDecache at *
  split_ifs at * with missing
  · rfl
  · cases valid : rframe.tid with
    | none => simp
    | some tid =>
      simp only [valid] at *
      split_ifs at * with duplicate
      · cases slot <;> rfl
      · simp at failed

theorem kernelRecvUcastPnDecache_success {rframe : RecvFrame} {tid : Fin 16}
    (station : rframe.psta.isSome = true) (valid : rframe.tid = some tid) :
    ∃ sta', kernelRecvUcastPnDecache sta rframe = (.success, sta') ∧
      ∀ slot, sta'.rxseq slot = sta.rxseq slot := by
  simp only [kernelRecvUcastPnDecache, Option.isNone_eq_false_iff.mpr station, valid,
    Bool.false_eq_true, if_false]
  split_ifs with plain advances
  · exact ⟨sta, rfl, fun _ => rfl⟩
  · refine ⟨_, rfl, fun slot => ?_⟩
    cases slot <;> rfl
  · exact ⟨sta, rfl, fun _ => rfl⟩

theorem kernelRecvUcastPnDecache_iv {sta : StaRecvPriv} {rframe : RecvFrame} {tid : Fin 16}
    (changed : (kernelRecvUcastPnDecache sta rframe).2.iv tid ≠ sta.iv tid) :
    rframe.attrib.encrypt = .aes ∧ rframe.tid = some tid ∧
      PnAdvances (ccmph2Pn (sta.iv tid)) rframe.pn ∧
      (kernelRecvUcastPnDecache sta rframe).2.iv tid = rframe.ccmpHeader := by
  unfold kernelRecvUcastPnDecache at *
  cases station : rframe.psta.isNone with
  | true => simp [station] at changed
  | false =>
    cases valid : rframe.tid with
    | none => simp [station, valid] at changed
    | some own =>
      simp only [station, valid, Bool.false_eq_true, if_false] at *
      by_cases plain : rframe.attrib.encrypt ≠ .aes
      · simp [plain] at changed
      · rw [if_neg plain] at *
        by_cases advances : validPnChk rframe.pn (ccmph2Pn (sta.iv own)) = true
        · rw [if_pos advances] at *
          by_cases same : tid = own
          · subst same
            exact ⟨by simpa using plain, rfl, (validPnChk_iff _ _).mp advances, by simp⟩
          · exact absurd (update_of_ne same _ _) changed
        · simp [advances] at changed

def slotSeqCtrls (rframes : List RecvFrame) : List (BitVec 16) :=
  (rframes.filter fun f => f.tid.map f.rxSeqSlot = some slot).map RecvFrame.seqCtrl

theorem slotSeqCtrls_cons {rframe : RecvFrame} {tid : Fin 16} (valid : rframe.tid = some tid)
    (slot : RxSeqSlot) (later : List RecvFrame) :
    slotSeqCtrls slot (rframe :: later) =
      if slot = rframe.rxSeqSlot tid then rframe.seqCtrl :: slotSeqCtrls slot later
      else slotSeqCtrls slot later := by
  by_cases same : slot = rframe.rxSeqSlot tid
  · simp [slotSeqCtrls, valid, same]
  · simp [slotSeqCtrls, valid, same, Ne.symm same]

theorem ucastPassed_chain (rframes : List RecvFrame) :
    (sta.rxseq slot :: slotSeqCtrls slot (ucastPassed sta rframes)).IsChain (· ≠ ·) := by
  induction rframes generalizing sta with
  | nil => exact .singleton _
  | cons rframe rest ih =>
    by_cases passed : (kernelRecvDecache sta rframe).1 = .success
    · obtain ⟨checkedSta, checked⟩ : ∃ checkedSta, kernelRecvDecache sta rframe =
          (.success, checkedSta) := ⟨_, Prod.ext passed rfl⟩
      obtain ⟨station, tid, valid, fresh, stored⟩ := kernelRecvDecache_success checked
      obtain ⟨sta', recorded, kept⟩ :=
        kernelRecvUcastPnDecache_success checkedSta station valid
      have next := ih sta'
      rw [kept slot, stored, StaRecvPriv.rxseq_setRxseq] at next
      simp only [ucastPassed, checked, recorded]
      rw [slotSeqCtrls_cons valid]
      split_ifs at next ⊢ with same
      · -- the frame's own sequence control is now the remembered one
        rw [isChain_cons_cons, same]
        exact ⟨fresh.symm, same ▸ next⟩
      · exact next
    · -- a frame that is turned away is not remembered
      have next := ih (kernelRecvDecache sta rframe).2
      rw [kernelRecvDecache_fail_rxseq slot passed] at next
      have skipped : ucastPassed sta (rframe :: rest) =
          ucastPassed (kernelRecvDecache sta rframe).2 rest := by
        cases result : kernelRecvDecache sta rframe with
        | mk status sta' =>
          cases status with
          | success => simp [result] at passed
          | fail => simp only [ucastPassed, result]
          | handled => simp only [ucastPassed, result]
      rwa [skipped]

/-- Frames that a station's caches pass one after the other in the same slot differ in their
sequence control. The packet number is remembered when it advances, but no frame is turned away for
it. -/
theorem ucast_duplicates (sta : StaRecvPriv) (rframes : List RecvFrame) :
    (∀ slot, (sta.rxseq slot :: slotSeqCtrls slot (ucastPassed sta rframes)).IsChain (· ≠ ·)) ∧
    (∀ (sta sta' : StaRecvPriv) (f : RecvFrame), kernelRecvDecache sta f = (.success, sta') →
      (kernelRecvUcastPnDecache sta' f).1 = .success) ∧
    (∀ (sta : StaRecvPriv) (f : RecvFrame) (tid : Fin 16),
      (kernelRecvUcastPnDecache sta f).2.iv tid ≠ sta.iv tid →
      f.attrib.encrypt = .aes ∧ f.tid = some tid ∧ PnAdvances (ccmph2Pn (sta.iv tid)) f.pn ∧
        (kernelRecvUcastPnDecache sta f).2.iv tid = f.ccmpHeader) := by
  refine ⟨fun slot => ucastPassed_chain sta slot rframes, ?_, ?_⟩
  · intro sta sta' f passed
    obtain ⟨station, tid, valid, _, _⟩ := kernelRecvDecache_success passed
    obtain ⟨sta'', recorded, _⟩ := kernelRecvUcastPnDecache_success sta' station valid
    rw [recorded]
  · intro sta f tid changed
    exact kernelRecvUcastPnDecache_iv changed

def StaRecvPriv.fresh : StaRecvPriv where
  tidRxseq _ := 0xffff
  bmcTidRxseq _ := 0xffff
  nonqosRxseq := 0xffff
  nonqosBmcRxseq := 0xffff
  iv _ := 0
  lastTid := 0
  duplicateCnt := 0

theorem ucast_pn_replayed :
    let replay (seqNum : BitVec 12) : RecvFrame :=
      { ccmpFrame .aes 0 9 with
        attrib := { encrypt := .aes, hdrlen := 24, qos := true, seqNum := seqNum, privacy := true }
        psta := some (Vector.replicate 6 2) }
    (replay 1).tid = (replay 2).tid ∧ (replay 1).pn = (replay 2).pn ∧
      ucastPassed .fresh [replay 1, replay 2] = [replay 1, replay 2] := by
  decide

end Rtl88x2bu.Rx
