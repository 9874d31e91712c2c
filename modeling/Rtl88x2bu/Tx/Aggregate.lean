import Rtl88x2bu.Tx.FragmentLayout
import Rtl88x2bu.Tx.Queue

/-!
# Aggregation of frames in a transmit buffer

`rtl8822bu_xmitframe_complete` (`hal/rtl8822b/usb/rtl8822bu_xmit.c`) reserves room by the size
estimate and leaves the writing to `rtw_xmitframe_coalesce`.
-/

namespace Rtl88x2bu.Tx

open List
open Rx (MacAddr isMcast staAddr)

def maxXmitbufSz : ℕ := 20480

def maxTxAggPacketNumber8822b : ℕ := 0xff

def qsltHigh : BitVec 8 := 0x11

structure HalUsb where
  bulkSize : ℕ := 512
  txAggDescNum : ℕ := 3

structure Placement where
  frame : XmitFrame
  start : ℕ
  pktOffset : ℕ
  out : Coalesced

/-- The variables of the aggregation loop, the frames placed so far and the sequence numbers. -/
structure AggVars where
  pbuf : ℕ
  pbufTail : ℕ
  descCount : ℕ
  bulkPtr : ℕ
  aggNum : ℕ
  placed : List Placement
  txseqTid : MacAddr → TxSeq

/-- The loop has taken `taken` off the queue, whether it could place them or not. -/
structure Aggregated where
  vars : AggVars
  taken : List XmitFrame
  rest : List XmitFrame

def Aggregated.alsoTake (f : XmitFrame) (r : Aggregated) : Aggregated :=
  { r with taken := f :: r.taken }

def rtwHalBusaggQselCheck (env : XmitEnv) (preQsel nextQsel : BitVec 8) : Bool :=
  env.fwState ≠ .ap || !((preQsel = qsltHigh || nextQsel = qsltHigh) && preQsel ≠ nextQsel)

def bulkCheck (hal : HalUsb) (pbuf descCount bulkPtr : ℕ) : Option (ℕ × ℕ) :=
  if pbuf < bulkPtr then
    if descCount + 1 = hal.txAggDescNum then none else some (descCount + 1, bulkPtr)
  else some (0, (pbuf / hal.bulkSize + 1) * hal.bulkSize)

def coalesceAt (env : XmitEnv) (s : TxState) (txseqTid : MacAddr → TxSeq) (f : XmitFrame)
    (bufAddr pktOffset : ℕ) : (MacAddr → TxSeq) × Option Coalesced :=
  let addr := staAddr f.attrib.ra
  let psta := (s.rtwGetStainfo f.attrib.ra).map fun psta => (addr, psta)
  match rtwXmitframeCoalesce env f bufAddr pktOffset psta (txseqTid addr) with
  | none => (txseqTid, none)
  | some (seq, out) => (Function.update txseqTid addr seq, out)

section
variable (env : XmitEnv) (hal : HalUsb) (s : TxState)

def reservedLen (f : XmitFrame) (pktOffset : ℕ) : ℕ := hwHdrOffset pktOffset + rtwWlanPktSize f

def AggVars.place (v : AggVars) (f : XmitFrame) (out : Coalesced) : AggVars :=
  { v with
    pbufTail := v.pbuf + reservedLen f 0
    pbuf := rnd8 (v.pbuf + reservedLen f 0)
    aggNum := v.aggNum + 1
    placed := v.placed ++ [⟨f, v.pbuf, 0, out⟩] }

/-- The aggregation loop over the frames left in the queue; `qsel` is that of the first frame. -/
def aggLoop (qsel : BitVec 8) : AggVars → List XmitFrame → Aggregated
  | v, [] => ⟨v, [], []⟩
  | v, f :: rest =>
    if !rtwHalBusaggQselCheck env qsel f.attrib.qsel then ⟨v, [], f :: rest⟩
    else if maxXmitbufSz < rnd8 (v.pbuf + reservedLen f 0) then ⟨v, [], f :: rest⟩
    else
      match coalesceAt env s v.txseqTid f v.pbuf 0 with
      | (txseqTid, none) => (aggLoop qsel { v with txseqTid } rest).alsoTake f
      | (txseqTid, some out) =>
        let v := { v with txseqTid }.place f out
        if v.aggNum = maxTxAggPacketNumber8822b then ⟨v, [f], rest⟩
        else
          match bulkCheck hal v.pbuf v.descCount v.bulkPtr with
          | none => ⟨v, [f], rest⟩
          | some (descCount, bulkPtr) =>
            (aggLoop qsel { v with descCount, bulkPtr } rest).alsoTake f

/-- The variables after the first frame, which is placed without a look at the buffer size. -/
def AggVars.first (p : Placement) : AggVars where
  pbuf := rnd8 (reservedLen p.frame p.pktOffset)
  pbufTail := reservedLen p.frame p.pktOffset
  descCount := 0
  bulkPtr := hal.bulkSize
  aggNum := 1
  placed := [p]
  txseqTid := s.txseqTid

def aggregate (addr : MacAddr) (p : Placement) (v : AggVars) : TxState × Aggregated :=
  let q := HwQueue.ac p.frame.ac
  let r := aggLoop env hal s p.frame.attrib.qsel v (s.pending addr q)
  let taken := (s.setPending addr q r.rest).countBy addr q (-r.taken.length)
  let served :=
    if r.rest = [] then taken.listDelete addr q
    -- other stations are waiting: this one goes to the end
    else if 1 < (s.staQueue q).length then (taken.listDelete addr q).insertTail addr q
    else taken
  ({ served with txseqTid := r.vars.txseqTid }, r)

end

/-- The search for a first frame that can be written; `none` if the fuel runs out. -/
def pickFirst (env : XmitEnv) (inx : List Ac) : ℕ → TxState → Option (TxState × Option Placement)
  | 0, _ => none
  | fuel + 1, s =>
    match rtwDequeueXframe inx s with
    | none => some (s, none)
    | some (_, f, s) =>
      match coalesceAt env s s.txseqTid f 0 1 with
      | (txseqTid, none) => pickFirst env inx fuel { s with txseqTid }
      | (txseqTid, some out) => some ({ s with txseqTid }, some ⟨f, 0, 1, out⟩)

/-- What the USB core gets: the frames, their end, and the first descriptor once the packet offset
is given up. -/
structure TxBuffer where
  placed : List Placement
  len : ℕ
  firstBufAddr : ℕ
  firstPktOffset : ℕ

def finishBuffer (hal : HalUsb) (v : AggVars) : TxBuffer :=
  if v.pbufTail % hal.bulkSize = 0 then ⟨v.placed, v.pbufTail - packetOffsetSz, packetOffsetSz, 0⟩
  else ⟨v.placed, v.pbufTail, 0, 1⟩

def queuedFrames (inx : List Ac) (s : TxState) : ℕ :=
  (inx.map fun ac =>
    ((s.staQueue (.ac ac)).map fun addr => (s.pending addr (.ac ac)).length).sum).sum

/-- `rtl8822bu_xmitframe_complete` once it has a transmit buffer. -/
def rtl8822buXmitframeComplete (env : XmitEnv) (hal : HalUsb) (inx : List Ac) (s : TxState) :
    Option (TxState × Option TxBuffer) :=
  match rtwDequeueMgmtXframe s with
  | some (_, _, s) => some (s, none)
  | none =>
    (pickFirst env inx (queuedFrames inx s + 1) s).map fun (s, found) =>
      match found with
      | none => (s, none)
      | some p =>
        let v := AggVars.first hal s p
        match p.frame.attrib.psta, bulkCheck hal v.pbuf v.descCount v.bulkPtr with
        | some addr, some (descCount, bulkPtr) =>
          let out := aggregate env hal s addr p { v with descCount, bulkPtr }
          (out.1, some (finishBuffer hal out.2.vars))
        | _, _ => (s, some (finishBuffer hal v))

section
variable {env : XmitEnv} {hal : HalUsb} {s s' : TxState} {inx : List Ac}

variable (env hal s) in
theorem aggLoop_taken (qsel : BitVec 8) (v : AggVars) (queue : List XmitFrame) :
    (aggLoop env hal s qsel v queue).taken ++ (aggLoop env hal s qsel v queue).rest = queue := by
  induction queue generalizing v with
  | nil => rfl
  | cons f rest ih =>
    rw [aggLoop]
    split
    · rfl
    · split
      · rfl
      · split
        · exact congrArg (f :: ·) (ih _)
        · dsimp only
          split
          · rfl
          · split
            · rfl
            · exact congrArg (f :: ·) (ih _)

theorem aggLoop_placed_mem {qsel : BitVec 8} {v : AggVars} {queue : List XmitFrame} {p : Placement}
    (placed : p ∈ (aggLoop env hal s qsel v queue).vars.placed) :
    p ∈ v.placed ∨ p.frame ∈ queue := by
  induction queue generalizing v with
  | nil => exact .inl placed
  | cons f rest ih =>
    have new : ∀ v : AggVars, ∀ out, p ∈ (v.place f out).placed →
        p ∈ v.placed ∨ p.frame ∈ f :: rest := by
      intro v out member
      rcases mem_append.mp member with old | new
      · exact .inl old
      · rw [mem_singleton.mp new]
        exact .inr mem_cons_self
    rw [aggLoop] at placed
    split at placed
    · exact .inl placed
    · split at placed
      · exact .inl placed
      · split at placed
        · exact (ih placed).imp id (mem_cons_of_mem f)
        · dsimp only at placed
          split at placed
          · exact new _ _ placed
          · split at placed
            · exact new _ _ placed
            · exact (ih placed).elim (new _ _) fun later => .inr (mem_cons_of_mem f later)

theorem pending_dequeued {addr a : MacAddr} {q r : HwQueue} {f : XmitFrame}
    {frames : List XmitFrame} (waiting : s.pending addr q = f :: frames) :
    ((s.requeue addr q frames).delistIdle addr q frames).pending a r =
      if a = addr ∧ r = q then frames else s.pending a r := by
  obtain ⟨psta, present⟩ := TxState.present_of_pending (waiting ▸ mem_cons_self)
  have same : ((s.requeue addr q frames).delistIdle addr q frames).pending a r =
      (s.requeue addr q frames).pending a r := by
    rw [TxState.delistIdle]
    split <;> rfl
  rw [same, TxState.pending_requeue present]

theorem queuedFrames_dequeue {addr : MacAddr} {f : XmitFrame}
    (dequeued : rtwDequeueXframe inx s = some (addr, f, s')) :
    queuedFrames inx s' < queuedFrames inx s := by
  obtain ⟨ac, member, frames, listed, waiting, rfl⟩ := rtwDequeueXframe_some dequeued
  have shorter : ∀ a r, (((s.requeue addr (.ac ac) frames).delistIdle addr (.ac ac)
      frames).pending a r).length ≤ (s.pending a r).length := by
    intro a r
    rw [pending_dequeued waiting]
    split
    next here =>
      obtain ⟨rfl, rfl⟩ := here
      rw [waiting]
      exact Nat.le_succ _
    · exact le_rfl
  have fewer : ∀ r, (((s.requeue addr (.ac ac) frames).delistIdle addr (.ac ac)
      frames).staQueue r).Sublist (s.staQueue r) := by
    intro r
    rw [TxState.delistIdle]
    split
    · simp only [TxState.listDelete, Function.update_apply]
      split
      next same => exact same ▸ filter_sublist
      · exact List.Sublist.refl _
    · exact List.Sublist.refl _
  refine sum_lt_sum _ _ (fun r _ => ?_) ⟨ac, member, ?_⟩
  · exact (((fewer _).map _).sum_le_sum (by simp)).trans
      (sum_le_sum fun a _ => shorter a (.ac r))
  · refine (((fewer _).map _).sum_le_sum (by simp)).trans_lt ?_
    refine sum_lt_sum _ _ (fun a _ => shorter a (.ac ac)) ⟨addr, listed, ?_⟩
    rw [pending_dequeued waiting, if_pos ⟨rfl, rfl⟩, waiting]
    exact Nat.lt_succ_self _

theorem pickFirst_isSome {fuel : ℕ} (enough : queuedFrames inx s < fuel) :
    (pickFirst env inx fuel s).isSome := by
  induction fuel generalizing s with
  | zero => cases enough
  | succ fuel ih =>
    rw [pickFirst]
    split
    · rfl
    next dequeued =>
      split
      · exact ih ((queuedFrames_dequeue dequeued).trans_le (Nat.le_of_lt_succ enough))
      · rfl

theorem rtl8822buXmitframeComplete_isSome : (rtl8822buXmitframeComplete env hal inx s).isSome := by
  rw [rtl8822buXmitframeComplete]
  split
  · rfl
  · exact (Option.isSome_map).trans (pickFirst_isSome (Nat.lt_succ_self _))

theorem pickFirst_pending {fuel : ℕ} {found : Option Placement}
    (picked : pickFirst env inx fuel s = some (s', found)) :
    (∀ a r, s'.pending a r ⊆ s.pending a r) ∧
      ∀ p ∈ found, ∃ addr ac, p.frame ∈ s.pending addr (.ac ac) := by
  induction fuel generalizing s with
  | zero => cases picked
  | succ fuel ih =>
    rw [pickFirst] at picked
    split at picked
    · cases picked
      exact ⟨fun _ _ => List.Subset.refl _, fun _ none => nomatch none⟩
    next addr f s₁ dequeued =>
      obtain ⟨ac, -, frames, -, waiting, rfl⟩ := rtwDequeueXframe_some dequeued
      have waited : ∀ a r, ((s.requeue addr (.ac ac) frames).delistIdle addr (.ac ac)
          frames).pending a r ⊆ s.pending a r := by
        intro a r
        rw [pending_dequeued waiting]
        split
        next here =>
          obtain ⟨rfl, rfl⟩ := here
          rw [waiting]
          exact subset_cons_self f frames
        · exact List.Subset.refl _
      split at picked
      · obtain ⟨left, origin⟩ := ih picked
        refine ⟨fun a r => List.Subset.trans (left a r) (waited a r), fun p here => ?_⟩
        obtain ⟨addr', ac', member⟩ := origin p here
        exact ⟨addr', ac', waited _ _ member⟩
      · cases picked
        refine ⟨waited, fun p here => ?_⟩
        cases here
        exact ⟨addr, ac, waiting ▸ mem_cons_self⟩

end

end Rtl88x2bu.Tx
