import Rtl88x2bu.Rx.Frame

/-!
# Receive reordering

The reordering of `core/rtw_recv.c` for one `recv_reorder_ctrl`. Each event holds the lock of the
pending queue or is a single store, so a run is a sequence of whole events.
-/

namespace Rtl88x2bu.Rx

open List Option

variable {ctrl ctrl' : RecvReorderCtrl} {prframe : RecvFrame} {priv priv' : RecvCounters}

/-- `struct recv_reorder_ctrl`, with the values of `rtw_alloc_stainfo`; `recAbbaRspAck` is the
`RTW_RECV_ACK_OR_TIMEOUT` bit. -/
structure RecvReorderCtrl where
  enable : Bool := false
  indicateSeq : BitVec 16 := 0xffff
  wsizeB : BitVec 8 := 64
  ampduSize : BitVec 8 := 0xff
  pendingRecvframeQueue : List RecvFrame := []
  reorderingCtrlTimer : Bool := false
  bReorderWaiting : Bool := false
  recAbbaRspAck : Bool := false
  deriving DecidableEq, Repr

def snLess (a b : BitVec 16) : Bool := (a - b) &&& 0x800 != 0

def snEqual (a b : BitVec 16) : Bool := a == b

def RecvFrame.seqNum (prframe : RecvFrame) : BitVec 16 := prframe.attrib.seqNum.setWidth 16

/-- The window start that makes `seq_num` the last number of the window; the test
`seq_num >= wsize - 1` of the source compares `int`s. -/
def shiftedStart (wsize seqNum : BitVec 16) : BitVec 16 :=
  if wsize.toNat ≤ seqNum.toNat + 1 then seqNum + 1 - wsize
  else 0xFFF - (wsize - (seqNum + 1)) + 1

section

variable (ctrl priv)

def checkIndicateSeq (seqNum : BitVec 16) : Bool × RecvReorderCtrl × RecvCounters :=
  let wsize : BitVec 16 := ctrl.wsizeB.setWidth 16
  -- 0xFFFF is no sequence number: the first frame sets the window start
  let start := if ctrl.indicateSeq = 0xFFFF then seqNum else ctrl.indicateSeq
  let ctrl := { ctrl with indicateSeq := start }
  let wend := (start + wsize - 1) &&& 0xFFF
  if snLess seqNum start then
    (false, ctrl, priv)
  else if snEqual seqNum start then
    (true, { ctrl with indicateSeq := (start + 1) &&& 0xFFF }, priv)
  else if snLess wend seqNum then
    (true, { ctrl with indicateSeq := shiftedStart wsize seqNum },
      { priv with dbgRxAmpduWindowShiftCnt := priv.dbgRxAmpduWindowShiftCnt + 1 })
  else
    (true, ctrl, priv)

/-- `enqueue_reorder_recvframe`: the queue with the frame in it, or `none` for a duplicate. -/
def enqueueReorderRecvframe (prframe : RecvFrame) : List RecvFrame → Option (List RecvFrame)
  | [] => some [prframe]
  | pnextrframe :: rest =>
    if snLess pnextrframe.seqNum prframe.seqNum then
      (enqueueReorderRecvframe prframe rest).map (pnextrframe :: ·)
    else if snEqual pnextrframe.seqNum prframe.seqNum then
      none
    else
      some (prframe :: pnextrframe :: rest)

def recvIndicatepktsPktLossCnt (prevSeq currentSeq : BitVec 64) : RecvCounters :=
  let lost := if currentSeq < prevSeq then 4096 + currentSeq - prevSeq else currentSeq - prevSeq
  { priv with
    dbgRxAmpduLossCount := priv.dbgRxAmpduLossCount + lost
    rxDrop := priv.rxDrop + lost }

/-- The window start, the frames passed to `recv_process_mpdu`, the queue, and `bPktInBuf`. -/
structure Indication where
  indicateSeq : BitVec 16
  indicated : List RecvFrame
  pending : List RecvFrame
  bPktInBuf : Bool
  deriving DecidableEq, Repr

def indicateLoop (indicateSeq : BitVec 16) : List RecvFrame → Indication
  | [] => ⟨indicateSeq, [], [], false⟩
  | prframe :: rest =>
    if !snLess indicateSeq prframe.seqNum then
      let next := if snEqual indicateSeq prframe.seqNum then (indicateSeq + 1) &&& 0xFFF
        else indicateSeq
      let later := indicateLoop next rest
      { later with indicated := prframe :: later.indicated }
    else
      ⟨indicateSeq, [], prframe :: rest, true⟩

/-- `recv_indicatepkts_in_order`. The frames in the third component are passed to
`recv_process_mpdu`, in that order. -/
def recvIndicatepktsInOrder (bforced : Bool) :
    RecvReorderCtrl × RecvCounters × List RecvFrame × Bool :=
  let finish (start : BitVec 16) (priv : RecvCounters) :=
    let out := indicateLoop start ctrl.pendingRecvframeQueue
    ({ ctrl with indicateSeq := out.indicateSeq, pendingRecvframeQueue := out.pending },
      priv, out.indicated, out.bPktInBuf)
  if bforced then
    let priv :=
      { priv with dbgRxAmpduForcedIndicateCount := priv.dbgRxAmpduForcedIndicateCount + 1 }
    match ctrl.pendingRecvframeQueue with
    -- an empty queue answers with `_TRUE`, which arms the timer again
    | [] => (ctrl, priv, [], true)
    | prframe :: _ =>
      finish prframe.seqNum (recvIndicatepktsPktLossCnt priv (ctrl.indicateSeq.setWidth 64)
        (prframe.seqNum.setWidth 64))
  else
    finish ctrl.indicateSeq priv

end

structure Handling where
  status : Status
  ctrl : RecvReorderCtrl
  priv : RecvCounters
  indicated : List RecvFrame
  deriving DecidableEq, Repr

section

variable (ctrl priv)

/-- `rtw_test_and_clear_bit(RTW_RECV_ACK_OR_TIMEOUT, ..)` and the restart it asks for. -/
def consumeAbbaRspAck : RecvReorderCtrl :=
  if ctrl.recAbbaRspAck then { ctrl with recAbbaRspAck := false, indicateSeq := 0xFFFF } else ctrl

/-- `recv_indicatepkt_reorder` for a frame whose `preorder_ctrl`, if any, is `ctrl`. -/
def recvIndicatepktReorder (prframe : RecvFrame) : Handling :=
  if !prframe.attrib.qos || prframe.preorderCtrl.isNone || !ctrl.enable then
    ⟨.success, ctrl, priv, []⟩
  else
    match checkIndicateSeq (consumeAbbaRspAck ctrl) priv prframe.seqNum with
    | (false, ctrl, priv) =>
      ⟨.fail, ctrl, { priv with dbgRxAmpduDropCount := priv.dbgRxAmpduDropCount + 1 }, []⟩
    | (true, ctrl, priv) =>
      match enqueueReorderRecvframe prframe ctrl.pendingRecvframeQueue with
      | none => ⟨.fail, ctrl, priv, []⟩
      | some queue =>
        match recvIndicatepktsInOrder { ctrl with pendingRecvframeQueue := queue } priv false with
        | (ctrl, priv, indicated, true) =>
          -- a timer that is already running is left to run
          let ctrl := if !ctrl.bReorderWaiting then
              { ctrl with bReorderWaiting := true, reorderingCtrlTimer := true }
            else ctrl
          ⟨.handled, ctrl, priv, indicated⟩
        | (ctrl, priv, indicated, false) =>
          ⟨.handled, { ctrl with bReorderWaiting := false, reorderingCtrlTimer := false }, priv,
            indicated⟩

def rtwReorderingCtrlTimeoutHandler (cannotRun : Bool) : Handling :=
  let ctrl := { ctrl with reorderingCtrlTimer := false }
  if cannotRun then
    ⟨.success, ctrl, priv, []⟩
  else
    match recvIndicatepktsInOrder { ctrl with bReorderWaiting := false } priv true with
    | (ctrl, priv, indicated, true) =>
      ⟨.success, { ctrl with reorderingCtrlTimer := true }, priv, indicated⟩
    | (ctrl, priv, indicated, false) => ⟨.success, ctrl, priv, indicated⟩

def addBaRspHdl (status : BitVec 8) (size : BitVec 8) : RecvReorderCtrl :=
  -- the flag is set whatever the status
  let ctrl := { ctrl with recAbbaRspAck := true }
  if status = 0 then { ctrl with enable := true, ampduSize := size }
  else if status = 37 then { ctrl with enable := false }
  else ctrl

def barStartSeq (pframe : List UInt8) : BitVec 16 := le16At pframe 18 >>> 4

def rtwProcessBarFrame (pframe : List UInt8) : RecvReorderCtrl :=
  { ctrl with indicateSeq := barStartSeq pframe }

/-! ## What the handlers can do -/

def Reorders (prframe : RecvFrame) : Prop :=
  prframe.attrib.qos = true ∧ prframe.preorderCtrl.isSome = true ∧ ctrl.enable = true

end

instance (ctrl : RecvReorderCtrl) (prframe : RecvFrame) : Decidable (Reorders ctrl prframe) :=
  inferInstanceAs (Decidable (_ ∧ _ ∧ _))

theorem Reorders.guard (reorders : Reorders ctrl prframe) :
    ¬ (!prframe.attrib.qos || prframe.preorderCtrl.isNone || !ctrl.enable) = true := by
  obtain ⟨qos, referenced, enabled⟩ := reorders
  simp [qos, isNone_eq_false_iff.mpr referenced, enabled]

def RecvReorderCtrl.after (ctrl : RecvReorderCtrl) (out : Indication) (waiting timer : Bool) :
    RecvReorderCtrl :=
  { ctrl with
    indicateSeq := out.indicateSeq
    pendingRecvframeQueue := out.pending
    bReorderWaiting := waiting
    reorderingCtrlTimer := timer }

theorem recvIndicatepktReorder_bypass (priv : RecvCounters) (other : ¬ Reorders ctrl prframe) :
    recvIndicatepktReorder ctrl priv prframe = ⟨.success, ctrl, priv, []⟩ := by
  unfold recvIndicatepktReorder
  rw [if_pos]
  simp only [Reorders, not_and_or] at other
  -- each way of not being reordered is one disjunct of the test
  cases hq : prframe.attrib.qos <;> cases hc : prframe.preorderCtrl <;> cases he : ctrl.enable <;>
    simp_all

theorem recvIndicatepktReorder_outside (reorders : Reorders ctrl prframe)
    (checked : checkIndicateSeq (consumeAbbaRspAck ctrl) priv prframe.seqNum =
      (false, ctrl', priv')) :
    ∃ counted, recvIndicatepktReorder ctrl priv prframe = ⟨.fail, ctrl', counted, []⟩ := by
  exact ⟨_, by rw [recvIndicatepktReorder, if_neg reorders.guard, checked]⟩

section

variable (reorders : Reorders ctrl prframe) (checked : checkIndicateSeq (consumeAbbaRspAck ctrl)
  priv prframe.seqNum = (true, ctrl', priv'))
include reorders checked

theorem recvIndicatepktReorder_duplicate
    (duplicate : enqueueReorderRecvframe prframe ctrl'.pendingRecvframeQueue = none) :
    recvIndicatepktReorder ctrl priv prframe = ⟨.fail, ctrl', priv', []⟩ := by
  rw [recvIndicatepktReorder, if_neg reorders.guard, checked]
  simp only [duplicate]

theorem recvIndicatepktReorder_queued {queue : List RecvFrame}
    (queued : enqueueReorderRecvframe prframe ctrl'.pendingRecvframeQueue = some queue) :
    ∃ waiting timer, recvIndicatepktReorder ctrl priv prframe =
      ⟨.handled, ctrl'.after (indicateLoop ctrl'.indicateSeq queue) waiting timer, priv',
        (indicateLoop ctrl'.indicateSeq queue).indicated⟩ := by
  rw [recvIndicatepktReorder, if_neg reorders.guard, checked]
  simp only [queued, recvIndicatepktsInOrder, Bool.false_eq_true, if_false]
  cases (indicateLoop ctrl'.indicateSeq queue).bPktInBuf with
  | true => cases h : ctrl'.bReorderWaiting <;> exact ⟨_, _, rfl⟩
  | false => exact ⟨_, _, rfl⟩

end

section

variable (ctrl priv)

theorem rtwReorderingCtrlTimeoutHandler_cases (cannotRun : Bool) :
    (∃ waiting timer priv', rtwReorderingCtrlTimeoutHandler ctrl priv cannotRun =
      ⟨.success, { ctrl with bReorderWaiting := waiting, reorderingCtrlTimer := timer }, priv',
        []⟩) ∨
    ∃ prframe rest waiting timer priv', ctrl.pendingRecvframeQueue = prframe :: rest ∧
      rtwReorderingCtrlTimeoutHandler ctrl priv cannotRun =
        ⟨.success, ctrl.after (indicateLoop prframe.seqNum (prframe :: rest)) waiting timer, priv',
          (indicateLoop prframe.seqNum (prframe :: rest)).indicated⟩ := by
  cases cannotRun with
  | true => exact .inl ⟨_, _, _, rfl⟩
  | false =>
    cases pending : ctrl.pendingRecvframeQueue with
    | nil =>
      left
      simp only [rtwReorderingCtrlTimeoutHandler, recvIndicatepktsInOrder, pending]
      exact ⟨_, _, _, rfl⟩
    | cons prframe rest =>
      right
      simp only [rtwReorderingCtrlTimeoutHandler, recvIndicatepktsInOrder, pending]
      cases (indicateLoop prframe.seqNum (prframe :: rest)).bPktInBuf <;>
        exact ⟨prframe, rest, _, _, _, rfl, rfl⟩

/-! ## Frames are neither lost nor duplicated -/

theorem checkIndicateSeq_pending (seqNum : BitVec 16) :
    (checkIndicateSeq ctrl priv seqNum).2.1.pendingRecvframeQueue = ctrl.pendingRecvframeQueue := by
  simp only [checkIndicateSeq]
  split_ifs <;> rfl

@[simp] theorem consumeAbbaRspAck_pending :
    (consumeAbbaRspAck ctrl).pendingRecvframeQueue = ctrl.pendingRecvframeQueue := by
  unfold consumeAbbaRspAck
  split <;> rfl

end

theorem enqueueReorderRecvframe_perm {queue queue' : List RecvFrame}
    (queued : enqueueReorderRecvframe prframe queue = some queue') :
    queue'.Perm (prframe :: queue) := by
  induction queue generalizing queue' with
  | nil =>
    obtain rfl := some.inj queued
    exact .refl _
  | cons next rest ih =>
    simp only [enqueueReorderRecvframe] at queued
    split_ifs at queued
    · -- further back: the frame it passes changes places with it
      obtain ⟨rest', inserted, rfl⟩ := map_eq_some_iff.mp queued
      exact ((ih inserted).cons next).trans (.swap prframe next rest)
    · obtain rfl := some.inj queued
      exact .refl _

theorem indicateLoop_append (start : BitVec 16) (queue : List RecvFrame) :
    (indicateLoop start queue).indicated ++ (indicateLoop start queue).pending = queue := by
  induction queue generalizing start with
  | nil => rfl
  | cons prframe rest ih =>
    simp only [indicateLoop]
    split
    · exact congrArg (prframe :: ·) (ih _)
    · rfl

theorem recvIndicatepktReorder_conserves (ctrl : RecvReorderCtrl) (priv : RecvCounters)
    (prframe : RecvFrame) :
    let out := recvIndicatepktReorder ctrl priv prframe
    (out.status = .handled ∧
      (out.indicated ++ out.ctrl.pendingRecvframeQueue).Perm
        (prframe :: ctrl.pendingRecvframeQueue)) ∨
    (out.status ≠ .handled ∧ out.indicated = [] ∧
      out.ctrl.pendingRecvframeQueue = ctrl.pendingRecvframeQueue) := by
  by_cases reorders : Reorders ctrl prframe
  · -- the window check and the ADDBA flag do not touch the queue
    have kept := checkIndicateSeq_pending (consumeAbbaRspAck ctrl) priv prframe.seqNum
    rw [consumeAbbaRspAck_pending] at kept
    cases checked : checkIndicateSeq (consumeAbbaRspAck ctrl) priv prframe.seqNum with
    | mk ok rest =>
      obtain ⟨ctrl', priv'⟩ := rest
      rw [checked] at kept
      cases ok with
      | false =>
        obtain ⟨counted, result⟩ := recvIndicatepktReorder_outside reorders checked
        exact .inr ⟨by simp [result], by simp [result], by simpa [result] using kept⟩
      | true =>
        cases inserted : enqueueReorderRecvframe prframe ctrl'.pendingRecvframeQueue with
        | none =>
          have result := recvIndicatepktReorder_duplicate reorders checked inserted
          exact .inr ⟨by simp [result], by simp [result], by simpa [result] using kept⟩
        | some queue =>
          obtain ⟨waiting, timer, result⟩ := recvIndicatepktReorder_queued reorders checked inserted
          have perm := enqueueReorderRecvframe_perm inserted
          refine .inl ⟨by simp [result], ?_⟩
          simp only [result, RecvReorderCtrl.after, indicateLoop_append]
          exact kept ▸ perm
  · simp [recvIndicatepktReorder_bypass priv reorders]

theorem rtwReorderingCtrlTimeoutHandler_conserves (ctrl : RecvReorderCtrl) (priv : RecvCounters)
    (cannotRun : Bool) :
    let out := rtwReorderingCtrlTimeoutHandler ctrl priv cannotRun
    out.indicated ++ out.ctrl.pendingRecvframeQueue = ctrl.pendingRecvframeQueue := by
  rcases rtwReorderingCtrlTimeoutHandler_cases ctrl priv cannotRun with
    ⟨_, _, _, result⟩ | ⟨prframe, rest, _, _, _, pending, result⟩
  · simp [result]
  · simp only [result, RecvReorderCtrl.after, indicateLoop_append, pending]

/-! ## Runs of one controller -/

inductive ReorderEvent
  | frame (prframe : RecvFrame)
  | timeout (cannotRun : Bool)
  | addBaRsp (status size : BitVec 8)
  | bar (pframe : List UInt8)
  deriving DecidableEq, Repr

/-- A controller with its history: the frames received with their outcome and the frames passed to
`recv_process_mpdu`, both oldest first. -/
structure ReorderState where
  ctrl : RecvReorderCtrl
  priv : RecvCounters := {}
  received : List (RecvFrame × Status) := []
  indicated : List RecvFrame := []
  deriving DecidableEq, Repr

variable (s : ReorderState)

def ReorderState.step : ReorderEvent → ReorderState
  | .frame prframe =>
    let out := recvIndicatepktReorder s.ctrl s.priv prframe
    { ctrl := out.ctrl, priv := out.priv, received := s.received ++ [(prframe, out.status)],
      indicated := s.indicated ++ out.indicated }
  | .timeout cannotRun =>
    let out := rtwReorderingCtrlTimeoutHandler s.ctrl s.priv cannotRun
    { s with ctrl := out.ctrl, priv := out.priv, indicated := s.indicated ++ out.indicated }
  | .addBaRsp status size => { s with ctrl := addBaRspHdl s.ctrl status size }
  | .bar pframe => { s with ctrl := rtwProcessBarFrame s.ctrl pframe }

def ReorderState.handled : List RecvFrame :=
  (s.received.filter (·.2 = .handled)).map Prod.fst

/-- Frames handed up and pending are those taken over and those pending at the start. -/
def ReorderState.Conserved (earlier : List RecvFrame) (s : ReorderState) : Prop :=
  (s.indicated ++ s.ctrl.pendingRecvframeQueue).Perm (s.handled ++ earlier)

theorem ReorderState.step_conserved {earlier : List RecvFrame} (e : ReorderEvent)
    (conserved : s.Conserved earlier) : (s.step e).Conserved earlier := by
  unfold Conserved at *
  cases e with
  | frame prframe =>
    simp only [step, handled, filter_append, map_append, append_assoc]
    rcases recvIndicatepktReorder_conserves s.ctrl s.priv prframe with
      ⟨taken, perm⟩ | ⟨other, none, kept⟩
    · simp only [taken, filter_cons_of_pos, decide_true, filter_nil, map_cons,
        map_nil, singleton_append]
      -- both sides gain the new frame
      have gained := (conserved.cons prframe).trans perm_middle.symm
      exact (perm.append_left s.indicated).trans (perm_middle.trans gained)
    · simpa [none, kept, other, handled] using conserved
  | timeout cannotRun =>
    -- frames only move from the queue to what has been handed up
    simpa only [step, handled, append_assoc, rtwReorderingCtrlTimeoutHandler_conserves]
      using conserved
  | addBaRsp status size =>
    have kept : (addBaRspHdl s.ctrl status size).pendingRecvframeQueue =
        s.ctrl.pendingRecvframeQueue := by
      simp only [addBaRspHdl]
      split_ifs <;> rfl
    simpa only [step, handled, kept] using conserved
  | bar pframe => exact conserved

end Rtl88x2bu.Rx
