import Rtl88x2bu.Rx.DataFrame

/-!
# The receive path

`recv_func` (`core/rtw_recv.c`) takes a frame through validation, decryption, defragmentation, port
control and reordering to `recv_process_mpdu`, which frees it once on each of its exits. The pool is
`NR_RECVFRAME` frames, known by their slots. What the path calls and this development does not model
enters as an answer: the allocator, the header checks of the ad hoc modes, the outcome of
`recv_process_mpdu`.
-/

namespace Rtl88x2bu.Rx

variable (cr : Crypto)

def nrRecvframe : ℕ := 256

/-- The adapter as the receive path sees it. -/
structure RecvPath where
  mode : AdapterMode := {}
  sec : SecurityPriv := {}
  stations : StaTable
  counters : RecvCounters := {}
  freeRecvQueue : List ℕ
  freeRecvframeCnt : ℕ
  ucSwdecPendingQueue : List RecvFrame := []
  -- not in the source: a frame was freed that was on the free queue already
  freedTwice : Bool := false

variable (s : RecvPath)

/-- The answers of what the path calls while it handles one frame. -/
structure Answers where
  -- the sizes that `rtw_zmalloc` can allocate
  zmalloc : ℕ → Bool
  otherHdr : RecvFrame → Status × Option MacAddr
  -- whether `recv_process_mpdu` returns `_SUCCESS`
  mpdu : RecvFrame → Bool
  -- whether `mp_recv_frame`, when it may indicate, gets as far as `rtw_recv_indicatepkt`
  mpIndicates : RecvFrame → Bool

variable (ans : Answers)

/-! ## The pool -/

def StaInfo.unlink (slot : ℕ) (psta : StaInfo) : StaInfo :=
  { psta with
    defragQ := psta.defragQ.filter (·.slot ≠ slot)
    recvreorderCtrl := fun tid => { psta.recvreorderCtrl tid with
      pendingRecvframeQueue :=
        (psta.recvreorderCtrl tid).pendingRecvframeQueue.filter (·.slot ≠ slot) } }

def RecvPath.listDelete (slot : ℕ) : RecvPath :=
  { s with
    freeRecvQueue := s.freeRecvQueue.filter (· ≠ slot)
    ucSwdecPendingQueue := s.ucSwdecPendingQueue.filter (·.slot ≠ slot)
    stations := fun addr => (s.stations addr).map (StaInfo.unlink slot) }

def RecvPath.rtwFreeRecvframe (slot : ℕ) : RecvPath :=
  { s.listDelete slot with
    freeRecvQueue := (s.listDelete slot).freeRecvQueue ++ [slot]
    freeRecvframeCnt := s.freeRecvframeCnt + 1
    freedTwice := s.freedTwice || decide (slot ∈ s.freeRecvQueue) }

def RecvPath.freeAll (slots : List ℕ) : RecvPath :=
  slots.foldl RecvPath.rtwFreeRecvframe s

def RecvPath.rtwAllocRecvframe : Option (ℕ × RecvPath) :=
  match s.freeRecvQueue with
  | [] => none
  | slot :: rest =>
    some (slot, { s with freeRecvQueue := rest, freeRecvframeCnt := s.freeRecvframeCnt - 1 })

def RecvPath.enqueueSwdec (f : RecvFrame) : RecvPath :=
  { s.listDelete f.slot with
    ucSwdecPendingQueue := (s.listDelete f.slot).ucSwdecPendingQueue ++ [f] }

def RecvPath.dequeueSwdec : Option (RecvFrame × RecvPath) :=
  match s.ucSwdecPendingQueue with
  | [] => none
  | f :: rest => some (f, { s with ucSwdecPendingQueue := rest })

def RecvPath.countDrop : RecvPath :=
  { s with counters.dbgRxDropCount := s.counters.dbgRxDropCount + 1 }

/-! ## From decryption on -/

/-- `recv_process_mpdu` as its callers count it. -/
def RecvPath.recvProcessMpdu (s : RecvPath) (f : RecvFrame) : RecvPath :=
  let s := s.rtwFreeRecvframe f.slot
  if ans.mpdu f then s else s.countDrop

/-- `portctrl`: whether the frame goes on. A blocked station may only send EAPOL. -/
def portctrl (sec : SecurityPriv) (stations : StaTable) (f : RecvFrame) : Bool :=
  if sec.dot11AuthAlgrthm = .ieee8021X then
    match rtwGetStainfo stations f.attrib.ta with
    | none => true
    | some psta => !psta.ieee8021xBlocked || etherType f == eapolType
  else true

def setReorderCtrl (stations : StaTable) (ref : ReorderRef) (psta : StaInfo)
    (ctrl : RecvReorderCtrl) : StaTable :=
  Function.update stations ref.sta
    (some { psta with recvreorderCtrl := Function.update psta.recvreorderCtrl ref.tid ctrl })

def RecvPath.afterReorder (ref : ReorderRef) (psta : StaInfo) (out : Handling) : RecvPath :=
  { s with stations := setReorderCtrl s.stations ref psta out.ctrl, counters := out.priv }

/-- `recv_set_iseq_before_mpdu_process` and `recv_set_iseq_after_mpdu_process`. -/
def Handling.setIseq (out : Handling) (seqNum : BitVec 16) : Handling :=
  { out with ctrl.indicateSeq := (seqNum + 1) % 4096 }

/-- Through `recv_indicatepkt_reorder` and up. `orig`: the frame `recv_func_posthandle` was called
with. -/
def RecvPath.indicate (s : RecvPath) (orig f : RecvFrame) : RecvPath :=
  match f.preorderCtrl.bind fun ref => (s.stations ref.sta).map (ref, ·) with
  -- without a controller the frame goes up as it comes
  | none => s.recvProcessMpdu ans f
  | some (ref, psta) =>
    let out := recvIndicatepktReorder (psta.recvreorderCtrl ref.tid) s.counters f
    match out.status with
    -- the source frees the frame it was called with, which is not the reassembled one
    | .fail => ((s.afterReorder ref psta out).rtwFreeRecvframe orig.slot).countDrop
    | .handled => out.indicated.foldl (RecvPath.recvProcessMpdu ans) (s.afterReorder ref psta out)
    | .success => (s.afterReorder ref psta (out.setIseq orig.seqNum)).recvProcessMpdu ans f

def recvFuncPosthandle (s : RecvPath) (f : RecvFrame) : RecvPath :=
  match decryptor cr s.sec s.stations f with
  | none => (s.rtwFreeRecvframe f.slot).countDrop
  | some g =>
    let out := recvframeChkDefrag cr s.sec s.stations g
    let s := { s with stations := out.stations }.freeAll out.freed
    match out.frame with
    | none => s.countDrop
    | some prframe =>
      if portctrl s.sec s.stations prframe then s.indicate ans g prframe
      else (s.rtwFreeRecvframe prframe.slot).countDrop

/-! ## Validation -/

def RecvPath.recvMgntFrame (s : RecvPath) (f : RecvFrame) : RecvPath :=
  let out := validateRecvMgntFrame cr ans.zmalloc s.sec s.stations f
  { s with sec := out.sec, stations := out.stations }.freeAll out.freed

def barTarget (mode : AdapterMode) (pframe : List UInt8) : Option ReorderRef :=
  if getAddr1 pframe = mode.macAddr ∧ getFrameSubType pframe = 0x84 then
    some ⟨staAddr (getAddr2 pframe), (le16At pframe 16).extractLsb' 12 4⟩
  else none

/-- The effect of `validate_recv_ctrl_frame` on the path, that of a block-ack request. -/
def RecvPath.recvCtrlFrame (f : RecvFrame) : RecvPath :=
  match (barTarget s.mode f.rxData).bind fun ref => (s.stations ref.sta).map (ref, ·) with
  | none => s
  | some (ref, psta) =>
    let ctrl := rtwProcessBarFrame (psta.recvreorderCtrl ref.tid) f.rxData
    { s with stations := setReorderCtrl s.stations ref psta ctrl }

def RecvPath.recvDataFrame (s : RecvPath) (f : RecvFrame) : Status × RecvPath × RecvFrame :=
  let f := { f with attrib.qos := getFrameSubType f.rxData &&& 0x80 != 0 }
  let out := validateRecvDataFrame s.mode ans.otherHdr s.sec s.stations f
  let s := { s with sec := out.sec, stations := out.stations }
  (out.status, if out.status = .fail then s.countDrop else s, out.frame)

def RecvPath.validateRecvFrame (s : RecvPath) (f : RecvFrame) : Status × RecvPath × RecvFrame :=
  if f.rxData.getD 0 0 &&& 0x3 ≠ 0 then (.fail, s, f)
  else
    let f := f.parse
    match getFrameType f.rxData with
    -- management and control frames are consumed here, and `_FAIL` makes the caller free them
    | .mgt => (.fail, s.recvMgntFrame cr ans f, f)
    | .ctrl => (.fail, s.recvCtrlFrame f, f)
    | .data => s.recvDataFrame ans f
    | .reserved => (.fail, s, f)

/-- `mp_recv_frame`. When associated it frees the frame itself or lets `rtw_recv_indicatepkt` do it,
and the exit frees it again. -/
def RecvPath.mpRecvFrame (s : RecvPath) (f : RecvFrame) : RecvPath :=
  let s := if s.mode.asoc && (!s.mode.rxBindicatePkt || ans.mpIndicates f) then
      s.rtwFreeRecvframe f.slot
    else s
  s.rtwFreeRecvframe f.slot

def recvFuncPrehandle (s : RecvPath) (f : RecvFrame) : RecvPath × Option RecvFrame :=
  if s.mode.mpMode then (s.mpRecvFrame ans f, none)
  else
    match s.validateRecvFrame cr ans f with
    | (.success, s, f) => (s, some f)
    | (_, s, f) => (s.rtwFreeRecvframe f.slot, none)

/-! ## The whole path -/

/-- The loop that empties `uc_swdec_pending_queue` once the pairwise key is set, for at most `fuel`
frames. -/
def drainSwdec (cr : Crypto) (ans : Answers) : ℕ → RecvPath → RecvPath
  | 0, s => s
  | fuel + 1, s =>
    match s.dequeueSwdec with
    | none => s
    | some (f, s) => drainSwdec cr ans fuel (recvFuncPosthandle cr ans s f)

def drainIfKeyed (s : RecvPath) : RecvPath :=
  if s.mode.station && s.sec.busetkipkey then drainSwdec cr ans s.ucSwdecPendingQueue.length s
  else s

def RecvPath.waitsForKey (f : RecvFrame) : Bool :=
  s.mode.station && !isMcast f.attrib.ra && f.attrib.encrypt != .noPrivacy &&
    (!f.attrib.bdecrypted || s.sec.swDecrypt) && s.sec.wpapsk && !s.sec.busetkipkey

/-- Queue a frame for the pairwise key. When free frames run short, the longest queued one goes on
without it. -/
def pendForKey (s : RecvPath) (f : RecvFrame) : RecvPath :=
  let s := s.enqueueSwdec f
  if s.freeRecvframeCnt < nrRecvframe / 4 then
    -- the frame that goes on is the first of the queue, which need not be `f`
    match s.dequeueSwdec with
    | none => s
    | some (f, s) => recvFuncPosthandle cr ans s f
  else s

def recvFunc (s : RecvPath) (f : RecvFrame) : RecvPath :=
  -- `recv_frame_monitor` frees the frame once
  if s.mode.monitor then s.rtwFreeRecvframe f.slot
  else
    match recvFuncPrehandle cr ans (drainIfKeyed cr ans s) f with
    | (s, none) => s
    | (s, some f) =>
      if s.waitsForKey f then pendForKey cr ans s f else recvFuncPosthandle cr ans s f

/-! ## The loop ends -/

theorem foldl_swdec {Item : Type} {op : RecvPath → Item → RecvPath}
    (shrinks : ∀ s x, (op s x).ucSwdecPendingQueue.Sublist s.ucSwdecPendingQueue)
    (xs : List Item) (s : RecvPath) :
    (xs.foldl op s).ucSwdecPendingQueue.Sublist s.ucSwdecPendingQueue := by
  induction xs generalizing s with
  | nil => exact .refl _
  | cons x rest ih => exact (ih (op s x)).trans (shrinks s x)

theorem rtwFreeRecvframe_swdec (slot : ℕ) :
    (s.rtwFreeRecvframe slot).ucSwdecPendingQueue.Sublist s.ucSwdecPendingQueue :=
  List.filter_sublist

theorem recvProcessMpdu_swdec (s : RecvPath) (f : RecvFrame) :
    (s.recvProcessMpdu ans f).ucSwdecPendingQueue.Sublist s.ucSwdecPendingQueue := by
  simp only [RecvPath.recvProcessMpdu]
  split_ifs <;> exact rtwFreeRecvframe_swdec s f.slot

theorem indicate_swdec (s : RecvPath) (orig f : RecvFrame) :
    (s.indicate ans orig f).ucSwdecPendingQueue.Sublist s.ucSwdecPendingQueue := by
  unfold RecvPath.indicate
  split
  · exact recvProcessMpdu_swdec ans s f
  next ref psta _ =>
    dsimp only
    split
    · exact rtwFreeRecvframe_swdec (s.afterReorder ref psta _) orig.slot
    · exact foldl_swdec (recvProcessMpdu_swdec ans) _ (s.afterReorder ref psta _)
    · exact recvProcessMpdu_swdec ans (s.afterReorder ref psta _) f

theorem posthandle_swdec (s : RecvPath) (f : RecvFrame) :
    (recvFuncPosthandle cr ans s f).ucSwdecPendingQueue.Sublist s.ucSwdecPendingQueue := by
  -- `recv_func_posthandle` puts nothing on `uc_swdec_pending_queue`
  unfold recvFuncPosthandle
  split
  · exact rtwFreeRecvframe_swdec s f.slot
  next g _ =>
    have freed := foldl_swdec rtwFreeRecvframe_swdec
      (recvframeChkDefrag cr s.sec s.stations g).freed
      { s with stations := (recvframeChkDefrag cr s.sec s.stations g).stations }
    dsimp only
    split
    · exact freed
    next prframe _ =>
      split_ifs
      · exact (indicate_swdec ans _ g prframe).trans freed
      · exact (rtwFreeRecvframe_swdec _ prframe.slot).trans freed

theorem drainSwdec_empty {fuel : ℕ} {s : RecvPath} (enough : s.ucSwdecPendingQueue.length ≤ fuel) :
    (drainSwdec cr ans fuel s).ucSwdecPendingQueue = [] := by
  induction fuel generalizing s with
  | zero => exact List.length_eq_zero_iff.mp (Nat.le_zero.mp enough)
  | succ fuel ih =>
    cases queue : s.ucSwdecPendingQueue with
    | nil => simp [drainSwdec, RecvPath.dequeueSwdec, queue]
    | cons f rest =>
      simp only [drainSwdec, RecvPath.dequeueSwdec, queue]
      apply ih
      -- one frame has gone and `recv_func_posthandle` adds none
      have shorter := (posthandle_swdec cr ans { s with ucSwdecPendingQueue := rest } f).length_le
      rw [queue, List.length_cons] at enough
      exact Nat.le_trans shorter (Nat.le_of_succ_le_succ enough)

/-! ## Runs -/

/-- What can happen to the path: an MPDU arrives and is put into a free frame, the timer of a
reordering controller expires, the configuration changes, or station entries do. -/
inductive RecvEvent
  | mpdu (ans : Answers) (f : RecvFrame)
  | reorderTimeout (ans : Answers) (ref : ReorderRef) (cannotRun : Bool)
  | configure (mode : AdapterMode) (sec : SecurityPriv)
  | stations (table : StaTable)

def RecvPath.recvTimeout (s : RecvPath) (ref : ReorderRef) (cannotRun : Bool) : RecvPath :=
  match s.stations ref.sta with
  | none => s
  | some psta =>
    let out := rtwReorderingCtrlTimeoutHandler (psta.recvreorderCtrl ref.tid) s.counters cannotRun
    out.indicated.foldl (RecvPath.recvProcessMpdu ans) (s.afterReorder ref psta out)

def RecvPath.step : RecvEvent → RecvPath
  | .mpdu ans f =>
    match s.rtwAllocRecvframe with
    | none => s
    | some (slot, s) => recvFunc cr ans s { f with slot }
  | .reorderTimeout ans ref cannotRun => s.recvTimeout ans ref cannotRun
  | .configure mode sec => { s with mode, sec }
  | .stations table => { s with stations := table }

end Rtl88x2bu.Rx
