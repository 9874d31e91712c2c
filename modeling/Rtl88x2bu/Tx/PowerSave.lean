import Rtl88x2bu.Tx.Queue

/-!
# Power save and association

What an access point does with the frames of a sleeping station (`core/rtw_xmit.c`), with a PS-Poll
(`validate_recv_ctrl_frame` of `core/rtw_recv.c`), and how stations come and go (`OnAuth` and
`OnAssocReq` of `core/rtw_mlme_ext.c`, `rtw_aid_alloc` of `core/rtw_sta_mgt_rest.c`,
`rtw_free_stainfo` of `core/rtw_sta_mgt_free.c`).
-/

namespace Rtl88x2bu.Tx

open Rx (MacAddr isMcast staAddr bcAddr)

variable (cfg : ApConfig) (s : TxState) (addr : MacAddr)

/-! ## Diverting frames to a sleep queue -/

/-- A group addressed frame at the end of the sleep queue. -/
def StaInfo.buffer (psta : StaInfo) (f : XmitFrame) : StaInfo :=
  { psta with sleepQ := psta.sleepQ ++ [f], sleepqLen := psta.sleepqLen + 1 }

/-- The same for a station that may have enabled delivery for the category of the frame. -/
def StaInfo.bufferUnicast (psta : StaInfo) (f : XmitFrame) : StaInfo :=
  { psta.buffer f with sleepqAcLen :=
      if psta.deliveryEnabled f.ac then psta.sleepqAcLen + 1 else psta.sleepqAcLen }

/-- A station with legacy categories is only told about those. -/
def StaInfo.announces (psta : StaInfo) (f : XmitFrame) : Bool :=
  psta.hasLegacyAc != psta.deliveryEnabled f.ac

section
variable (cfg : ApConfig) (s : TxState) (f : XmitFrame)

/-- `xmitframe_enqueue_for_sleeping_sta`; `none` is `_FALSE`, with everything as it was. -/
def xmitframeEnqueueForSleepingSta : Option TxState :=
  let addr := staAddr f.attrib.ra
  match s.rtwGetStainfo f.attrib.ra with
  | none => none
  | some psta =>
    if f.attrib.psta ≠ some addr then none
    else if !psta.asoc then none
    else if f.attrib.triggered then none
    else if isMcast f.attrib.ra then
      if rtwTimMapAnyoneBeSet s.staDzBitmap then
        some { s.modifySta addr (·.buffer f) with
          timBitmap := rtwTimMapSet cfg s.timBitmap 0
          staDzBitmap := rtwTimMapSet cfg s.staDzBitmap 0 }
      else none
    else if psta.sleep && rtwTimMapIsSet cfg s.staDzBitmap psta.aid then
      some { s.modifySta addr (·.bufferUnicast f) with
        timBitmap := if psta.announces f then rtwTimMapSet cfg s.timBitmap psta.aid
          else s.timBitmap }
    else none

/-- `mgmt_xmitframe_enqueue_for_sleeping_sta`; `none` stands for both of its other results. -/
def mgmtXmitframeEnqueueForSleepingSta : Option TxState :=
  if f.attrib.ra = bcAddr ∨ f.attrib.psDontq then none
  else
    match f.attrib.psta with
    | none => none
    | some addr =>
      match s.stations addr with
      | none => none
      | some psta =>
        if !psta.asoc then none
        else if psta.sleep && rtwTimMapIsSet cfg s.staDzBitmap psta.aid then
          some { s.modifySta addr fun psta => { psta with
              mgmtSleepQ := psta.mgmtSleepQ ++ [f]
              mgmtSleepqLen := psta.mgmtSleepqLen + 1 } with
            timBitmap := rtwTimMapSet cfg s.timBitmap psta.aid }
        else none

end

def XmitFrame.untrigger (f : XmitFrame) : XmitFrame := { f with attrib.triggered := false }

/-- The loop of `dequeue_xmitframes_to_sleeping_queue` and `dequeue_mgmt_xmitframe_to_sleepq`. It
has passed by `kept`. -/
def divertLoop (divert : TxState → XmitFrame → Option TxState) (countOn : XmitFrame → HwQueue)
    (addr : MacAddr) (q : HwQueue) : TxState → List XmitFrame → List XmitFrame → TxState
  | s, kept, [] => s.setPending addr q kept
  | s, kept, f :: rest =>
    match divert s f.untrigger with
    | some s => divertLoop divert countOn addr q
        ((s.setPending addr q (kept ++ rest)).countBy addr (countOn f) (-1)) kept rest
    | none => divertLoop divert countOn addr q s (kept ++ [f.untrigger]) rest

/-- `dequeue_xmitframes_to_sleeping_queue` for one category. -/
def stopCategory (s : TxState) (ac : Ac) : TxState :=
  (divertLoop (xmitframeEnqueueForSleepingSta cfg) (fun f => .ac f.ac) addr (.ac ac) s []
    (s.pending addr (.ac ac))).listDelete addr (.ac ac)

/-- `dequeue_mgmt_xmitframe_to_sleepq`. -/
def stopMgmt (s : TxState) : TxState :=
  (divertLoop (mgmtXmitframeEnqueueForSleepingSta cfg) (fun _ => .mgmt) addr .mgmt s []
    (s.pending addr .mgmt)).listDelete addr .mgmt

/-- The four categories in the order of the source. -/
def stopCategories (s : TxState) : TxState :=
  [Ac.vo, .vi, .be, .bk].foldl (stopCategory cfg addr) s

/-- `stop_sta_xmit`. -/
def stopStaXmit : TxState :=
  match s.stations addr with
  | none => s
  | some psta =>
    let s := { s.modifySta addr fun psta => { psta with sleep := true } with
      staDzBitmap := rtwTimMapSet cfg s.staDzBitmap psta.aid }
    let s := stopMgmt cfg addr s
    let s := stopCategories cfg addr s
    if (s.stations bcAddr).isSome then stopCategories cfg bcAddr s else s

/-! ## Releasing frames -/

def XmitFrame.release (f : XmitFrame) (mdata eosp : Bool) : XmitFrame :=
  { f with attrib := { f.attrib with mdata, eosp, triggered := true } }

/-- A frame leaves the sleep queue and is queued; `counted` says whether it is counted in
`sleepq_ac_len` too, and then `eosp` is set in the last. -/
def releaseFrame (counted : StaInfo → Bool) (s : TxState) (f : XmitFrame)
    (rest : List XmitFrame) : TxState :=
  match s.stations addr with
  | none => s
  | some psta =>
    let sleepqLen := psta.sleepqLen - 1
    let sleepqAcLen := if counted psta then psta.sleepqAcLen - 1 else psta.sleepqAcLen
    let more : Bool := if counted psta then 0 < sleepqAcLen else 0 < sleepqLen
    let eosp := if counted psta then !more else f.attrib.eosp
    rtwHalXmitframeEnqueue
      (s.modifySta addr fun psta => { psta with sleepQ := rest, sleepqLen, sleepqAcLen })
      (f.release more eosp)

def wakeupLoop (addr : MacAddr) (counted : XmitFrame → StaInfo → Bool) :
    TxState → List XmitFrame → TxState
  | s, [] => s
  | s, f :: rest => wakeupLoop addr counted (releaseFrame addr (counted f) s f rest) rest

def wakeupMgmtLoop (addr : MacAddr) : TxState → List XmitFrame → TxState
  | s, [] => s
  | s, f :: rest =>
    let s := s.modifySta addr fun psta =>
      { psta with mgmtSleepQ := rest, mgmtSleepqLen := psta.mgmtSleepqLen - 1 }
    wakeupMgmtLoop addr
      (rtwHalMgmtXmitframeEnqueue s { f with attrib.triggered := true }) rest

/-- The bits that `wakeup_sta_to_xmit` takes back from a station with nothing left to send. -/
def wakeupClear (s : TxState) : TxState :=
  match s.stations addr with
  | none => s
  | some psta =>
    if psta.sleepqLen = 0 ∧ psta.mgmtSleepqLen = 0 then
      { s.modifySta addr fun psta => { psta with sleep := false } with
        timBitmap := rtwTimMapClear cfg s.timBitmap psta.aid
        staDzBitmap := rtwTimMapClear cfg s.staDzBitmap psta.aid }
    else s

/-- The part of `wakeup_sta_to_xmit` for group addressed frames. -/
def wakeupBmc : TxState :=
  if (s.stations bcAddr).isSome ∧ ¬ rtwTimMapAnyoneBeSetExcludeAid0 s.staDzBitmap then
    let s := wakeupLoop bcAddr (fun _ _ => false) s (s.sleepQ bcAddr)
    if (s.stations bcAddr).map StaInfo.sleepqLen = some 0 then
      { s with
        timBitmap := rtwTimMapClear cfg s.timBitmap 0
        staDzBitmap := rtwTimMapClear cfg s.staDzBitmap 0 }
    else s
  else s

/-- `wakeup_sta_to_xmit`. -/
def wakeupStaToXmit : TxState :=
  let s := wakeupMgmtLoop addr s (s.mgmtSleepQ addr)
  let s := wakeupLoop addr (fun f psta => psta.triggerEnabled f.ac) s (s.sleepQ addr)
  if (s.stations addr).isSome then wakeupBmc cfg (wakeupClear cfg addr s) else s

/-- The loop of `xmit_delivery_enabled_frames`, which passes by the frames of other categories. -/
def deliverLoop (cfg : ApConfig) (addr : MacAddr) :
    TxState → List XmitFrame → List XmitFrame → TxState
  | s, _, [] => s
  | s, kept, f :: rest =>
    match s.stations addr with
    | none => s
    | some psta =>
      if !psta.triggerEnabled f.ac then deliverLoop cfg addr s (kept ++ [f]) rest
      else
        let s := releaseFrame addr (fun _ => true) s f (kept ++ rest)
        -- `sleepq_ac_len` is 0 once this frame has left
        let s := if psta.sleepqAcLen - 1 = 0 ∧ !psta.hasLegacyAc then
          { s with timBitmap := rtwTimMapClear cfg s.timBitmap psta.aid } else s
        deliverLoop cfg addr s kept rest

def xmitDeliveryEnabledFrames : TxState :=
  deliverLoop cfg addr s [] (s.sleepQ addr)

/-- What `validate_recv_ctrl_frame` does with a PS-Poll that names `aid` and has `priority`. -/
def recvPsPoll (aid : ℕ) (priority : BitVec 8) : TxState :=
  match s.stations addr with
  | none => s
  | some psta =>
    if psta.aid ≠ aid then s
    else if psta.deliveryEnabled (acOf priority) then s
    else if psta.sleep && rtwTimMapIsSet cfg s.staDzBitmap psta.aid then
      match psta.sleepQ with
      | f :: rest =>
        let s := releaseFrame addr (fun _ => false) s f rest
        if psta.sleepqLen - 1 = 0 then
          { s with timBitmap := rtwTimMapClear cfg s.timBitmap psta.aid }
        else s
      | [] =>
        if rtwTimMapIsSet cfg s.timBitmap psta.aid then
          { s.modifySta addr fun psta => { psta with sleepqLen := 0 } with
            timBitmap := rtwTimMapClear cfg s.timBitmap psta.aid }
        else s
    else s

/-! ## Stations -/

/-- The station entry that `OnAuth` makes for a new transmitter; it has no AID yet. -/
def onAuth : TxState :=
  if isMcast addr ∨ (s.stations addr).isSome then s
  else { s with
    stations := Function.update s.stations addr (some {})
    txseqTid := Function.update s.txseqTid addr fun _ => 0 }

/-- The search of `rtw_aid_alloc`: the first free AID from `startedAid` on, round the table. -/
def aidSearch (cfg : ApConfig) (s : TxState) : ℕ → ℕ → ℕ → Option ℕ
  | 0, _, _ => none
  | left + 1, i, usedCnt =>
    let aid := (i + s.startedAid - 1) % cfg.maxAid + 1
    if s.staAid aid = none then (if usedCnt < cfg.maxNumSta then some aid else none)
    else if cfg.maxNumSta ≤ usedCnt + 1 then none
    else aidSearch cfg s left (i + 1) (usedCnt + 1)

/-- `rtw_ap_parse_sta_wmm_ie`: the U-APSD settings in a QoS information field. -/
def uapsdOf (qosInfo : BitVec 8) (ac : Ac) : BitVec 8 :=
  let bit := match ac with
    | .vo => 0
    | .vi => 1
    | .bk => 2
    | .be => 3
  if qosInfo.getLsbD bit then 3 else 0

/-- `OnAssocReq` for a station that is not associated, with `rtw_aid_alloc`. -/
def onAssocReq (qosInfo : BitVec 8) : TxState :=
  match s.stations addr with
  | none => s
  | some psta =>
    if psta.asoc then s
    else
      match aidSearch cfg s cfg.maxAid 0 0 with
      | none => s
      | some aid =>
        { s.modifySta addr fun psta => { psta with
            aid
            asoc := true
            uapsd := uapsdOf qosInfo
            hasLegacyAc := qosInfo &&& 0xf ≠ 0xf } with
          staAid := Function.update s.staAid aid (some addr)
          startedAid := if cfg.rrAid then aid % cfg.maxAid + 1 else s.startedAid }

/-- One queue of `rtw_free_stainfo_flush_xmit`. -/
def flushServq (s : TxState) (q : HwQueue) : TxState :=
  ((s.setPending addr q []).countBy addr q (-(s.qcnt addr q))).listDelete addr q

def rtwFreeStainfoFlushXmit : TxState :=
  let s := s.modifySta addr fun psta =>
    { psta with sleepQ := [], sleepqLen := 0, mgmtSleepQ := [], mgmtSleepqLen := 0 }
  [HwQueue.ac .vo, .ac .vi, .ac .be, .ac .bk, .mgmt].foldl (flushServq addr) s

/-- `rtw_free_stainfo`, for what the transmit path sees of a station. -/
def rtwFreeStainfo : TxState :=
  match s.stations addr with
  | none => s
  | some psta =>
    let s := rtwFreeStainfoFlushXmit s addr
    let s := { s with stations := Function.update s.stations addr none }
    if cfg.hwStateAp then
      { s with
        staDzBitmap := rtwTimMapClear cfg s.staDzBitmap psta.aid
        timBitmap := rtwTimMapClear cfg s.timBitmap psta.aid
        staAid := if 0 < psta.aid ∧ s.staAid psta.aid = some addr then
          Function.update s.staAid psta.aid none else s.staAid }
    else s

end Rtl88x2bu.Tx
