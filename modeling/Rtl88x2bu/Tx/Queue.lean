import Rtl88x2bu.Tx.Frame

/-!
# Transmit queues of an access point

The queues, service lists and bitmaps of `core/rtw_xmit.c`. Each function is one step: the source
runs it under `xmitpriv.lock`.
-/

namespace Rtl88x2bu.Tx

open List Option
open Rx (MacAddr isMcast staAddr bcAddr)

/-- What does not change while the access point runs. `maxAid` is the number of MAC ids of the
chip, which is an octet; `hwStateAp` says that `pmlmeinfo->state` is `_HW_STATE_AP_`. -/
structure ApConfig where
  maxAid : ℕ
  maxAid_lt : maxAid < 256
  maxNumSta : ℕ
  rrAid : Bool := false
  hwStateAp : Bool := true

/-- `aid_bmp_len`, in octets. -/
def ApConfig.aidBmpLen (cfg : ApConfig) : ℕ :=
  (cfg.maxAid + 1) / 8 + if (cfg.maxAid + 1) % 8 ≠ 0 then 1 else 0

/-! ## Bitmaps

A bitmap is the set of its bits; the functions take the AID as an octet. -/

variable (cfg : ApConfig) (map : Finset ℕ) (aid : ℕ)

/-- `rtw_tim_map_is_set`. -/
def rtwTimMapIsSet : Bool :=
  if cfg.aidBmpLen ≤ aid % 256 / 8 then false else aid % 256 ∈ map

/-- `rtw_tim_map_set`. -/
def rtwTimMapSet : Finset ℕ :=
  if aid % 256 / 8 < cfg.aidBmpLen then insert (aid % 256) map else map

/-- `rtw_tim_map_clear`. -/
def rtwTimMapClear : Finset ℕ :=
  if aid % 256 / 8 < cfg.aidBmpLen then map.erase (aid % 256) else map

/-- `rtw_tim_map_anyone_be_set`. -/
def rtwTimMapAnyoneBeSet : Bool := map ≠ ∅

/-- `rtw_tim_map_anyone_be_set_exclude_aid0`. -/
def rtwTimMapAnyoneBeSetExcludeAid0 : Bool := map.erase 0 ≠ ∅

section
variable {cfg map aid}

theorem ApConfig.lt_aidBmpLen (cfg : ApConfig) (le : aid ≤ cfg.maxAid) :
    aid % 256 = aid ∧ aid / 8 < cfg.aidBmpLen := by
  have small := cfg.maxAid_lt
  simp only [aidBmpLen]
  split <;> omega

theorem rtwTimMapIsSet_iff (le : aid ≤ cfg.maxAid) :
    rtwTimMapIsSet cfg map aid = true ↔ aid ∈ map := by
  obtain ⟨octet, low⟩ := cfg.lt_aidBmpLen le
  rw [rtwTimMapIsSet, octet, if_neg (not_le.mpr low), decide_eq_true_iff]

theorem rtwTimMapSet_eq (le : aid ≤ cfg.maxAid) : rtwTimMapSet cfg map aid = insert aid map := by
  obtain ⟨octet, low⟩ := cfg.lt_aidBmpLen le
  rw [rtwTimMapSet, octet, if_pos low]

theorem rtwTimMapClear_eq (le : aid ≤ cfg.maxAid) : rtwTimMapClear cfg map aid = map.erase aid := by
  obtain ⟨octet, low⟩ := cfg.lt_aidBmpLen le
  rw [rtwTimMapClear, octet, if_pos low]

variable (cfg map aid) in
theorem subset_rtwTimMapSet : map ⊆ rtwTimMapSet cfg map aid := by
  rw [rtwTimMapSet]
  split
  · exact Finset.subset_insert _ _
  · exact Finset.Subset.refl _

theorem rtwTimMapIsSet_mono {map' : Finset ℕ} (sub : map ⊆ map')
    (isSet : rtwTimMapIsSet cfg map aid = true) : rtwTimMapIsSet cfg map' aid = true := by
  rw [rtwTimMapIsSet] at isSet ⊢
  split at isSet
  · cases isSet
  next low =>
    rw [if_neg low]
    exact decide_eq_true (sub (of_decide_eq_true isSet))

theorem rtwTimMapAnyoneBeSet_iff : rtwTimMapAnyoneBeSet map = true ↔ map ≠ ∅ := by
  rw [rtwTimMapAnyoneBeSet, decide_eq_true_iff]

end

/-! ## The state -/

/-- `staQueue` holds, for each entry of `hwxmits`, the stations whose `tx_pending` node is on its
service list; `staAid` is `sta_aid`, indexed by the AID itself. -/
structure TxState where
  stations : MacAddr → Option StaInfo := fun _ => none
  txseqTid : MacAddr → TxSeq := fun _ _ => 0
  staQueue : HwQueue → List MacAddr := fun _ => []
  accnt : HwQueue → ℤ := fun _ => 0
  staDzBitmap : Finset ℕ := ∅
  timBitmap : Finset ℕ := ∅
  staAid : ℕ → Option MacAddr := fun _ => none
  startedAid : ℕ := 1

/-- Whether the frames of a category are delivered on a trigger. -/
def StaInfo.deliveryEnabled (psta : StaInfo) (ac : Ac) : Bool := (psta.uapsd ac).getLsbD 0

/-- Whether frames of a category are triggers. -/
def StaInfo.triggerEnabled (psta : StaInfo) (ac : Ac) : Bool := (psta.uapsd ac).getLsbD 1

namespace TxState

variable (s : TxState)

/-- `rtw_get_stainfo`. -/
def rtwGetStainfo (hwaddr : MacAddr) : Option StaInfo := s.stations (staAddr hwaddr)

/-- A station is changed, if there is one. -/
def modifySta (addr : MacAddr) (change : StaInfo → StaInfo) : TxState :=
  { s with stations := Function.update s.stations addr ((s.stations addr).map change) }

/-- A queue of a station is changed. -/
def modifyServq (addr : MacAddr) (q : HwQueue) (change : TxServq → TxServq) : TxState :=
  s.modifySta addr fun psta =>
    { psta with txservq := Function.update psta.txservq q (change (psta.txservq q)) }

def setPending (addr : MacAddr) (q : HwQueue) (frames : List XmitFrame) : TxState :=
  s.modifyServq addr q fun servq => { servq with staPending := frames }

/-- `qcnt` of a station and `accnt` of the queue, which the source always changes together. -/
def countBy (addr : MacAddr) (q : HwQueue) (delta : ℤ) : TxState :=
  let counted := s.modifyServq addr q fun servq => { servq with qcnt := servq.qcnt + delta }
  { counted with accnt := Function.update s.accnt q (s.accnt q + delta) }

variable (addr : MacAddr) (q : HwQueue)

/-- `rtw_list_insert_tail` of the node of a station. -/
def insertTail : TxState :=
  { s with staQueue := Function.update s.staQueue q (s.staQueue q ++ [addr]) }

/-- `rtw_list_delete` of the node of a station. -/
def listDelete : TxState :=
  { s with staQueue := Function.update s.staQueue q ((s.staQueue q).filter (· ≠ addr)) }

/-- `sta_pending` of a station. -/
def pending : List XmitFrame :=
  ((s.stations addr).map fun psta => (psta.txservq q).staPending).getD []

def qcnt : ℤ :=
  ((s.stations addr).map fun psta => (psta.txservq q).qcnt).getD 0

def sleepQ : List XmitFrame := ((s.stations addr).map StaInfo.sleepQ).getD []

def mgmtSleepQ : List XmitFrame :=
  ((s.stations addr).map StaInfo.mgmtSleepQ).getD []

end TxState

/-! ## What the primitives change -/

namespace TxState

variable {s : TxState} {addr a : MacAddr} {q r : HwQueue} {psta : StaInfo}

theorem stations_modifySta (s : TxState) (addr a : MacAddr) (change : StaInfo → StaInfo) :
    (s.modifySta addr change).stations a =
      if a = addr then (s.stations a).map change else s.stations a := by
  simp only [modifySta, Function.update_apply]
  split
  next same => rw [same]
  · rfl

theorem modifySta_congr {change change' : StaInfo → StaInfo}
    (same : ∀ psta, s.stations addr = some psta → change psta = change' psta) :
    s.modifySta addr change = s.modifySta addr change' := by
  rw [modifySta, modifySta]
  cases found : s.stations addr with
  | none => rfl
  | some psta => rw [map_some, map_some, same psta found]

section

variable (found : s.stations addr = some psta)
include found

theorem pending_of_some : s.pending addr q = (psta.txservq q).staPending := by
  rw [pending, found, map_some, getD_some]

theorem qcnt_of_some : s.qcnt addr q = (psta.txservq q).qcnt := by
  rw [qcnt, found, map_some, getD_some]

theorem sleepQ_of_some : s.sleepQ addr = psta.sleepQ := by
  rw [sleepQ, found, map_some, getD_some]

theorem mgmtSleepQ_of_some : s.mgmtSleepQ addr = psta.mgmtSleepQ := by
  rw [mgmtSleepQ, found, map_some, getD_some]

end

theorem pending_of_none (absent : s.stations addr = none) : s.pending addr q = [] := by
  rw [pending, absent, map_none, getD_none]

theorem present_of_pending {f : XmitFrame} (waits : f ∈ s.pending addr q) :
    ∃ psta, s.stations addr = some psta := by
  cases found : s.stations addr with
  | none => rw [pending_of_none found] at waits; cases waits
  | some psta => exact ⟨psta, rfl⟩

theorem txservq_modifyServq (present : s.stations addr = some psta) (change : TxServq → TxServq) :
    ((s.modifyServq addr q change).stations a).map (·.txservq r) =
      if a = addr ∧ r = q then some (change (psta.txservq q))
      else (s.stations a).map (·.txservq r) := by
  simp only [modifyServq, stations_modifySta]
  by_cases here : a = addr
  · subst here
    by_cases this : r = q
    · subst this
      simp [present]
    · simp [present, this]
  · simp [here]

section

variable (s a q)

theorem pending_eq_servq :
    s.pending a q = (((s.stations a).map (·.txservq q)).map TxServq.staPending).getD [] := by
  rw [Option.map_map]
  rfl

theorem qcnt_eq_servq :
    s.qcnt a q = (((s.stations a).map (·.txservq q)).map TxServq.qcnt).getD 0 := by
  rw [Option.map_map]
  rfl

end

theorem pending_modifyServq (present : s.stations addr = some psta) (change : TxServq → TxServq) :
    (s.modifyServq addr q change).pending a r =
      if a = addr ∧ r = q then (change (psta.txservq q)).staPending else s.pending a r := by
  rw [pending_eq_servq, pending_eq_servq, txservq_modifyServq present]
  split <;> rfl

theorem qcnt_modifyServq (present : s.stations addr = some psta) (change : TxServq → TxServq) :
    (s.modifyServq addr q change).qcnt a r =
      if a = addr ∧ r = q then (change (psta.txservq q)).qcnt else s.qcnt a r := by
  rw [qcnt_eq_servq, qcnt_eq_servq, txservq_modifyServq present]
  split <;> rfl

/-- A queue of a station becomes `frames`, and both counts follow. -/
def requeue (s : TxState) (addr : MacAddr) (q : HwQueue) (frames : List XmitFrame) : TxState :=
  (s.setPending addr q frames).countBy addr q (frames.length - (s.pending addr q).length)

section
variable {frames : List XmitFrame}

theorem stations_requeue (s : TxState) (addr : MacAddr) (q : HwQueue) (frames : List XmitFrame) :
    (s.requeue addr q frames).stations = (s.modifyServq addr q fun servq =>
      ⟨frames, servq.qcnt + (frames.length - (s.pending addr q).length)⟩).stations := by
  simp only [requeue, countBy, setPending, modifyServq, modifySta]
  funext a
  by_cases here : a = addr
  · subst here
    cases s.stations a <;> simp
  · simp [here]

theorem pending_requeue (present : s.stations addr = some psta) :
    (s.requeue addr q frames).pending a r =
      if a = addr ∧ r = q then frames else s.pending a r := by
  rw [pending, stations_requeue]
  exact pending_modifyServq present fun servq =>
    ⟨frames, servq.qcnt + (frames.length - (s.pending addr q).length)⟩

theorem qcnt_requeue (present : s.stations addr = some psta) :
    (s.requeue addr q frames).qcnt a r = s.qcnt a r +
      if a = addr ∧ r = q then (frames.length - (s.pending addr q).length : ℤ) else 0 := by
  rw [qcnt, stations_requeue]
  refine (qcnt_modifyServq present fun servq =>
    ⟨frames, servq.qcnt + (frames.length - (s.pending addr q).length)⟩).trans ?_
  split
  next here =>
    obtain ⟨rfl, rfl⟩ := here
    rw [qcnt_of_some present]
  · rw [add_zero]

section

variable (s addr q r frames)

theorem accnt_requeue : (s.requeue addr q frames).accnt r = s.accnt r + if r = q then
    (frames.length - (s.pending addr q).length : ℤ) else 0 := by
  simp only [requeue, countBy, setPending, modifyServq, modifySta, Function.update_apply]
  split
  next same => rw [same]
  · rw [add_zero]

end

end

end TxState

/-! ## Queuing -/

section
variable (s : TxState) (f : XmitFrame)

/-- What the classifiers of data and of management frames do. -/
def classifyTo (q : HwQueue) : Option TxState :=
  let addr := staAddr f.attrib.ra
  match s.rtwGetStainfo f.attrib.ra with
  | none => none
  | some psta =>
    if f.attrib.psta ≠ some addr then none
    else if !psta.asoc then none
    else
      let s := if addr ∈ s.staQueue q then s else s.insertTail addr q
      some ((s.setPending addr q (s.pending addr q ++ [f])).countBy addr q 1)

/-- `rtw_xmit_classifier`. -/
def rtwXmitClassifier : Option TxState := classifyTo s f (.ac f.ac)

/-- `rtw_mgmt_xmitframe_enqueue`. -/
def rtwMgmtXmitframeEnqueue : Option TxState := classifyTo s f .mgmt

/-- `rtw_hal_xmitframe_enqueue`, which frees a frame that the classifier refuses. -/
def rtwHalXmitframeEnqueue : TxState := (rtwXmitClassifier s f).getD s

/-- `rtw_hal_mgmt_xmitframe_enqueue`. -/
def rtwHalMgmtXmitframeEnqueue : TxState := (rtwMgmtXmitframeEnqueue s f).getD s

/-- The station is put on the service list if it is not there. -/
def TxState.enlist (s : TxState) (addr : MacAddr) (q : HwQueue) : TxState :=
  if addr ∈ s.staQueue q then s else s.insertTail addr q

variable {s f} in
/-- The station of the frame exists, is associated and is the one noted in the frame. -/
theorem classifyTo_some {q : HwQueue} {s' : TxState} (queued : classifyTo s f q = some s') :
    ∃ psta, s.stations (staAddr f.attrib.ra) = some psta ∧
      f.attrib.psta = some (staAddr f.attrib.ra) ∧ psta.asoc = true ∧
      s' = (s.enlist (staAddr f.attrib.ra) q).requeue (staAddr f.attrib.ra) q
        (s.pending (staAddr f.attrib.ra) q ++ [f]) := by
  cases found : s.stations (staAddr f.attrib.ra) with
  | none => simp [classifyTo, TxState.rtwGetStainfo, found] at queued
  | some psta =>
    simp only [classifyTo, TxState.rtwGetStainfo, found, ite_none_left_eq_some,
      some.injEq] at queued
    obtain ⟨noted, asoc, rfl⟩ := queued
    refine ⟨psta, rfl, not_not.mp noted, by simpa using asoc, ?_⟩
    have same : (s.enlist (staAddr f.attrib.ra) q).pending (staAddr f.attrib.ra) q =
        s.pending (staAddr f.attrib.ra) q := by
      rw [TxState.enlist]
      split <;> rfl
    rw [← TxState.enlist, TxState.requeue, same, length_append, length_singleton]
    congr 1
    push_cast
    omega

end

/-! ## Dequeuing -/

/-- `dequeue_one_xmitframe` on the first station that has a frame, and the removal of its node. -/
def dequeueFrom (s : TxState) (q : HwQueue) : List MacAddr → Option (MacAddr × XmitFrame × TxState)
  | [] => none
  | addr :: rest =>
    match s.pending addr q with
    | [] => dequeueFrom s q rest
    | f :: frames =>
      let s := (s.setPending addr q frames).countBy addr q (-1)
      some (addr, f, if frames = [] then s.listDelete addr q else s)

/-- `rtw_dequeue_xframe`. -/
def rtwDequeueXframe (inx : List Ac) (s : TxState) : Option (MacAddr × XmitFrame × TxState) :=
  inx.findSome? fun ac => dequeueFrom s (.ac ac) (s.staQueue (.ac ac))

/-- `rtw_dequeue_mgmt_xframe`. -/
def rtwDequeueMgmtXframe (s : TxState) : Option (MacAddr × XmitFrame × TxState) :=
  dequeueFrom s .mgmt (s.staQueue .mgmt)

/-- A station with nothing left is taken off the service list. -/
def TxState.delistIdle (s : TxState) (addr : MacAddr) (q : HwQueue) (frames : List XmitFrame) :
    TxState :=
  if frames = [] then s.listDelete addr q else s

section
variable {s s' : TxState} {q : HwQueue} {addr : MacAddr} {f : XmitFrame}

theorem dequeueFrom_some {nodes : List MacAddr}
    (dequeued : dequeueFrom s q nodes = some (addr, f, s')) :
    ∃ frames, addr ∈ nodes ∧ s.pending addr q = f :: frames ∧
      s' = (s.requeue addr q frames).delistIdle addr q frames := by
  induction nodes with
  | nil => cases dequeued
  | cons node rest ih =>
    rw [dequeueFrom] at dequeued
    split at dequeued
    · obtain ⟨frames, member, found⟩ := ih dequeued
      exact ⟨frames, mem_cons_of_mem _ member, found⟩
    next g frames found =>
      cases dequeued
      refine ⟨frames, mem_cons_self, found, ?_⟩
      have one : (frames.length : ℤ) - (f :: frames).length = -1 := by
        rw [length_cons]
        omega
      rw [TxState.delistIdle, TxState.requeue, found, one]

theorem rtwDequeueXframe_some {inx : List Ac}
    (dequeued : rtwDequeueXframe inx s = some (addr, f, s')) :
    ∃ ac ∈ inx, ∃ frames, addr ∈ s.staQueue (.ac ac) ∧ s.pending addr (.ac ac) = f :: frames ∧
      s' = (s.requeue addr (.ac ac) frames).delistIdle addr (.ac ac) frames := by
  obtain ⟨ac, member, found⟩ := exists_of_findSome?_eq_some dequeued
  exact ⟨ac, member, dequeueFrom_some found⟩

end

end Rtl88x2bu.Tx
