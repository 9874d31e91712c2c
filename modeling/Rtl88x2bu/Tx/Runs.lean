import Rtl88x2bu.Tx.StopMoves

/-!
# Runs of the transmit path of an access point

Every step is one critical section of the source; the aggregation loop is a step of its own, since
`rtl8822bu_xmitframe_complete` gives up the lock after it has dequeued a first frame.
-/

namespace Rtl88x2bu.Tx

open List Function Option
open Rx (MacAddr isMcast staAddr bcAddr)

/-! ## Events -/

/-- The critical sections. `flushXmit` empties the queues of a station that stays. -/
inductive TxEvent
  | auth (addr : MacAddr)
  | assoc (addr : MacAddr) (qosInfo : BitVec 8)
  | free (addr : MacAddr)
  | flushXmit (addr : MacAddr)
  | xmit (f : XmitFrame)
  | mgntXmit (f : XmitFrame)
  | dequeue (inx : List Ac)
  | dequeueMgmt
  | coalesce (f : XmitFrame) (bufAddr pktOffset : ℕ)
  | aggregate (addr : MacAddr) (p : Placement) (v : AggVars)
  | stop (addr : MacAddr)
  | wakeup (addr : MacAddr)
  | psPoll (addr : MacAddr) (aid : ℕ) (priority : BitVec 8)
  | deliver (addr : MacAddr)

/-- The state with two logs: the frames that were accepted, and those that dequeuing has taken off
the queues, among which are the transmitted ones. -/
structure TxRun where
  st : TxState
  queued : List XmitFrame := []
  departed : List XmitFrame := []

/-- `rtw_init_bcmc_stainfo` has made the broadcast station. -/
def TxRun.start : TxRun where
  st := { stations := Function.update (fun _ => none) bcAddr (some { asoc := true }) }

/-- A data frame is kept back for a dozing station or else queued. -/
def TxRun.xmit (cfg : ApConfig) (r : TxRun) (f : XmitFrame) : TxRun :=
  match xmitframeEnqueueForSleepingSta cfg r.st f with
  | some st => { r with st, queued := r.queued ++ [f] }
  | none =>
    match rtwXmitClassifier r.st f with
    | some st => { r with st, queued := r.queued ++ [f] }
    | none => r

def TxRun.dequeue (r : TxRun) (inx : List Ac) : TxRun :=
  match rtwDequeueXframe inx r.st with
  | some (_, f, st) => { r with st, departed := r.departed ++ [f] }
  | none => r

def TxRun.aggregate (env : XmitEnv) (hal : HalUsb) (r : TxRun) (addr : MacAddr) (p : Placement)
    (v : AggVars) : TxRun :=
  let out := Tx.aggregate env hal r.st addr p v
  { r with st := out.1, departed := r.departed ++ out.2.taken }

def TxRun.step (cfg : ApConfig) (env : XmitEnv) (hal : HalUsb) (r : TxRun) : TxEvent → TxRun
  | .auth addr => { r with st := onAuth r.st addr }
  | .assoc addr qosInfo => { r with st := onAssocReq cfg r.st addr qosInfo }
  | .free addr => { r with st := rtwFreeStainfo cfg r.st addr }
  | .flushXmit addr => { r with st := rtwFreeStainfoFlushXmit r.st addr }
  -- `triggered` is 0 in a new frame
  | .xmit f => r.xmit cfg f.untrigger
  -- a management frame that is not kept back is sent at once
  | .mgntXmit f => { r with st := (mgmtXmitframeEnqueueForSleepingSta cfg r.st f).getD r.st }
  | .dequeue inx => r.dequeue inx
  | .dequeueMgmt => { r with st := ((rtwDequeueMgmtXframe r.st).map fun out => out.2.2).getD r.st }
  | .coalesce f bufAddr pktOffset =>
    let txseqTid := (coalesceAt env r.st r.st.txseqTid f bufAddr pktOffset).1
    { r with st := { r.st with txseqTid } }
  | .aggregate addr p v => r.aggregate env hal addr p v
  | .stop addr => { r with st := stopStaXmit cfg r.st addr }
  | .wakeup addr => { r with st := wakeupStaToXmit cfg r.st addr }
  | .psPoll addr aid priority => { r with st := recvPsPoll cfg r.st addr aid priority }
  | .deliver addr => { r with st := xmitDeliveryEnabledFrames cfg r.st addr }

/-! ## Filling a buffer

`rtl8822bu_xmitframe_complete` is not one step: it gives up the lock between these. -/

section
variable (cfg : ApConfig) {env : XmitEnv} (hal : HalUsb) {inx : List Ac} {r : TxRun}
  {s' : TxState}

/-- The steps that fill a buffer. -/
def TxEvent.Serves : TxEvent → Prop
  | .dequeue _ | .dequeueMgmt | .coalesce _ _ _ | .aggregate _ _ _ => True
  | _ => False

theorem pickFirst_serves {fuel : ℕ} {found : Option Placement}
    (picked : pickFirst env inx fuel r.st = some (s', found)) :
    ∃ events : List TxEvent, (∀ e ∈ events, e.Serves) ∧
      (events.foldl (TxRun.step cfg env hal) r).st = s' := by
  induction fuel generalizing r with
  | zero => cases picked
  | succ fuel ih =>
    rw [pickFirst] at picked
    split at picked
    · cases picked
      exact ⟨[], forall_mem_nil _, rfl⟩
    next addr f s dequeued =>
      -- the run after the first frame has been taken and, perhaps in vain, written
      have written : (r.step cfg env hal (.dequeue inx)).step cfg env hal (.coalesce f 0 1) =
          { r with
            st := { s with txseqTid := (coalesceAt env s s.txseqTid f 0 1).1 }
            departed := r.departed ++ [f] } := by
        simp only [TxRun.step, TxRun.dequeue, dequeued]
      split at picked
      next txseqTid coalesced =>
        rw [coalesced] at written
        obtain ⟨events, serve, after⟩ := ih
          (r := (r.step cfg env hal (.dequeue inx)).step cfg env hal (.coalesce f 0 1))
          (by rw [written]; exact picked)
        exact ⟨.dequeue inx :: .coalesce f 0 1 :: events,
          forall_mem_cons.mpr ⟨trivial, forall_mem_cons.mpr ⟨trivial, serve⟩⟩, after⟩
      next txseqTid out coalesced =>
        rw [coalesced] at written
        cases picked
        refine ⟨[.dequeue inx, .coalesce f 0 1], by simp [TxEvent.Serves], ?_⟩
        exact congrArg TxRun.st written

theorem rtl8822buXmitframeComplete_serves {b : Option TxBuffer}
    (done : rtl8822buXmitframeComplete env hal inx r.st = some (s', b)) :
    ∃ events : List TxEvent, (∀ e ∈ events, e.Serves) ∧
      (events.foldl (TxRun.step cfg env hal) r).st = s' := by
  rw [rtl8822buXmitframeComplete] at done
  split at done
  next addr f s dequeued =>
    cases done
    refine ⟨[.dequeueMgmt], by simp [TxEvent.Serves], ?_⟩
    simp only [foldl_cons, foldl_nil, TxRun.step, dequeued]
    rfl
  · obtain ⟨⟨s, found⟩, picked, result⟩ := map_eq_some_iff.mp done
    obtain ⟨events, serve, after⟩ := pickFirst_serves cfg hal picked
    dsimp only at result
    split at result
    · cases result
      exact ⟨events, serve, after⟩
    next p =>
      split at result
      next addr descCount bulkPtr _ _ =>
        cases result
        refine ⟨events ++ [.aggregate addr p { AggVars.first hal s p with descCount, bulkPtr }],
          forall_mem_append.mpr ⟨serve, by simp [TxEvent.Serves]⟩, ?_⟩
        simp only [foldl_append, foldl_cons, foldl_nil, TxRun.step,
          TxRun.aggregate, after]
      · cases result
        exact ⟨events, serve, after⟩

end

/-! ## Stations that come and go -/

section
variable {cfg : ApConfig} {allowed : MacAddr → StaMove → Prop} {s s' : TxState} {addr : MacAddr}
  {psta : StaInfo}
variable {a : MacAddr}

theorem flushServq_stations (s : TxState) (addr : MacAddr) (q : HwQueue) :
    (flushServq addr s q).stations = (s.modifySta addr (·.setServq q {})).stations := by
  funext a
  simp only [flushServq, TxState.countBy, TxState.setPending, TxState.modifyServq,
    TxState.modifySta, TxState.listDelete]
  by_cases here : a = addr
  · subst here
    cases found : s.stations a with
    | none => simp
    | some psta => simp [found, TxState.qcnt, StaInfo.setServq]
  · simp [here]

theorem rtwFreeStainfoFlushXmit_moves (flush : allowed addr .flush) :
    s.Moves cfg allowed (rtwFreeStainfoFlushXmit s addr) := by
  have queues : ∀ (queues : List HwQueue) (s : TxState),
      s.Moves cfg allowed (queues.foldl (flushServq addr) s) := by
    intro queues
    induction queues with
    | nil => exact fun s => .refl _
    | cons q queues ih =>
      intro s
      refine Table.Moves.trans ?_ (ih _)
      rw [flushServq_stations]
      exact TxState.moves_modifySta fun psta _ => ⟨.flush, flush, .flushQueue q⟩
  refine Table.Moves.trans ?_ (queues _ _)
  exact TxState.moves_modifySta fun psta _ => ⟨.flush, flush, .flushSleep⟩

theorem aidSearch_some {left i usedCnt aid : ℕ} (pos : 0 < cfg.maxAid)
    (found : aidSearch cfg s left i usedCnt = some aid) :
    s.staAid aid = none ∧ 0 < aid ∧ aid ≤ cfg.maxAid := by
  fun_induction aidSearch cfg s left i usedCnt with
  | case2 _ _ _ aid free =>
    obtain rfl := some.inj found
    exact ⟨free, Nat.succ_pos _, Nat.mod_lt _ pos⟩
  | case5 _ _ _ _ _ _ ih => exact ih found
  | _ => cases found

/-! ## The invariant of all runs -/

/-- Every station is sound, and an AID in use is in the table under the station that has it. -/
structure TxState.Consistent (cfg : ApConfig) (s : TxState) : Prop where
  sound : s.Sound cfg
  aids : Table.All (fun addr psta => 0 < psta.aid → s.staAid psta.aid = some addr) s.stations

theorem TxState.Consistent.moves (consistent : s.Consistent cfg) (moves : s.Moves cfg allowed s')
    (stays : ∀ a, ¬ allowed a .join) (aids : s'.staAid = s.staAid) : s'.Consistent cfg := by
  refine ⟨consistent.sound.moves moves, ?_⟩
  rw [aids]
  refine consistent.aids.moves moves fun a label psta psta' ok step held => ?_
  rw [step.aid_eq fun joins => stays a (joins ▸ ok)]
  exact held

theorem TxState.Consistent.aid_inj (consistent : s.Consistent cfg) {psta' : StaInfo}
    (found : s.stations addr = some psta) (found' : s.stations a = some psta')
    (pos : 0 < psta.aid) (same : psta'.aid = psta.aid) : a = addr := by
  have first := consistent.aids addr psta found pos
  have second := consistent.aids a psta' found' (same ▸ pos)
  rw [same, first] at second
  exact (some.inj second).symm

theorem fresh_sound {asoc : Bool} (broadcast : asoc = true ↔ addr = bcAddr) :
    ({ asoc } : StaInfo).Sound cfg addr where
  pending _ := forall_mem_nil _
  qcnt _ := rfl
  buffered := forall_mem_nil _
  idle _ := ⟨fun _ => rfl, rfl⟩
  dozes _ some := absurd rfl some
  sleepqLen := rfl
  mgmtSleepqLen := rfl
  aid_le := Nat.zero_le _
  aid_pos unicast asoc := absurd (broadcast.mp asoc) unicast
  uapsd _ := .inl rfl
  broadcast same := ⟨broadcast.mpr same, rfl, fun _ => rfl⟩

theorem onAuth_consistent (consistent : s.Consistent cfg) : (onAuth s addr).Consistent cfg := by
  rw [onAuth]
  split
  · exact consistent
  next new =>
    have unicast : addr ≠ bcAddr := by
      rintro rfl
      exact new (.inl (by decide))
    have station : ∀ a psta, Function.update s.stations addr (some {}) a = some psta →
        psta = {} ∧ a = addr ∨ s.stations a = some psta := by
      intro a psta found
      by_cases here : a = addr
      · rw [here, update_self] at found
        exact .inl ⟨(some.inj found).symm, here⟩
      · rw [update_of_ne here] at found
        exact .inr found
    constructor
    · intro a psta found
      rcases station a psta found with ⟨rfl, rfl⟩ | before
      · exact fresh_sound (iff_of_false nofun unicast)
      · exact consistent.sound a psta before
    · intro a psta found
      rcases station a psta found with ⟨rfl, rfl⟩ | before
      · exact nofun
      · exact consistent.aids a psta before

theorem onAssocReq_moves (cfg : ApConfig) (s : TxState) (addr : MacAddr) (qosInfo : BitVec 8) :
    s.Moves cfg (fun a label => a = addr ∧ label = .join) (onAssocReq cfg s addr qosInfo) ∧
      (onAssocReq cfg s addr qosInfo = s ∨ ∃ aid, s.staAid aid = none ∧
        (onAssocReq cfg s addr qosInfo).staAid = Function.update s.staAid aid (some addr) ∧
        ∀ a psta, (onAssocReq cfg s addr qosInfo).stations a = some psta →
          a = addr ∧ psta.aid = aid ∨ s.stations a = some psta) := by
  fun_cases onAssocReq cfg s addr qosInfo
  case case4 psta found joins aid search _ =>
    have some : 0 < cfg.maxAid := by
      by_contra none
      rw [Nat.eq_zero_of_not_pos none, aidSearch] at search
      cases search
    obtain ⟨free, pos, le⟩ := aidSearch_some some search
    refine ⟨TxState.moves_modifySta fun psta' found' => ⟨.join, ⟨rfl, rfl⟩, ?_⟩,
      .inr ⟨aid, free, rfl, fun a psta' found' => ?_⟩⟩
    · cases found.symm.trans found'
      exact .associate aid qosInfo (by simpa using joins) pos le
    · rw [TxState.stations_modifySta] at found'
      split at found'
      next here =>
        obtain ⟨_, _, rfl⟩ := map_eq_some_iff.mp found'
        exact .inl ⟨here, rfl⟩
      · exact .inr found'
  all_goals exact ⟨.refl _, .inl rfl⟩

theorem onAssocReq_consistent {qosInfo : BitVec 8} (consistent : s.Consistent cfg) :
    (onAssocReq cfg s addr qosInfo).Consistent cfg := by
  obtain ⟨moves, same | ⟨aid, free, aids, stations⟩⟩ := onAssocReq_moves cfg s addr qosInfo
  · rwa [same]
  · refine ⟨consistent.sound.moves moves, fun a psta found used => ?_⟩
    rw [aids]
    rcases stations a psta found with ⟨rfl, rfl⟩ | before
    · rw [update_self]
    · have held := consistent.aids a psta before used
      rw [update_of_ne, held]
      intro same
      rw [same, free] at held
      cases held

theorem rtwFreeStainfoFlushXmit_stations (s : TxState) (other : a ≠ addr) :
    (rtwFreeStainfoFlushXmit s addr).stations a = s.stations a := by
  have moves : s.Moves ⟨0, by decide, 0, false, true⟩ (fun a label => a = addr ∧ label = .flush)
      (rtwFreeStainfoFlushXmit s addr) := rtwFreeStainfoFlushXmit_moves ⟨rfl, rfl⟩
  have same := moves.map_eq id fun _ _ _ ok _ => absurd ok.1 other
  rwa [Option.map_id_fun, id, id] at same

theorem rtwFreeStainfo_stations (cfg : ApConfig) (s : TxState) (addr : MacAddr) :
    (rtwFreeStainfo cfg s addr).stations = Function.update s.stations addr none := by
  simp only [rtwFreeStainfo]
  split
  next absent => rw [← absent, update_eq_self]
  next psta found =>
    have gone : Function.update (rtwFreeStainfoFlushXmit s addr).stations addr none =
        Function.update s.stations addr none := by
      funext a
      by_cases here : a = addr
      · rw [here, update_self, update_self]
      · rw [update_of_ne here, update_of_ne here,
          rtwFreeStainfoFlushXmit_stations s here]
    split <;> exact gone

theorem rtwFreeStainfo_consistent (consistent : s.Consistent cfg) :
    (rtwFreeStainfo cfg s addr).Consistent cfg := by
  refine ⟨?_, fun a psta' found' used => ?_⟩
  · rw [TxState.Sound, rtwFreeStainfo_stations]
    exact consistent.sound.remove addr
  · rw [rtwFreeStainfo_stations] at found'
    have other : a ≠ addr := by
      rintro rfl
      rw [update_self] at found'
      cases found'
    rw [update_of_ne other] at found'
    have held := consistent.aids a psta' found' used
    simp only [rtwFreeStainfo]
    split
    · exact held
    next psta found =>
      split
      · dsimp only
        split
        next freed =>
          rw [update_of_ne, ← held]
          · rfl
          · intro same
            have taken : s.staAid psta.aid = some addr := freed.2
            rw [same, taken] at held
            exact other (some.inj held).symm
        · exact held
      · exact held

theorem start_stations (found : TxRun.start.st.stations a = some psta) :
    a = bcAddr ∧ psta = { asoc := true } := by
  simp only [TxRun.start, update_apply] at found
  split at found
  next here => exact ⟨here, (some.inj found).symm⟩
  · cases found

theorem start_consistent : TxRun.start.st.Consistent cfg := by
  constructor
  · intro a psta found
    obtain ⟨rfl, rfl⟩ := start_stations found
    exact fresh_sound (iff_of_true rfl rfl)
  · intro a psta found
    obtain ⟨rfl, rfl⟩ := start_stations found
    exact nofun

/-! ## One step -/

/-- The steps that an event makes the stations take; making, removing and AIDs are dealt with apart.
-/
def TxEvent.labels (cfg : ApConfig) (s : TxState) : TxEvent → MacAddr → StaMove → Prop
  | .flushXmit addr => fun a label => a = addr ∧ label = .flush
  | .xmit f => fun a label => a = staAddr f.attrib.ra ∧ label = .arrive
  | .mgntXmit _ | .dequeueMgmt => fun _ label => label = .mgmt
  | .dequeue _ | .aggregate _ _ _ => fun _ label => label = .depart
  | .stop addr => stopLabels addr (s.sleepQ addr).isEmpty
  | .wakeup addr => wakeupLabels addr
  | .psPoll addr aid priority => fun a label =>
    a = addr ∧ (label = .keep ∨ label = .uncounted ∧ PollsUapsd cfg s addr aid priority)
  | .deliver addr => ownLabels addr
  | _ => fun _ _ => False

/-- No station comes, joins or goes. -/
def TxEvent.Stays : TxEvent → Prop
  | .auth _ | .assoc _ _ | .free _ => False
  | _ => True

variable {env : XmitEnv} {hal : HalUsb} {r : TxRun}
variable (e : TxEvent)

theorem xmit_moves (f : XmitFrame) :
    r.st.Moves cfg ((TxEvent.xmit f).labels cfg r.st) (r.xmit cfg f).st ∧
      (r.xmit cfg f).st.staAid = r.st.staAid := by
  rw [TxRun.xmit]
  split
  next st diverted =>
    refine ⟨xmitframeEnqueueForSleepingSta_moves diverted ⟨rfl, rfl⟩, ?_⟩
    obtain ⟨_, _, _, _, _, rfl⟩ := xmitframeEnqueueForSleepingSta_some diverted
    rfl
  · split
    next st queued =>
      exact ⟨rtwXmitClassifier_moves queued ⟨rfl, rfl⟩, (classifyTo_sameMaps queued).aids⟩
    · exact ⟨.refl _, rfl⟩

theorem mgntXmit_mgmtOnly (f : XmitFrame) :
    r.st.MgmtOnly cfg (r.step cfg env hal (.mgntXmit f)).st := by
  rw [TxRun.step]
  cases diverted : mgmtXmitframeEnqueueForSleepingSta cfg r.st f with
  | none => exact .refl cfg r.st
  | some st => exact mgmtXmitframeEnqueueForSleepingSta_mgmtOnly diverted

theorem dequeueMgmt_mgmtOnly : r.st.MgmtOnly cfg (r.step cfg env hal .dequeueMgmt).st := by
  rw [TxRun.step]
  cases dequeued : rtwDequeueMgmtXframe r.st with
  | none => exact .refl cfg r.st
  | some out => exact rtwDequeueMgmtXframe_mgmtOnly dequeued

theorem dequeue_sameMaps (inx : List Ac) : r.st.SameMaps (r.dequeue inx).st := by
  rw [TxRun.dequeue]
  split
  next addr f st dequeued =>
    obtain ⟨ac, -, frames, -, -, rfl⟩ := rtwDequeueXframe_some dequeued
    rw [TxState.delistIdle]
    split <;> exact ⟨rfl, rfl, rfl⟩
  · exact .refl _

theorem aggregate_sameMaps (addr : MacAddr) (p : Placement) (v : AggVars) :
    r.st.SameMaps (r.aggregate env hal addr p v).st := by
  simp only [TxRun.aggregate, aggregate_fst]
  split_ifs <;> exact ⟨rfl, rfl, rfl⟩

/-- The steps that an event makes the stations take, and nothing in the table of AIDs. -/
theorem step_moves (stays : e.Stays) (sound : r.st.Sound cfg) :
    r.st.Moves cfg (e.labels cfg r.st) (r.step cfg env hal e).st ∧
      (r.step cfg env hal e).st.staAid = r.st.staAid := by
  cases e with
  | auth addr => cases stays
  | assoc addr qosInfo => cases stays
  | free addr => cases stays
  | flushXmit addr => exact ⟨rtwFreeStainfoFlushXmit_moves ⟨rfl, rfl⟩, rfl⟩
  | xmit f => exact xmit_moves f.untrigger
  | mgntXmit f =>
    have only : r.st.MgmtOnly cfg (r.step cfg env hal (.mgntXmit f)).st := mgntXmit_mgmtOnly f
    exact ⟨only.moves, only.aids⟩
  | dequeue inx =>
    refine ⟨?_, (dequeue_sameMaps inx).aids⟩
    simp only [TxRun.step, TxRun.dequeue]
    split
    next dequeued => exact rtwDequeueXframe_moves dequeued rfl
    · exact .refl _
  | dequeueMgmt => exact ⟨dequeueMgmt_mgmtOnly.moves, dequeueMgmt_mgmtOnly.aids⟩
  | coalesce f bufAddr pktOffset => exact ⟨.refl _, rfl⟩
  | aggregate addr p v => exact ⟨aggregate_moves rfl, (aggregate_sameMaps addr p v).aids⟩
  | stop addr =>
    exact ⟨stopStaXmit_moves sound _ isEmpty_iff.mp, (stopStaXmit_grows sound).aids⟩
  | wakeup addr =>
    cases found : r.st.stations addr with
    | none =>
      rw [TxRun.step, wakeupStaToXmit_none found]
      exact ⟨.refl _, rfl⟩
    | some psta =>
      obtain ⟨moves, -, aids, -⟩ := wakeupStaToXmit_spec sound found
      exact ⟨moves, aids⟩
  | psPoll addr aid priority =>
    obtain ⟨moves, aids, -⟩ : r.st.Moves cfg ((TxEvent.psPoll addr aid priority).labels cfg r.st)
        (recvPsPoll cfg r.st addr aid priority) ∧ _ :=
      recvPsPoll_moves sound ⟨rfl, .inl rfl⟩ fun polls => ⟨rfl, .inr ⟨rfl, polls⟩⟩
    exact ⟨moves, aids⟩
  | deliver addr =>
    have delivers : r.st.Delivers cfg addr _ := xmitDeliveryEnabledFrames_delivers sound
    exact ⟨delivers.moves, delivers.aids⟩

theorem labels_ne_join (s : TxState) (a : MacAddr) : ¬ e.labels cfg s a .join := by
  cases e <;> simp [TxEvent.labels, stopLabels, wakeupLabels, ownLabels]

/-- What a new station has and every step of a station keeps, an event keeps. -/
theorem step_all {P : MacAddr → StaInfo → Prop} (sound : r.st.Sound cfg)
    (all : Table.All P r.st.stations) (fresh : ∀ addr, addr ≠ bcAddr → P addr {})
    (kept : ∀ a label psta psta', e.labels cfg r.st a label ∨ label = .join →
      StaStep cfg a label psta psta' → psta.Sound cfg a → P a psta → P a psta') :
    Table.All P (r.step cfg env hal e).st.stations := by
  have both : Table.All (fun a psta => psta.Sound cfg a ∧ P a psta) r.st.stations :=
    fun a psta found => ⟨sound a psta found, all a psta found⟩
  by_cases stays : e.Stays
  · obtain ⟨moves, -⟩ : r.st.Moves cfg (e.labels cfg r.st) (r.step cfg env hal e).st ∧ _ :=
      step_moves e stays sound
    have after := both.moves moves fun a label psta psta' ok step held =>
      ⟨step.sound held.1, kept a label psta psta' (.inl ok) step held.1 held.2⟩
    exact fun a psta found => (after a psta found).2
  · cases e with
    | auth addr =>
      intro a psta found
      simp only [TxRun.step, onAuth] at found
      split at found
      · exact all a psta found
      next new =>
        dsimp only at found
        by_cases here : a = addr
        · rw [here, update_self] at found
          cases found
          refine here ▸ fresh addr ?_
          rintro rfl
          exact new (.inl (by decide))
        · rw [update_of_ne here] at found
          exact all a psta found
    | assoc addr qosInfo =>
      obtain ⟨moves, -⟩ := onAssocReq_moves cfg r.st addr qosInfo
      have after := both.moves moves fun a label psta psta' ok step held =>
        ⟨step.sound held.1, kept a label psta psta' (.inr ok.2) step held.1 held.2⟩
      exact fun a psta found => (after a psta found).2
    | free addr =>
      rw [TxRun.step, rtwFreeStainfo_stations]
      exact all.remove addr
    | _ => exact absurd trivial stays

theorem step_consistent (consistent : r.st.Consistent cfg) :
    (r.step cfg env hal e).st.Consistent cfg := by
  by_cases stays : e.Stays
  · obtain ⟨moves, aids⟩ := step_moves e stays consistent.sound
    exact consistent.moves moves (labels_ne_join e r.st) aids
  · cases e with
    | auth addr => exact onAuth_consistent consistent
    | assoc addr qosInfo => exact onAssocReq_consistent consistent
    | free addr => exact rtwFreeStainfo_consistent consistent
    | _ => exact absurd trivial stays

theorem reachable_consistent {allowed : TxRun → TxEvent → Prop}
    (reached : Run.Reachable (TxRun.step cfg env hal) allowed TxRun.start r) :
    r.st.Consistent cfg :=
  reached.invariant start_consistent fun _ e consistent _ => step_consistent e consistent

end

/-! ## A small access point -/

def smallAp : ApConfig where
  maxAid := 32
  maxAid_lt := by decide
  maxNumSta := 32

def smallEnv : XmitEnv := { fragLen := smallestFragLen }

def otherSta : MacAddr := Rx.macAt [2, 0, 0, 0, 0, 2] 0

def frameTo (ra : MacAddr) (priority : BitVec 8) (skb : ℕ) : XmitFrame :=
  { attrib := { dst := ra, ra, psta := some (staAddr ra), priority }, skb }

def smallRun (events : List TxEvent) : TxRun :=
  events.foldl (TxRun.step smallAp smallEnv {}) TxRun.start

theorem smallRun_reachable {allowed : TxRun → TxEvent → Prop} {events : List TxEvent}
    (allows : Run.Allows (TxRun.step smallAp smallEnv {}) allowed TxRun.start events) :
    Run.Reachable (TxRun.step smallAp smallEnv {}) allowed TxRun.start (smallRun events) :=
  Run.Reachable.start.append allows

/-- From every state that a run can reach, filling a transmit buffer comes to an end. It is a
sequence of serving steps of the run, so that steps of the other kinds may come between, and what it
leaves is consistent: the owners and counts of the queues, the dozing stations and their AIDs. -/
theorem xmitframe_complete_serves (cfg : ApConfig) (env : XmitEnv) (hal : HalUsb) {r : TxRun}
    (reached : Run.Reachable (TxRun.step cfg env hal) (fun _ _ => True) TxRun.start r)
    (inx : List Ac) :
    ∃ s b, ∃ events : List TxEvent,
      rtl8822buXmitframeComplete env hal inx r.st = some (s, b) ∧ (∀ e ∈ events, e.Serves) ∧
      (events.foldl (TxRun.step cfg env hal) r).st = s ∧ s.Consistent cfg := by
  have ends : (rtl8822buXmitframeComplete env hal inx r.st).isSome :=
    rtl8822buXmitframeComplete_isSome
  obtain ⟨⟨s, b⟩, done⟩ := isSome_iff_exists.mp ends
  obtain ⟨events, serve, after⟩ := rtl8822buXmitframeComplete_serves cfg hal done
  refine ⟨s, b, events, done, serve, after, ?_⟩
  rw [← after]
  exact reachable_consistent (reached.append (Run.allows_of_forall (fun _ _ => trivial) r))

theorem xmitframe_complete_serves_one :
    ∃ s b, rtl8822buXmitframeComplete smallEnv {} [.vo, .vi, .be, .bk]
        (smallRun [.auth otherSta, .assoc otherSta 0, .xmit (frameTo otherSta 0 1)]).st =
          some (s, b) ∧ s.Consistent smallAp := by
  obtain ⟨s, b, -, done, -, -, consistent⟩ := xmitframe_complete_serves smallAp smallEnv {}
    (smallRun_reachable (Run.allows_of_forall (fun _ _ => trivial) _)) [.vo, .vi, .be, .bk]
  exact ⟨s, b, done, consistent⟩

end Rtl88x2bu.Tx
