import Rtl88x2bu.Lib.QueueBook
import Rtl88x2bu.Tx.Runs

/-!
# Accounts of the transmit queues

For each category `qcnt`, `accnt`, the service list and the `sta_pending` queues are a book.
-/

namespace Rtl88x2bu.Tx

open List Function Option
open Rx (MacAddr staAddr bcAddr)
open QueueBook

noncomputable instance : Fintype MacAddr :=
  have : Finite MacAddr := by
    refine Finite.of_injective (fun addr : MacAddr => fun i : Fin 6 => addr[i].toFin) ?_
    intro addr addr' same
    ext i lt
    exact congrArg Fin.val (congrFun same ⟨i, lt⟩)
  Fintype.ofFinite _

namespace TxState

/-- The book of a category. -/
def book (s : TxState) (ac : Ac) : Book MacAddr XmitFrame where
  queue addr := s.pending addr (.ac ac)
  count addr := s.qcnt addr (.ac ac)
  total := s.accnt (.ac ac)
  active := s.staQueue (.ac ac)

def Accounted (s : TxState) : Prop := ∀ ac, (s.book ac).Balanced

/-- The queue of a station for a category was replaced. -/
structure Requeued (addr : MacAddr) (ac : Ac) (frames : List XmitFrame) (s s' : TxState) :
    Prop where
  here : QueueBook.Requeued addr frames (s.book ac) (s'.book ac)
  others : ∀ other, other ≠ ac → s'.book other = s.book other

variable {s s' : TxState} {addr : MacAddr} {ac : Ac} {frames : List XmitFrame}

theorem SameQueues.book_eq (same : s.SameQueues s') (ac : Ac) : s'.book ac = s.book ac := by
  rw [book, book, same.accnt, same.staQueue]
  congr 1
  · funext a
    exact same.pending a ac
  · funext a
    exact same.qcnt a ac

theorem Accounted.same (accounted : s.Accounted) (same : s.SameQueues s') : s'.Accounted :=
  fun ac => same.book_eq ac ▸ accounted ac

theorem Accounted.requeued (accounted : s.Accounted) (requeued : s.Requeued addr ac frames s') :
    s'.Accounted := by
  intro other
  by_cases here : other = ac
  · exact here ▸ (accounted ac).requeued requeued.here
  · exact requeued.others other here ▸ accounted other

theorem stations_requeue_of_none (absent : s.stations addr = none) (q : HwQueue) :
    (s.requeue addr q frames).stations = s.stations := by
  rw [stations_requeue]
  funext a
  rw [modifyServq, stations_modifySta]
  split
  next here => rw [here, absent, map_none]
  · rfl

theorem requeued_of (present : s.stations addr = none → frames = [])
    (servq : ∀ a q, (s'.stations a).map (·.txservq q) =
      ((s.requeue addr (.ac ac) frames).stations a).map (·.txservq q))
    (accnt : s'.accnt = (s.requeue addr (.ac ac) frames).accnt)
    (active : ∀ a, a ∈ s'.staQueue (.ac ac) ↔
      if a = addr then frames ≠ [] else a ∈ s.staQueue (.ac ac))
    (nodup : (s.staQueue (.ac ac)).Nodup → (s'.staQueue (.ac ac)).Nodup)
    (lists : ∀ q, q ≠ .ac ac → s'.staQueue q = s.staQueue q) : s.Requeued addr ac frames s' := by
  have queues : ∀ a q, s'.pending a q =
      if a = addr ∧ q = .ac ac then frames else s.pending a q := by
    intro a q
    rw [pending_eq_servq, servq, ← pending_eq_servq]
    cases found : s.stations addr with
    | none =>
      rw [pending, stations_requeue_of_none found, ← pending, present found]
      split
      next here => rw [here.1, pending_of_none found]
      · rfl
    | some psta => exact pending_requeue found
  have counts : ∀ a q, s'.qcnt a q = s.qcnt a q +
      if a = addr ∧ q = .ac ac then (frames.length - (s.pending addr (.ac ac)).length : ℤ)
      else 0 := by
    intro a q
    rw [qcnt_eq_servq, servq, ← qcnt_eq_servq]
    cases found : s.stations addr with
    | none =>
      rw [qcnt, stations_requeue_of_none found, ← qcnt, present found, pending_of_none found]
      simp
    | some psta => exact qcnt_requeue found
  have apart : ∀ {other : Ac}, other ≠ ac → HwQueue.ac other ≠ .ac ac := fun differs same =>
    differs (HwQueue.ac.inj same)
  refine ⟨⟨?_, ?_, ?_, active, nodup⟩, fun other differs => ?_⟩
  · funext a
    simp only [book, queues, update_apply, and_true]
  · funext a
    simp only [book, counts, update_apply, and_true]
    split
    next here => rw [here]
    · rw [add_zero]
  · simp only [book, accnt, accnt_requeue, if_true]
  · simp only [book, queues, counts, accnt, accnt_requeue, apart differs, and_false, if_false,
      add_zero, lists _ (apart differs)]

end TxState

/-! ## The operations -/

section
variable {cfg : ApConfig} {s s' : TxState} {addr : MacAddr} {ac : Ac} {f : XmitFrame}

theorem staQueue_insertTail (s : TxState) (addr : MacAddr) (q : HwQueue) :
    (s.insertTail addr q).staQueue q = s.staQueue q ++ [addr] := update_self ..

theorem staQueue_listDelete (s : TxState) (addr : MacAddr) (q : HwQueue) :
    (s.listDelete addr q).staQueue q = (s.staQueue q).filter (· ≠ addr) := update_self ..

theorem nodup_append_singleton {addrs : List MacAddr} (nodup : addrs.Nodup)
    (new : addr ∉ addrs) : (addrs ++ [addr]).Nodup :=
  nodup_append_comm.mp (nodup_cons.mpr ⟨new, nodup⟩)

theorem classifyTo_requeued (queued : classifyTo s f (.ac ac) = some s') :
    s.Requeued (staAddr f.attrib.ra) ac (s.pending (staAddr f.attrib.ra) (.ac ac) ++ [f]) s' := by
  obtain ⟨psta, found, -, -, rfl⟩ := classifyTo_some queued
  set addr := staAddr f.attrib.ra
  rw [TxState.enlist]
  split
  next listed =>
    refine TxState.requeued_of (fun absent => ?_) (fun _ _ => rfl) rfl (fun a => ?_) id
      fun _ _ => rfl
    · rw [found] at absent
      cases absent
    · split
      next here => exact iff_of_true (here ▸ listed) (by simp)
      · rfl
  next unlisted =>
    refine TxState.requeued_of (fun absent => ?_) (fun _ _ => rfl) rfl (fun a => ?_) ?_ ?_
    · rw [found] at absent
      cases absent
    · change a ∈ (s.insertTail addr (.ac ac)).staQueue (.ac ac) ↔ _
      rw [staQueue_insertTail, mem_append, mem_singleton]
      split
      next here => exact iff_of_true (.inr here) (by simp)
      next away => exact or_iff_left away
    · intro nodup
      change ((s.insertTail addr (.ac ac)).staQueue (.ac ac)).Nodup
      rw [staQueue_insertTail]
      exact nodup_append_singleton nodup unlisted
    · exact fun q other => update_of_ne other _ _

theorem requeued_nil_of
    (servq : ∀ a q, (s'.stations a).map (·.txservq q) =
      ((s.requeue addr (.ac ac) []).stations a).map (·.txservq q))
    (accnt : s'.accnt = (s.requeue addr (.ac ac) []).accnt)
    (lists : s'.staQueue = (s.listDelete addr (.ac ac)).staQueue) : s.Requeued addr ac [] s' := by
  refine TxState.requeued_of (fun _ => rfl) servq accnt (fun a => ?_) (fun nodup => ?_) ?_
  · rw [lists, staQueue_listDelete, mem_filter, decide_eq_true_eq]
    split
    next here => exact iff_of_false (fun kept => kept.2 here) (fun some => some rfl)
    next away => exact and_iff_left away
  · rw [lists, staQueue_listDelete]
    exact nodup.filter _
  · intro q other
    rw [lists]
    exact update_of_ne other _ _

theorem requeued_nil (s : TxState) (addr : MacAddr) (ac : Ac) :
    s.Requeued addr ac [] ((s.requeue addr (.ac ac) []).listDelete addr (.ac ac)) :=
  requeued_nil_of (fun _ _ => rfl) rfl rfl

theorem requeued_listed {frames : List XmitFrame} (listed : addr ∈ s.staQueue (.ac ac))
    (present : s.stations addr = none → frames = []) (left : frames ≠ []) :
    s.Requeued addr ac frames (s.requeue addr (.ac ac) frames) := by
  refine TxState.requeued_of present (fun _ _ => rfl) rfl (fun a => ?_) id fun _ _ => rfl
  split
  next here => exact iff_of_true (here ▸ listed) left
  · rfl

theorem requeued_moved {frames : List XmitFrame} (present : s.stations addr = none → frames = [])
    (left : frames ≠ []) : s.Requeued addr ac frames
      (((s.requeue addr (.ac ac) frames).listDelete addr (.ac ac)).insertTail addr (.ac ac)) := by
  refine TxState.requeued_of present (fun _ _ => rfl) rfl (fun a => ?_) (fun nodup => ?_) ?_
  · rw [staQueue_insertTail, staQueue_listDelete, mem_append, mem_singleton,
      mem_filter, decide_eq_true_eq]
    split
    next here => exact iff_of_true (.inr here) left
    next away => exact (or_iff_left away).trans (and_iff_left away)
  · rw [staQueue_insertTail, staQueue_listDelete]
    exact nodup_append_singleton (nodup.filter _) (by simp)
  · intro q other
    exact (update_of_ne other _ _).trans (update_of_ne other _ _)

theorem rtwDequeueXframe_accounted {inx : List Ac} (accounted : s.Accounted)
    (dequeued : rtwDequeueXframe inx s = some (addr, f, s')) : s'.Accounted := by
  obtain ⟨ac, -, frames, listed, waiting, rfl⟩ := rtwDequeueXframe_some dequeued
  rw [TxState.delistIdle]
  split
  next last =>
    subst last
    exact accounted.requeued (requeued_nil s addr ac)
  next left =>
    refine accounted.requeued (requeued_listed listed (fun absent => ?_) left)
    rw [TxState.pending_of_none absent] at waiting
    cases waiting

theorem aggregate_accounted {env : XmitEnv} {hal : HalUsb} {p : Placement} {v : AggVars}
    (accounted : s.Accounted) : (aggregate env hal s addr p v).1.Accounted := by
  have split := aggLoop_taken env hal s p.frame.attrib.qsel v (s.pending addr (.ac p.frame.ac))
  rw [aggregate_fst]
  set rest := (aggLoop env hal s p.frame.attrib.qsel v (s.pending addr (.ac p.frame.ac))).rest
  have present : s.stations addr = none → rest = [] := by
    intro absent
    rw [TxState.pending_of_none absent] at split
    exact (append_eq_nil_iff.mp split).2
  split
  next last =>
    have after := accounted.requeued (requeued_nil s addr p.frame.ac)
    rw [last]
    exact after
  next left =>
    have listed : addr ∈ s.staQueue (.ac p.frame.ac) := by
      refine ((accounted p.frame.ac).active addr).mpr fun idle => left ?_
      rw [show s.pending addr (.ac p.frame.ac) = [] from idle] at split
      exact (append_eq_nil_iff.mp split).2
    split
    · have moved : s.Requeued addr p.frame.ac rest _ := requeued_moved present left
      have after := accounted.requeued moved
      exact after
    · have after := accounted.requeued (requeued_listed listed present left)
      exact after

/-! ### Power save -/

theorem stopCategory_requeued (sound : s.Sound cfg) (ready : s.Ready cfg addr) (ac : Ac) :
    s.Requeued addr ac [] (stopCategory cfg addr s ac) := by
  obtain ⟨tim, dz, -, -, -, shape⟩ := stopCategory_eq sound ready ac
  rw [shape]
  refine requeued_nil_of (fun a q => ?_) ?_ rfl
  · rw [TxState.stations_requeue, TxState.modifyServq]
    simp only [TxState.stations_modifySta, length_nil, Nat.cast_zero, zero_sub]
    split
    · rw [Option.map_map, Option.map_map]; rfl
    · rfl
  · funext q
    rw [TxState.accnt_requeue]
    simp only [update_apply, length_nil, Nat.cast_zero, zero_sub]
    split
    next here => rw [here, sub_eq_add_neg]
    · rw [add_zero]

theorem rtwHalXmitframeEnqueue_accounted (f : XmitFrame) (accounted : s.Accounted) :
    (rtwHalXmitframeEnqueue s f).Accounted := by
  rw [rtwHalXmitframeEnqueue]
  cases queued : rtwXmitClassifier s f with
  | none => exact accounted
  | some s' => exact accounted.requeued (classifyTo_requeued queued)

theorem releaseFrame_accounted (counted : StaInfo → Bool) (left : List XmitFrame)
    (accounted : s.Accounted) : (releaseFrame addr counted s f left).Accounted := by
  simp only [releaseFrame]
  split
  · exact accounted
  next psta found =>
    exact rtwHalXmitframeEnqueue_accounted _
      (accounted.same (TxState.sameQueues_modifySta s addr fun _ => rfl))

theorem wakeupLoop_accounted (counted : XmitFrame → StaInfo → Bool) (queue : List XmitFrame)
    (accounted : s.Accounted) : (wakeupLoop addr counted s queue).Accounted := by
  induction queue generalizing s with
  | nil => exact accounted
  | cons f rest ih => exact ih (releaseFrame_accounted _ rest accounted)

theorem deliverLoop_accounted (kept queue : List XmitFrame) (accounted : s.Accounted) :
    (deliverLoop cfg addr s kept queue).Accounted := by
  induction queue generalizing s kept with
  | nil => exact accounted
  | cons f rest ih =>
    rw [deliverLoop]
    split
    · exact accounted
    next psta found =>
      have released : (releaseFrame addr (fun _ => true) s f (kept ++ rest)).Accounted :=
        releaseFrame_accounted _ _ accounted
      split
      · exact ih _ accounted
      · dsimp only
        split <;> exact ih _ released

section

variable (accounted : s.Accounted)
include accounted

theorem wakeupBmc_accounted : (wakeupBmc cfg s).Accounted := by
  rw [wakeupBmc]
  split
  · have woken : (wakeupLoop bcAddr (fun _ _ => false) s (s.sleepQ bcAddr)).Accounted :=
      wakeupLoop_accounted _ _ accounted
    dsimp only
    split <;> exact woken
  · exact accounted

theorem wakeupClear_accounted : (wakeupClear cfg addr s).Accounted := by
  rw [wakeupClear]
  split
  · exact accounted
  next psta found =>
    split
    · have awake : (s.modifySta addr fun psta => { psta with sleep := false }).Accounted :=
        accounted.same (TxState.sameQueues_modifySta s addr fun _ => rfl)
      exact awake
    · exact accounted

theorem wakeupStaToXmit_accounted : (wakeupStaToXmit cfg s addr).Accounted := by
  obtain ⟨only, -⟩ : s.MgmtOnly cfg (wakeupMgmtLoop addr s (s.mgmtSleepQ addr)) ∧ _ :=
    wakeupMgmtLoop_mgmtOnly rfl
  have mgmt := accounted.same only.sameQueues
  rw [wakeupStaToXmit]
  split
  · exact wakeupBmc_accounted (wakeupClear_accounted (wakeupLoop_accounted _ _ mgmt))
  · exact wakeupLoop_accounted _ _ mgmt

theorem recvPsPoll_accounted {aid : ℕ} {priority : BitVec 8} :
    (recvPsPoll cfg s addr aid priority).Accounted := by
  have released (f rest) : (releaseFrame addr (fun _ => false) s f rest).Accounted :=
    releaseFrame_accounted _ _ accounted
  have reset : (s.modifySta addr fun psta => { psta with sleepqLen := 0 }).Accounted :=
    accounted.same (TxState.sameQueues_modifySta s addr fun _ => rfl)
  fun_cases recvPsPoll cfg s addr aid priority
  case case4 => exact released _ _
  case case5 => exact released _ _
  case case6 => exact reset
  all_goals exact accounted

end

theorem stopStaXmit_accounted (sound : s.Sound cfg) (accounted : s.Accounted) :
    (stopStaXmit cfg s addr).Accounted := by
  cases found : s.stations addr with
  | none => rwa [stopStaXmit_none found]
  | some psta =>
    refine stopStaXmit_invariant sound found (fun s₁ same _ _ => accounted.same same) ?_
    intro s a ac sound ready accounted
    exact accounted.requeued (stopCategory_requeued sound ready ac)

/-! ### Stations -/

theorem flushServq_accounted (accounted : s.Accounted) (q : HwQueue) :
    (flushServq addr s q).Accounted := by
  cases q with
  | ac ac =>
    have counted : s.qcnt addr (.ac ac) = (s.pending addr (.ac ac)).length :=
      (accounted ac).count addr
    have shape : flushServq addr s (.ac ac) =
        (s.requeue addr (.ac ac) []).listDelete addr (.ac ac) := by
      rw [flushServq, TxState.requeue, counted, length_nil, Nat.cast_zero, zero_sub]
    rw [shape]
    exact accounted.requeued (requeued_nil s addr ac)
  | mgmt =>
    refine accounted.same (.of_servq (fun a ac => ?_) (fun _ => rfl) fun _ => rfl)
    rw [flushServq_stations, TxState.stations_modifySta]
    split
    · rw [Option.map_map]; rfl
    · rfl

theorem flushQueues_accounted (queues : List HwQueue) (accounted : s.Accounted) :
    (queues.foldl (flushServq addr) s).Accounted := by
  induction queues generalizing s with
  | nil => exact accounted
  | cons q queues ih => exact ih (flushServq_accounted accounted q)

theorem rtwFreeStainfoFlushXmit_accounted (accounted : s.Accounted) :
    (rtwFreeStainfoFlushXmit s addr).Accounted :=
  flushQueues_accounted _ (accounted.same (TxState.sameQueues_modifySta s addr fun _ => rfl))

theorem pending_flushServq (s : TxState) (addr : MacAddr) (q r : HwQueue) :
    (flushServq addr s q).pending addr r = if r = q then [] else s.pending addr r := by
  rw [TxState.pending, flushServq_stations, TxState.stations_modifySta, if_pos rfl, TxState.pending]
  cases s.stations addr with
  | none => simp
  | some psta =>
    simp only [map_some, getD_some, StaInfo.setServq, update_apply]
    split <;> rfl

theorem pending_flushQueues {queues : List HwQueue} {q : HwQueue}
    (flushed : q ∈ queues ∨ s.pending addr q = []) :
    (queues.foldl (flushServq addr) s).pending addr q = [] := by
  induction queues generalizing s with
  | nil => exact flushed.resolve_left not_mem_nil
  | cons r queues ih =>
    apply ih
    rw [pending_flushServq]
    split
    · exact .inr rfl
    next other => exact flushed.imp_left fun member => (mem_cons.mp member).resolve_left other

section

variable (accounted : s.Accounted)
include accounted

theorem rtwFreeStainfo_accounted : (rtwFreeStainfo cfg s addr).Accounted := by
  have flushed : (rtwFreeStainfoFlushXmit s addr).Accounted :=
    rtwFreeStainfoFlushXmit_accounted accounted
  have idle : ∀ ac, (rtwFreeStainfoFlushXmit s addr).pending addr (.ac ac) = [] := fun ac =>
    pending_flushQueues (.inl (by cases ac <;> decide))
  have uncounted : ∀ ac, (rtwFreeStainfoFlushXmit s addr).qcnt addr (.ac ac) = 0 := by
    intro ac
    refine ((flushed ac).count addr).trans ?_
    rw [show ((rtwFreeStainfoFlushXmit s addr).book ac).queue addr = [] from idle ac]
    rfl
  have gone : ({ rtwFreeStainfoFlushXmit s addr with
      stations := Function.update (rtwFreeStainfoFlushXmit s addr).stations addr none } :
        TxState).Accounted := by
    refine flushed.same ⟨fun a ac => ?_, fun a ac => ?_, fun _ => rfl, fun _ => rfl⟩
    · by_cases here : a = addr
      · subst here
        rw [idle, TxState.pending_of_none (update_self ..)]
      · simp only [TxState.pending, update_of_ne here]
    · by_cases here : a = addr
      · subst here
        rw [uncounted, TxState.qcnt]
        simp
      · simp only [TxState.qcnt, update_of_ne here]
  rw [rtwFreeStainfo]
  split
  · exact accounted
  next psta found =>
    dsimp only
    split <;> exact gone

theorem onAuth_accounted : (onAuth s addr).Accounted := by
  rw [onAuth]
  split
  · exact accounted
  next new =>
    have absent : s.stations addr = none := by
      rw [← not_isSome_iff_eq_none]
      exact fun present => new (.inr present)
    refine accounted.same ⟨fun a ac => ?_, fun a ac => ?_, fun _ => rfl, fun _ => rfl⟩
    all_goals
      by_cases here : a = addr
      · subst here
        simp [TxState.pending, TxState.qcnt, absent]
      · simp only [TxState.pending, TxState.qcnt, update_of_ne here]

theorem onAssocReq_accounted {qosInfo : BitVec 8} : (onAssocReq cfg s addr qosInfo).Accounted := by
  rw [onAssocReq]
  split
  · exact accounted
  · split
    · exact accounted
    · split
      · exact accounted
      next aid _ =>
        have joined : (s.modifySta addr fun psta => { psta with
            aid
            asoc := true
            uapsd := uapsdOf qosInfo
            hasLegacyAc := qosInfo &&& 0xf ≠ 0xf }).Accounted :=
          accounted.same (TxState.sameQueues_modifySta s addr fun _ => rfl)
        exact joined

/-! ## Runs -/

theorem divert_accounted {psta : StaInfo} : (s.divert cfg addr psta f).Accounted := by
  have buffered : (s.modifySta addr (·.bufferAt addr f)).Accounted := by
    refine accounted.same (TxState.sameQueues_modifySta s addr fun psta => ?_)
    rw [StaInfo.bufferAt_eq]
  exact buffered

end

variable {env : XmitEnv} {hal : HalUsb} {r : TxRun}

theorem xmit_accounted (f : XmitFrame) (accounted : r.st.Accounted) :
    (r.xmit cfg f).st.Accounted := by
  rw [TxRun.xmit]
  split
  next st diverted =>
    obtain ⟨psta, -, -, -, -, rfl⟩ := xmitframeEnqueueForSleepingSta_some diverted
    exact divert_accounted accounted
  · split
    next st queued => exact accounted.requeued (classifyTo_requeued queued)
    · exact accounted

theorem step_accounted (e : TxEvent) (sound : r.st.Sound cfg) (accounted : r.st.Accounted) :
    (r.step cfg env hal e).st.Accounted := by
  cases e with
  | auth addr => exact onAuth_accounted accounted
  | assoc addr qosInfo => exact onAssocReq_accounted accounted
  | free addr => exact rtwFreeStainfo_accounted accounted
  | flushXmit addr => exact rtwFreeStainfoFlushXmit_accounted accounted
  | xmit f => exact xmit_accounted f.untrigger accounted
  | mgntXmit f => exact accounted.same (mgntXmit_mgmtOnly f).sameQueues
  | dequeue inx =>
    simp only [TxRun.step, TxRun.dequeue]
    split
    next addr f st dequeued => exact rtwDequeueXframe_accounted accounted dequeued
    · exact accounted
  | dequeueMgmt => exact accounted.same dequeueMgmt_mgmtOnly.sameQueues
  | coalesce f bufAddr pktOffset => exact accounted
  | aggregate addr p v => exact aggregate_accounted accounted
  | stop addr => exact stopStaXmit_accounted sound accounted
  | wakeup addr => exact wakeupStaToXmit_accounted accounted
  | psPoll addr aid priority => exact recvPsPoll_accounted accounted
  | deliver addr => exact deliverLoop_accounted _ _ accounted

theorem start_accounted : TxRun.start.st.Accounted := by
  have idle : ∀ a, TxRun.start.st.stations a = none ∨
      TxRun.start.st.stations a = some { asoc := true } := by
    intro a
    simp only [TxRun.start, update_apply]
    split
    · exact .inr rfl
    · exact .inl rfl
  refine fun ac => .empty (fun a => ?_) (fun a => ?_) rfl rfl
  · rcases idle a with absent | found
    · exact TxState.pending_of_none absent
    · exact TxState.pending_of_some found
  · rcases idle a with absent | found
    · simp [TxState.book, TxState.qcnt, absent]
    · exact TxState.qcnt_of_some found

theorem reachable_accounted {allowed : TxRun → TxEvent → Prop}
    (reached : Run.Reachable (TxRun.step cfg env hal) allowed TxRun.start r) : r.st.Accounted := by
  have both : r.st.Consistent cfg ∧ r.st.Accounted :=
    reached.invariant ⟨start_consistent, start_accounted⟩ fun _ e held _ =>
      ⟨step_consistent e held.1, step_accounted e held.1.sound held.2⟩
  exact both.2

/-- In every run the counts of a category and its service list agree with the queues. -/
theorem tx_queues_accounted {allowed : TxRun → TxEvent → Prop}
    (reached : Run.Reachable (TxRun.step cfg env hal) allowed TxRun.start r) (ac : Ac) :
    (∀ addr, r.st.qcnt addr (.ac ac) = (r.st.pending addr (.ac ac)).length) ∧
      r.st.accnt (.ac ac) = ∑ addr, r.st.qcnt addr (.ac ac) ∧
      ∀ addr, addr ∈ r.st.staQueue (.ac ac) ↔ r.st.pending addr (.ac ac) ≠ [] :=
  have balanced := reachable_accounted reached ac
  ⟨balanced.count, balanced.total, balanced.active⟩

end

def dozeOfTwo : List TxEvent :=
  [.auth someSta, .assoc someSta 0, .auth otherSta, .assoc otherSta 0, .xmit (frameTo otherSta 0 1),
    .xmit (frameTo someSta 0 2), .xmit (frameTo otherSta 3 3), .dequeue [.vo, .vi, .be, .bk],
    .stop someSta]

theorem tx_queues_accounted_doze : ∑ addr, (smallRun dozeOfTwo).st.qcnt addr (.ac .be) = 1 := by
  have reached : Run.Reachable (TxRun.step smallAp smallEnv {}) (fun _ _ => True) TxRun.start
      (smallRun dozeOfTwo) := smallRun_reachable (Run.allows_of_forall (fun _ _ => trivial) _)
  rw [← (tx_queues_accounted reached .be).2.1]
  decide +kernel

end Rtl88x2bu.Tx
