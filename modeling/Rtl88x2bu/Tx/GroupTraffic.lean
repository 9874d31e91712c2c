import Rtl88x2bu.Tx.Runs

/-!
# Group addressed frames

While the broadcast station has frames in its sleep queue, bit 0 should be set in `tim_bitmap` and
in `sta_dz_bitmap`. A station that is only authenticated has the same bit, since its AID is 0.
-/

namespace Rtl88x2bu.Tx

open Rx (MacAddr staAddr bcAddr)

/-- Group addressed frames that are buffered are announced. -/
def TxState.Announced (s : TxState) : Prop :=
  s.sleepQ bcAddr ≠ [] → 0 ∈ s.timBitmap ∧ 0 ∈ s.staDzBitmap

/-- A station without an AID. -/
def TxState.Aid0 (s : TxState) (addr : MacAddr) (psta : StaInfo) : Prop :=
  s.stations addr = some psta ∧ psta.aid = 0

/-- A station without an AID wakes up while another one dozes, is polled for while it dozes, or
goes. -/
def TxEvent.Unannounces (cfg : ApConfig) (s : TxState) : TxEvent → Prop
  | .wakeup addr =>
    s.sleepQ bcAddr ≠ [] ∧ (∃ psta, s.Aid0 addr psta) ∧ s.staDzBitmap.erase 0 ≠ ∅
  | .psPoll addr aid priority =>
    s.sleepQ bcAddr ≠ [] ∧ aid = 0 ∧ ∃ psta, s.Aid0 addr psta ∧ psta.sleep = true ∧
      psta.deliveryEnabled (acOf priority) = false
  | .free addr => s.sleepQ bcAddr ≠ [] ∧ (∃ psta, s.Aid0 addr psta) ∧ cfg.hwStateAp = true
  | _ => False

/-- The event is not for the broadcast station. -/
def TxEvent.Unicast : TxEvent → Prop
  | .free addr | .flushXmit addr | .stop addr | .wakeup addr | .psPoll addr _ _ | .deliver addr =>
    addr ≠ bcAddr
  | _ => True

section
variable {cfg : ApConfig} {env : XmitEnv} {hal : HalUsb} {r : TxRun} {s s' : TxState}
  {addr : MacAddr} {psta : StaInfo}

theorem TxState.Announced.keep (announced : s.Announced)
    (group : s'.sleepQ bcAddr = s.sleepQ bcAddr)
    (bits : s.sleepQ bcAddr ≠ [] → 0 ∈ s.timBitmap → 0 ∈ s.staDzBitmap →
      0 ∈ s'.timBitmap ∧ 0 ∈ s'.staDzBitmap) : s'.Announced := by
  intro buffered
  rw [group] at buffered
  obtain ⟨tim, dz⟩ := announced buffered
  exact bits buffered tim dz

theorem TxState.Announced.grows (announced : s.Announced) (grows : s.Grows s') : s'.Announced := by
  intro buffered
  by_cases same : s'.sleepQ bcAddr = s.sleepQ bcAddr
  · obtain ⟨tim, dz⟩ := announced (same ▸ buffered)
    exact ⟨grows.tim tim, grows.dz dz⟩
  · exact grows.announced same

theorem TxState.aid0_iff (found : s.stations addr = some psta) :
    (∃ psta, s.Aid0 addr psta) ↔ psta.aid = 0 := by
  refine ⟨?_, fun zero => ⟨psta, found, zero⟩⟩
  rintro ⟨psta', found', zero⟩
  cases found.symm.trans found'
  exact zero

theorem TxState.Aid0.sleepQ_eq_nil (noAid : s.Aid0 addr psta) (sound : s.Sound cfg)
    (unicast : addr ≠ bcAddr) : psta.sleepQ = [] := by
  have sound := sound addr psta noAid.1
  refine (sound.idle ?_).2
  by_contra asoc
  have pos := sound.aid_pos unicast (by simpa using asoc)
  exact pos.ne' noAid.2

/-! ## The events that may take back bit 0 -/

theorem TxState.Announced.of_nil (empty : s.sleepQ bcAddr = []) : s.Announced := fun buffered =>
  absurd empty buffered

/-- A bit taken back is that of the group only for AID 0. -/
theorem TxState.Announced.erase_iff (announced : s.Announced) (buffered : s.sleepQ bcAddr ≠ [])
    (group : s'.sleepQ bcAddr = s.sleepQ bcAddr) {aid : ℕ}
    (tim : s'.timBitmap = s.timBitmap.erase aid)
    (dz : s'.staDzBitmap = s.staDzBitmap ∨ s'.staDzBitmap = s.staDzBitmap.erase aid) :
    s'.Announced ↔ aid ≠ 0 := by
  obtain ⟨bit, dozing⟩ := announced buffered
  constructor
  · intro after
    have left := (after (group ▸ buffered)).1
    rw [tim] at left
    exact (Finset.ne_of_mem_erase left).symm
  · intro other _
    refine ⟨tim ▸ Finset.mem_erase.mpr ⟨other.symm, bit⟩, ?_⟩
    rcases dz with dz | dz
    · exact dz ▸ dozing
    · exact dz ▸ Finset.mem_erase.mpr ⟨other.symm, dozing⟩

section

variable (unicast : addr ≠ bcAddr) (sound : s.Sound cfg) (announced : s.Announced)
include unicast sound announced

theorem wakeup_announced_iff :
    (wakeupStaToXmit cfg s addr).Announced ↔ ¬ (TxEvent.wakeup addr).Unannounces cfg s := by
  cases found : s.stations addr with
  | none =>
    rw [wakeupStaToXmit_none found]
    refine iff_of_true announced ?_
    rintro ⟨-, ⟨psta, found', -⟩, -⟩
    rw [found] at found'
    cases found'
  | some psta =>
    simp only [TxEvent.Unannounces, TxState.aid0_iff found]
    obtain ⟨-, -, -, ⟨dz, tim, dozing, group⟩ | ⟨none, -, -, idle⟩⟩ :=
      wakeupStaToXmit_spec sound found
    · have group := group unicast
      by_cases buffered : s.sleepQ bcAddr = []
      · exact iff_of_true (.of_nil (group.trans buffered)) fun bad => bad.1 buffered
      · rw [announced.erase_iff buffered group tim (.inr dz)]
        have present : (s.stations bcAddr).isSome := by
          by_contra absent
          rw [TxState.sleepQ, Option.not_isSome_iff_eq_none.mp absent] at buffered
          exact buffered rfl
        have dozing := dozing present
        constructor
        · exact fun other bad => other bad.2.1
        · intro good zero
          refine good ⟨buffered, zero, ?_⟩
          rwa [zero, Finset.erase_idem] at dozing
    · refine iff_of_true (TxState.Announced.of_nil none) ?_
      rintro ⟨-, zero, dozing⟩
      rw [zero, Finset.erase_idem] at idle
      exact dozing idle

theorem psPoll_announced_iff {aid : ℕ} {priority : BitVec 8} :
    (recvPsPoll cfg s addr aid priority).Announced ↔
      ¬ (TxEvent.psPoll addr aid priority).Unannounces cfg s := by
  obtain ⟨moves, -, dz⟩ :
      s.Moves cfg (fun a _ => a = addr) (recvPsPoll cfg s addr aid priority) ∧ _ :=
    recvPsPoll_moves sound rfl fun _ => rfl
  have group : (recvPsPoll cfg s addr aid priority).sleepQ bcAddr = s.sleepQ bcAddr :=
    moves.sleepQ_eq fun _ here => absurd here.symm unicast
  by_cases buffered : s.sleepQ bcAddr = []
  · exact iff_of_true (.of_nil (group.trans buffered)) fun bad => bad.1 buffered
  obtain ⟨bit, dozing⟩ := announced buffered
  constructor
  · rintro after ⟨-, rfl, psta, noAid, sleep, legacy⟩
    have queue := noAid.sleepQ_eq_nil sound unicast
    obtain ⟨found, zero⟩ := noAid
    have isSet : ∀ map : Finset ℕ, 0 ∈ map → rtwTimMapIsSet cfg map 0 = true := fun map =>
      (rtwTimMapIsSet_iff (Nat.zero_le _)).mpr
    have tim : (recvPsPoll cfg s addr 0 priority).timBitmap = s.timBitmap.erase 0 := by
      simp only [recvPsPoll, found, zero, legacy, sleep, queue, isSet _ bit, isSet _ dozing,
        rtwTimMapClear_eq (Nat.zero_le _)]
      simp
    exact (announced.erase_iff buffered group tim (.inl dz)).mp after rfl
  · intro good
    refine announced.keep group fun _ bit dozing => ⟨?_, dz ▸ dozing⟩
    have kept {psta} (found : s.stations addr = some psta) (other : psta.aid ≠ 0) :
        0 ∈ rtwTimMapClear cfg s.timBitmap psta.aid := by
      rw [rtwTimMapClear_eq (sound addr psta found).aid_le]
      exact Finset.mem_erase.mpr ⟨other.symm, bit⟩
    have tim {psta f rest} (found : s.stations addr = some psta) (queue : psta.sleepQ = f :: rest) :
        (releaseFrame addr (fun _ => false) s f rest).timBitmap = s.timBitmap := by
      have front : s.sleepQ addr = [] ++ f :: rest := (TxState.sleepQ_of_some found).trans queue
      obtain ⟨-, -, -, -, -, -, maps⟩ := releaseFrame_stations (fun _ => false) sound front
      exact maps.tim
    fun_cases recvPsPoll cfg s addr aid priority
    case case4 psta found _ _ _ f rest queue _ _ =>
      have member : f ∈ psta.sleepQ := queue ▸ List.mem_cons_self
      have sound := sound addr psta found
      have pos := sound.aid_pos unicast (sound.asoc_of_buffered member)
      exact tim found queue ▸ kept found pos.ne'
    case case5 psta found _ _ _ f rest queue _ _ => exact tim found queue ▸ bit
    case case6 psta found named legacy dozes _ _ _ =>
      refine kept found fun zero => good ⟨buffered, ?_, psta, ⟨found, zero⟩, ?_, ?_⟩
      · rw [← not_not.mp named, zero]
      · exact (Bool.and_eq_true_iff.mp dozes).1
      · simpa using legacy
    all_goals exact bit

theorem free_announced_iff :
    (rtwFreeStainfo cfg s addr).Announced ↔ ¬ (TxEvent.free addr).Unannounces cfg s := by
  have group : (rtwFreeStainfo cfg s addr).sleepQ bcAddr = s.sleepQ bcAddr := by
    rw [TxState.sleepQ, rtwFreeStainfo_stations, Function.update_of_ne unicast.symm, TxState.sleepQ]
  by_cases buffered : s.sleepQ bcAddr = []
  · exact iff_of_true (.of_nil (group.trans buffered)) fun bad => bad.1 buffered
  cases found : s.stations addr with
  | none =>
    have same : rtwFreeStainfo cfg s addr = s := by rw [rtwFreeStainfo, found]
    rw [same]
    refine iff_of_true announced ?_
    rintro ⟨-, ⟨psta, found', -⟩, -⟩
    rw [found] at found'
    cases found'
  | some psta =>
    simp only [TxEvent.Unannounces, TxState.aid0_iff found]
    have clear : ∀ map, rtwTimMapClear cfg map psta.aid = map.erase psta.aid := fun map =>
      rtwTimMapClear_eq (sound addr psta found).aid_le
    cases ap : cfg.hwStateAp with
    | false =>
      refine iff_of_true (announced.keep group fun _ tim dz => ?_)
        fun bad => absurd bad.2.2 Bool.false_ne_true
      rw [rtwFreeStainfo, found]
      simp only [ap]
      exact ⟨tim, dz⟩
    | true =>
      have maps : (rtwFreeStainfo cfg s addr).timBitmap = s.timBitmap.erase psta.aid ∧
          (rtwFreeStainfo cfg s addr).staDzBitmap = s.staDzBitmap.erase psta.aid := by
        simp only [rtwFreeStainfo, found, ap, if_true, clear]
        exact ⟨rfl, rfl⟩
      rw [announced.erase_iff buffered group maps.1 (.inr maps.2)]
      constructor
      · exact fun other bad => other bad.2.1
      · exact fun good zero => good ⟨buffered, zero, rfl⟩

end

/-! ## The other events -/

theorem TxState.sleepQ_modifySta {change : StaInfo → StaInfo} (s : TxState) (addr a : MacAddr)
    (apart : ∀ psta, (change psta).sleepQ = psta.sleepQ) :
    (s.modifySta addr change).sleepQ a = s.sleepQ a := by
  rw [sleepQ, stations_modifySta, sleepQ]
  split
  · rw [Option.map_map]
    congr 2
    funext psta
    exact apart psta
  · rfl

theorem TxState.Announced.same (announced : s.Announced)
    (group : s'.sleepQ bcAddr = s.sleepQ bcAddr) (tim : s'.timBitmap = s.timBitmap)
    (dz : s'.staDzBitmap = s.staDzBitmap) : s'.Announced :=
  announced.keep group fun _ bit dozing => ⟨tim ▸ bit, dz ▸ dozing⟩

theorem onAuth_announced (announced : s.Announced) : (onAuth s addr).Announced := by
  rw [onAuth]
  split
  · exact announced
  next new =>
    have unicast : bcAddr ≠ addr := by
      rintro rfl
      exact new (.inl (by decide))
    refine announced.same ?_ rfl rfl
    simp only [TxState.sleepQ, Function.update_of_ne unicast]

theorem onAssocReq_announced {qosInfo : BitVec 8} (announced : s.Announced) :
    (onAssocReq cfg s addr qosInfo).Announced := by
  fun_cases onAssocReq cfg s addr qosInfo
  case case4 => exact announced.same (TxState.sleepQ_modifySta s addr _ fun _ => rfl) rfl rfl
  all_goals exact announced

theorem xmit_announced (f : XmitFrame) (announced : r.st.Announced) :
    (r.xmit cfg f).st.Announced := by
  rw [TxRun.xmit]
  split
  next st diverted =>
    obtain ⟨psta, -, -, -, -, rfl⟩ := xmitframeEnqueueForSleepingSta_some diverted
    obtain ⟨tim, dz, group⟩ := divert_grows cfg r.st (staAddr f.attrib.ra) psta f
    by_cases broadcast : staAddr f.attrib.ra = bcAddr
    · exact fun _ => group broadcast
    · refine announced.keep ?_ fun _ bit dozing => ⟨tim bit, dz dozing⟩
      rw [TxState.sleepQ, TxState.divert, TxState.sleepQ]
      dsimp only
      rw [TxState.stations_modifySta, if_neg (Ne.symm broadcast)]
  · split
    next st queued =>
      obtain ⟨-, -, stations⟩ := classifyTo_stations queued
      have maps := classifyTo_sameMaps queued
      refine announced.same ?_ maps.tim maps.dz
      rw [TxState.sleepQ, stations]
      exact TxState.sleepQ_modifySta r.st _ _ fun _ => rfl
    · exact announced

theorem TxState.Announced.requeue (announced : s.Announced) {q : HwQueue} {frames : List XmitFrame}
    (stations : s'.stations = (s.requeue addr q frames).stations)
    (tim : s'.timBitmap = s.timBitmap) (dz : s'.staDzBitmap = s.staDzBitmap) : s'.Announced := by
  refine announced.same ?_ tim dz
  rw [sleepQ, stations, stations_requeue]
  exact sleepQ_modifySta s addr _ fun _ => rfl

/-! ## Runs -/

theorem step_announced_iff (e : TxEvent) (unicast : e.Unicast) (sound : r.st.Sound cfg)
    (announced : r.st.Announced) :
    (r.step cfg env hal e).st.Announced ↔ ¬ e.Unannounces cfg r.st := by
  cases e with
  | auth addr => exact iff_of_true (onAuth_announced announced) id
  | assoc addr qosInfo => exact iff_of_true (onAssocReq_announced announced) id
  | free addr => exact free_announced_iff unicast sound announced
  | flushXmit addr =>
    refine iff_of_true (announced.same ?_ rfl rfl) id
    simp only [TxRun.step, TxState.sleepQ, rtwFreeStainfoFlushXmit_stations r.st (Ne.symm unicast)]
  | xmit f => exact iff_of_true (xmit_announced f.untrigger announced) id
  | mgntXmit f => exact iff_of_true (announced.grows (mgntXmit_mgmtOnly f).grows) id
  | dequeue inx =>
    refine iff_of_true ?_ id
    have maps : r.st.SameMaps (r.dequeue inx).st := dequeue_sameMaps inx
    revert maps
    simp only [TxRun.step, TxRun.dequeue]
    split
    next addr f st dequeued =>
      intro maps
      obtain ⟨ac, -, frames, -, -, rfl⟩ := rtwDequeueXframe_some dequeued
      exact announced.requeue (delistIdle_stations ..) maps.tim maps.dz
    · exact fun _ => announced
  | dequeueMgmt => exact iff_of_true (announced.grows dequeueMgmt_mgmtOnly.grows) id
  | coalesce f bufAddr pktOffset => exact iff_of_true announced id
  | aggregate addr p v =>
    refine iff_of_true ?_ id
    simp only [TxRun.step, TxRun.aggregate, aggregate_fst]
    split_ifs <;> exact announced.requeue rfl rfl rfl
  | stop addr => exact iff_of_true (announced.grows (stopStaXmit_grows sound)) id
  | wakeup addr => exact wakeup_announced_iff unicast sound announced
  | psPoll addr aid priority => exact psPoll_announced_iff unicast sound announced
  | deliver addr =>
    have delivers : r.st.Delivers cfg addr _ := xmitDeliveryEnabledFrames_delivers sound
    refine iff_of_true (announced.keep ?_ fun _ bit dozing => ⟨delivers.tim bit, ?_⟩) id
    · refine delivers.moves.sleepQ_eq fun label own => own.resolve_right fun here => ?_
      exact unicast here.1.symm
    · exact delivers.dz ▸ dozing

theorem start_announced : TxRun.start.st.Announced := by
  have found : TxRun.start.st.stations bcAddr = some { asoc := true } := by
    simp only [TxRun.start, Function.update_self]
  exact TxState.Announced.of_nil (TxState.sleepQ_of_some found)

variable (cfg env hal) in
/-- In a run buffered group addressed frames are announced in every state exactly if no station
without an AID takes bit 0 back while there are some. -/
theorem group_traffic_announced_iff (events : List TxEvent) (unicast : ∀ e ∈ events, e.Unicast) :
    Run.Always (TxRun.step cfg env hal) (fun r => r.st.Announced) TxRun.start events ↔
      Run.Allows (TxRun.step cfg env hal) (fun r e => ¬ e.Unannounces cfg r.st) TxRun.start
        events :=
  Run.always_iff_allows (·.st.Consistent cfg) (Run.allows_of_forall unicast _) start_consistent
    (fun _ e consistent _ _ _ => step_consistent e consistent)
    (fun _ e consistent unicast announced =>
      step_announced_iff e unicast consistent.sound announced)
    start_announced

end

def groupBuffered : List TxEvent :=
  [.auth someSta, .assoc someSta 0, .stop someSta, .xmit (frameTo bcAddr 0 1), .auth otherSta]

theorem group_traffic_announced_iff_joined :
    Run.Always (TxRun.step smallAp smallEnv {}) (fun r => r.st.Announced) TxRun.start
      (groupBuffered ++ [.assoc otherSta 0, .free otherSta]) := by
  refine (group_traffic_announced_iff smallAp smallEnv {} _ ?_).mpr ?_
  · have apart : someSta ≠ bcAddr ∧ otherSta ≠ bcAddr := by decide
    simpa [groupBuffered, TxEvent.Unicast] using apart
  · refine ⟨id, id, id, id, id, id, ?_, trivial⟩
    rintro ⟨-, ⟨psta, found, zero⟩, -⟩
    have seen : ((smallRun (groupBuffered ++ [.assoc otherSta 0])).st.stations otherSta).map
        StaInfo.aid = some 2 := by decide +kernel
    rw [show (smallRun (groupBuffered ++ [.assoc otherSta 0])).st.stations otherSta = some psta
      from found, Option.map_some, zero] at seen
    cases seen

theorem freed_station_unannounces :
    ¬ (smallRun (groupBuffered ++ [.free otherSta])).st.Announced := by
  intro announced
  have bit := (announced (by decide +kernel)).1
  revert bit
  decide +kernel

end Rtl88x2bu.Tx
