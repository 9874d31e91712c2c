import Rtl88x2bu.Tx.Runs

/-!
# Order of the frames of a station

Frames in `sta_pending` go first, those in `sleep_q` after them. Every operation keeps this sequence
in the order of arrival, as long as the bit of a station with buffered frames is set in
`sta_dz_bitmap`.
-/

namespace Rtl88x2bu.Tx

open List Function Option
open Rx (MacAddr isMcast staAddr bcAddr)

/-- The packets of a station and a category, in their order. -/
def ofStation (addr : MacAddr) (ac : Ac) (frames : List XmitFrame) : List ℕ :=
  (frames.filter fun f => staAddr f.attrib.ra = addr ∧ f.ac = ac).map XmitFrame.skb

/-- The packets of a category that a station has waiting, in the order in which they can leave. -/
def StaInfo.waiting (psta : StaInfo) (ac : Ac) : List ℕ :=
  ((psta.txservq (.ac ac)).staPending ++ psta.sleepQ.filter (·.ac = ac)).map XmitFrame.skb

def TxState.waiting (s : TxState) (addr : MacAddr) (ac : Ac) : List ℕ :=
  ((s.stations addr).map (·.waiting ac)).getD []

/-! ## Steps of one station -/

/-- The steps that put nothing in front of a waiting frame and send none. -/
def StaMove.Orderly : StaMove → Prop
  | .arrive | .depart | .park false => False
  | _ => True

section
variable {cfg : ApConfig} {addr : MacAddr} {psta psta' : StaInfo} {label : StaMove}

@[simp]
theorem XmitFrame.untrigger_ac (f : XmitFrame) : f.untrigger.ac = f.ac := rfl

@[simp]
theorem XmitFrame.untrigger_skb (f : XmitFrame) : f.untrigger.skb = f.skb := rfl

theorem filter_ac_eq_nil {frames : List XmitFrame} {ac : Ac} (none : ∀ g ∈ frames, g.ac ≠ ac) :
    frames.filter (·.ac = ac) = [] := by
  rw [filter_eq_nil_iff]
  intro g member
  simpa using none g member

theorem StaInfo.waiting_release {kept rest : List XmitFrame} {f : XmitFrame}
    (buffered : psta.sleepQ = kept ++ f :: rest) (passed : ∀ g ∈ kept, g.ac ≠ f.ac)
    (counted mdata eosp : Bool) (ac : Ac) :
    ((psta.unbuffer (kept ++ rest) counted).push (.ac f.ac) (f.release mdata eosp)).waiting ac =
      psta.waiting ac := by
  by_cases same : ac = f.ac
  · subst same
    simp [waiting, push, unbuffer, buffered, filter_ac_eq_nil passed, XmitFrame.release]
  · have apart : f.ac ≠ ac := Ne.symm same
    simp [waiting, push, unbuffer, buffered, same, apart]

theorem StaInfo.waiting_park {ac : Ac} (unmixed : ∀ g ∈ psta.sleepQ, g.ac ≠ ac)
    (owned : ∀ f ∈ (psta.txservq (.ac ac)).staPending, f.ac = ac) (c : Ac) :
    (psta.parkAll addr (.ac ac) (psta.txservq (.ac ac)).staPending).waiting c =
      psta.waiting c := by
  by_cases same : c = ac
  · subst same
    have all : ((psta.txservq (.ac c)).staPending.map XmitFrame.untrigger).filter (·.ac = c) =
        (psta.txservq (.ac c)).staPending.map XmitFrame.untrigger := by
      rw [filter_eq_self]
      simpa using owned
    simp [waiting, parkAll, filter_ac_eq_nil unmixed, all, comp_def]
  · have none : ((psta.txservq (.ac ac)).staPending.map XmitFrame.untrigger).filter (·.ac = c) =
        [] := by
      refine filter_ac_eq_nil (forall_mem_map.mpr fun f waits other => same ?_)
      rw [← other, XmitFrame.untrigger_ac, owned f waits]
    simp [waiting, parkAll, same, none]

/-- An orderly step only leaves frames out. -/
theorem StaStep.waiting_sublist (step : StaStep cfg addr label psta psta')
    (orderly : label.Orderly) (sound : psta.Sound cfg addr) (ac : Ac) :
    (psta'.waiting ac).Sublist (psta.waiting ac) := by
  cases step with
  | push => cases orderly
  | buffer => cases orderly
  | pull => cases orderly
  | park c clean dozes unmixed =>
    cases clean with
    | false => cases orderly
    | true =>
      rw [StaInfo.waiting_park (unmixed rfl) fun f waits => (sound.pending c f waits).2]
  | release kept rest f counted mdata eosp buffered passed =>
    rw [StaInfo.waiting_release buffered passed]
  | doze => exact .refl _
  | wake => exact .refl _
  | reset => exact .refl _
  | mgmt => exact .refl _
  | flushQueue q =>
    refine .map _ (.append ?_ (.refl _))
    rw [StaInfo.setServq_txservq]
    split
    · exact nil_sublist _
    · exact .refl _
  | flushSleep => exact .map _ (.append (.refl _) (nil_sublist _))
  | associate => exact .refl _

end

/-! ## Arriving and leaving -/

section
variable {cfg : ApConfig} {s s' : TxState} {addr a : MacAddr} {psta : StaInfo} {f : XmitFrame}
  {ac c : Ac}

theorem ofStation_append (addr : MacAddr) (ac : Ac) (frames later : List XmitFrame) :
    ofStation addr ac (frames ++ later) = ofStation addr ac frames ++ ofStation addr ac later := by
  simp [ofStation]

theorem ofStation_of_owned {frames : List XmitFrame}
    (owned : ∀ f ∈ frames, f.OwnedBy addr ∧ f.ac = ac) :
    ofStation a c frames = if a = addr ∧ c = ac then frames.map XmitFrame.skb else [] := by
  rw [ofStation]
  split
  next here =>
    obtain ⟨rfl, rfl⟩ := here
    congr 1
    rw [filter_eq_self]
    intro f member
    simpa using ⟨(owned f member).1.1, (owned f member).2⟩
  next away =>
    rw [map_eq_nil_iff, filter_eq_nil_iff]
    intro f member
    obtain ⟨owned, same⟩ := owned f member
    rw [owned.1, same, decide_eq_true_eq]
    exact fun here => away ⟨here.1.symm, here.2.symm⟩

theorem ofStation_singleton (owned : f.OwnedBy addr) :
    ofStation a c [f] = if a = addr ∧ c = f.ac then [f.skb] else [] :=
  ofStation_of_owned (forall_mem_singleton.mpr ⟨owned, rfl⟩)

theorem StaInfo.waiting_push (empty : psta.sleepQ = []) (owned : f.OwnedBy addr) (c : Ac) :
    (psta.push (.ac f.ac) f).waiting c = psta.waiting c ++ ofStation addr c [f] := by
  rw [ofStation_singleton owned]
  by_cases same : c = f.ac
  · subst same
    simp [waiting, push, empty]
  · simp [waiting, push, empty, same]

theorem StaInfo.waiting_bufferAt (owned : f.OwnedBy addr) (c : Ac) :
    (psta.bufferAt addr f).waiting c = psta.waiting c ++ ofStation addr c [f] := by
  rw [ofStation_singleton owned, bufferAt_eq]
  by_cases same : c = f.ac
  · subst same
    simp [waiting]
  · have apart : f.ac ≠ c := Ne.symm same
    simp [waiting, same, apart]

theorem TxState.waiting_of_some (found : s.stations addr = some psta) :
    s.waiting addr ac = psta.waiting ac := by
  rw [waiting, found, map_some, getD_some]

theorem waiting_modifySta {change : StaInfo → StaInfo} (found : s.stations addr = some psta)
    (owned : f.OwnedBy addr)
    (gets : a = addr → (change psta).waiting c = psta.waiting c ++ ofStation addr c [f]) :
    (s.modifySta addr change).waiting a c = s.waiting a c ++ ofStation a c [f] := by
  by_cases here : a = addr
  · subst here
    have after : (s.modifySta a change).stations a = some (change psta) := by
      rw [TxState.stations_modifySta, if_pos rfl, found, map_some]
    rw [TxState.waiting_of_some after, TxState.waiting_of_some found, gets rfl]
  · rw [ofStation_singleton owned, if_neg fun both => here both.1, append_nil,
      TxState.waiting, TxState.stations_modifySta, if_neg here, TxState.waiting]

theorem waiting_requeue {taken rest : List XmitFrame} (sound : s.Sound cfg)
    (queue : s.pending addr (.ac ac) = taken ++ rest)
    (stations : s'.stations = (s.requeue addr (.ac ac) rest).stations) (a : MacAddr) (c : Ac) :
    ofStation a c taken ++ s'.waiting a c = s.waiting a c := by
  rw [TxState.waiting, stations, TxState.stations_requeue, TxState.modifyServq,
    TxState.stations_modifySta]
  cases found : s.stations addr with
  | none =>
    rw [TxState.pending_of_none found] at queue
    obtain ⟨rfl, -⟩ := append_eq_nil_iff.mp queue.symm
    split
    next here =>
      subst here
      rw [TxState.waiting, found]
      rfl
    · rfl
  | some psta =>
    rw [TxState.pending_of_some found] at queue
    have owned : ∀ f ∈ taken, f.OwnedBy addr ∧ f.ac = ac := fun f leaves =>
      (sound addr psta found).pending ac f (queue ▸ mem_append_left _ leaves)
    rw [ofStation_of_owned owned]
    split
    next here =>
      obtain ⟨rfl, rfl⟩ := here
      rw [if_pos rfl, found, TxState.waiting_of_some found]
      simp [StaInfo.waiting, queue]
    next away =>
      split
      next here =>
        subst here
        have other : c ≠ ac := fun same => away ⟨rfl, same⟩
        rw [found, TxState.waiting_of_some found]
        simp [StaInfo.waiting, other]
      · rfl

end

/-! ## Dozing stations -/

/-- Every station with buffered frames has its bit in `sta_dz_bitmap`. -/
def TxState.Dozing (s : TxState) : Prop :=
  Table.All (fun addr psta => addr ≠ bcAddr → psta.sleepQ ≠ [] → psta.aid ∈ s.staDzBitmap)
    s.stations

/-- The stations that an event may put to sleep or wake up, besides the broadcast station. -/
def TxEvent.Touches (addr : MacAddr) : TxEvent → Prop
  | .xmit f => addr = staAddr f.attrib.ra
  | .stop a | .wakeup a | .free a => addr = a
  | _ => False

section
variable {cfg : ApConfig} {env : XmitEnv} {hal : HalUsb} {r : TxRun} {addr : MacAddr}
  {psta psta' : StaInfo} {label : StaMove} {s : TxState}
variable {e : TxEvent}

theorem StaStep.sleepQ_ne_nil (step : StaStep cfg addr label psta psta')
    (sound : psta.Sound cfg addr) (quiet : label ≠ .arrive ∧ ∀ clean, label ≠ .park clean)
    (buffered : psta'.sleepQ ≠ []) : psta.sleepQ ≠ [] ∧ psta'.aid = psta.aid := by
  cases step with
  | push => exact absurd rfl quiet.1
  | buffer => exact absurd rfl quiet.1
  | pull => exact ⟨buffered, rfl⟩
  | park ac clean => exact absurd rfl (quiet.2 clean)
  | release kept rest f counted mdata eosp queue =>
    refine ⟨?_, rfl⟩
    rw [queue]
    simp
  | doze => exact ⟨buffered, rfl⟩
  | wake => exact ⟨buffered, rfl⟩
  | reset => exact ⟨buffered, rfl⟩
  | mgmt => exact ⟨buffered, rfl⟩
  | flushQueue => exact ⟨buffered, rfl⟩
  | flushSleep => exact absurd rfl buffered
  | associate aid qosInfo joins => exact absurd (sound.idle joins).2 buffered

theorem TxEvent.labels_quiet (ok : e.labels cfg s addr label) (unicast : addr ≠ bcAddr)
    (apart : ¬ e.Touches addr) : label ≠ .arrive ∧ ∀ clean, label ≠ .park clean := by
  constructor
  · rintro rfl
    cases e <;> simp [labels, stopLabels, wakeupLabels, ownLabels] at ok
    exact apart ok
  · rintro clean rfl
    cases e <;> simp [labels, stopLabels, wakeupLabels, ownLabels] at ok
    rcases ok with ⟨here, -⟩ | ⟨here, -⟩
    · exact apart here
    · exact unicast here

/-! ### The bits of the dozing stations -/

theorem onAuth_dz (s : TxState) (addr : MacAddr) : (onAuth s addr).staDzBitmap = s.staDzBitmap := by
  rw [onAuth]
  split <;> rfl

theorem onAssocReq_dz (cfg : ApConfig) (s : TxState) (addr : MacAddr) (qosInfo : BitVec 8) :
    (onAssocReq cfg s addr qosInfo).staDzBitmap = s.staDzBitmap := by
  fun_cases onAssocReq cfg s addr qosInfo <;> rfl

theorem xmit_dz (r : TxRun) (f : XmitFrame) :
    r.st.staDzBitmap ⊆ (r.xmit cfg f).st.staDzBitmap := by
  rw [TxRun.xmit]
  split
  next st diverted =>
    obtain ⟨psta, -, -, -, -, rfl⟩ := xmitframeEnqueueForSleepingSta_some diverted
    exact (divert_grows cfg r.st (staAddr f.attrib.ra) psta f).2.1
  · split
    next st queued => exact (classifyTo_sameMaps queued).dz.ge
    · exact Finset.Subset.refl _

theorem recvPsPoll_dz (sound : s.Sound cfg) (aid : ℕ) (priority : BitVec 8) :
    (recvPsPoll cfg s addr aid priority).staDzBitmap = s.staDzBitmap := by
  obtain ⟨-, -, dz⟩ : s.Moves cfg (fun _ _ => True) (recvPsPoll cfg s addr aid priority) ∧ _ :=
    recvPsPoll_moves sound trivial fun _ => trivial
  exact dz

section
variable (sound : s.Sound cfg) {aid : ℕ} (bit : aid ∈ s.staDzBitmap)
  (apart : ∀ psta, s.stations addr = some psta → psta.aid ≠ aid)
include sound bit apart

theorem rtwFreeStainfo_dz : aid ∈ (rtwFreeStainfo cfg s addr).staDzBitmap := by
  fun_cases rtwFreeStainfo cfg s addr
  case case2 psta found _ _ _ =>
    dsimp only
    rw [rtwTimMapClear_eq (sound addr psta found).aid_le]
    exact Finset.mem_erase.mpr ⟨(apart psta found).symm, bit⟩
  all_goals exact bit

theorem wakeupStaToXmit_dz (pos : aid ≠ 0) : aid ∈ (wakeupStaToXmit cfg s addr).staDzBitmap := by
  cases found : s.stations addr with
  | none => rwa [wakeupStaToXmit_none found]
  | some psta =>
    have own := Finset.mem_erase.mpr ⟨(apart psta found).symm, bit⟩
    obtain ⟨-, -, -, ⟨dz, -⟩ | ⟨-, dz, -⟩⟩ := wakeupStaToXmit_spec sound found
    · rwa [dz]
    · exact dz ▸ Finset.mem_erase.mpr ⟨pos, own⟩

end

/-- An event leaves the bits of the stations that it does not touch. -/
theorem step_dz (e : TxEvent) (sound : r.st.Sound cfg) {aid : ℕ} (bit : aid ∈ r.st.staDzBitmap)
    (pos : aid ≠ 0)
    (apart : ∀ a psta, e.Touches a → r.st.stations a = some psta → psta.aid ≠ aid) :
    aid ∈ (r.step cfg env hal e).st.staDzBitmap := by
  cases e with
  | auth addr => exact (onAuth_dz r.st addr).ge bit
  | assoc addr qosInfo => exact (onAssocReq_dz cfg r.st addr qosInfo).ge bit
  | free addr => exact rtwFreeStainfo_dz sound bit fun psta => apart addr psta rfl
  | flushXmit addr => exact bit
  | xmit f => exact xmit_dz r f.untrigger bit
  | mgntXmit f => exact (mgntXmit_mgmtOnly f).dz.ge bit
  | dequeue inx => exact (dequeue_sameMaps inx).dz.ge bit
  | dequeueMgmt => exact dequeueMgmt_mgmtOnly.dz.ge bit
  | coalesce f bufAddr pktOffset => exact bit
  | aggregate addr p v => exact (aggregate_sameMaps addr p v).dz.ge bit
  | stop addr => exact (stopStaXmit_grows sound).dz bit
  | wakeup addr => exact wakeupStaToXmit_dz sound bit (fun psta => apart addr psta rfl) pos
  | psPoll addr aid priority => exact (recvPsPoll_dz sound aid priority).ge bit
  | deliver addr => exact (xmitDeliveryEnabledFrames_delivers sound).dz.ge bit

/-! ### The stations themselves -/

theorem TxState.Dozing.of_some (dozing : s.Dozing) (unicast : addr ≠ bcAddr)
    (sound : s.Sound cfg) (found : s.stations addr = some psta) (buffered : psta.sleepQ ≠ []) :
    s.Diverts cfg addr psta := by
  rw [TxState.Diverts, if_neg unicast]
  have sound := sound addr psta found
  exact ⟨sound.dozes unicast buffered,
    (rtwTimMapIsSet_iff sound.aid_le).mpr (dozing addr psta found unicast buffered)⟩

theorem xmit_dozing {f : XmitFrame} (sound : r.st.Sound cfg) (dozing : r.st.Dozing)
    (unicast : staAddr f.attrib.ra ≠ bcAddr)
    (found : (r.xmit cfg f).st.stations (staAddr f.attrib.ra) = some psta')
    (buffered : psta'.sleepQ ≠ []) : psta'.aid ∈ (r.xmit cfg f).st.staDzBitmap := by
  revert found
  rw [TxRun.xmit]
  split
  next st diverted =>
    intro found
    obtain ⟨psta, before, -, -, diverts, rfl⟩ := xmitframeEnqueueForSleepingSta_some diverted
    rw [TxState.Diverts, if_neg unicast] at diverts
    simp only [TxState.divert, TxState.stations_modifySta, if_true, before, map_some,
      StaInfo.bufferAt_eq, some.injEq] at found
    subst found
    simp only [TxState.divert, if_neg unicast]
    exact (rtwTimMapIsSet_iff (sound _ psta before).aid_le).mp diverts.2
  · split
    next st queued =>
      intro found
      obtain ⟨-, ⟨psta, before, -⟩, stations⟩ := classifyTo_stations queued
      rw [stations, TxState.stations_modifySta, if_pos rfl, before, map_some] at found
      cases found
      rw [(classifyTo_sameMaps queued).dz]
      exact dozing _ psta before unicast buffered
    · exact fun found => dozing _ psta' found unicast buffered

/-- A station that an event touches is looked at by itself; the others only take quiet steps. -/
theorem step_dozing (e : TxEvent) (consistent : r.st.Consistent cfg) (dozing : r.st.Dozing) :
    (r.step cfg env hal e).st.Dozing := by
  have sound := consistent.sound
  have away : Table.All (fun a psta => a ≠ bcAddr → ¬ e.Touches a → psta.sleepQ ≠ [] →
      psta.aid ∈ (r.step cfg env hal e).st.staDzBitmap) (r.step cfg env hal e).st.stations := by
    refine step_all e sound ?_ (fun _ _ _ _ buffered => absurd rfl buffered) ?_
    · intro a psta found unicast apart buffered
      obtain ⟨f, member⟩ := exists_mem_of_ne_nil _ buffered
      have pos := (sound a psta found).aid_pos unicast
        ((sound a psta found).asoc_of_buffered member)
      refine step_dz e sound (dozing a psta found unicast buffered) pos.ne' ?_
      intro b other touched found' same
      exact apart (consistent.aid_inj found found' pos same ▸ touched)
    · intro a label psta psta' ok step sound held unicast apart buffered
      have quiet : label ≠ .arrive ∧ ∀ clean, label ≠ .park clean := by
        rcases ok with ok | rfl
        · exact TxEvent.labels_quiet ok unicast apart
        · exact ⟨by rintro ⟨⟩, by rintro clean ⟨⟩⟩
      obtain ⟨before, aid⟩ := step.sleepQ_ne_nil sound quiet buffered
      exact aid ▸ held unicast apart before
  intro a psta' found' unicast buffered
  by_cases touched : e.Touches a
  · cases e with
    | xmit f =>
      cases touched
      exact xmit_dozing (f := f.untrigger) sound dozing unicast found' buffered
    | stop addr =>
      cases touched
      have moves : r.st.Moves cfg (stopLabels a false) (stopStaXmit cfg r.st a) :=
        stopStaXmit_moves sound false nofun
      have same := moves.aid_eq (a := a) (by simp [stopLabels, ownLabels])
      rw [show (stopStaXmit cfg r.st a).stations a = some psta' from found'] at same
      obtain ⟨psta, found, aid⟩ := map_eq_some_iff.mp same.symm
      exact aid ▸ stopStaXmit_bit sound found
    | wakeup addr =>
      cases touched
      cases found : r.st.stations a with
      | none =>
        rw [TxRun.step, wakeupStaToXmit_none found] at found' ⊢
        exact dozing a psta' found' unicast buffered
      | some psta =>
        obtain ⟨-, empty, -⟩ := wakeupStaToXmit_spec sound found
        rw [TxRun.step] at found'
        rw [TxState.sleepQ_of_some found'] at empty
        exact absurd empty buffered
    | free addr =>
      cases touched
      rw [TxRun.step, rtwFreeStainfo_stations, update_self] at found'
      cases found'
    | _ => cases touched
  · exact away a psta' found' unicast touched buffered

/-! ## Runs -/

/-- Only a station that is awake is stopped. -/
def TxEvent.StopsAwake (s : TxState) : TxEvent → Prop
  | .stop addr => ∀ psta, s.stations addr = some psta → psta.sleep = false
  | _ => True

/-- What has left and what is waiting, in this order, arrived in this order. -/
def TxRun.InOrder (r : TxRun) : Prop :=
  ∀ addr ac, addr ≠ bcAddr →
    (ofStation addr ac r.departed ++ r.st.waiting addr ac).Sublist (ofStation addr ac r.queued)

/-- A frame is only queued behind those of its station, since a station with some buffered dozes. -/
theorem xmit_inOrder {f : XmitFrame} (fresh : f.attrib.triggered = false) (sound : r.st.Sound cfg)
    (dozing : r.st.Dozing) (inOrder : r.InOrder) : (r.xmit cfg f).InOrder := by
  -- a frame that is accepted comes after all that are waiting
  have accept : ∀ st, (∀ a ac, a ≠ bcAddr →
        st.waiting a ac = r.st.waiting a ac ++ ofStation a ac [f]) →
      TxRun.InOrder { r with st, queued := r.queued ++ [f] } := by
    intro st gets a ac unicast
    dsimp only
    rw [gets a ac unicast, ofStation_append, ← append_assoc]
    exact (inOrder a ac unicast).append (.refl _)
  rw [TxRun.xmit]
  split
  next st diverted =>
    obtain ⟨psta, found, owned, -, -, rfl⟩ := xmitframeEnqueueForSleepingSta_some diverted
    refine accept _ fun a ac _ => ?_
    exact waiting_modifySta found owned fun _ => StaInfo.waiting_bufferAt owned ac
  next kept =>
    split
    next st queued =>
      obtain ⟨owned, ⟨psta, found, asoc⟩, stations⟩ := classifyTo_stations queued
      refine accept _ fun a ac unicast => ?_
      rw [TxState.waiting, stations, ← TxState.waiting]
      refine waiting_modifySta found owned fun here => StaInfo.waiting_push ?_ owned ac
      by_contra buffered
      have diverts := dozing.of_some (here ▸ unicast) sound found buffered
      rw [xmitframeEnqueueForSleepingSta_eq found owned asoc fresh, if_pos diverts] at kept
      cases kept
    · exact inOrder

theorem depart_inOrder {st : TxState} {taken rest : List XmitFrame} {ac : Ac}
    (sound : r.st.Sound cfg) (inOrder : r.InOrder)
    (queue : r.st.pending addr (.ac ac) = taken ++ rest)
    (stations : st.stations = (r.st.requeue addr (.ac ac) rest).stations) :
    TxRun.InOrder { r with st, departed := r.departed ++ taken } := by
  intro a c unicast
  dsimp only
  rw [ofStation_append, append_assoc, waiting_requeue sound queue stations]
  exact inOrder a c unicast

/-- Orderly steps of a station leave frames out. -/
theorem moves_waiting {s' : TxState} {allowed : MacAddr → StaMove → Prop} (sound : s.Sound cfg)
    (moves : s.Moves cfg allowed s') (orderly : ∀ label, allowed addr label → label.Orderly)
    (ac : Ac) : (s'.waiting addr ac).Sublist (s.waiting addr ac) := by
  -- the steps need the station to be sound, which each of them keeps
  have related : Option.Rel (fun psta psta' => psta.Sound cfg addr →
      psta'.Sound cfg addr ∧ (psta'.waiting ac).Sublist (psta.waiting ac))
      (s.stations addr) (s'.stations addr) := by
    refine moves.rel (fun _ sound => ⟨sound, .refl _⟩) (fun first second sound => ?_) ?_
    · obtain ⟨sound, earlier⟩ := first sound
      obtain ⟨sound, later⟩ := second sound
      exact ⟨sound, later.trans earlier⟩
    · intro label psta psta' ok step sound
      exact ⟨step.sound sound, step.waiting_sublist (orderly label ok) sound ac⟩
  rw [TxState.waiting, TxState.waiting]
  have sound := sound addr
  generalize s.stations addr = before at related sound
  generalize s'.stations addr = after at related
  cases related with
  | none => exact .refl _
  | some related => exact (related (sound _ rfl)).2

/-- Nothing is accepted and nothing leaves. -/
def TxEvent.Calm : TxEvent → Prop
  | .xmit _ | .dequeue _ | .aggregate _ _ _ => False
  | _ => True

theorem calm_inOrder (calm : e.Calm) (inOrder : r.InOrder)
    (kept : ∀ a ac, a ≠ bcAddr →
      ((r.step cfg env hal e).st.waiting a ac).Sublist (r.st.waiting a ac)) :
    (r.step cfg env hal e).InOrder := by
  have logs : (r.step cfg env hal e).queued = r.queued ∧
      (r.step cfg env hal e).departed = r.departed := by
    cases e with
    | xmit => cases calm
    | dequeue => cases calm
    | aggregate => cases calm
    | _ => exact ⟨rfl, rfl⟩
  intro a ac unicast
  rw [logs.1, logs.2]
  exact ((List.Sublist.refl _).append (kept a ac unicast)).trans (inOrder a ac unicast)

theorem TxEvent.labels_orderly (calm : e.Calm) (awake : e.StopsAwake s) (sound : s.Sound cfg)
    (unicast : addr ≠ bcAddr) (ok : e.labels cfg s addr label) : label.Orderly := by
  cases label with
  | arrive => cases e <;> simp [labels, stopLabels, wakeupLabels, ownLabels, Calm] at ok calm
  | depart => cases e <;> simp [labels, stopLabels, wakeupLabels, ownLabels, Calm] at ok calm
  | park clean =>
    cases clean with
    | true => trivial
    | false =>
      cases e <;> simp [labels, stopLabels, wakeupLabels, ownLabels] at ok
      rcases ok with ⟨rfl, buffered⟩ | here
      · -- a station that is awake has nothing buffered
        refine absurd ?_ buffered
        cases found : s.stations addr with
        | none =>
          rw [TxState.sleepQ, found]
          rfl
        | some psta =>
          rw [TxState.sleepQ_of_some found]
          by_contra buffered
          have sleep := (sound addr psta found).dozes unicast buffered
          rw [awake psta found] at sleep
          cases sleep
      · exact unicast here
  | _ => trivial

theorem stays_inOrder (stays : e.Stays) (calm : e.Calm) (awake : e.StopsAwake r.st)
    (sound : r.st.Sound cfg) (inOrder : r.InOrder) : (r.step cfg env hal e).InOrder := by
  refine calm_inOrder calm inOrder fun a ac unicast => ?_
  exact moves_waiting sound (step_moves e stays sound).1
    (fun label => TxEvent.labels_orderly calm awake sound unicast) ac

theorem step_inOrder (e : TxEvent) (awake : e.StopsAwake r.st) (sound : r.st.Sound cfg)
    (dozing : r.st.Dozing) (inOrder : r.InOrder) : (r.step cfg env hal e).InOrder := by
  cases e with
  | auth addr =>
    refine calm_inOrder trivial inOrder fun a ac _ => ?_
    rw [TxRun.step, onAuth]
    split
    · exact .refl _
    next new =>
      by_cases here : a = addr
      · simp [TxState.waiting, here, StaInfo.waiting]
      · simp only [TxState.waiting, update_of_ne here]
        exact .refl _
  | assoc addr qosInfo =>
    refine calm_inOrder trivial inOrder fun a ac _ => ?_
    refine moves_waiting sound (onAssocReq_moves cfg r.st addr qosInfo).1 (fun label ok => ?_) ac
    rw [ok.2]
    trivial
  | free addr =>
    refine calm_inOrder trivial inOrder fun a ac _ => ?_
    rw [TxRun.step, TxState.waiting, rtwFreeStainfo_stations]
    by_cases here : a = addr
    · simp [here]
    · rw [update_of_ne here]
      exact .refl _
  | xmit f => exact xmit_inOrder rfl sound dozing inOrder
  | dequeue inx =>
    simp only [TxRun.step, TxRun.dequeue]
    split
    next addr f st dequeued =>
      obtain ⟨ac, -, frames, -, queue, rfl⟩ := rtwDequeueXframe_some dequeued
      exact depart_inOrder sound inOrder queue (delistIdle_stations ..)
    · exact inOrder
  | aggregate addr p v =>
    have split := aggLoop_taken env hal r.st p.frame.attrib.qsel v
      (r.st.pending addr (.ac p.frame.ac))
    refine depart_inOrder sound inOrder split.symm ?_
    rw [aggregate_fst]
    dsimp only
    split_ifs <;> rfl
  | _ => exact stays_inOrder trivial trivial awake sound inOrder

theorem start_inOrder : TxRun.start.InOrder ∧ TxRun.start.st.Dozing := by
  constructor
  · intro a ac unicast
    have absent : TxRun.start.st.stations a = none := by
      simp [TxRun.start, unicast]
    rw [TxState.waiting, absent]
    exact .refl _
  · intro a psta found unicast
    exact absurd (start_stations found).1 unicast

theorem reachable_inOrder
    (reached : Run.Reachable (TxRun.step cfg env hal) (fun r e => e.StopsAwake r.st)
      TxRun.start r) :
    r.st.Consistent cfg ∧ r.st.Dozing ∧ r.InOrder :=
  reached.invariant ⟨start_consistent, start_inOrder.2, start_inOrder.1⟩
    fun _ e ⟨consistent, dozing, inOrder⟩ awake =>
      ⟨step_consistent e consistent, step_dozing e consistent dozing,
        step_inOrder e awake consistent.sound dozing inOrder⟩

/-- The frames of an associated station and a category leave in the order in which they came, those
that are never sent left out. -/
theorem station_order_kept
    (reached : Run.Reachable (TxRun.step cfg env hal) (fun r e => e.StopsAwake r.st) TxRun.start r)
    (found : r.st.stations addr = some psta) (associated : 0 < psta.aid) (ac : Ac) :
    (ofStation addr ac r.departed).Sublist (ofStation addr ac r.queued) := by
  obtain ⟨consistent, -, inOrder⟩ := reachable_inOrder reached
  have unicast : addr ≠ bcAddr := by
    intro broadcast
    rw [((consistent.sound addr psta found).broadcast broadcast).2.1] at associated
    cases associated
  exact (sublist_append_left _ _).trans (inOrder addr ac unicast)

end

def beforeDoze : List TxEvent :=
  [.auth someSta, .assoc someSta 0, .xmit (frameTo someSta 0 1), .xmit (frameTo someSta 3 2)]

def dozeAndWake : List TxEvent :=
  beforeDoze ++ [.stop someSta, .xmit (frameTo someSta 0 3), .psPoll someSta 1 0,
    .dequeue [.vo, .vi, .be, .bk], .wakeup someSta, .xmit (frameTo someSta 0 4),
    .dequeue [.vo, .vi, .be, .bk], .dequeue [.vo, .vi, .be, .bk], .dequeue [.vo, .vi, .be, .bk]]

theorem station_order_kept_doze :
    ofStation someSta .be (smallRun dozeAndWake).departed = [1, 2, 3, 4] ∧
      (ofStation someSta .be (smallRun dozeAndWake).departed).Sublist
        (ofStation someSta .be (smallRun dozeAndWake).queued) := by
  have awake : (TxEvent.stop someSta).StopsAwake (smallRun beforeDoze).st := by
    intro psta found
    have seen : ((smallRun beforeDoze).st.stations someSta).map StaInfo.sleep = some false := by
      decide +kernel
    rw [found] at seen
    exact some.inj seen
  have reached : Run.Reachable (TxRun.step smallAp smallEnv {}) (fun r e => e.StopsAwake r.st)
      TxRun.start (smallRun dozeAndWake) := by
    refine smallRun_reachable ?_
    exact ⟨trivial, trivial, trivial, trivial, awake, trivial, trivial, trivial, trivial, trivial,
      trivial, trivial, trivial, trivial⟩
  have seen : ((smallRun dozeAndWake).st.stations someSta).map StaInfo.aid = some 1 := by
    decide +kernel
  obtain ⟨psta, found, aid⟩ := map_eq_some_iff.mp seen
  exact ⟨by decide +kernel, station_order_kept reached found (aid ▸ Nat.one_pos) .be⟩

end Rtl88x2bu.Tx
