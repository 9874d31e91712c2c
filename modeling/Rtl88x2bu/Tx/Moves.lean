import Rtl88x2bu.Tx.Aggregate
import Rtl88x2bu.Tx.StaStep

/-!
# Operations as steps of stations

Each operation of the transmit path, taken apart into the steps that it makes the stations take.
-/

namespace Rtl88x2bu.Tx

open Rx (MacAddr isMcast staAddr bcAddr)

namespace TxState

/-- Every station takes allowed steps. -/
abbrev Moves (cfg : ApConfig) (allowed : MacAddr → StaMove → Prop) (s s' : TxState) : Prop :=
  Table.Moves (StaStep cfg) allowed s.stations s'.stations

def Sound (cfg : ApConfig) (s : TxState) : Prop := Table.All (StaInfo.Sound cfg) s.stations

variable {cfg : ApConfig} {allowed : MacAddr → StaMove → Prop} {s s' : TxState} {addr : MacAddr}

theorem Sound.moves (sound : s.Sound cfg) (moves : s.Moves cfg allowed s') : s'.Sound cfg :=
  Table.All.moves sound moves fun _ _ _ _ _ step => step.sound

/-- A change of one station is a move if it is a step of that station. -/
theorem moves_modifySta {change : StaInfo → StaInfo}
    (ok : ∀ psta, s.stations addr = some psta →
      ∃ label, allowed addr label ∧ StaStep cfg addr label psta (change psta)) :
    s.Moves cfg allowed (s.modifySta addr change) :=
  Table.Moves.update ok

end TxState

/-! ## Queuing -/

section
variable {cfg : ApConfig} {allowed : MacAddr → StaMove → Prop} {s s' : TxState} {f : XmitFrame}
  {addr : MacAddr} {psta : StaInfo} {q : HwQueue}

theorem classifyTo_stations (queued : classifyTo s f q = some s') :
    f.OwnedBy (staAddr f.attrib.ra) ∧
      (∃ psta, s.stations (staAddr f.attrib.ra) = some psta ∧ psta.asoc = true) ∧
      s'.stations = (s.modifySta (staAddr f.attrib.ra) (·.push q f)).stations := by
  obtain ⟨psta, found, noted, asoc, rfl⟩ := classifyTo_some queued
  refine ⟨⟨rfl, noted⟩, ⟨psta, found, asoc⟩, ?_⟩
  have enlisted : (s.enlist (staAddr f.attrib.ra) q).stations = s.stations := by
    rw [TxState.enlist]
    split <;> rfl
  have waiting : (s.enlist (staAddr f.attrib.ra) q).pending (staAddr f.attrib.ra) q =
      (psta.txservq q).staPending := by
    rw [TxState.pending_of_some (enlisted ▸ found)]
  rw [TxState.stations_requeue, TxState.pending_of_some found, waiting]
  simp only [TxState.modifyServq, TxState.modifySta, enlisted, found, Option.map_some,
    StaInfo.push, StaInfo.setServq, List.length_append, List.length_singleton]
  push_cast
  rw [add_sub_cancel_left]

theorem rtwXmitClassifier_moves (queued : rtwXmitClassifier s f = some s')
    (arrive : allowed (staAddr f.attrib.ra) .arrive) : s.Moves cfg allowed s' := by
  obtain ⟨owned, ⟨psta, found, asoc⟩, stations⟩ := classifyTo_stations queued
  rw [TxState.Moves, stations]
  refine TxState.moves_modifySta fun psta' found' => ⟨.arrive, arrive, ?_⟩
  cases found.symm.trans found'
  exact .push f asoc owned

/-! ## Diverting -/

section

variable (cfg s addr psta)

/-- The frames for this station go to its sleep queue. -/
def TxState.Diverts : Prop :=
  if addr = bcAddr then s.staDzBitmap ≠ ∅
  else psta.sleep = true ∧ rtwTimMapIsSet cfg s.staDzBitmap psta.aid = true

/-- A frame is put on the sleep queue of its station. -/
def TxState.divert (f : XmitFrame) : TxState :=
  { s.modifySta addr (·.bufferAt addr f) with
    timBitmap :=
      if addr = bcAddr then rtwTimMapSet cfg s.timBitmap 0
      else if psta.announces f then rtwTimMapSet cfg s.timBitmap psta.aid
      else s.timBitmap
    staDzBitmap := if addr = bcAddr then rtwTimMapSet cfg s.staDzBitmap 0 else s.staDzBitmap }

end

instance (cfg : ApConfig) (s : TxState) (addr : MacAddr) (psta : StaInfo) :
    Decidable (s.Diverts cfg addr psta) :=
  inferInstanceAs (Decidable (if addr = bcAddr then _ else _))

/-- With the checks passed, whether a frame is diverted depends on its station alone. -/
theorem xmitframeEnqueueForSleepingSta_eq (found : s.stations addr = some psta)
    (owned : f.OwnedBy addr) (asoc : psta.asoc = true) (fresh : f.attrib.triggered = false) :
    xmitframeEnqueueForSleepingSta cfg s f =
      if s.Diverts cfg addr psta then some (s.divert cfg addr psta f) else none := by
  obtain ⟨lookup, noted⟩ := owned
  simp only [xmitframeEnqueueForSleepingSta, TxState.rtwGetStainfo, lookup, found, noted, asoc,
    fresh, ne_eq, not_true_eq_false, if_false, Bool.not_true, Bool.false_eq_true]
  have group := XmitFrame.OwnedBy.isMcast_iff ⟨lookup, noted⟩
  by_cases broadcast : addr = bcAddr
  · simp only [if_pos (group.mpr broadcast), TxState.Diverts, TxState.divert, if_pos broadcast,
      rtwTimMapAnyoneBeSet_iff, StaInfo.bufferAt]
  · simp only [if_neg (mt group.mp broadcast), TxState.Diverts, TxState.divert, if_neg broadcast,
      Bool.and_eq_true, StaInfo.bufferAt]
    rfl

theorem xmitframeEnqueueForSleepingSta_some
    (diverted : xmitframeEnqueueForSleepingSta cfg s f = some s') :
    ∃ psta, s.stations (staAddr f.attrib.ra) = some psta ∧ f.OwnedBy (staAddr f.attrib.ra) ∧
      psta.asoc = true ∧ s.Diverts cfg (staAddr f.attrib.ra) psta ∧
      s' = s.divert cfg (staAddr f.attrib.ra) psta f := by
  have guards := diverted
  cases found : s.stations (staAddr f.attrib.ra) with
  | none => simp [xmitframeEnqueueForSleepingSta, TxState.rtwGetStainfo, found] at guards
  | some psta =>
    simp only [xmitframeEnqueueForSleepingSta, TxState.rtwGetStainfo, found,
      Option.ite_none_left_eq_some] at guards
    obtain ⟨noted, asoc, fresh, -⟩ := guards
    have owned : f.OwnedBy (staAddr f.attrib.ra) := ⟨rfl, not_not.mp noted⟩
    have asoc : psta.asoc = true := by simpa using asoc
    rw [xmitframeEnqueueForSleepingSta_eq found owned asoc (by simpa using fresh),
      Option.ite_none_right_eq_some, Option.some.injEq] at diverted
    exact ⟨psta, rfl, owned, asoc, diverted.1, diverted.2.symm⟩

theorem xmitframeEnqueueForSleepingSta_moves
    (diverted : xmitframeEnqueueForSleepingSta cfg s f = some s')
    (arrive : allowed (staAddr f.attrib.ra) .arrive) : s.Moves cfg allowed s' := by
  obtain ⟨psta, found, owned, asoc, ready, rfl⟩ := xmitframeEnqueueForSleepingSta_some diverted
  refine TxState.moves_modifySta fun psta' found' => ⟨.arrive, arrive, ?_⟩
  cases found.symm.trans found'
  refine .buffer f asoc owned fun unicast => ?_
  rw [TxState.Diverts, if_neg unicast] at ready
  exact ready.1

end

/-! ## Dequeuing -/

section
variable {cfg : ApConfig} {allowed : MacAddr → StaMove → Prop} {s s' : TxState} {addr : MacAddr}
  {frames : List XmitFrame}

theorem requeue_moves {ac : Ac} {taken : List XmitFrame}
    (waiting : s.pending addr (.ac ac) = taken ++ frames) (depart : allowed addr .depart) :
    s.Moves cfg allowed (s.requeue addr (.ac ac) frames) := by
  rw [TxState.Moves, TxState.stations_requeue]
  refine TxState.moves_modifySta fun psta found => ⟨.depart, depart, ?_⟩
  have queue := (TxState.pending_of_some found).symm.trans waiting
  have count : (frames.length : ℤ) - (s.pending addr (.ac ac)).length = -taken.length := by
    rw [waiting, List.length_append]
    push_cast
    omega
  rw [count]
  exact .pull ac taken frames queue

theorem delistIdle_stations (s : TxState) (addr : MacAddr) (q : HwQueue)
    (frames : List XmitFrame) : (s.delistIdle addr q frames).stations = s.stations := by
  rw [TxState.delistIdle]
  split <;> rfl

theorem rtwDequeueXframe_moves {inx : List Ac} {f : XmitFrame}
    (dequeued : rtwDequeueXframe inx s = some (addr, f, s')) (depart : allowed addr .depart) :
    s.Moves cfg allowed s' := by
  obtain ⟨ac, -, frames, -, waiting, rfl⟩ := rtwDequeueXframe_some dequeued
  rw [TxState.Moves, delistIdle_stations]
  exact requeue_moves (show _ = [f] ++ frames from waiting) depart

theorem aggregate_fst (env : XmitEnv) (hal : HalUsb) (s : TxState) (addr : MacAddr) (p : Placement)
    (v : AggVars) :
    let q := HwQueue.ac p.frame.ac
    let r := aggLoop env hal s p.frame.attrib.qsel v (s.pending addr q)
    let taken := s.requeue addr q r.rest
    (aggregate env hal s addr p v).1 =
      { (if r.rest = [] then taken.listDelete addr q
        else if 1 < (s.staQueue q).length then (taken.listDelete addr q).insertTail addr q
        else taken) with txseqTid := r.vars.txseqTid } := by
  intro q r taken
  have split : r.taken ++ r.rest = s.pending addr q := aggLoop_taken env hal s _ v _
  have count : (r.rest.length : ℤ) - (s.pending addr q).length = -r.taken.length := by
    rw [← split, List.length_append]
    push_cast
    omega
  simp only [aggregate, taken, TxState.requeue, count]
  rfl

theorem aggregate_moves {env : XmitEnv} {hal : HalUsb} {p : Placement} {v : AggVars}
    (depart : allowed addr .depart) : s.Moves cfg allowed (aggregate env hal s addr p v).1 := by
  have waiting := aggLoop_taken env hal s p.frame.attrib.qsel v (s.pending addr (.ac p.frame.ac))
  have moves : s.Moves cfg allowed (s.requeue addr (.ac p.frame.ac) _) :=
    requeue_moves waiting.symm depart
  rw [TxState.Moves, aggregate_fst]
  split_ifs <;> exact moves

end

/-! ## Management frames -/

/-- Only management frames were moved. -/
structure TxState.MgmtOnly (cfg : ApConfig) (s s' : TxState) : Prop where
  moves : s.Moves cfg (fun _ label => label = .mgmt) s'
  accnt : ∀ ac, s'.accnt (.ac ac) = s.accnt (.ac ac)
  staQueue : ∀ ac, s'.staQueue (.ac ac) = s.staQueue (.ac ac)
  aids : s'.staAid = s.staAid
  tim : s.timBitmap ⊆ s'.timBitmap
  dz : s'.staDzBitmap = s.staDzBitmap

section
variable {cfg : ApConfig} {allowed : MacAddr → StaMove → Prop} {s s' : TxState} {addr : MacAddr}
  {psta : StaInfo} {f : XmitFrame} {q : HwQueue}

theorem StaStep.of_mgmt {psta' : StaInfo} (step : StaStep cfg addr .mgmt psta psta') :
    ∃ servq queue len, psta' =
      { psta.setServq .mgmt servq with mgmtSleepQ := queue, mgmtSleepqLen := len } := by
  generalize kind : StaMove.mgmt = label at step
  cases step with
  | mgmt servq queue len _ => exact ⟨servq, queue, len, rfl⟩
  | release kept rest f counted mdata eosp buffered passed same =>
    rw [same] at kind
    split at kind <;> cases kind
  | _ => cases kind

theorem TxState.Moves.sleepQ_eq (moves : s.Moves cfg allowed s') {a : MacAddr}
    (only : ∀ label, allowed a label → label = .mgmt) : s'.sleepQ a = s.sleepQ a := by
  refine congrArg (Option.getD · []) (moves.map_eq StaInfo.sleepQ ?_)
  intro label psta psta' ok step
  cases only label ok
  obtain ⟨servq, queue, len, rfl⟩ := step.of_mgmt
  rfl

theorem StaStep.aid_eq {label : StaMove} {psta' : StaInfo}
    (step : StaStep cfg addr label psta psta') (stays : label ≠ .join) : psta'.aid = psta.aid := by
  cases step with
  | buffer f =>
    rw [StaInfo.bufferAt]
    split <;> rfl
  | associate => exact absurd rfl stays
  | _ => rfl

theorem TxState.Moves.aid_eq (moves : s.Moves cfg allowed s') {a : MacAddr}
    (stays : ¬ allowed a .join) :
    (s'.stations a).map StaInfo.aid = (s.stations a).map StaInfo.aid := by
  refine moves.map_eq StaInfo.aid fun label psta psta' ok step => step.aid_eq ?_
  rintro rfl
  exact stays ok

namespace TxState.MgmtOnly

theorem refl (cfg : ApConfig) (s : TxState) : s.MgmtOnly cfg s :=
  ⟨.refl _, fun _ => rfl, fun _ => rfl, rfl, Finset.Subset.refl _, rfl⟩

theorem trans {s'' : TxState} (first : s.MgmtOnly cfg s') (second : s'.MgmtOnly cfg s'') :
    s.MgmtOnly cfg s'' where
  moves := first.moves.trans second.moves
  accnt ac := (second.accnt ac).trans (first.accnt ac)
  staQueue ac := (second.staQueue ac).trans (first.staQueue ac)
  aids := second.aids.trans first.aids
  tim := first.tim.trans second.tim
  dz := second.dz.trans first.dz

section

variable (s addr)

theorem setPending (frames : List XmitFrame) : s.MgmtOnly cfg (s.setPending addr .mgmt frames) :=
  { refl cfg s with moves := moves_modifySta fun _ _ => ⟨.mgmt, rfl, .mgmt _ _ _ id⟩ }

theorem countBy (delta : ℤ) : s.MgmtOnly cfg (s.countBy addr .mgmt delta) :=
  { refl cfg s with
    moves := moves_modifySta fun _ _ => ⟨.mgmt, rfl, .mgmt _ _ _ id⟩
    accnt := fun _ => rfl }

theorem insertTail : s.MgmtOnly cfg (s.insertTail addr .mgmt) :=
  { refl cfg s with staQueue := fun _ => rfl }

theorem listDelete : s.MgmtOnly cfg (s.listDelete addr .mgmt) :=
  { refl cfg s with staQueue := fun _ => rfl }

theorem requeue (frames : List XmitFrame) : s.MgmtOnly cfg (s.requeue addr .mgmt frames) :=
  (setPending s addr frames).trans (countBy _ addr _)

end

end TxState.MgmtOnly

/-- The queues of the four categories are as they were. -/
structure TxState.SameQueues (s s' : TxState) : Prop where
  pending : ∀ a ac, s'.pending a (.ac ac) = s.pending a (.ac ac)
  qcnt : ∀ a ac, s'.qcnt a (.ac ac) = s.qcnt a (.ac ac)
  accnt : ∀ ac, s'.accnt (.ac ac) = s.accnt (.ac ac)
  staQueue : ∀ ac, s'.staQueue (.ac ac) = s.staQueue (.ac ac)

theorem TxState.SameQueues.trans {s'' : TxState} (first : s.SameQueues s')
    (second : s'.SameQueues s'') : s.SameQueues s'' where
  pending a ac := (second.pending a ac).trans (first.pending a ac)
  qcnt a ac := (second.qcnt a ac).trans (first.qcnt a ac)
  accnt ac := (second.accnt ac).trans (first.accnt ac)
  staQueue ac := (second.staQueue ac).trans (first.staQueue ac)

theorem TxState.SameQueues.of_servq
    (servq : ∀ a ac, (s'.stations a).map (·.txservq (.ac ac)) =
      (s.stations a).map (·.txservq (.ac ac)))
    (accnt : ∀ ac, s'.accnt (.ac ac) = s.accnt (.ac ac))
    (staQueue : ∀ ac, s'.staQueue (.ac ac) = s.staQueue (.ac ac)) : s.SameQueues s' where
  pending a ac := by rw [pending_eq_servq, servq, ← pending_eq_servq]
  qcnt a ac := by rw [qcnt_eq_servq, servq, ← qcnt_eq_servq]
  accnt := accnt
  staQueue := staQueue

theorem TxState.sameQueues_modifySta (s : TxState) (addr : MacAddr) {change : StaInfo → StaInfo}
    (apart : ∀ psta, (change psta).txservq = psta.txservq) :
    s.SameQueues (s.modifySta addr change) := by
  refine .of_servq (fun a ac => ?_) (fun _ => rfl) fun _ => rfl
  rw [stations_modifySta]
  split
  · rw [Option.map_map]
    congr 1
    funext psta
    exact congrFun (apart psta) _
  · rfl

theorem TxState.MgmtOnly.sameQueues (only : s.MgmtOnly cfg s') : s.SameQueues s' := by
  refine .of_servq (fun a ac => ?_) only.accnt only.staQueue
  refine only.moves.map_eq _ fun label psta psta' mgmt step => ?_
  cases mgmt
  obtain ⟨servq, queue, len, rfl⟩ := step.of_mgmt
  rfl

theorem rtwMgmtXmitframeEnqueue_mgmtOnly (queued : rtwMgmtXmitframeEnqueue s f = some s') :
    s.MgmtOnly cfg s' := by
  obtain ⟨psta, -, -, -, rfl⟩ := classifyTo_some queued
  refine .trans ?_ (.requeue _ _ _)
  rw [TxState.enlist]
  split
  · exact .refl cfg s
  · exact .insertTail s _

theorem rtwHalMgmtXmitframeEnqueue_mgmtOnly (s : TxState) (f : XmitFrame) :
    s.MgmtOnly cfg (rtwHalMgmtXmitframeEnqueue s f) := by
  rw [rtwHalMgmtXmitframeEnqueue]
  cases queued : rtwMgmtXmitframeEnqueue s f with
  | none => exact .refl cfg s
  | some s' => exact rtwMgmtXmitframeEnqueue_mgmtOnly queued

theorem rtwDequeueMgmtXframe_mgmtOnly (dequeued : rtwDequeueMgmtXframe s = some (addr, f, s')) :
    s.MgmtOnly cfg s' := by
  obtain ⟨frames, -, -, rfl⟩ := dequeueFrom_some dequeued
  refine .trans (.requeue s addr frames) ?_
  rw [TxState.delistIdle]
  split
  · exact .listDelete _ addr
  · exact .refl cfg _

theorem mgmtXmitframeEnqueueForSleepingSta_mgmtOnly
    (diverted : mgmtXmitframeEnqueueForSleepingSta cfg s f = some s') : s.MgmtOnly cfg s' := by
  revert diverted
  fun_cases mgmtXmitframeEnqueueForSleepingSta cfg s f
  case case5 =>
    rintro ⟨⟩
    refine { TxState.MgmtOnly.refl cfg s with
      moves := TxState.moves_modifySta fun psta _ => ⟨.mgmt, rfl, ?_⟩
      tim := subset_rtwTimMapSet _ _ _ }
    refine StaStep.mgmtSleep _ _ fun counts => ?_
    rw [counts, List.length_append, UInt32.ofNat_add]
    rfl
  all_goals exact nofun

theorem stopMgmt_mgmtOnly (s : TxState) (addr : MacAddr) :
    s.MgmtOnly cfg (stopMgmt cfg addr s) := by
  have loop : ∀ (rest kept : List XmitFrame) (s : TxState), s.MgmtOnly cfg
      (divertLoop (mgmtXmitframeEnqueueForSleepingSta cfg) (fun _ => .mgmt) addr .mgmt s kept
        rest) := by
    intro rest
    induction rest with
    | nil => exact fun kept s => .setPending s addr kept
    | cons f rest ih =>
      intro kept s
      rw [divertLoop]
      split
      next s₁ diverted =>
        refine (mgmtXmitframeEnqueueForSleepingSta_mgmtOnly diverted).trans (.trans ?_ (ih _ _))
        exact (TxState.MgmtOnly.setPending s₁ addr _).trans (.countBy _ addr _)
      · exact ih _ s
  exact (loop _ [] s).trans (.listDelete _ addr)

theorem mgmtSleepQ_enqueue (s : TxState) (f : XmitFrame) (addr : MacAddr) :
    (rtwHalMgmtXmitframeEnqueue s f).mgmtSleepQ addr = s.mgmtSleepQ addr ∧
      (rtwHalMgmtXmitframeEnqueue s f).timBitmap = s.timBitmap := by
  rw [rtwHalMgmtXmitframeEnqueue]
  cases queued : rtwMgmtXmitframeEnqueue s f with
  | none => exact ⟨rfl, rfl⟩
  | some s' =>
    obtain ⟨-, -, stations⟩ := classifyTo_stations queued
    refine ⟨?_, ?_⟩
    · rw [Option.getD_some, TxState.mgmtSleepQ, TxState.mgmtSleepQ, stations,
        TxState.stations_modifySta]
      split
      · rw [Option.map_map]
        rfl
      · rfl
    · obtain ⟨psta, -, -, -, rfl⟩ := classifyTo_some queued
      simp only [TxState.enlist]
      split <;> rfl

theorem wakeupMgmtLoop_mgmtOnly {queue : List XmitFrame} (buffered : s.mgmtSleepQ addr = queue) :
    s.MgmtOnly cfg (wakeupMgmtLoop addr s queue) ∧
      (wakeupMgmtLoop addr s queue).timBitmap = s.timBitmap ∧
      (wakeupMgmtLoop addr s queue).mgmtSleepQ addr = [] := by
  induction queue generalizing s with
  | nil => exact ⟨.refl cfg s, rfl, buffered⟩
  | cons f rest ih =>
    rw [wakeupMgmtLoop]
    set s₁ := s.modifySta addr fun psta =>
      { psta with mgmtSleepQ := rest, mgmtSleepqLen := psta.mgmtSleepqLen - 1 }
    have taken : s.MgmtOnly cfg s₁ := by
      refine { TxState.MgmtOnly.refl cfg s with
        moves := TxState.moves_modifySta fun psta found => ⟨.mgmt, rfl, ?_⟩ }
      refine .mgmtSleep rest _ fun counts => ?_
      rw [TxState.mgmtSleepQ_of_some found] at buffered
      rw [counts, buffered]
      exact ofNat_succ_sub_one _
    have left : s₁.mgmtSleepQ addr = rest := by
      cases found : s.stations addr with
      | none =>
        rw [TxState.mgmtSleepQ, found] at buffered
        cases buffered
      | some psta =>
        rw [TxState.mgmtSleepQ, TxState.stations_modifySta, if_pos rfl, found]
        rfl
    obtain ⟨kept, tim⟩ := mgmtSleepQ_enqueue s₁ { f with attrib.triggered := true } addr
    obtain ⟨later, tim₁, empty⟩ := ih (kept.trans left)
    exact ⟨(taken.trans (rtwHalMgmtXmitframeEnqueue_mgmtOnly s₁ _)).trans later, tim₁.trans tim,
      empty⟩

end

end Rtl88x2bu.Tx
