import Rtl88x2bu.Rx.ReorderRuns

/-!
# The reordering timer

The timer, `bReorderWaiting` and the queue are written by different branches; together they keep the
timer armed while a frame waits, as long as the timer finds the driver running.
-/

namespace Rtl88x2bu.Rx

variable (s : ReorderState)

/-- While a frame is pending, and while the controller says that it waits, the timer is armed. -/
structure RecvReorderCtrl.TimerArmed (ctrl : RecvReorderCtrl) : Prop where
  pending : ctrl.pendingRecvframeQueue ≠ [] → ctrl.reorderingCtrlTimer = true
  waiting : ctrl.bReorderWaiting = true → ctrl.reorderingCtrlTimer = true

/-- The timer expires on a driver that cannot run, with something left to wait for. -/
def ReorderState.Stalls : ReorderEvent → Prop
  | .timeout cannotRun =>
    cannotRun = true ∧ (s.ctrl.pendingRecvframeQueue ≠ [] ∨ s.ctrl.bReorderWaiting = true)
  | .frame _ => False
  | .addBaRsp _ _ => False
  | .bar _ => False

/-! ## The pieces -/

theorem indicateLoop_bPktInBuf (start : BitVec 16) (queue : List RecvFrame) :
    (indicateLoop start queue).bPktInBuf = true ↔ (indicateLoop start queue).pending ≠ [] := by
  induction queue generalizing start with
  | nil => simp [indicateLoop]
  | cons prframe rest ih =>
    simp only [indicateLoop]
    split
    · exact ih _
    · simp

section

variable {ctrl : RecvReorderCtrl}

theorem RecvReorderCtrl.TimerArmed.window (armed : ctrl.TimerArmed) (start : BitVec 16)
    (ack : Bool) : { ctrl with indicateSeq := start, recAbbaRspAck := ack }.TimerArmed :=
  ⟨armed.pending, armed.waiting⟩

theorem RecvReorderCtrl.TimerArmed.consumeAbbaRspAck (armed : ctrl.TimerArmed) :
    (consumeAbbaRspAck ctrl).TimerArmed := by
  unfold Rx.consumeAbbaRspAck
  split
  · exact armed.window 0xFFFF false
  · exact armed

theorem RecvReorderCtrl.TimerArmed.checkIndicateSeq (armed : ctrl.TimerArmed) (priv : RecvCounters)
    (seqNum : BitVec 16) : (checkIndicateSeq ctrl priv seqNum).2.1.TimerArmed := by
  simp only [Rx.checkIndicateSeq]
  split_ifs <;> exact armed.window _ _

/-! ## The handlers -/

theorem RecvReorderCtrl.TimerArmed.frame (armed : ctrl.TimerArmed) (priv : RecvCounters)
    (prframe : RecvFrame) : (recvIndicatepktReorder ctrl priv prframe).ctrl.TimerArmed := by
  by_cases reorders : Reorders ctrl prframe
  swap
  · rw [recvIndicatepktReorder_bypass priv reorders]
    exact armed
  have checked := armed.consumeAbbaRspAck.checkIndicateSeq priv prframe.seqNum
  rw [recvIndicatepktReorder, if_neg reorders.guard]
  split
  case h_1 ctrl' priv' outside =>
    rw [outside] at checked
    exact checked
  case h_2 ctrl' priv' inside =>
    rw [inside] at checked
    split
    · exact checked
    case h_2 queue queued =>
      simp only [recvIndicatepktsInOrder, Bool.false_eq_true, if_false]
      have left := indicateLoop_bPktInBuf ctrl'.indicateSeq queue
      cases more : (indicateLoop ctrl'.indicateSeq queue).bPktInBuf with
      | true =>
        cases waits : ctrl'.bReorderWaiting with
        | true =>
          -- the timer was set when the flag was
          have running : ctrl'.reorderingCtrlTimer = true := checked.waiting waits
          simp only [Bool.not_true, Bool.false_eq_true, if_false]
          exact ⟨fun _ => running, fun _ => running⟩
        | false =>
          simp only [Bool.not_false, if_true]
          exact ⟨fun _ => rfl, fun _ => rfl⟩
      | false =>
        rw [more] at left
        refine ⟨fun pending => ?_, fun waits => absurd waits Bool.false_ne_true⟩
        exact absurd (left.mpr pending) Bool.false_ne_true

theorem RecvReorderCtrl.TimerArmed.timeout (ctrl : RecvReorderCtrl) (priv : RecvCounters) :
    (rtwReorderingCtrlTimeoutHandler ctrl priv false).ctrl.TimerArmed := by
  simp only [rtwReorderingCtrlTimeoutHandler, recvIndicatepktsInOrder, Bool.false_eq_true, if_false,
    if_true]
  cases ctrl.pendingRecvframeQueue with
  | nil => exact ⟨fun _ => rfl, fun _ => rfl⟩
  | cons prframe rest =>
    dsimp only
    have left := indicateLoop_bPktInBuf prframe.seqNum (prframe :: rest)
    cases more : (indicateLoop prframe.seqNum (prframe :: rest)).bPktInBuf with
    | true => exact ⟨fun _ => rfl, fun _ => rfl⟩
    | false =>
      rw [more] at left
      refine ⟨fun pending => ?_, fun waits => absurd waits Bool.false_ne_true⟩
      exact absurd (left.mpr pending) Bool.false_ne_true

theorem timerArmed_timeout_cannotRun (priv : RecvCounters) :
    (rtwReorderingCtrlTimeoutHandler ctrl priv true).ctrl.TimerArmed ↔
      ¬ (ctrl.pendingRecvframeQueue ≠ [] ∨ ctrl.bReorderWaiting = true) := by
  constructor
  · rintro armed (pending | waits)
    · exact absurd (armed.pending pending) Bool.false_ne_true
    · exact absurd (armed.waiting waits) Bool.false_ne_true
  · intro idle
    exact ⟨fun pending => absurd (.inl pending) idle, fun waits => absurd (.inr waits) idle⟩

theorem RecvReorderCtrl.TimerArmed.addBaRsp (armed : ctrl.TimerArmed) (status size : BitVec 8) :
    (addBaRspHdl ctrl status size).TimerArmed := by
  simp only [addBaRspHdl]
  split_ifs <;> exact ⟨armed.pending, armed.waiting⟩

end

/-! ## Runs -/

theorem timerArmed_step_iff (e : ReorderEvent) (armed : s.ctrl.TimerArmed) :
    (s.step e).ctrl.TimerArmed ↔ ¬ s.Stalls e := by
  cases e with
  | frame prframe => exact iff_of_true (armed.frame s.priv prframe) id
  | timeout cannotRun =>
    cases cannotRun with
    | true =>
      refine (timerArmed_timeout_cannotRun s.priv).trans (not_congr ?_)
      exact (and_iff_right rfl).symm
    | false =>
      refine iff_of_true (.timeout s.ctrl s.priv) ?_
      rintro ⟨running, -⟩
      exact Bool.false_ne_true running
  | addBaRsp status size => exact iff_of_true (armed.addBaRsp status size) id
  | bar pframe => exact iff_of_true ⟨armed.pending, armed.waiting⟩ id

/-- In every run of a controller the timer is armed after each event while a frame is pending or the
controller waits, exactly if the timer never expires on a stopped driver with frames left. -/
theorem pending_keeps_timer_armed (start : ReorderState) (armed : start.ctrl.TimerArmed)
    (events : List ReorderEvent) :
    Run.Always ReorderState.step (fun s => s.ctrl.TimerArmed) start events ↔
      Run.Allows ReorderState.step (fun s e => ¬ s.Stalls e) start events :=
  Run.always_iff_allows (fun _ => True) (Run.allows_of_forall (fun _ _ => trivial) start) trivial
    (fun _ _ _ _ _ _ => trivial) (fun s e _ _ armed => timerArmed_step_iff s e armed) armed

theorem pending_keeps_timer_armed_gap :
    Run.Always ReorderState.step (fun s => s.ctrl.TimerArmed) { ctrl := { enable := true } }
      [.frame (qosFrame 0), .frame (qosFrame 2), .timeout false] := by
  apply (pending_keeps_timer_armed { ctrl := { enable := true } } ?_ _).mpr
  · exact ⟨id, id, fun stalls => Bool.false_ne_true stalls.1, trivial⟩
  · exact ⟨fun pending => absurd rfl pending, nofun⟩

theorem stopped_driver_strands_frame :
    ¬ Run.Always ReorderState.step (fun s => s.ctrl.TimerArmed) { ctrl := { enable := true } }
      [.frame (qosFrame 0), .frame (qosFrame 2), .timeout true] := by
  rintro ⟨-, -, -, armed⟩
  exact absurd (armed.pending (by decide)) (by decide)

/-! ## No frame is left behind -/

theorem snLess_self (a : BitVec 16) : snLess a a = false := by
  simp [snLess]

theorem indicateLoop_forced (prframe : RecvFrame) (rest : List RecvFrame) :
    (indicateLoop prframe.seqNum (prframe :: rest)).pending.length ≤ rest.length := by
  simp only [indicateLoop, snLess_self, Bool.not_false, if_true]
  exact List.IsSuffix.length_le ⟨_, indicateLoop_append _ rest⟩

theorem timeout_pending_lt (ctrl : RecvReorderCtrl) (priv : RecvCounters)
    (pending : ctrl.pendingRecvframeQueue ≠ []) :
    (rtwReorderingCtrlTimeoutHandler ctrl priv false).ctrl.pendingRecvframeQueue.length <
      ctrl.pendingRecvframeQueue.length := by
  cases queue : ctrl.pendingRecvframeQueue with
  | nil => exact absurd queue pending
  | cons prframe rest =>
    have shorter := indicateLoop_forced prframe rest
    simp only [rtwReorderingCtrlTimeoutHandler, recvIndicatepktsInOrder, queue, Bool.false_eq_true,
      if_false, if_true]
    cases (indicateLoop prframe.seqNum (prframe :: rest)).bPktInBuf <;>
      exact Nat.lt_succ_of_le shorter

/-- A state after the timer has expired `n` more times. -/
def ReorderState.expired (n : ℕ) : ReorderState :=
  (List.replicate n (.timeout false)).foldl ReorderState.step s

/-- Each expiry is one of an armed timer, and together they empty the queue. -/
theorem expired_drains (armed : s.ctrl.TimerArmed) : ∃ n ≤ s.ctrl.pendingRecvframeQueue.length,
    (∀ k < n, (s.expired k).ctrl.reorderingCtrlTimer = true) ∧
    (s.expired n).ctrl.pendingRecvframeQueue = [] := by
  generalize most : s.ctrl.pendingRecvframeQueue.length = m
  -- the queue gets shorter with each expiry, which leaves the timer armed
  induction m using Nat.strong_induction_on generalizing s with
  | _ m ih =>
    by_cases pending : s.ctrl.pendingRecvframeQueue = []
    · exact ⟨0, Nat.zero_le _, fun k none => absurd none (Nat.not_lt_zero k), pending⟩
    · have shorter := timeout_pending_lt s.ctrl s.priv pending
      rw [most] at shorter
      obtain ⟨n, le, timers, empty⟩ := ih _ shorter (s.step (.timeout false))
        (.timeout s.ctrl s.priv) rfl
      refine ⟨n + 1, Nat.lt_of_le_of_lt le shorter, fun k below => ?_, empty⟩
      cases k with
      | zero => exact armed.pending pending
      | succ k => exact timers k (Nat.lt_of_succ_lt_succ below)

/-- Whatever frames, ADDBA responses and block-ack requests come in, no frame is left behind as long
as the timer does not expire on a stopped driver: it stays armed while frames wait, and after at
most as many expiries as there are of them every frame taken over has been handed up, once. -/
theorem taken_frames_handed_up (start : ReorderState) {s : ReorderState}
    (armed : start.ctrl.TimerArmed) (fresh : start.received = [] ∧ start.indicated = [])
    (reached : Run.Reachable ReorderState.step (fun s e => ¬ s.Stalls e) start s) :
    ∃ n ≤ s.ctrl.pendingRecvframeQueue.length,
      (∀ k < n, (s.expired k).ctrl.reorderingCtrlTimer = true) ∧
      (s.expired n).ctrl.pendingRecvframeQueue = [] ∧
      (s.expired n).indicated.Perm
        ((s.expired n).handled ++ start.ctrl.pendingRecvframeQueue) := by
  obtain ⟨n, le, timers, empty⟩ := expired_drains s
    (reached.invariant armed fun s e held ok => (timerArmed_step_iff s e held).mpr ok)
  refine ⟨n, le, timers, empty, ?_⟩
  have conserved : s.Conserved start.ctrl.pendingRecvframeQueue := by
    refine reached.invariant ?_ fun s e held _ => s.step_conserved e held
    simp [ReorderState.Conserved, ReorderState.handled, fresh]
  have last : (s.expired n).Conserved start.ctrl.pendingRecvframeQueue :=
    List.foldlRecOn _ _ conserved fun s held e _ => s.step_conserved e held
  rwa [ReorderState.Conserved, empty, List.append_nil] at last

theorem taken_frames_handed_up_gap :
    ∃ n ≤ 1, (([.frame (qosFrame 0), .frame (qosFrame 2)].foldl ReorderState.step
      { ctrl := { enable := true } }).expired n).indicated.Perm [qosFrame 0, qosFrame 2] := by
  obtain ⟨n, le, -, -, perm⟩ := taken_frames_handed_up { ctrl := { enable := true } }
    ⟨absurd rfl, fun waits => absurd waits Bool.false_ne_true⟩ ⟨rfl, rfl⟩
    (.next (.frame (qosFrame 2)) (.next (.frame (qosFrame 0)) .start id) id)
  have le : n ≤ 1 := le
  refine ⟨n, le, ?_⟩
  interval_cases n <;> exact perm

end Rtl88x2bu.Rx
