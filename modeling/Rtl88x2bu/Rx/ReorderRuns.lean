import Rtl88x2bu.Lib.Run
import Rtl88x2bu.Rx.ReorderRefinement

/-!
# Runs of a reorder controller

Within one block-ack session the frames are handed up in sequence and the pending ones stay inside
the window. An ADDBA response restarts the window at the next frame without emptying the queue, and
a block-ack request overwrites the window start.
-/

namespace Rtl88x2bu.Rx

open InOrder

variable {size : ℤ} {ctrl : RecvReorderCtrl} {prframe : RecvFrame} {s : ReorderState}
variable {b : Buffer RecvFrame size 2048}

/-! ## One session -/

/-- The events of one session: QoS frames of the controller's station and TID, and timeouts. -/
def SessionEvent (_ : ReorderState) : ReorderEvent → Prop
  | .frame prframe => prframe.attrib.qos = true ∧ prframe.preorderCtrl.isSome = true
  | .timeout _ => True
  | .addBaRsp _ _ => False
  | .bar _ => False

/-- Waiting for the first frame, or standing for an in-order buffer that holds nothing back. -/
structure InSession (size : ℤ) (s : ReorderState) : Prop where
  enabled : s.ctrl.enable = true
  noAck : s.ctrl.recAbbaRspAck = false
  wsize : (s.ctrl.wsizeB.toNat : ℤ) = size
  decided : ∀ r ∈ s.received, r.2 ≠ .success
  window : (s.ctrl.indicateSeq = 0xFFFF ∧ s.ctrl.pendingRecvframeQueue = [] ∧ s.indicated = []) ∨
    ∃ b : Buffer RecvFrame size 2048, b.CaughtUp ∧ Represents s.ctrl s.indicated b

theorem represents_empty {start : ℕ} (wsize : (ctrl.wsizeB.toNat : ℤ) = size)
    (seq : ctrl.indicateSeq.toNat = start) (small : start < 4096)
    (empty : ctrl.pendingRecvframeQueue = []) :
    Represents ctrl [] (Buffer.empty start : Buffer RecvFrame size 2048) where
  wsize := wsize
  start := by
    simp only [Residue, Buffer.empty]
    omega
  pending := empty
  indicated := rfl
  numbered := by simp [Numbered, Buffer.empty]

theorem first_frame (priv : RecvCounters) (reorders : Reorders ctrl prframe)
    (wsize : (ctrl.wsizeB.toNat : ℤ) = size)
    (uninitialised : (consumeAbbaRspAck ctrl).indicateSeq = 0xFFFF)
    (empty : ctrl.pendingRecvframeQueue = []) :
    ∃ ctrl', ∃ b : Buffer RecvFrame size 2048,
      recvIndicatepktReorder ctrl priv prframe = recvIndicatepktReorder ctrl' priv prframe ∧
      b.CaughtUp ∧ Represents ctrl' [] b ∧ Reorders ctrl' prframe ∧ ctrl'.recAbbaRspAck = false :=
  ⟨_, Buffer.empty prframe.seqNum.toNat, recvIndicatepktReorder_init priv reorders uninitialised,
    by simp [Buffer.CaughtUp, Buffer.empty],
    represents_empty wsize rfl (seqNum_lt prframe) empty, reorders, rfl⟩

theorem InSession.frame (session : InSession size s) (positive : 0 < size) (bounded : size ≤ 2048)
    (qos : prframe.attrib.qos = true) (referenced : prframe.preorderCtrl.isSome = true) :
    InSession size (s.step (.frame prframe)) := by
  have reorders : Reorders s.ctrl prframe := ⟨qos, referenced, session.enabled⟩
  -- after the first frame the controller has a window, and the first frame makes one
  obtain ⟨ctrl, b, same, caughtUp, rep, reorders, noAck⟩ :
      ∃ ctrl, ∃ b : Buffer RecvFrame size 2048,
        recvIndicatepktReorder s.ctrl s.priv prframe = recvIndicatepktReorder ctrl s.priv prframe ∧
        b.CaughtUp ∧ Represents ctrl s.indicated b ∧ Reorders ctrl prframe ∧
        ctrl.recAbbaRspAck = false := by
    rcases session.window with ⟨uninitialised, empty, silent⟩ | ⟨b, caughtUp, rep⟩
    · rw [silent]
      refine first_frame s.priv reorders session.wsize ?_ empty
      rw [consumeAbbaRspAck_of_clear session.noAck, uninitialised]
    · exact ⟨s.ctrl, b, rfl, caughtUp, rep, reorders, session.noAck⟩
  have decided : ∀ status : Status, status ≠ .success →
      ∀ r ∈ s.received ++ [(prframe, status)], r.2 ≠ .success := by
    intro status other r member
    rcases List.mem_append.mp member with old | new
    · exact session.decided r old
    · rwa [List.mem_singleton.mp new]
  simp only [ReorderState.step, same]
  -- with nothing held, `next` is one past the last frame handed up, so the new one is within reach
  rcases rep.frame s.priv reorders noAck positive bounded (by
      intro ahead empty y last
      have := caughtUp empty y last
      omega) with
    ⟨failed, kept, silent⟩ | ⟨handled, b', _, caughtUp', rep', enabled', noAck'⟩
  · refine ⟨by rw [kept, reorders.2.2], by rw [kept, noAck], by rw [kept, rep.wsize], ?_, ?_⟩
    · exact decided _ (by simp [failed])
    · exact .inr ⟨b, caughtUp, by simpa [kept, silent] using rep⟩
  · refine ⟨by rw [enabled', reorders.2.2], by rw [noAck', noAck], rep'.wsize, ?_, ?_⟩
    · exact decided _ (by simp [handled])
    · exact .inr ⟨b', caughtUp', rep'⟩

theorem InSession.timeout (session : InSession size s) (positive : 0 < size)
    (bounded : size ≤ 2048) (cannotRun : Bool) : InSession size (s.step (.timeout cannotRun)) := by
  rcases session.window with ⟨uninitialised, empty, silent⟩ | ⟨b, caughtUp, rep⟩
  · rcases rtwReorderingCtrlTimeoutHandler_cases s.ctrl s.priv cannotRun with
      ⟨_, _, _, result⟩ | ⟨_, _, _, _, _, pending, _⟩
    · simp only [ReorderState.step, result, List.append_nil]
      exact { session with window := .inl ⟨uninitialised, empty, silent⟩ }
    · -- the handler has nothing to flush
      simp [empty] at pending
  · obtain ⟨b', _, caughtUp', rep', enabled', noAck'⟩ :=
      rep.timeout s.priv cannotRun positive bounded
    exact ⟨enabled'.trans session.enabled, noAck'.trans session.noAck, rep'.wsize, session.decided,
      .inr ⟨b', caughtUp' caughtUp, rep'⟩⟩

/-- Within a session the pending queue stays sorted inside the window, frames are handed up in
sequence, and every frame that is not rejected is handed up once or still pending. -/
theorem session_inOrder (start : RecvReorderCtrl) (priv : RecvCounters)
    (uninitialised : start.indicateSeq = 0xFFFF) (wsize : start.wsizeB = 64)
    (empty : start.pendingRecvframeQueue = []) (enabled : start.enable = true)
    (noAck : start.recAbbaRspAck = false) (s : ReorderState)
    (reached : Run.Reachable ReorderState.step SessionEvent { ctrl := start, priv := priv } s) :
    (s.ctrl.pendingRecvframeQueue.Pairwise fun f g =>
      snDist s.ctrl.indicateSeq f.seqNum < snDist s.ctrl.indicateSeq g.seqNum) ∧
    (∀ f ∈ s.ctrl.pendingRecvframeQueue, 1 ≤ snDist s.ctrl.indicateSeq f.seqNum ∧
      snDist s.ctrl.indicateSeq f.seqNum ≤ 63) ∧
    (s.indicated.IsChain fun a b =>
      1 ≤ snDist a.seqNum b.seqNum ∧ snDist a.seqNum b.seqNum ≤ 2048) ∧
    (s.indicated ++ s.ctrl.pendingRecvframeQueue).Perm
      ((s.received.filter (·.2 ≠ .fail)).map Prod.fst) := by
  have session : InSession 64 s ∧ s.Conserved [] := by
    refine reached.invariant ?_ ?_
    · exact ⟨⟨enabled, noAck, by simp [wsize], by simp, .inl ⟨uninitialised, empty, rfl⟩⟩,
        by simp [ReorderState.Conserved, ReorderState.handled, empty]⟩
    · rintro s e ⟨session, conserved⟩ allowed
      refine ⟨?_, s.step_conserved e conserved⟩
      cases e with
      | frame prframe => exact session.frame (by decide) (by decide) allowed.1 allowed.2
      | timeout cannotRun => exact session.timeout (by decide) (by decide) cannotRun
      | addBaRsp _ _ => exact allowed.elim
      | bar _ => exact allowed.elim
  obtain ⟨session, conserved⟩ := session
  -- in a session no frame bypasses the controller, so all that did not fail were taken in
  have kept : (s.received.filter (·.2 ≠ .fail)).map Prod.fst = s.handled := by
    unfold ReorderState.handled
    congr 1
    refine List.filter_congr fun r member => ?_
    have := session.decided r member
    cases h : r.2 <;> simp_all
  rw [kept]
  have conserved : (s.indicated ++ s.ctrl.pendingRecvframeQueue).Perm s.handled := by
    simpa [ReorderState.Conserved] using conserved
  rcases session.window with ⟨_, nothing, silent⟩ | ⟨b, _, rep⟩
  · exact ⟨by simp [nothing], by simp [nothing], by simp [silent], conserved⟩
  · have windowed := rep.windowed (by decide)
    refine ⟨windowed.1, ?_, rep.inSequence, conserved⟩
    intro f member
    have inside := windowed.2 f member
    have := rep.wsize
    omega

def qosFrame (seqNum : BitVec 12) : RecvFrame :=
  { attrib := { qos := true, seqNum := seqNum }, preorderCtrl := some ⟨Vector.replicate 6 0, 0⟩ }

theorem session_inOrder_gap :
    let s := [ReorderEvent.frame (qosFrame 5), .frame (qosFrame 8), .frame (qosFrame 7),
      .timeout false].foldl ReorderState.step { ctrl := { enable := true } }
    s.indicated = [qosFrame 5, qosFrame 7, qosFrame 8] ∧
      (s.indicated ++ s.ctrl.pendingRecvframeQueue).Perm
        ((s.received.filter (·.2 ≠ .fail)).map Prod.fst) := by
  refine ⟨by decide, (session_inOrder { enable := true } {} rfl rfl rfl rfl rfl _ ?_).2.2.2⟩
  exact .append .start ⟨⟨rfl, rfl⟩, ⟨rfl, rfl⟩, ⟨rfl, rfl⟩, trivial, trivial⟩

/-! ## Renegotiation -/

def Restarts (ctrl : RecvReorderCtrl) : ReorderEvent → Prop
  | .frame prframe => Reorders ctrl prframe ∧ ctrl.recAbbaRspAck = true
  | _ => False

/-- Frames, timeouts and ADDBA responses, where a restarting frame can be told from the pending
ones. -/
def RenegotiationEvent (s : ReorderState) : ReorderEvent → Prop
  | .frame prframe =>
    Reorders s.ctrl prframe → s.ctrl.recAbbaRspAck = true → Restartable s.ctrl prframe
  | .timeout _ => True
  | .addBaRsp _ _ => True
  | .bar _ => False

/-- A controller across sessions: waiting for its first frame, or with a window. -/
structure Negotiated (size : ℤ) (ctrl : RecvReorderCtrl) : Prop where
  wsize : (ctrl.wsizeB.toNat : ℤ) = size
  window : (ctrl.indicateSeq = 0xFFFF ∧ ctrl.pendingRecvframeQueue = []) ∨
    ∃ b : Buffer RecvFrame size 2048, Represents ctrl [] b

theorem Represents.negotiated {indicated : List RecvFrame} (rep : Represents ctrl indicated b) :
    Negotiated size ctrl :=
  ⟨rep.wsize, .inr ⟨b.forget, rep.forget⟩⟩

def MovedForward (old new : RecvReorderCtrl) : Prop :=
  old.indicateSeq = 0xFFFF ∨ snDist old.indicateSeq new.indicateSeq ≤ 2048

theorem movedForward_of_eq {old new : RecvReorderCtrl}
    (same : new.indicateSeq = old.indicateSeq) : MovedForward old new :=
  .inr (by simp [same])

theorem Negotiated.frame (negotiated : Negotiated size ctrl) (priv : RecvCounters)
    (positive : 0 < size) (bounded : size < 256)
    (restartable : Reorders ctrl prframe → ctrl.recAbbaRspAck = true → Restartable ctrl prframe) :
    let out := recvIndicatepktReorder ctrl priv prframe
    Negotiated size out.ctrl ∧
      (¬ (Reorders ctrl prframe ∧ ctrl.recAbbaRspAck = true) → MovedForward ctrl out.ctrl) := by
  by_cases reorders : Reorders ctrl prframe
  · rcases negotiated.window with ⟨uninitialised, empty⟩ | ⟨b, rep⟩
    · obtain ⟨ctrl', b, same, _, rep, reorders', noAck⟩ := first_frame priv reorders
        negotiated.wsize (by unfold consumeAbbaRspAck; split <;> [rfl; exact uninitialised]) empty
      refine ⟨?_, fun _ => .inl uninitialised⟩
      rw [same]
      rcases rep.frame priv reorders' noAck positive (by omega) (by
          simp [List.map_eq_nil_iff.mp rep.indicated.symm]) with
        ⟨_, kept, _⟩ | ⟨_, b', _, _, rep', _, _⟩
      · rw [kept]
        exact rep.negotiated
      · exact rep'.negotiated
    · cases flag : ctrl.recAbbaRspAck with
      | true =>
        -- the start may move anywhere, and the second part says nothing about it
        obtain ⟨b', rep'⟩ := rep.restart priv reorders flag positive bounded
          (restartable reorders flag)
        exact ⟨rep'.negotiated, fun other => absurd ⟨reorders, rfl⟩ other⟩
      | false =>
        rcases rep.frame priv reorders flag positive (by omega) (by
            simp [List.map_eq_nil_iff.mp rep.indicated.symm]) with
          ⟨_, kept, _⟩ | ⟨_, b', step, _, rep', _, _⟩
        · simp only [kept]
          exact ⟨rep.negotiated, fun _ => movedForward_of_eq rfl⟩
        · exact ⟨rep'.negotiated, fun _ => .inr (rep.forward rep' step)⟩
  · simp only [recvIndicatepktReorder_bypass priv reorders]
    exact ⟨negotiated, fun _ => movedForward_of_eq rfl⟩

theorem Negotiated.timeout (negotiated : Negotiated size ctrl) (priv : RecvCounters)
    (positive : 0 < size) (bounded : size ≤ 2048) (cannotRun : Bool) :
    let out := rtwReorderingCtrlTimeoutHandler ctrl priv cannotRun
    Negotiated size out.ctrl ∧ MovedForward ctrl out.ctrl := by
  rcases negotiated.window with ⟨uninitialised, empty⟩ | ⟨b, rep⟩
  · rcases rtwReorderingCtrlTimeoutHandler_cases ctrl priv cannotRun with
      ⟨_, _, _, result⟩ | ⟨_, _, _, _, _, pending, _⟩
    · simp only [result]
      exact ⟨⟨negotiated.wsize, .inl ⟨uninitialised, empty⟩⟩, .inl uninitialised⟩
    · simp [empty] at pending
  · obtain ⟨b', step, _, rep', _, _⟩ := rep.timeout priv cannotRun positive bounded
    exact ⟨rep'.negotiated, .inr (rep.forward rep' step)⟩

theorem Negotiated.addBaRsp (negotiated : Negotiated size ctrl) (status ampduSize : BitVec 8) :
    Negotiated size (addBaRspHdl ctrl status ampduSize) ∧
      MovedForward ctrl (addBaRspHdl ctrl status ampduSize) := by
  obtain ⟨wsize, window⟩ := negotiated
  simp only [addBaRspHdl]
  split_ifs <;>
    exact ⟨⟨wsize, window.imp id (Exists.imp fun b rep => { rep with })⟩, movedForward_of_eq rfl⟩

theorem Negotiated.step (negotiated : Negotiated size s.ctrl) (positive : 0 < size)
    (bounded : size < 256) {e : ReorderEvent} (allowed : RenegotiationEvent s e) :
    Negotiated size (s.step e).ctrl ∧
      (¬ Restarts s.ctrl e → MovedForward s.ctrl (s.step e).ctrl) := by
  cases e with
  | frame prframe => exact negotiated.frame s.priv positive bounded allowed
  | timeout cannotRun =>
    have kept := negotiated.timeout s.priv positive (by omega) cannotRun
    exact ⟨kept.1, fun _ => kept.2⟩
  | addBaRsp status ampduSize =>
    have kept := negotiated.addBaRsp status ampduSize
    exact ⟨kept.1, fun _ => kept.2⟩
  | bar _ => exact allowed.elim

theorem renegotiation_strands_frame :
    let s := [ReorderEvent.frame (qosFrame 0), .frame (qosFrame 5), .addBaRsp 0 64,
      .frame (qosFrame 3000)].foldl ReorderState.step { ctrl := { enable := true } }
    qosFrame 5 ∈ s.ctrl.pendingRecvframeQueue ∧
      ¬ snDist s.ctrl.indicateSeq (qosFrame 5).seqNum < s.ctrl.wsizeB.toNat := by
  decide

/-- As long as every frame that restarts the window can be told from the pending ones, the pending
frames stay inside the window and only a restart can move it back. -/
theorem renegotiation_windowed (start : RecvReorderCtrl) (priv : RecvCounters)
    (uninitialised : start.indicateSeq = 0xFFFF) (positive : 0 < start.wsizeB.toNat)
    (empty : start.pendingRecvframeQueue = []) (s : ReorderState)
    (reached : Run.Reachable ReorderState.step RenegotiationEvent
      { ctrl := start, priv := priv } s) :
    (∀ f ∈ s.ctrl.pendingRecvframeQueue, 1 ≤ snDist s.ctrl.indicateSeq f.seqNum ∧
      snDist s.ctrl.indicateSeq f.seqNum < s.ctrl.wsizeB.toNat) ∧
    ∀ e, RenegotiationEvent s e → ¬ Restarts s.ctrl e → s.ctrl.indicateSeq ≠ 0xFFFF →
      snDist s.ctrl.indicateSeq (s.step e).ctrl.indicateSeq ≤ 2048 := by
  have width : (0 : ℤ) < start.wsizeB.toNat ∧ (start.wsizeB.toNat : ℤ) < 256 := by
    have := start.wsizeB.isLt
    omega
  have negotiated : Negotiated start.wsizeB.toNat s.ctrl := by
    refine reached.invariant ?_ ?_
    · exact ⟨rfl, .inl ⟨uninitialised, empty⟩⟩
    · exact fun s e negotiated allowed => (negotiated.step width.1 width.2 allowed).1
  constructor
  · rcases negotiated.window with ⟨_, nothing⟩ | ⟨b, rep⟩
    · simp [nothing]
    · exact (rep.windowed (by omega)).2
  · intro e allowed keeps initialised
    have moved := (negotiated.step width.1 width.2 allowed).2 keeps
    exact moved.resolve_left initialised

theorem renegotiation_windowed_restart :
    let s := [ReorderEvent.frame (qosFrame 0), .frame (qosFrame 5), .addBaRsp 0 64,
      .frame (qosFrame 100)].foldl ReorderState.step { ctrl := { enable := true } }
    s.indicated = [qosFrame 0, qosFrame 5, qosFrame 100] ∧
    ∀ f ∈ s.ctrl.pendingRecvframeQueue, 1 ≤ snDist s.ctrl.indicateSeq f.seqNum ∧
      snDist s.ctrl.indicateSeq f.seqNum < s.ctrl.wsizeB.toNat := by
  refine ⟨by decide, (renegotiation_windowed { enable := true } {} rfl (by decide) rfl _ ?_).1⟩
  refine .append .start ⟨?_, ?_, trivial, ?_, trivial⟩
  · exact fun _ ack => absurd ack (by decide)
  · exact fun _ ack => absurd ack (by decide)
  · intro _ _
    unfold Restartable
    decide

/-! ## Block-ack requests -/

/-- What is `distance` ahead of the window start is at most half the sequence number space ahead of
the last frame handed up. -/
def NearLast (s : ReorderState) (distance : ℤ) : Prop :=
  ∀ a ∈ s.indicated.getLast?, snDist a.seqNum s.ctrl.indicateSeq + distance ≤ 2048

/-- Frames, timeouts and block-ack requests that move the window forward, before every pending frame
and not too far from the last frame handed up. -/
def BarEvent (s : ReorderState) : ReorderEvent → Prop
  | .frame prframe =>
    s.ctrl.recAbbaRspAck = false ∧
    (s.ctrl.pendingRecvframeQueue = [] → snDist s.ctrl.indicateSeq prframe.seqNum < 2048 →
      NearLast s (snDist s.ctrl.indicateSeq prframe.seqNum))
  | .timeout _ => True
  | .addBaRsp _ _ => False
  | .bar pframe =>
    snDist s.ctrl.indicateSeq (barStartSeq pframe) ≤ 2048 ∧
    (∀ f ∈ s.ctrl.pendingRecvframeQueue,
      snDist s.ctrl.indicateSeq (barStartSeq pframe) < snDist s.ctrl.indicateSeq f.seqNum) ∧
    (s.ctrl.pendingRecvframeQueue = [] →
      NearLast s (snDist s.ctrl.indicateSeq (barStartSeq pframe)))

theorem Represents.nearLast (rep : Represents s.ctrl s.indicated b) {distance : ℤ}
    (near : NearLast s distance) (empty : b.held = []) :
    ∀ y ∈ b.delivered.getLast?, b.next + distance ≤ y.1 + 2048 := by
  intro y last
  have member := List.mem_of_getLast? last
  have numbered := rep.numbered y (List.mem_append_left _ member)
  have below := b.below y member
  have linked := b.linked empty y last
  have bound := near y.2 (by
    rw [rep.indicated, List.getLast?_map]
    exact Option.mem_map_of_mem Prod.snd last)
  rw [numbered.dist rep.start] at bound
  omega

theorem barStartSeq_lt (pframe : List UInt8) : (barStartSeq pframe).toNat < 4096 := by
  have := (le16At pframe 18).isLt
  rw [barStartSeq, BitVec.toNat_ushiftRight, Nat.shiftRight_eq_div_pow]
  omega

theorem Represents.bar_step (rep : Represents s.ctrl s.indicated b) (positive : 0 < size)
    (bounded : size ≤ 2048) {e : ReorderEvent} (allowed : BarEvent s e) :
    ∃ b' : Buffer RecvFrame size 2048, b.Step b' ∧
      Represents (s.step e).ctrl (s.step e).indicated b' := by
  have unmoved : b.Step b := .refl b (by decide)
  have empty : b.held = [] → s.ctrl.pendingRecvframeQueue = [] := by
    intro nothing
    simp [rep.pending, nothing]
  cases e with
  | frame prframe =>
    by_cases reorders : Reorders s.ctrl prframe
    · rcases rep.frame s.priv reorders allowed.1 positive bounded (fun ahead nothing =>
          rep.nearLast (allowed.2 (empty nothing) ahead) nothing) with
        ⟨_, kept, silent⟩ | ⟨_, b', step, _, rep', _, _⟩
      · exact ⟨b, unmoved, by simpa [ReorderState.step, kept, silent] using rep⟩
      · exact ⟨b', step, rep'⟩
    · refine ⟨b, unmoved, ?_⟩
      simpa [ReorderState.step, recvIndicatepktReorder_bypass s.priv reorders] using rep
  | timeout cannotRun =>
    obtain ⟨b', step, _, rep', _, _⟩ := rep.timeout s.priv cannotRun positive bounded
    exact ⟨b', step, rep'⟩
  | addBaRsp _ _ => exact allowed.elim
  | bar pframe =>
    obtain ⟨forward, before, near⟩ := allowed
    have circle := (snDist_bounds s.ctrl.indicateSeq (barStartSeq pframe)).1
    -- a request hands nothing up: it only moves `next` within the gap
    refine ⟨b.advance (b.next + snDist s.ctrl.indicateSeq (barStartSeq pframe)) (by omega) ?_
      (fun nothing => rep.nearLast (near (empty nothing)) nothing), ?_, ?_⟩
    · intro x member
      have := before x.2 (by rw [rep.pending]; exact List.mem_map_of_mem member)
      rw [rep.dist member bounded] at this
      omega
    · exact ⟨by simpa [Buffer.advance] using circle, by simpa [Buffer.advance] using forward,
        List.prefix_rfl⟩
    · exact { rep with start := rep.start.add_dist (barStartSeq_lt pframe) }

theorem bar_moves_back :
    let s : ReorderState := { ctrl := { enable := true, indicateSeq := 100 } }
    let pframe := List.replicate 18 0 ++ [0x20, 0x03]
    barStartSeq pframe = 50 ∧
      ¬ snDist s.ctrl.indicateSeq (s.step (.bar pframe)).ctrl.indicateSeq ≤ 2048 := by
  decide

/-- As long as block-ack requests only move the window over missing frames, no step moves it back
and frames are handed up in sequence. -/
theorem bar_inOrder (start : RecvReorderCtrl) (priv : RecvCounters)
    (initialised : start.indicateSeq.toNat < 4096) (positive : 0 < start.wsizeB.toNat)
    (windowed : start.Windowed) (s : ReorderState)
    (reached : Run.Reachable ReorderState.step BarEvent { ctrl := start, priv := priv } s) :
    (s.indicated.IsChain fun a b =>
      1 ≤ snDist a.seqNum b.seqNum ∧ snDist a.seqNum b.seqNum ≤ 2048) ∧
    ∀ e, BarEvent s e → snDist s.ctrl.indicateSeq (s.step e).ctrl.indicateSeq ≤ 2048 := by
  obtain ⟨b₀, rep₀⟩ := windowed.represents initialised
  have width : (0 : ℤ) < start.wsizeB.toNat ∧ (start.wsizeB.toNat : ℤ) ≤ 2048 := by
    have := start.wsizeB.isLt
    omega
  obtain ⟨b, rep⟩ : ∃ b : Buffer RecvFrame start.wsizeB.toNat 2048,
      Represents s.ctrl s.indicated b := by
    refine reached.invariant ⟨b₀, rep₀⟩ ?_
    rintro s e ⟨b, rep⟩ allowed
    obtain ⟨b', _, rep'⟩ := rep.bar_step width.1 width.2 allowed
    exact ⟨b', rep'⟩
  refine ⟨rep.inSequence, fun e allowed => ?_⟩
  obtain ⟨b', step, rep'⟩ := rep.bar_step width.1 width.2 allowed
  exact rep.forward rep' step

theorem bar_inOrder_skip :
    let s := [ReorderEvent.bar (List.replicate 18 0 ++ [0x30, 0x00]), .frame (qosFrame 4),
      .frame (qosFrame 3)].foldl ReorderState.step
        { ctrl := { enable := true, indicateSeq := 0, pendingRecvframeQueue := [qosFrame 5] } }
    s.indicated = [qosFrame 3, qosFrame 4, qosFrame 5] ∧
      s.indicated.IsChain fun a b =>
        1 ≤ snDist a.seqNum b.seqNum ∧ snDist a.seqNum b.seqNum ≤ 2048 := by
  refine ⟨by decide, (bar_inOrder
    { enable := true, indicateSeq := 0, pendingRecvframeQueue := [qosFrame 5] } {} (by decide)
    (by decide) ⟨by simp, by decide⟩ _ ?_).1⟩
  refine .append .start ⟨?_, ?_, ?_, trivial⟩
  · exact ⟨by decide, by decide, fun nothing => absurd nothing (by decide)⟩
  · exact ⟨rfl, fun nothing => absurd nothing (by decide)⟩
  · exact ⟨rfl, fun nothing => absurd nothing (by decide)⟩

end Rtl88x2bu.Rx
