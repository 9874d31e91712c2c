import Rtl88x2bu.Lib.Serial
import Rtl88x2bu.Lib.InOrder
import Rtl88x2bu.Rx.Reorder

/-!
# The reorder controller refines in-order delivery

A controller stands for an in-order buffer over unbounded positions when `indicate_seq` and the
sequence numbers of its frames are the residues of the buffer's positions. Every comparison of
`SN_LESS` is then between positions less than half a circle apart.
-/

namespace Rtl88x2bu.Rx

open List
open InOrder

variable (queue : List (ℤ × RecvFrame)) (priv : RecvCounters)

variable {a b seqNum : BitVec 16} {p q : ℤ} {ctrl : RecvReorderCtrl}

def snDist (a b : BitVec 16) : ℤ := Serial.ahead 4096 a.toNat b.toNat

theorem snDist_bounds (a b : BitVec 16) : 0 ≤ snDist a b ∧ snDist a b < 4096 := by
  unfold snDist Serial.ahead
  omega

@[simp]
theorem snDist_self (a : BitVec 16) : snDist a a = 0 := by
  simp [snDist, Serial.ahead]

def Residue (a : BitVec 16) (p : ℤ) : Prop := (a.toNat : ℤ) = p % 4096

theorem seqNum_lt (prframe : RecvFrame) : prframe.seqNum.toNat < 4096 := by
  simp only [RecvFrame.seqNum, BitVec.toNat_setWidth]
  have := prframe.attrib.seqNum.isLt
  omega

theorem Residue.lt (h : Residue a p) : a.toNat < 4096 := by
  unfold Residue at h
  omega

theorem Residue.dist (ha : Residue a p) (hb : Residue b q) : snDist a b = (q - p) % 4096 := by
  unfold snDist
  rw [ha, hb, Serial.ahead_emod, Serial.ahead]

theorem Residue.add_dist (ha : Residue a p) (small : b.toNat < 4096) :
    Residue b (p + snDist a b) := by
  unfold Residue snDist Serial.ahead at *
  omega

theorem snLess_iff (a b : BitVec 16) : snLess a b = true ↔ 2048 ≤ snDist b a := by
  have bit := Serial.sub_and_twoPow_ne_zero (k := 11) (by decide) a b
  have mask : BitVec.twoPow 16 11 = 0x800#16 := by decide
  rw [mask] at bit
  simpa [snLess, Serial.Less, snDist] using bit

theorem Residue.snLess (ha : Residue a p) (hb : Residue b q) (low : -2048 ≤ p - q)
    (high : p - q < 2048) : snLess a b = true ↔ p < q := by
  rw [snLess_iff, hb.dist ha]
  exact Serial.less_iff_lt low high

theorem Residue.eq_iff (ha : Residue a p) (hb : Residue b q) (low : -4096 < p - q)
    (high : p - q < 4096) : a = b ↔ p = q := by
  unfold Residue at ha hb
  rw [← BitVec.toNat_inj]
  omega

theorem toNat_and_mask (a : BitVec 16) : (a &&& 0xFFF).toNat = a.toNat % 4096 := by
  rw [BitVec.toNat_and]
  exact Nat.and_two_pow_sub_one_eq_mod a.toNat 12

theorem Residue.succ (ha : Residue a p) : Residue ((a + 1) &&& 0xFFF) (p + 1) := by
  have small := ha.lt
  unfold Residue at *
  rw [toNat_and_mask, BitVec.toNat_add, show (1 : BitVec 16).toNat = 1 from rfl]
  omega

/-! ## The queue -/

def Numbered : Prop := ∀ x ∈ queue, Residue x.2.seqNum x.1

theorem enqueueReorderRecvframe_spec (p : ℤ) (prframe : RecvFrame) (numbered : Numbered queue)
    (residue : Residue prframe.seqNum p) (sorted : queue.Pairwise (·.1 < ·.1))
    (close : ∀ x ∈ queue, -2048 ≤ x.1 - p ∧ x.1 - p < 2048) :
    ((∃ x ∈ queue, x.1 = p) ∧ enqueueReorderRecvframe prframe (queue.map Prod.snd) = none) ∨
    ∃ l r, queue = l ++ r ∧ (∀ x ∈ l, x.1 < p) ∧ (∀ x ∈ r, p < x.1) ∧
      enqueueReorderRecvframe prframe (queue.map Prod.snd) =
        some ((l ++ (p, prframe) :: r).map Prod.snd) := by
  induction queue with
  | nil => exact .inr ⟨[], [], by simp [enqueueReorderRecvframe]⟩
  | cons x queue ih =>
    -- the two comparisons of the loop are comparisons of positions
    have here := close x (by simp)
    have residues := numbered x (by simp)
    have less := residues.snLess residue here.1 here.2
    have equal := residues.eq_iff residue (by omega) (by omega)
    simp only [map_cons, enqueueReorderRecvframe, snEqual, beq_iff_eq, less, equal]
    rcases lt_trichotomy x.1 p with before | same | after
    · -- the frame belongs further back
      rw [if_pos before]
      rcases ih (fun y member => numbered y (by simp [member])) sorted.of_cons
          (fun y member => close y (by simp [member])) with
        ⟨⟨y, member, duplicate⟩, rejected⟩ | ⟨l, r, split, front, back, inserted⟩
      · exact .inl ⟨⟨y, by simp [member], duplicate⟩, by simp [rejected]⟩
      · refine .inr ⟨x :: l, r, by simp [split], ?_, back, by simp [inserted]⟩
        intro y member
        rcases mem_cons.mp member with rfl | member
        · exact before
        · exact front y member
    · exact .inl ⟨⟨x, by simp, same⟩, by simp [same]⟩
    · refine .inr ⟨[], x :: queue, rfl, by simp, ?_, ?_⟩
      · intro y member
        rcases mem_cons.mp member with rfl | member
        · exact after
        · exact after.trans (rel_of_pairwise_cons sorted member)
      · rw [if_neg (by omega), if_neg (by omega)]
        simp

theorem indicateLoop_spec (w : ℤ) (start : BitVec 16) (numbered : Numbered queue)
    (residue : Residue start w) (sorted : queue.Pairwise (·.1 < ·.1))
    (close : ∀ x ∈ queue, -2048 ≤ w - x.1 ∧ w - x.1 < 2048) :
    ∃ next, Residue next (release w queue).next ∧
      indicateLoop start (queue.map Prod.snd) =
        ⟨next, (release w queue).out.map Prod.snd, (release w queue).rest.map Prod.snd,
          !(release w queue).rest.isEmpty⟩ := by
  induction queue generalizing w start with
  | nil => exact ⟨start, residue, rfl⟩
  | cons x queue ih =>
    have here := close x (by simp)
    have residues := numbered x (by simp)
    have less := residue.snLess residues here.1 here.2
    have equal := (residue.eq_iff residues (by omega) (by omega)).trans eq_comm
    by_cases early : w < x.1
    · -- a gap stops the loop
      exact ⟨start, by simpa [release, early] using residue,
        by simp [indicateLoop, release, less.mpr early, early]⟩
    · have reached : snLess start x.2.seqNum = false := by
        rw [Bool.eq_false_iff]
        exact fun before => early (less.mp before)
      have residue' : Residue (if snEqual start x.2.seqNum then (start + 1) &&& 0xFFF else start)
          (if x.1 = w then w + 1 else w) := by
        simp only [snEqual, beq_iff_eq, equal]
        split_ifs
        · exact residue.succ
        · exact residue
      obtain ⟨next, position, loop⟩ := ih _ _ (fun y member => numbered y (by simp [member]))
        residue' sorted.of_cons (by
          intro y member
          have beyond := rel_of_pairwise_cons sorted member
          have := close y (by simp [member])
          split_ifs <;> omega)
      refine ⟨next, ?_, ?_⟩
      · simpa [release, early] using position
      · simp only [map_cons, indicateLoop, reached, Bool.not_false, if_true, loop, release,
          if_neg early]

/-! ## The window -/

theorem checkIndicateSeq_init (uninitialised : ctrl.indicateSeq = 0xFFFF) : checkIndicateSeq ctrl
    priv seqNum = checkIndicateSeq { ctrl with indicateSeq := seqNum } priv seqNum := by
  simp [checkIndicateSeq, uninitialised]

theorem Residue.initialised (ha : Residue a p) : a ≠ 0xFFFF := by
  rintro rfl
  exact absurd ha.lt (by decide)

theorem checkIndicateSeq_behind {w : ℤ} (start : Residue ctrl.indicateSeq w)
    (behind : 2048 ≤ snDist ctrl.indicateSeq seqNum) :
    checkIndicateSeq ctrl priv seqNum = (false, ctrl, priv) := by
  simp only [checkIndicateSeq, if_neg start.initialised, (snLess_iff _ _).mpr behind, if_true]

theorem shiftedStart_residue {wsize : BitVec 16} (residue : Residue seqNum p)
    (positive : 0 < wsize.toNat) (byte : wsize.toNat < 256) :
    Residue (shiftedStart wsize seqNum) (p + 1 - wsize.toNat) := by
  have small := residue.lt
  unfold Residue shiftedStart at *
  split_ifs
  · rw [BitVec.toNat_sub, BitVec.toNat_add, show (1 : BitVec 16).toNat = 1 from rfl]
    omega
  · -- the second branch of the source subtracts from the largest sequence number
    rw [BitVec.toNat_add, BitVec.toNat_sub, BitVec.toNat_sub, BitVec.toNat_add,
      show (1 : BitVec 16).toNat = 1 from rfl, show (0xFFF : BitVec 16).toNat = 4095 from rfl]
    omega

theorem checkIndicateSeq_ahead {w : ℤ} (start : Residue ctrl.indicateSeq w)
    (residue : Residue seqNum p) (late : w ≤ p) (near : p < w + 2048)
    (positive : 0 < ctrl.wsizeB.toNat) :
    ∃ next priv', Residue next (startAfter ctrl.wsizeB.toNat w p) ∧
      checkIndicateSeq ctrl priv seqNum = (true, { ctrl with indicateSeq := next }, priv') := by
  have width := ctrl.wsizeB.isLt
  have wsize : (ctrl.wsizeB.setWidth 16).toNat = ctrl.wsizeB.toNat := by
    rw [BitVec.toNat_setWidth]
    omega
  have notBefore : ¬ snLess seqNum ctrl.indicateSeq = true := by
    rw [residue.snLess start (by omega) (by omega)]
    omega
  have awaited := residue.eq_iff start (by omega) (by omega)
  -- `wend` is computed modulo 4096 and stands for the last position of the window
  have wend : Residue ((ctrl.indicateSeq + ctrl.wsizeB.setWidth 16 - 1) &&& 0xFFF)
      (w + ctrl.wsizeB.toNat - 1) := by
    have small := start.lt
    unfold Residue at *
    rw [toNat_and_mask, BitVec.toNat_sub, BitVec.toNat_add, wsize,
      show (1 : BitVec 16).toNat = 1 from rfl]
    omega
  have beyond := wend.snLess residue (by omega) (by omega)
  simp only [checkIndicateSeq, if_neg start.initialised, if_neg notBefore, snEqual, beq_iff_eq,
    awaited, beyond, startAfter]
  by_cases same : p = w
  · simp only [if_pos same]
    exact ⟨_, _, start.succ, rfl⟩
  · by_cases outside : w + ctrl.wsizeB.toNat ≤ p
    · simp only [if_neg same, if_pos outside, if_pos (show w + ctrl.wsizeB.toNat - 1 < p by omega)]
      exact ⟨_, _, wsize ▸ shiftedStart_residue residue (by omega) (by omega), rfl⟩
    · simp only [if_neg same, if_neg outside,
        if_neg (show ¬ w + ctrl.wsizeB.toNat - 1 < p by omega)]
      exact ⟨_, _, start, rfl⟩

/-! ## Simulation -/

/-- A controller, with the frames it has handed up, stands for an in-order buffer. -/
structure Represents {size : ℤ} (ctrl : RecvReorderCtrl) (indicated : List RecvFrame)
    (b : Buffer RecvFrame size 2048) : Prop where
  wsize : (ctrl.wsizeB.toNat : ℤ) = size
  start : Residue ctrl.indicateSeq b.next
  pending : ctrl.pendingRecvframeQueue = b.held.map Prod.snd
  indicated : indicated = b.delivered.map Prod.snd
  numbered : Numbered (b.delivered ++ b.held)

variable {size : ℤ} {ctrl : RecvReorderCtrl} {indicated : List RecvFrame}
  {b : Buffer RecvFrame size 2048}
variable {prframe : RecvFrame}

theorem Represents.held_numbered (rep : Represents ctrl indicated b) : Numbered b.held :=
  fun x member => rep.numbered x (mem_append_right _ member)

theorem Represents.dist (rep : Represents ctrl indicated b) {x : ℤ × RecvFrame}
    (member : x ∈ b.held) (bounded : size ≤ 2048) :
    snDist ctrl.indicateSeq x.2.seqNum = x.1 - b.next := by
  have window := b.inside x member
  rw [rep.start.dist (rep.held_numbered x member)]
  omega

theorem Represents.settle {start : BitVec 16} {w : ℤ} {queue : List (ℤ × RecvFrame)}
    {room chain below window reaches} (waiting timer : Bool)
    (wsize : (ctrl.wsizeB.toNat : ℤ) = size) (residue : Residue start w)
    (numbered : Numbered (b.delivered ++ queue))
    (close : ∀ x ∈ queue, -2048 ≤ w - x.1 ∧ w - x.1 < 2048) :
    let out := indicateLoop start (queue.map Prod.snd)
    Represents (ctrl.after out waiting timer) (b.delivered.map Prod.snd ++ out.indicated)
      (b.settle w queue room chain below window reaches) := by
  have sorted := Buffer.sorted_of_chain (isChain_append.mp chain).2.1
  obtain ⟨next, position, loop⟩ := indicateLoop_spec queue w start
    (fun x member => numbered x (mem_append_right _ member)) residue sorted close
  intro out
  refine ⟨wsize, ?_, ?_, ?_, ?_⟩
  · simpa only [out, loop, RecvReorderCtrl.after, Buffer.settle] using position
  · simp only [out, loop, RecvReorderCtrl.after, Buffer.settle]
  · simp only [out, loop, Buffer.settle, map_append]
  · simpa only [Buffer.settle, append_assoc, release_append] using numbered

theorem consumeAbbaRspAck_of_clear (clear : ctrl.recAbbaRspAck = false) :
    consumeAbbaRspAck ctrl = ctrl := by
  simp [consumeAbbaRspAck, clear]

theorem Represents.accept (rep : Represents ctrl indicated b) {next : BitVec 16} {p : ℤ}
    {l r : List (ℤ × RecvFrame)} (positive : 0 < size) (bounded : size ≤ 2048)
    (fits : b.Fits (p, prframe) l r) (residue : Residue prframe.seqNum p)
    (moved : Residue next (startAfter size b.next p)) (waiting timer : Bool) :
    let out := indicateLoop next ((l ++ (p, prframe) :: r).map Prod.snd)
    Represents (ctrl.after out waiting timer) (b.delivered.map Prod.snd ++ out.indicated)
      (b.accept positive bounded fits) := by
  have window : b.next ≤ startAfter size b.next p ∧ startAfter size b.next p ≤ p + 1 ∧
      p < startAfter size b.next p + size := startAfter_window positive fits.late
  have near : p < b.next + 2048 := fits.near
  apply Represents.settle waiting timer rep.wsize moved
  · intro x member
    rcases mem_append.mp member with out | queued
    · exact rep.numbered x (mem_append_left _ out)
    · rcases fits.mem queued with old | rfl
      · exact rep.held_numbered x old
      · exact residue
  · intro x member
    rcases fits.mem member with old | rfl
    · have := b.inside x old
      omega
    · dsimp only
      omega

theorem Represents.frame (rep : Represents ctrl indicated b) (priv : RecvCounters)
    (reorders : Reorders ctrl prframe) (noAck : ctrl.recAbbaRspAck = false) (positive : 0 < size)
    (bounded : size ≤ 2048)
    (joined : snDist ctrl.indicateSeq prframe.seqNum < 2048 → b.held = [] →
      ∀ y ∈ b.delivered.getLast?, b.next + snDist ctrl.indicateSeq prframe.seqNum ≤ y.1 + 2048) :
    let out := recvIndicatepktReorder ctrl priv prframe
    (out.status = .fail ∧ out.ctrl = ctrl ∧ out.indicated = []) ∨
    (out.status = .handled ∧ ∃ b' : Buffer RecvFrame size 2048, b.Step b' ∧ b'.CaughtUp ∧
      Represents out.ctrl (indicated ++ out.indicated) b' ∧
      out.ctrl.enable = ctrl.enable ∧ out.ctrl.recAbbaRspAck = ctrl.recAbbaRspAck) := by
  have consumed := consumeAbbaRspAck_of_clear noAck
  have circle := (snDist_bounds ctrl.indicateSeq prframe.seqNum).1
  have residue := rep.start.add_dist (seqNum_lt prframe)
  -- a frame in the half circle behind the window start is rejected, one ahead of it has a position
  rcases le_or_gt 2048 (snDist ctrl.indicateSeq prframe.seqNum) with behind | ahead
  · obtain ⟨counted, result⟩ := recvIndicatepktReorder_outside reorders
      (consumed.symm ▸ checkIndicateSeq_behind priv rep.start behind)
    exact .inl (by simp [result, consumed])
  obtain ⟨next, priv', moved, checked⟩ := checkIndicateSeq_ahead priv rep.start residue
    (by omega) (by omega) (by have := rep.wsize; omega)
  replace checked : checkIndicateSeq (consumeAbbaRspAck ctrl) priv prframe.seqNum =
      (true, { ctrl with indicateSeq := next }, priv') := by rw [consumed, checked]
  rw [rep.wsize] at moved
  generalize snDist ctrl.indicateSeq prframe.seqNum = d at *
  have inside := b.inside
  rcases enqueueReorderRecvframe_spec b.held (b.next + d) prframe rep.held_numbered residue
      (Buffer.sorted_of_chain b.held_chain)
      (fun x member => by have := inside x member; omega) with
    ⟨⟨x, member, same⟩, duplicate⟩ | ⟨l, r, split, before, after, queued⟩
  · -- a duplicate lies inside the window, which therefore has not moved
    rw [← rep.pending] at duplicate
    have result := recvIndicatepktReorder_duplicate reorders checked duplicate
    have window := inside x member
    have unmoved : next = ctrl.indicateSeq := by
      refine (moved.eq_iff rep.start ?_ ?_).mpr ?_ <;>
        simp only [startAfter] <;> split_ifs <;> omega
    exact .inl (by simp [result, unmoved])
  · rw [← rep.pending] at queued
    obtain ⟨waiting, timer, result⟩ := recvIndicatepktReorder_queued reorders checked queued
    have fits : b.Fits (b.next + d, prframe) l r :=
      { held := split, before := before, after := after, late := by simpa using circle,
        near := by simpa using ahead, joined := joined ahead }
    refine .inr ⟨by rw [result], b.accept positive bounded fits,
      b.accept_step positive bounded fits, b.accept_caughtUp positive bounded fits, ?_,
      by simp [result, RecvReorderCtrl.after]⟩
    rw [result, rep.indicated]
    exact rep.accept positive bounded fits residue moved waiting timer

theorem Represents.timeout (rep : Represents ctrl indicated b) (priv : RecvCounters)
    (cannotRun : Bool) (positive : 0 < size) (bounded : size ≤ 2048) :
    let out := rtwReorderingCtrlTimeoutHandler ctrl priv cannotRun
    ∃ b' : Buffer RecvFrame size 2048, b.Step b' ∧ (b.CaughtUp → b'.CaughtUp) ∧
      Represents out.ctrl (indicated ++ out.indicated) b' ∧
      out.ctrl.enable = ctrl.enable ∧ out.ctrl.recAbbaRspAck = ctrl.recAbbaRspAck := by
  rcases rtwReorderingCtrlTimeoutHandler_cases ctrl priv cannotRun with
    ⟨_, _, _, result⟩ | ⟨prframe, rest, waiting, timer, _, pending, result⟩
  · refine ⟨b, .refl b (by decide), id, ?_, by simp [result]⟩
    simp only [result, append_nil]
    exact { rep with }
  · -- the first held item of the buffer is the first pending frame
    rw [rep.pending] at pending
    obtain ⟨x, queue, first, rfl, rfl⟩ := map_eq_cons_iff.mp pending
    refine ⟨b.flush positive bounded first, b.flush_step positive bounded first,
      fun _ => b.flush_caughtUp positive bounded first, ?_, by simp [result, RecvReorderCtrl.after]⟩
    rw [← map_cons, ← first] at result
    rw [result, rep.indicated]
    have window := b.inside x (by simp [first])
    refine Represents.settle waiting timer rep.wsize (rep.held_numbered x (by simp [first]))
      rep.numbered ?_
    intro y member
    have := b.inside y member
    omega

/-! ## What the buffer says about sequence numbers -/

/-- The second is ahead of the first, by at most half the sequence number space. -/
def InSequence (first second : RecvFrame) : Prop :=
  1 ≤ snDist first.seqNum second.seqNum ∧ snDist first.seqNum second.seqNum ≤ 2048

def RecvReorderCtrl.Windowed (ctrl : RecvReorderCtrl) : Prop :=
  (ctrl.pendingRecvframeQueue.Pairwise fun f g =>
    snDist ctrl.indicateSeq f.seqNum < snDist ctrl.indicateSeq g.seqNum) ∧
  ∀ f ∈ ctrl.pendingRecvframeQueue, 1 ≤ snDist ctrl.indicateSeq f.seqNum ∧
    snDist ctrl.indicateSeq f.seqNum < ctrl.wsizeB.toNat

theorem Represents.windowed (rep : Represents ctrl indicated b) (bounded : size ≤ 2048) :
    ctrl.Windowed := by
  constructor
  · rw [rep.pending, pairwise_map]
    apply (Buffer.sorted_of_chain b.held_chain).imp_of_mem
    intro x y inX inY before
    rw [rep.dist inX bounded, rep.dist inY bounded]
    omega
  · rw [rep.pending, rep.wsize]
    simp only [forall_mem_map]
    intro x member
    have window := b.inside x member
    rw [rep.dist member bounded]
    omega

theorem RecvReorderCtrl.Windowed.represents (windowed : ctrl.Windowed)
    (small : ctrl.indicateSeq.toNat < 4096) :
    ∃ b : Buffer RecvFrame ctrl.wsizeB.toNat 2048, Represents ctrl [] b := by
  obtain ⟨sorted, inside⟩ := windowed
  have width := ctrl.wsizeB.isLt
  have start : Residue ctrl.indicateSeq ctrl.indicateSeq.toNat := by
    unfold Residue
    omega
  -- a pending frame is put at its distance from the window start
  let held := ctrl.pendingRecvframeQueue.map fun f =>
    (ctrl.indicateSeq.toNat + snDist ctrl.indicateSeq f.seqNum, f)
  refine ⟨⟨ctrl.indicateSeq.toNat, [], held, ?_, by simp, ?_, by simp⟩, rfl, start, ?_, rfl, ?_⟩
  · rw [nil_append, isChain_map]
    refine List.IsChain.imp_of_mem_imp ?_ sorted.isChain
    intro f g inF inG before
    have := inside f inF
    have := inside g inG
    exact ⟨by dsimp only; omega, by dsimp only; omega⟩
  · simp only [held, forall_mem_map]
    intro f member
    have := inside f member
    omega
  · simp only [held, map_map]
    exact (map_id _).symm
  · simp only [Numbered, nil_append, held, forall_mem_map]
    exact fun f _ => start.add_dist (seqNum_lt f)

theorem Represents.inSequence (rep : Represents ctrl indicated b) :
    indicated.IsChain InSequence := by
  rw [rep.indicated, isChain_map]
  refine List.IsChain.imp_of_mem_imp ?_ (isChain_append.mp b.chain).1
  intro x y inX inY follows
  have numberedX := rep.numbered x (mem_append_left _ inX)
  have numberedY := rep.numbered y (mem_append_left _ inY)
  obtain ⟨before, near⟩ := follows
  unfold InSequence
  rw [numberedX.dist numberedY]
  omega

theorem Represents.forward {ctrl' : RecvReorderCtrl} {indicated' : List RecvFrame}
    {b' : Buffer RecvFrame size 2048} (rep : Represents ctrl indicated b)
    (rep' : Represents ctrl' indicated' b') (step : b.Step b') :
    snDist ctrl.indicateSeq ctrl'.indicateSeq ≤ 2048 := by
  have forward := step.forward
  have bounded := step.bounded
  rw [rep.start.dist rep'.start]
  omega

theorem recvIndicatepktReorder_init (reorders : Reorders ctrl prframe)
    (uninitialised : (consumeAbbaRspAck ctrl).indicateSeq = 0xFFFF) :
    recvIndicatepktReorder ctrl priv prframe = recvIndicatepktReorder
      { ctrl with recAbbaRspAck := false, indicateSeq := prframe.seqNum } priv prframe := by
  have cleared : { consumeAbbaRspAck ctrl with indicateSeq := prframe.seqNum } =
      { ctrl with recAbbaRspAck := false, indicateSeq := prframe.seqNum } := by
    unfold consumeAbbaRspAck
    cases flag : ctrl.recAbbaRspAck <;> simp [flag]
  rw [recvIndicatepktReorder, recvIndicatepktReorder, if_neg reorders.guard,
    if_neg (Reorders.guard (id reorders)), checkIndicateSeq_init priv uninitialised, cleared,
    @consumeAbbaRspAck_of_clear { ctrl with recAbbaRspAck := false, indicateSeq := _ } rfl]

theorem Represents.forget (rep : Represents ctrl indicated b) : Represents ctrl [] b.forget where
  wsize := rep.wsize
  start := rep.start
  pending := rep.pending
  indicated := rfl
  numbered := rep.held_numbered

/-- Each pending frame lies in the window that starts at the frame, or far enough behind the frame
to be handed up with it. -/
def Restartable (ctrl : RecvReorderCtrl) (prframe : RecvFrame) : Prop :=
  ∀ g ∈ ctrl.pendingRecvframeQueue,
    (1 ≤ snDist prframe.seqNum g.seqNum ∧ snDist prframe.seqNum g.seqNum ≤ ctrl.wsizeB.toNat) ∨
      2050 ≤ snDist prframe.seqNum g.seqNum

theorem Represents.restart_position (rep : Represents ctrl indicated b) (bounded : size < 256)
    (restartable : Restartable ctrl prframe) :
    ∃ p, Residue prframe.seqNum p ∧
      ∀ x ∈ b.held, x.1 ≠ p ∧ -2046 ≤ x.1 - p ∧ x.1 - p ≤ size := by
  have residue := rep.start.add_dist (seqNum_lt prframe)
  have circle := snDist_bounds ctrl.indicateSeq prframe.seqNum
  have far : ∀ x ∈ b.held, (1 ≤ snDist prframe.seqNum x.2.seqNum ∧
      snDist prframe.seqNum x.2.seqNum ≤ size) ∨ 2050 ≤ snDist prframe.seqNum x.2.seqNum := by
    intro x member
    have := restartable x.2 (by rw [rep.pending]; exact mem_map_of_mem member)
    rwa [rep.wsize] at this
  generalize snDist ctrl.indicateSeq prframe.seqNum = e at *
  -- past this distance the frame is nearer to the window from behind
  rcases le_or_gt e (2048 + size) with ahead | behind
  · refine ⟨b.next + e, residue, ?_⟩
    intro x member
    have window := b.inside x member
    have := far x member
    rw [residue.dist (rep.held_numbered x member)] at this
    omega
  · refine ⟨b.next + e - 4096, ?_, ?_⟩
    · unfold Residue at *
      omega
    · intro x member
      have window := b.inside x member
      have := far x member
      rw [residue.dist (rep.held_numbered x member)] at this
      omega

theorem restart_chain (prframe : RecvFrame) {p : ℤ} {l r : List (ℤ × RecvFrame)}
    (bounded : size < 256) (split : b.held = l ++ r) (before : ∀ x ∈ l, x.1 < p)
    (after : ∀ x ∈ r, p < x.1) (close : ∀ x ∈ b.held, -2046 ≤ x.1 - p ∧ x.1 - p ≤ size) :
    (l ++ (p, prframe) :: r).IsChain (Follows 2048) := by
  apply isChain_insert (split ▸ b.held_chain)
  · intro y last
    have member := mem_of_getLast? last
    have := close y (by simp [split, member])
    exact ⟨before y member, by dsimp only; omega⟩
  · intro z first
    have member := mem_of_mem_head? first
    have := close z (by simp [split, member])
    exact ⟨after z member, by dsimp only; omega⟩

theorem Represents.restart (rep : Represents ctrl indicated b) (priv : RecvCounters)
    (reorders : Reorders ctrl prframe) (ack : ctrl.recAbbaRspAck = true) (positive : 0 < size)
    (bounded : size < 256) (restartable : Restartable ctrl prframe) :
    let out := recvIndicatepktReorder ctrl priv prframe
    ∃ b' : Buffer RecvFrame size 2048, Represents out.ctrl out.indicated b' := by
  obtain ⟨p, residue, close⟩ := rep.restart_position bounded restartable
  -- taking the flag is the same as having started at the frame's own number
  have consumed : (consumeAbbaRspAck ctrl).indicateSeq = 0xFFFF := by simp [consumeAbbaRspAck, ack]
  rw [recvIndicatepktReorder_init priv reorders consumed]
  generalize restarted :
    ({ ctrl with recAbbaRspAck := false, indicateSeq := prframe.seqNum } : RecvReorderCtrl) = ctrl'
  have start' : Residue ctrl'.indicateSeq p := by simpa [← restarted] using residue
  have wsize' : (ctrl'.wsizeB.toNat : ℤ) = size := by simpa [← restarted] using rep.wsize
  have reorders' : Reorders ctrl' prframe := by simpa [← restarted, Reorders] using reorders
  have pending' : ctrl'.pendingRecvframeQueue = b.held.map Prod.snd := by
    simpa [← restarted] using rep.pending
  have consumed' : consumeAbbaRspAck ctrl' = ctrl' :=
    consumeAbbaRspAck_of_clear (by simp [← restarted])
  obtain ⟨next, priv', moved, checked⟩ :=
    checkIndicateSeq_ahead priv start' residue le_rfl (by omega) (by omega)
  rw [startAfter, if_pos rfl] at moved
  replace checked : checkIndicateSeq (consumeAbbaRspAck ctrl') priv prframe.seqNum =
      (true, { ctrl' with indicateSeq := next }, priv') := by rw [consumed', checked]
  have sorted := Buffer.sorted_of_chain b.held_chain
  rcases enqueueReorderRecvframe_spec b.held p prframe rep.held_numbered residue sorted
      (fun x member => by have := close x member; omega) with
    ⟨⟨x, member, same⟩, _⟩ | ⟨l, r, split, before, after, queued⟩
  · exact absurd same (close x member).1
  rw [← pending'] at queued
  obtain ⟨waiting, timer, result⟩ := recvIndicatepktReorder_queued reorders' checked queued
  have close' : ∀ x ∈ l ++ (p, prframe) :: r, -2046 ≤ x.1 - p ∧ x.1 - p ≤ size := by
    intro x member
    rcases mem_insert member with old | rfl
    · exact (close x (split ▸ old)).2
    · simpa using positive.le
  have chain := restart_chain prframe bounded split before after
    fun x member => (close x member).2
  -- the history is cut off: the new buffer starts out empty and takes the whole queue at once
  refine ⟨(Buffer.empty p).settle (p + 1) (l ++ (p, prframe) :: r) (by decide) chain (by
    simp [Buffer.empty]) ?_ ⟨(p, prframe), by simp, le_rfl⟩, ?_⟩
  · intro x member
    have := close' x member
    omega
  · rw [result]
    apply Represents.settle (b := Buffer.empty p) waiting timer wsize' moved
    · intro x member
      rcases mem_insert member with old | rfl
      · exact rep.held_numbered x (split ▸ old)
      · exact residue
    · intro x member
      have := close' x member
      omega

end Rtl88x2bu.Rx
