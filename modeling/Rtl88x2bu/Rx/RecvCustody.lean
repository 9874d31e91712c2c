import Rtl88x2bu.Lib.Custody
import Rtl88x2bu.Rx.DefragRuns
import Rtl88x2bu.Rx.RecvFunc

/-!
# Where the frames of the pool are

In every run of the receive path that frees no frame twice, each frame of the pool is on exactly one
list, once, and `free_recvframe_cnt` is the length of the free queue.
-/

namespace Rtl88x2bu.Rx

open List Function

variable (stations : StaTable) (sec : SecurityPriv)

/-! ## The places -/

/-- The places a frame can be in; the running call has those in `hand`. -/
inductive FramePlace
  | hand
  | freeQueue
  | swdec
  | defrag (addr : MacAddr)
  | reorder (ref : ReorderRef)
  deriving DecidableEq, Repr

def defragSlots (addr : MacAddr) : List ℕ :=
  (stations addr).elim [] fun psta => psta.defragQ.map RecvFrame.slot

def reorderSlots (ref : ReorderRef) : List ℕ :=
  (stations ref.sta).elim [] fun psta =>
    (psta.recvreorderCtrl ref.tid).pendingRecvframeQueue.map RecvFrame.slot

def RecvPath.held (s : RecvPath) (hand : List ℕ) : FramePlace → List ℕ
  | .hand => hand
  | .freeQueue => s.freeRecvQueue
  | .swdec => s.ucSwdecPendingQueue.map RecvFrame.slot
  | .defrag addr => defragSlots s.stations addr
  | .reorder ref => reorderSlots s.stations ref

structure RecvPath.Conserved (s : RecvPath) (hand : List ℕ) : Prop where
  places : Custody.Partition (List.range nrRecvframe) (s.held hand)
  counted : s.freeRecvframeCnt = s.freeRecvQueue.length

/-- Getting from `s` with `hand` in hand to `s'` with `hand'` conserves the frames, unless one was
freed twice. -/
structure Keeps (s : RecvPath) (hand : List ℕ) (s' : RecvPath) (hand' : List ℕ) : Prop where
  once : s'.freedTwice = false → s.freedTwice = false
  conserved : s'.freedTwice = false → s.Conserved hand → s'.Conserved hand'

section
variable {s s' s'' : RecvPath} {hand hand' hand'' : List ℕ}
variable (cr : Crypto) {slot : ℕ} {psta : StaInfo} {ref : ReorderRef}
variable (ans : Answers)

theorem Keeps.trans (first : Keeps s hand s' hand') (second : Keeps s' hand' s'' hand'') :
    Keeps s hand s'' hand'' where
  once clean := first.once (second.once clean)
  conserved clean start := second.conserved clean (first.conserved (second.once clean) start)

theorem Keeps.clean (same : s'.freedTwice = s.freedTwice)
    (conserved : s.Conserved hand → s'.Conserved hand') : Keeps s hand s' hand' where
  once clean := same ▸ clean
  conserved _ := conserved

theorem Keeps.refl : Keeps s hand s hand := .clean rfl id

theorem Keeps.unmoved (same : s'.freedTwice = s.freedTwice)
    (held : ∀ p, s'.held hand p = s.held hand p)
    (counted : s'.freeRecvframeCnt = s.freeRecvframeCnt) : Keeps s hand s' hand := by
  refine .clean same ?_
  intro kept
  have queue : s'.freeRecvQueue = s.freeRecvQueue := held .freeQueue
  refine ⟨?_, by rw [counted, queue, kept.counted]⟩
  rw [funext held]
  exact kept.places

theorem Keeps.countDrop (keeps : Keeps s hand s' hand') : Keeps s hand s'.countDrop hand' :=
  keeps.trans (.unmoved rfl (fun _ => rfl) rfl)

section

variable (s hand slot)

theorem defragSlots_unlink (addr : MacAddr) :
    defragSlots (fun addr => (stations addr).map (StaInfo.unlink slot)) addr =
      (defragSlots stations addr).filter (· ≠ slot) := by
  cases found : stations addr with
  | none => simp [defragSlots, found]
  | some psta => simp [defragSlots, found, StaInfo.unlink, filter_map, comp_def]

theorem reorderSlots_unlink (ref : ReorderRef) :
    reorderSlots (fun addr => (stations addr).map (StaInfo.unlink slot)) ref =
      (reorderSlots stations ref).filter (· ≠ slot) := by
  cases found : stations ref.sta with
  | none => simp [reorderSlots, found]
  | some psta => simp [reorderSlots, found, StaInfo.unlink, filter_map, comp_def]

theorem held_listDelete (p : FramePlace) :
    (s.listDelete slot).held (hand.filter (· ≠ slot)) p = (s.held hand p).filter (· ≠ slot) := by
  cases p with
  | hand => rfl
  | freeQueue => rfl
  | swdec => simp [RecvPath.held, RecvPath.listDelete, filter_map, comp_def]
  | defrag addr => exact defragSlots_unlink s.stations slot addr
  | reorder ref => exact reorderSlots_unlink s.stations slot ref

theorem held_rtwFreeRecvframe :
    (s.rtwFreeRecvframe slot).held (hand.filter (· ≠ slot)) =
      Custody.relocate .freeQueue slot (s.held hand) := by
  funext p
  rw [Custody.relocate, ← held_listDelete]
  cases p <;> simp [RecvPath.held, RecvPath.rtwFreeRecvframe]

end

theorem RecvPath.Conserved.free (kept : s.Conserved hand) (member : slot ∈ List.range nrRecvframe)
    (notFree : slot ∉ s.freeRecvQueue) :
    (s.rtwFreeRecvframe slot).Conserved (hand.filter (· ≠ slot)) where
  places := by
    rw [held_rtwFreeRecvframe]
    exact kept.places.relocate _ member
  counted := by
    have queue : (s.rtwFreeRecvframe slot).freeRecvQueue =
        s.freeRecvQueue.filter (· ≠ slot) ++ [slot] := rfl
    rw [queue, Custody.filter_ne_self notFree, length_append, ← kept.counted]
    rfl

theorem freedTwice_rtwFreeRecvframe :
    (s.rtwFreeRecvframe slot).freedTwice = false ↔
      s.freedTwice = false ∧ slot ∉ s.freeRecvQueue := by
  rw [RecvPath.rtwFreeRecvframe, Bool.or_eq_false_iff, decide_eq_false_iff_not]

/-- A frame that is freed for the second time ends the obligation. -/
theorem Keeps.freedTwice (free : slot ∈ s'.freeRecvQueue) :
    Keeps s hand (s'.rtwFreeRecvframe slot) hand' where
  once clean := absurd free (freedTwice_rtwFreeRecvframe.mp clean).2
  conserved clean := absurd free (freedTwice_rtwFreeRecvframe.mp clean).2

theorem stations_of_lookup {stations : StaTable} {target : Option ReorderRef}
    (found : (target.bind fun ref => (stations ref.sta).map (ref, ·)) = some (ref, psta)) :
    stations ref.sta = some psta := by
  obtain ⟨r, _, here⟩ := Option.bind_eq_some_iff.mp found
  obtain ⟨entry, known, pair⟩ := Option.map_eq_some_iff.mp here
  cases pair
  exact known

/-- Station entries may change in any way that leaves the frames on their queues alone. -/
def RecvPath.Allows (s : RecvPath) : RecvEvent → Prop
  | .stations table => (∀ addr, defragSlots table addr = defragSlots s.stations addr) ∧
      ∀ ref, reorderSlots table ref = reorderSlots s.stations ref
  | _ => True

end

/-- The path as `_rtw_init_recv_priv` leaves it: every frame is on the free queue. -/
structure RecvPath.Idle (s : RecvPath) : Prop where
  free : s.freeRecvQueue = List.range nrRecvframe
  counted : s.freeRecvframeCnt = nrRecvframe
  swdec : s.ucSwdecPendingQueue = []
  defrag : ∀ addr, defragSlots s.stations addr = []
  reorder : ∀ ref, reorderSlots s.stations ref = []

theorem RecvPath.Idle.conserved {s : RecvPath} (idle : s.Idle) : s.Conserved [] := by
  have elsewhere {p : FramePlace} (other : p ≠ .freeQueue) : s.held [] p = [] := by
    cases p with
    | hand => rfl
    | freeQueue => exact absurd rfl other
    | swdec => simp [RecvPath.held, idle.swdec]
    | defrag addr => exact idle.defrag addr
    | reorder ref => exact idle.reorder ref
  have atFree : s.held [] .freeQueue = List.range nrRecvframe := idle.free
  constructor
  case counted => rw [idle.counted, idle.free, length_range]
  case places =>
    constructor
    case once =>
      intro p
      by_cases free : p = .freeQueue
      · rw [free, atFree]
        exact nodup_range
      · rw [elsewhere free]
        exact nodup_nil
    case apart =>
      intro p q different
      by_cases free : p = .freeQueue
      · rw [elsewhere (p := q) (fun same => different (free.trans same.symm))]
        exact disjoint_nil_right _
      · rw [elsewhere free]
        exact disjoint_nil_left _
    case covers =>
      intro slot
      constructor
      · intro member
        exact ⟨.freeQueue, by rwa [atFree]⟩
      · rintro ⟨p, member⟩
        by_cases free : p = .freeQueue
        · rwa [free, atFree] at member
        · rw [elsewhere free] at member
          cases member

def accept : Answers where
  zmalloc _ := true
  otherHdr _ := (.fail, none)
  mpdu _ := true
  mpIndicates _ := false

def ownAddr : MacAddr := macAt [2, 0, 0, 0, 0, 1] 0
def apAddr : MacAddr := macAt [2, 0, 0, 0, 0, 2] 0

def apData (flags seqCtrl0 seqCtrl1 : UInt8) : RecvFrame where
  rxData := [0x88, flags, 0, 0] ++ ownAddr.toList ++ apAddr.toList ++ [2, 0, 0, 0, 0, 3] ++
    [seqCtrl0, seqCtrl1, 0, 0] ++ List.replicate 16 0
  tailroom := 64

def associated : RecvPath where
  mode := { station := true, asoc := true, macAddr := ownAddr }
  sec := sec
  stations addr := if addr = apAddr then
      some { dot118021XPrivacy := .aes, recvreorderCtrl := fun _ => { enable := true } }
    else none
  freeRecvQueue := List.range nrRecvframe
  freeRecvframeCnt := nrRecvframe

end Rtl88x2bu.Rx
