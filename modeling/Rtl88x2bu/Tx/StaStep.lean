import Rtl88x2bu.Lib.Table
import Rtl88x2bu.Tx.PowerSave

/-!
# Steps of one station

What an operation of the transmit path can do to one station, and the invariant that it keeps.
-/

namespace Rtl88x2bu.Tx

open List
open Rx (MacAddr isMcast staAddr bcAddr eq_of_staAddr)

variable (psta : StaInfo)

/-- A frame for the station with address `addr`, which is also noted in it. -/
def XmitFrame.OwnedBy (f : XmitFrame) (addr : MacAddr) : Prop :=
  staAddr f.attrib.ra = addr ∧ f.attrib.psta = some addr

theorem XmitFrame.OwnedBy.isMcast_iff {f : XmitFrame} {addr : MacAddr} (owned : f.OwnedBy addr) :
    isMcast f.attrib.ra = true ↔ addr = bcAddr := by
  constructor
  · intro group
    rw [← owned.1, staAddr, if_pos group]
  · intro broadcast
    by_contra unicast
    have found := owned.1
    rw [staAddr, if_neg unicast] at found
    rw [found, broadcast] at unicast
    exact unicast (by decide)

namespace StaInfo

def setServq (q : HwQueue) (servq : TxServq) : StaInfo :=
  { psta with txservq := Function.update psta.txservq q servq }

/-- A frame at the end of a transmit queue. -/
def push (q : HwQueue) (f : XmitFrame) : StaInfo :=
  psta.setServq q ⟨(psta.txservq q).staPending ++ [f], (psta.txservq q).qcnt + 1⟩

/-- A frame at the end of the sleep queue; the broadcast station has no delivery enabled ones. -/
def bufferAt (addr : MacAddr) (f : XmitFrame) : StaInfo :=
  if addr = bcAddr then psta.buffer f else psta.bufferUnicast f

/-- All of `frames` at the end of the sleep queue, and nothing left in the transmit queue. -/
def parkAll (addr : MacAddr) (q : HwQueue) (frames : List XmitFrame) : StaInfo :=
  { psta.setServq q ⟨[], (psta.txservq q).qcnt - frames.length⟩ with
    sleepQ := psta.sleepQ ++ frames.map XmitFrame.untrigger
    sleepqLen := psta.sleepqLen + UInt32.ofNat frames.length
    sleepqAcLen := psta.sleepqAcLen + UInt32.ofNat
      (if addr = bcAddr then 0 else frames.countP fun f => psta.deliveryEnabled f.ac) }

/-- The sleep queue without one frame. -/
def unbuffer (left : List XmitFrame) (counted : Bool) : StaInfo :=
  { psta with
    sleepQ := left
    sleepqLen := psta.sleepqLen - 1
    sleepqAcLen := if counted then psta.sleepqAcLen - 1 else psta.sleepqAcLen }

end StaInfo

/-- The kinds of steps. `park` moves a transmit queue to the sleep queue, `clean` if that held no
frame of the category; `uncounted` releases a trigger enabled frame without counting it. -/
inductive StaMove
  | arrive
  | depart
  | keep
  | park (clean : Bool)
  | uncounted
  | flush
  | join
  | mgmt
  deriving DecidableEq

/-- The steps. Those that queue or release a frame say whose it is. -/
inductive StaStep (cfg : ApConfig) (addr : MacAddr) : StaMove → StaInfo → StaInfo → Prop
  | push {psta : StaInfo} (f : XmitFrame) (asoc : psta.asoc = true) (owned : f.OwnedBy addr) :
      StaStep cfg addr .arrive psta (psta.push (.ac f.ac) f)
  | buffer {psta : StaInfo} (f : XmitFrame) (asoc : psta.asoc = true) (owned : f.OwnedBy addr)
      (dozes : addr ≠ bcAddr → psta.sleep = true) :
      StaStep cfg addr .arrive psta (psta.bufferAt addr f)
  | pull {psta : StaInfo} (ac : Ac) (taken rest : List XmitFrame)
      (waiting : (psta.txservq (.ac ac)).staPending = taken ++ rest) :
      StaStep cfg addr .depart psta
        (psta.setServq (.ac ac) ⟨rest, (psta.txservq (.ac ac)).qcnt - taken.length⟩)
  | park {psta : StaInfo} (ac : Ac) (clean : Bool) (dozes : addr ≠ bcAddr → psta.sleep = true)
      (unmixed : clean = true → ∀ g ∈ psta.sleepQ, g.ac ≠ ac) :
      StaStep cfg addr (.park clean) psta
        (psta.parkAll addr (.ac ac) (psta.txservq (.ac ac)).staPending)
  | release {psta : StaInfo} {label : StaMove} (kept rest : List XmitFrame) (f : XmitFrame)
      (counted mdata eosp : Bool) (buffered : psta.sleepQ = kept ++ f :: rest)
      (passed : ∀ g ∈ kept, g.ac ≠ f.ac)
      (kind : label = if counted = psta.triggerEnabled f.ac then .keep else .uncounted) :
      StaStep cfg addr label psta
        ((psta.unbuffer (kept ++ rest) counted).push (.ac f.ac) (f.release mdata eosp))
  | doze {psta : StaInfo} : StaStep cfg addr .keep psta { psta with sleep := true }
  | wake {psta : StaInfo} (empty : psta.sleepQ = []) :
      StaStep cfg addr .keep psta { psta with sleep := false }
  | reset {psta : StaInfo} (empty : psta.sleepQ = []) :
      StaStep cfg addr .keep psta { psta with sleepqLen := 0 }
  | mgmt {psta : StaInfo} (servq : TxServq) (queue : List XmitFrame) (len : UInt32)
      (counts : psta.mgmtSleepqLen = UInt32.ofNat psta.mgmtSleepQ.length →
        len = UInt32.ofNat queue.length) :
      StaStep cfg addr .mgmt psta
        { psta.setServq .mgmt servq with mgmtSleepQ := queue, mgmtSleepqLen := len }
  | flushQueue {psta : StaInfo} (q : HwQueue) : StaStep cfg addr .flush psta (psta.setServq q {})
  | flushSleep {psta : StaInfo} : StaStep cfg addr .flush psta
      { psta with sleepQ := [], sleepqLen := 0, mgmtSleepQ := [], mgmtSleepqLen := 0 }
  | associate {psta : StaInfo} (aid : ℕ) (qosInfo : BitVec 8) (joins : psta.asoc = false)
      (pos : 0 < aid) (le : aid ≤ cfg.maxAid) :
      StaStep cfg addr .join psta { psta with
        aid
        asoc := true
        uapsd := uapsdOf qosInfo
        hasLegacyAc := qosInfo &&& 0xf ≠ 0xf }

/-- What holds of every station in a run. -/
structure StaInfo.Sound (cfg : ApConfig) (addr : MacAddr) (psta : StaInfo) : Prop where
  pending : ∀ ac, ∀ f ∈ (psta.txservq (.ac ac)).staPending, f.OwnedBy addr ∧ f.ac = ac
  qcnt : ∀ ac, (psta.txservq (.ac ac)).qcnt = (psta.txservq (.ac ac)).staPending.length
  buffered : ∀ f ∈ psta.sleepQ, f.OwnedBy addr
  idle : psta.asoc = false → (∀ ac, (psta.txservq (.ac ac)).staPending = []) ∧ psta.sleepQ = []
  dozes : addr ≠ bcAddr → psta.sleepQ ≠ [] → psta.sleep = true
  sleepqLen : psta.sleepqLen = UInt32.ofNat psta.sleepQ.length
  mgmtSleepqLen : psta.mgmtSleepqLen = UInt32.ofNat psta.mgmtSleepQ.length
  aid_le : psta.aid ≤ cfg.maxAid
  aid_pos : addr ≠ bcAddr → psta.asoc = true → 0 < psta.aid
  uapsd : ∀ ac, psta.uapsd ac = 0 ∨ psta.uapsd ac = 3
  broadcast : addr = bcAddr → psta.asoc = true ∧ psta.aid = 0 ∧ ∀ ac, psta.uapsd ac = 0

section
variable {cfg : ApConfig} {addr : MacAddr} {psta : StaInfo}

@[simp]
theorem StaInfo.setServq_txservq (psta : StaInfo) (q r : HwQueue) (servq : TxServq) :
    (psta.setServq q servq).txservq r = if r = q then servq else psta.txservq r := by
  simp only [setServq, Function.update_apply]

@[simp]
theorem StaInfo.setServq_sleepQ (psta : StaInfo) (q : HwQueue) (servq : TxServq) :
    (psta.setServq q servq).sleepQ = psta.sleepQ := rfl

theorem StaStep.mgmtSleep (queue : List XmitFrame) (len : UInt32)
    (counts : psta.mgmtSleepqLen = UInt32.ofNat psta.mgmtSleepQ.length →
      len = UInt32.ofNat queue.length) :
    StaStep cfg addr .mgmt psta { psta with mgmtSleepQ := queue, mgmtSleepqLen := len } := by
  have same : psta.setServq .mgmt (psta.txservq .mgmt) = psta := by
    rw [StaInfo.setServq, Function.update_eq_self]
  have step : StaStep cfg addr .mgmt psta { psta.setServq .mgmt (psta.txservq .mgmt) with
      mgmtSleepQ := queue, mgmtSleepqLen := len } := .mgmt _ _ _ counts
  rwa [same] at step

theorem ofNat_succ_sub_one (n : ℕ) : UInt32.ofNat (n + 1) - 1 = UInt32.ofNat n := by
  rw [UInt32.ofNat_add]
  exact UInt32.add_sub_cancel _ _

namespace StaInfo.Sound

variable (sound : psta.Sound cfg addr)

include sound
variable {f : XmitFrame}

theorem asoc_of_buffered (buffered : f ∈ psta.sleepQ) : psta.asoc = true := by
  by_contra left
  exact ne_nil_of_mem buffered (sound.idle (Bool.not_eq_true _ ▸ left)).2

theorem asoc_of_pending {ac : Ac} (waits : f ∈ (psta.txservq (.ac ac)).staPending) :
    psta.asoc = true := by
  by_contra left
  exact ne_nil_of_mem waits ((sound.idle (Bool.not_eq_true _ ▸ left)).1 ac)

theorem setServq {ac : Ac} {servq : TxServq}
    (owned : ∀ f ∈ servq.staPending, f.OwnedBy addr ∧ f.ac = ac)
    (qcnt : servq.qcnt = servq.staPending.length)
    (idle : psta.asoc = false → servq.staPending = []) :
    (psta.setServq (.ac ac) servq).Sound cfg addr := by
  refine { sound with pending := ?_, qcnt := ?_, idle := ?_ }
  · intro r f waits
    rw [setServq_txservq] at waits
    split at waits
    next same =>
      cases same
      exact owned f waits
    · exact sound.pending r f waits
  · intro r
    rw [setServq_txservq]
    split
    · exact qcnt
    · exact sound.qcnt r
  · intro left
    refine ⟨fun r => ?_, (sound.idle left).2⟩
    rw [setServq_txservq]
    split
    · exact idle left
    · exact (sound.idle left).1 r

theorem setMgmt (servq : TxServq) : (psta.setServq .mgmt servq).Sound cfg addr := by
  have apart : ∀ ac, (psta.setServq .mgmt servq).txservq (.ac ac) = psta.txservq (.ac ac) := by
    intro ac
    rw [setServq_txservq, if_neg HwQueue.noConfusion]
  refine { sound with pending := fun ac => ?_, qcnt := fun ac => ?_, idle := fun left => ?_ }
  · exact apart ac ▸ sound.pending ac
  · exact apart ac ▸ sound.qcnt ac
  · exact ⟨fun ac => apart ac ▸ (sound.idle left).1 ac, (sound.idle left).2⟩

theorem push (asoc : psta.asoc = true) (owned : f.OwnedBy addr) :
    (psta.push (.ac f.ac) f).Sound cfg addr := by
  apply sound.setServq
  · exact forall_mem_append.mpr
      ⟨sound.pending f.ac, forall_mem_singleton.mpr ⟨owned, rfl⟩⟩
  · rw [sound.qcnt, length_append]
    rfl
  · intro left
    rw [asoc] at left
    cases left

theorem setSleepQ {queue : List XmitFrame} {len acLen : UInt32}
    (owned : ∀ f ∈ queue, f.OwnedBy addr) (counts : len = UInt32.ofNat queue.length)
    (idle : psta.asoc = false → queue = [])
    (dozes : addr ≠ bcAddr → queue ≠ [] → psta.sleep = true) :
    { psta with sleepQ := queue, sleepqLen := len, sleepqAcLen := acLen }.Sound cfg addr :=
  { sound with
    buffered := owned
    idle := fun left => ⟨(sound.idle left).1, idle left⟩
    dozes := dozes
    sleepqLen := counts }

theorem bufferAt (asoc : psta.asoc = true) (owned : f.OwnedBy addr)
    (dozes : addr ≠ bcAddr → psta.sleep = true) : (psta.bufferAt addr f).Sound cfg addr := by
  have queue : ∀ acLen, { psta with
      sleepQ := psta.sleepQ ++ [f]
      sleepqLen := psta.sleepqLen + 1
      sleepqAcLen := acLen }.Sound cfg addr := by
    intro acLen
    refine sound.setSleepQ ?_ ?_ ?_ fun unicast _ => dozes unicast
    · exact forall_mem_append.mpr ⟨sound.buffered, forall_mem_singleton.mpr owned⟩
    · rw [sound.sleepqLen, length_append, UInt32.ofNat_add]
      rfl
    · intro left
      rw [asoc] at left
      cases left
  rw [StaInfo.bufferAt]
  split <;> exact queue _

theorem parkAll (ac : Ac) (dozes : addr ≠ bcAddr → psta.sleep = true) :
    (psta.parkAll addr (.ac ac) (psta.txservq (.ac ac)).staPending).Sound cfg addr := by
  have emptied : (psta.setServq (.ac ac) ⟨[], (psta.txservq (.ac ac)).qcnt -
      (psta.txservq (.ac ac)).staPending.length⟩).Sound cfg addr := by
    refine sound.setServq (forall_mem_nil _) ?_ fun _ => rfl
    rw [sound.qcnt, sub_self]
    rfl
  refine emptied.setSleepQ ?_ ?_ ?_ fun unicast _ => dozes unicast
  · refine forall_mem_append.mpr ⟨sound.buffered, fun g parked => ?_⟩
    obtain ⟨f, waits, rfl⟩ := mem_map.mp parked
    exact (sound.pending ac f waits).1
  · rw [length_append, length_map, UInt32.ofNat_add, ← sound.sleepqLen]
  · intro left
    obtain ⟨none, empty⟩ := sound.idle left
    rw [none ac]
    exact congrArg (· ++ []) empty

theorem release {kept rest : List XmitFrame} (counted mdata eosp : Bool)
    (buffered : psta.sleepQ = kept ++ f :: rest) :
    ((psta.unbuffer (kept ++ rest) counted).push (.ac f.ac) (f.release mdata eosp)).Sound
      cfg addr := by
  have member : f ∈ psta.sleepQ := buffered ▸ mem_append_right _ mem_cons_self
  have asoc := sound.asoc_of_buffered member
  have shorter : (psta.unbuffer (kept ++ rest) counted).Sound cfg addr := by
    refine sound.setSleepQ ?_ ?_ ?_ fun unicast _ => ?_
    · intro g left
      refine sound.buffered g (buffered ▸ ?_)
      rw [mem_append] at left ⊢
      exact left.imp id (mem_cons_of_mem f)
    · rw [sound.sleepqLen, buffered]
      simp only [length_append, length_cons, ← Nat.add_assoc]
      exact ofNat_succ_sub_one _
    · intro left
      rw [asoc] at left
      cases left
    · exact sound.dozes unicast (ne_nil_of_mem member)
  have freed : (f.release mdata eosp).OwnedBy addr := sound.buffered f member
  exact shorter.push asoc freed

end StaInfo.Sound

theorem uapsdOf_cases (qosInfo : BitVec 8) (ac : Ac) :
    uapsdOf qosInfo ac = 0 ∨ uapsdOf qosInfo ac = 3 := by
  cases ac <;> exact (ite_eq_or_eq _ _ _).symm

/-- Every step keeps a station sound. -/
theorem StaStep.sound {label : StaMove} {psta' : StaInfo} (step : StaStep cfg addr label psta psta')
    (sound : psta.Sound cfg addr) : psta'.Sound cfg addr := by
  cases step with
  | push f asoc owned => exact sound.push asoc owned
  | buffer f asoc owned dozes => exact sound.bufferAt asoc owned dozes
  | pull ac taken rest waiting =>
    have owned := sound.pending ac
    rw [waiting] at owned
    refine sound.setServq (forall_mem_append.mp owned).2 ?_ fun left => ?_
    · rw [sound.qcnt, waiting, length_append]
      push_cast
      omega
    · have none := (sound.idle left).1 ac
      rw [waiting] at none
      exact (append_eq_nil_iff.mp none).2
  | park ac clean dozes _ => exact sound.parkAll ac dozes
  | release kept rest f counted mdata eosp buffered _ _ =>
    exact sound.release counted mdata eosp buffered
  | doze => exact { sound with dozes := fun _ _ => rfl }
  | wake empty => exact { sound with dozes := fun _ some => absurd empty some }
  | reset empty => exact { sound with sleepqLen := by rw [empty]; rfl }
  | mgmt servq queue len counts =>
    exact { sound.setMgmt servq with mgmtSleepqLen := counts sound.mgmtSleepqLen }
  | flushQueue q =>
    cases q with
    | ac ac => exact sound.setServq (forall_mem_nil _) rfl fun _ => rfl
    | mgmt => exact sound.setMgmt _
  | flushSleep =>
    exact { sound with
      buffered := forall_mem_nil _
      idle := fun left => ⟨(sound.idle left).1, rfl⟩
      dozes := fun _ some => absurd rfl some
      sleepqLen := rfl
      mgmtSleepqLen := rfl }
  | associate aid qosInfo joins pos le =>
    refine { sound with
      idle := nofun
      aid_le := le
      aid_pos := fun _ _ => pos
      uapsd := uapsdOf_cases qosInfo
      broadcast := fun broadcast => ?_ }
    rw [(sound.broadcast broadcast).1] at joins
    cases joins

end

end Rtl88x2bu.Tx
