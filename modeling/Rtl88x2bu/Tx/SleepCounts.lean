import Rtl88x2bu.Tx.Runs

/-!
# Counts of the sleep queue

Every operation that moves a frame counts it in `sleepq_len` and `sleepq_ac_len`, except the answer
to a PS-Poll, which counts it in `sleepq_len` only.
-/

namespace Rtl88x2bu.Tx

open List Option
open Rx (MacAddr staAddr bcAddr)

/-- The counts of a station, which are 32 bits wide, say what is in its sleep queue. -/
structure StaInfo.Counted (psta : StaInfo) : Prop where
  sleepqLen : psta.sleepqLen = UInt32.ofNat psta.sleepQ.length
  sleepqAcLen : psta.sleepqAcLen =
    UInt32.ofNat (psta.sleepQ.countP fun f => psta.deliveryEnabled f.ac)

section
variable {cfg : ApConfig} {addr : MacAddr} {psta psta' : StaInfo}

theorem StaInfo.Sound.trigger_eq_delivery (sound : psta.Sound cfg addr) (ac : Ac) :
    psta.triggerEnabled ac = psta.deliveryEnabled ac := by
  rw [triggerEnabled, deliveryEnabled]
  rcases sound.uapsd ac with none | both
  · rw [none]
    rfl
  · rw [both]
    rfl

theorem StaInfo.Sound.acCount_eq (sound : psta.Sound cfg addr) (frames : List XmitFrame) :
    (if addr = bcAddr then 0 else frames.countP fun f => psta.deliveryEnabled f.ac) =
      frames.countP fun f => psta.deliveryEnabled f.ac := by
  split
  next broadcast =>
    symm
    rw [countP_eq_zero]
    intro f _
    rw [deliveryEnabled, (sound.broadcast broadcast).2.2]
    decide
  · rfl

theorem sub_one_ne (x : UInt32) : x - 1 ≠ x := by simp

theorem ofNat_succ_ne (n : ℕ) : UInt32.ofNat (n + 1) ≠ UInt32.ofNat n := fun same =>
  sub_one_ne _ ((ofNat_succ_sub_one n).trans same.symm)

theorem StaInfo.Counted.release_iff (counted : psta.Counted) {kept rest : List XmitFrame}
    {f : XmitFrame} (buffered : psta.sleepQ = kept ++ f :: rest) (count mdata eosp : Bool) :
    ((psta.unbuffer (kept ++ rest) count).push (.ac f.ac) (f.release mdata eosp)).Counted ↔
      count = psta.deliveryEnabled f.ac := by
  have len : psta.sleepqLen - 1 = UInt32.ofNat (kept ++ rest).length := by
    rw [counted.sleepqLen, buffered]
    simp only [length_append, length_cons, ← Nat.add_assoc]
    exact ofNat_succ_sub_one _
  have acLen : psta.sleepqAcLen = UInt32.ofNat ((kept ++ rest).countP
      (fun f => psta.deliveryEnabled f.ac) + if psta.deliveryEnabled f.ac then 1 else 0) := by
    rw [counted.sleepqAcLen, buffered, countP_append, countP_cons, countP_append,
      Nat.add_assoc]
  set n := (kept ++ rest).countP fun f => psta.deliveryEnabled f.ac
  have same :
      ((psta.unbuffer (kept ++ rest) count).push (.ac f.ac) (f.release mdata eosp)).Counted ↔
      (if count then psta.sleepqAcLen - 1 else psta.sleepqAcLen) = UInt32.ofNat n :=
    ⟨fun counted => counted.sleepqAcLen, fun acLen => ⟨len, acLen⟩⟩
  rw [same, acLen]
  cases count <;> cases psta.deliveryEnabled f.ac
  · exact iff_of_true rfl rfl
  · exact iff_of_false (ofNat_succ_ne n) nofun
  · exact iff_of_false (sub_one_ne (UInt32.ofNat n)) nofun
  · exact iff_of_true (ofNat_succ_sub_one n) rfl

theorem StaStep.counted {label : StaMove} (step : StaStep cfg addr label psta psta')
    (counts : label ≠ .uncounted ∧ label ≠ .flush) (sound : psta.Sound cfg addr)
    (counted : psta.Counted) : psta'.Counted := by
  cases step with
  | push f => exact ⟨counted.sleepqLen, counted.sleepqAcLen⟩
  | buffer f =>
    rw [StaInfo.bufferAt_eq, sound.acCount_eq]
    refine ⟨?_, ?_⟩
    · rw [counted.sleepqLen, length_append, UInt32.ofNat_add]
      rfl
    · rw [counted.sleepqAcLen, ← UInt32.ofNat_add, ← countP_append]
      rfl
  | pull => exact ⟨counted.sleepqLen, counted.sleepqAcLen⟩
  | park ac =>
    rw [StaInfo.parkAll, sound.acCount_eq]
    refine ⟨?_, ?_⟩
    · rw [counted.sleepqLen, length_append, length_map, UInt32.ofNat_add]
    · rw [counted.sleepqAcLen, ← UInt32.ofNat_add, countP_append, countP_map]
      rfl
  | release kept rest f count mdata eosp buffered passed kind =>
    rw [counted.release_iff buffered, ← sound.trigger_eq_delivery]
    by_contra differs
    rw [if_neg differs] at kind
    exact counts.1 kind
  | doze => exact ⟨counted.sleepqLen, counted.sleepqAcLen⟩
  | wake => exact ⟨counted.sleepqLen, counted.sleepqAcLen⟩
  | reset empty => exact ⟨by rw [empty]; rfl, counted.sleepqAcLen⟩
  | mgmt => exact ⟨counted.sleepqLen, counted.sleepqAcLen⟩
  | flushQueue => exact absurd rfl counts.2
  | flushSleep => exact absurd rfl counts.2
  | associate aid qosInfo joins =>
    have empty := (sound.idle joins).2
    refine ⟨counted.sleepqLen, ?_⟩
    have := counted.sleepqAcLen
    rw [empty] at this ⊢
    exact this

end

def TxEvent.PollsUapsd (cfg : ApConfig) (s : TxState) : TxEvent → Prop
  | .psPoll addr aid priority => Tx.PollsUapsd cfg s addr aid priority
  | _ => False

/-- The event is not a flush of a station that stays: that one leaves `sleepq_ac_len` as it is. -/
def TxEvent.NotFlush : TxEvent → Prop
  | .flushXmit _ => False
  | _ => True

def TxState.SleepqCounted (s : TxState) : Prop :=
  Table.All (fun _ psta => psta.Counted) s.stations

section
variable {cfg : ApConfig} {env : XmitEnv} {hal : HalUsb} {r : TxRun}

theorem TxEvent.labels_counts {s : TxState} {e : TxEvent} {a : MacAddr} {label : StaMove}
    (ok : e.labels cfg s a label) (good : ¬ e.PollsUapsd cfg s) (kept : e.NotFlush) :
    label ≠ .uncounted ∧ label ≠ .flush := by
  constructor
  · rintro rfl
    cases e <;> simp [labels, PollsUapsd, stopLabels, wakeupLabels, ownLabels] at ok good
    all_goals grind
  · rintro rfl
    cases e <;> simp [labels, NotFlush, stopLabels, wakeupLabels, ownLabels] at ok kept

theorem recvPsPoll_uncounted {addr : MacAddr} {aid : ℕ} {priority : BitVec 8} {s : TxState}
    (sound : s.Sound cfg) (counted : s.SleepqCounted) (polls : PollsUapsd cfg s addr aid priority) :
    ¬ (recvPsPoll cfg s addr aid priority).SleepqCounted := by
  obtain ⟨psta, f, rest, found, rfl, legacy, sleep, isSet, queue, enabled⟩ := polls
  have buffered : s.sleepQ addr = [] ++ f :: rest := (TxState.sleepQ_of_some found).trans queue
  obtain ⟨psta', mdata, eosp, found', -, stations, -⟩ :=
    releaseFrame_stations (fun _ => false) sound buffered
  cases found.symm.trans found'
  have released : (recvPsPoll cfg s addr psta.aid priority).stations =
      (releaseFrame addr (fun _ => false) s f ([] ++ rest)).stations := by
    simp only [recvPsPoll, found, legacy, sleep, isSet, queue, ne_eq, not_true_eq_false, if_false,
      if_true, Bool.false_eq_true, Bool.and_self, nil_append]
    split <;> rfl
  intro after
  have there := after addr _ (by
    rw [released, stations, TxState.stations_modifySta, if_pos rfl, found, map_some])
  have front : psta.sleepQ = [] ++ f :: rest := queue
  have same := ((counted addr psta found).release_iff front _ _ _).mp there
  rw [← (sound addr psta found).trigger_eq_delivery, enabled] at same
  cases same

theorem step_sleepqCounted_iff (e : TxEvent) (kept : e.NotFlush) (sound : r.st.Sound cfg)
    (counted : r.st.SleepqCounted) :
    (r.step cfg env hal e).st.SleepqCounted ↔ ¬ e.PollsUapsd cfg r.st := by
  constructor
  · intro after bad
    cases e with
    | psPoll addr aid priority => exact recvPsPoll_uncounted sound counted bad after
    | _ => exact bad
  · intro good
    refine step_all e sound counted (fun _ _ => ⟨rfl, rfl⟩) ?_
    intro a label psta psta' ok step sound counted
    refine step.counted ?_ sound counted
    rcases ok with ok | rfl
    · exact TxEvent.labels_counts ok good kept
    · exact ⟨nofun, nofun⟩

theorem start_sleepqCounted : TxRun.start.st.SleepqCounted := by
  intro a psta found
  obtain ⟨-, rfl⟩ := start_stations found
  exact ⟨rfl, rfl⟩

variable (cfg env hal) in
/-- In a run in which no queue of a station that stays is flushed, the counts of all stations are
right in every state exactly if no PS-Poll is answered with a frame of an enabled category. -/
theorem sleepq_counted_iff (events : List TxEvent) (kept : ∀ e ∈ events, e.NotFlush) :
    Run.Always (TxRun.step cfg env hal) (fun r => r.st.SleepqCounted) TxRun.start events ↔
      Run.Allows (TxRun.step cfg env hal) (fun r e => ¬ e.PollsUapsd cfg r.st) TxRun.start
        events :=
  Run.always_iff_allows (·.st.Consistent cfg) (Run.allows_of_forall kept _) start_consistent
    (fun _ e consistent _ _ _ => step_consistent e consistent)
    (fun _ e consistent kept counted => step_sleepqCounted_iff e kept consistent.sound counted)
    start_sleepqCounted

end

def mixedDoze : List TxEvent :=
  [.auth someSta, .assoc someSta 1, .stop someSta, .xmit (frameTo someSta 0 1),
    .xmit (frameTo someSta 6 2)]

theorem sleepq_counted_iff_mixed :
    Run.Always (TxRun.step smallAp smallEnv {}) (fun r => r.st.SleepqCounted) TxRun.start
      (mixedDoze ++ [.psPoll someSta 1 0, .deliver someSta]) := by
  refine (sleepq_counted_iff smallAp smallEnv {} _ ?_).mpr ?_
  · simp [mixedDoze, TxEvent.NotFlush]
  · refine ⟨id, id, id, id, id, ?_, id, trivial⟩
    rintro ⟨psta, f, rest, found, -, -, -, -, queue, enabled⟩
    have seen : ((smallRun mixedDoze).st.stations someSta).map (fun psta =>
        psta.sleepQ.map fun f => psta.triggerEnabled f.ac) = some [false, true] := by
      decide +kernel
    rw [show (smallRun mixedDoze).st.stations someSta = some psta from found, map_some,
      queue, map_cons, enabled] at seen
    cases seen

theorem ps_poll_leaves_count :
    ¬ (smallRun (mixedDoze ++ [.psPoll someSta 1 0, .psPoll someSta 1 0])).st.SleepqCounted := by
  intro counted
  have seen : ((smallRun (mixedDoze ++ [.psPoll someSta 1 0, .psPoll someSta 1 0])).st.stations
      someSta).map (fun psta => (psta.sleepQ, psta.sleepqLen, psta.sleepqAcLen)) =
        some ([], 0, 1) := by
    decide +kernel
  obtain ⟨psta, found, view⟩ := map_eq_some_iff.mp seen
  obtain ⟨queue, -, acLen⟩ : psta.sleepQ = [] ∧ psta.sleepqLen = 0 ∧ psta.sleepqAcLen = 1 := by
    simpa using view
  have same := (counted someSta psta found).sleepqAcLen
  rw [queue, acLen] at same
  cases same

end Rtl88x2bu.Tx
