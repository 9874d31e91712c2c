import Rtl88x2bu.Sta.Aid
import Rtl88x2bu.Tx.Runs

/-!
# The two models of the stations

`rtw_aid_alloc` and `rtw_free_stainfo` are in the model of the station table and, as far as it sees
them, in that of the transmit path. Both do the same to the stations and their AIDs.
-/

namespace Rtl88x2bu.Tx

open Function Option
open Rx (MacAddr)
open Sta (StaPriv StaCfg Live AidTable)

/-- The settings of the station table. -/
def ApConfig.sta (cfg : ApConfig) : StaCfg where
  maxAid := cfg.maxAid
  maxNumSta := cfg.maxNumSta
  rrAid := cfg.rrAid
  hwStateAp := cfg.hwStateAp

variable {numSta : ℕ} {cfg : ApConfig} {s : TxState} {st : StaPriv numSta} {psta : Fin numSta}

/-- Both models have the same stations with the same AIDs. -/
structure SameStations (s : TxState) (st : StaPriv numSta) : Prop where
  stations : ∀ addr aid, (s.stations addr).map StaInfo.aid = some aid ↔
    ∃ psta, Live st psta ∧ st.macAddr psta = addr ∧ st.aid psta = aid
  staAid : ∀ a, s.staAid a = (st.staAid a).map st.macAddr
  startedAid : s.startedAid = st.startedAid

/-- The one search tells by `none` what the other one tells by the test behind its loop. -/
theorem SameStations.aidSearch (same : SameStations s st) {left i usedCnt aid : ℕ}
    (rounds : left + i = cfg.maxAid) :
    Sta.checkLimits cfg.sta (Sta.aidLoop cfg.sta st left i usedCnt aid) =
      (aidSearch cfg s left i usedCnt).getD 0 := by
  induction left generalizing i usedCnt aid with
  | zero => exact if_pos (.inl (show cfg.maxAid ≤ i by omega))
  | succ left ih =>
    have free : s.staAid ((i + s.startedAid - 1) % cfg.maxAid + 1) =
        (st.staAid (Sta.aidAt cfg.sta st i)).map st.macAddr := by
      rw [same.staAid, same.startedAid]
      rfl
    rw [Sta.aidLoop, Tx.aidSearch, free, same.startedAid]
    have more : ¬ cfg.maxAid ≤ i := by omega
    cases st.staAid (Sta.aidAt cfg.sta st i) with
    | none =>
      by_cases few : usedCnt < cfg.maxNumSta
      · simp [Sta.checkLimits, ApConfig.sta, more, few, Sta.aidAt]
      · simp [Sta.checkLimits, ApConfig.sta, more, few, not_lt.mp few]
    | some holder =>
      by_cases full : cfg.maxNumSta ≤ usedCnt + 1
      · simp [Sta.checkLimits, ApConfig.sta, full]
      · simpa [ApConfig.sta, full] using ih (by omega)

theorem SameStations.aidResult (same : SameStations s st) :
    Sta.aidResult cfg.sta st = (Tx.aidSearch cfg s cfg.maxAid 0 0).getD 0 :=
  same.aidSearch rfl

variable (distinct : ∀ p q, Live st p → Live st q → st.macAddr p = st.macAddr q → p = q)

include distinct in
/-- `OnAssocReq` gives a station the AID of `rtw_aid_alloc`. -/
theorem SameStations.assoc (same : SameStations s st) (live : Live st psta)
    (unassociated : st.aid psta = 0) {entry : StaInfo}
    (found : s.stations (st.macAddr psta) = some entry) (joins : entry.asoc = false)
    (qosInfo : BitVec 8) :
    SameStations (onAssocReq cfg s (st.macAddr psta) qosInfo) (Sta.aidAlloc cfg.sta st psta) := by
  have result : Sta.aidResult cfg.sta st = _ := same.aidResult
  simp only [onAssocReq, found, joins, Bool.false_eq_true, if_false]
  cases search : Tx.aidSearch cfg s cfg.maxAid 0 0 with
  | none =>
    rw [search] at result
    rwa [Sta.aidAlloc_refused unassociated result]
  | some aid =>
    have some_aid : 0 < cfg.maxAid := by
      by_contra none
      rw [Nat.eq_zero_of_not_pos none, Tx.aidSearch] at search
      cases search
    obtain ⟨-, pos, -⟩ := aidSearch_some some_aid search
    rw [search, getD_some] at result
    simp only [Sta.aidAlloc, result, if_pos pos.ne']
    refine ⟨fun a id => ?_, fun a => ?_, ?_⟩ <;> dsimp only
    · rw [TxState.stations_modifySta]
      by_cases here : a = st.macAddr psta
      · rw [if_pos here, here, found, map_some, map_some]
        constructor
        · rintro ⟨⟩
          exact ⟨psta, live, rfl, update_self ..⟩
        · rintro ⟨p, live', addr, rfl⟩
          rw [distinct p psta live' live addr, update_self]
      · rw [if_neg here, same.stations]
        refine exists_congr fun p => and_congr_right fun _ => and_congr_right fun addr => ?_
        have other : p ≠ psta := fun itself => here (itself ▸ addr.symm)
        rw [update_of_ne other]
    · rw [update_apply, update_apply, same.staAid]
      split <;> rfl
    · rw [same.startedAid]
      rfl

theorem freeStainfo_macAddr : (Sta.freeStainfo cfg.sta st psta).macAddr = st.macAddr := by
  simp only [Sta.freeStainfo, Sta.freeAid]
  split <;> rfl

theorem freeStainfo_aid {p : Fin numSta} (other : p ≠ psta) :
    (Sta.freeStainfo cfg.sta st psta).aid p = st.aid p := by
  simp only [Sta.freeStainfo, Sta.freeAid]
  split <;> simp [other]

theorem freeStainfo_staAid : (Sta.freeStainfo cfg.sta st psta).staAid =
    if cfg.hwStateAp ∧ 0 < st.aid psta ∧ st.staAid (st.aid psta) = some psta then
      update st.staAid (st.aid psta) none else st.staAid := by
  simp only [Sta.freeStainfo, Sta.freeAid, ApConfig.sta]
  exact apply_ite StaPriv.staAid ..

theorem rtwFreeStainfo_staAid {addr : MacAddr} {entry : StaInfo}
    (found : s.stations addr = some entry) : (rtwFreeStainfo cfg s addr).staAid =
    if cfg.hwStateAp ∧ 0 < entry.aid ∧ s.staAid entry.aid = some addr then
      update s.staAid entry.aid none else s.staAid := by
  simp only [rtwFreeStainfo, found]
  cases cfg.hwStateAp <;> simp <;> rfl

include distinct in
/-- A station that is freed goes from both, and its AID with it. -/
theorem SameStations.free (same : SameStations s st) (table : AidTable cfg.sta st)
    (live : Live st psta) :
    SameStations (rtwFreeStainfo cfg s (st.macAddr psta)) (Sta.freeStainfo cfg.sta st psta) := by
  have there : (s.stations (st.macAddr psta)).map StaInfo.aid = some (st.aid psta) :=
    (same.stations _ _).mpr ⟨psta, live, rfl, rfl⟩
  obtain ⟨entry, found, aid⟩ := map_eq_some_iff.mp there
  have named : s.staAid (st.aid psta) = some (st.macAddr psta) ↔
      st.staAid (st.aid psta) = some psta := by
    rw [same.staAid, map_eq_some_iff]
    refine ⟨fun ⟨q, held, addr⟩ => ?_, fun held => ⟨psta, held, rfl⟩⟩
    rwa [distinct q psta ((table.holder _ q).mp held).1 live addr] at held
  have queue : (Sta.freeStainfo cfg.sta st psta).freeStaQueue = st.freeStaQueue ++ [psta] :=
    AidTable.freeStainfo_freeStaQueue
  rw [← aid] at named
  refine ⟨fun a id => ?_, fun a => ?_, ?_⟩
  · rw [rtwFreeStainfo_stations]
    by_cases here : a = st.macAddr psta
    · rw [here, update_self]
      refine iff_of_false nofun ?_
      rintro ⟨p, live', addr, -⟩
      simp only [Live, queue, List.mem_append, List.mem_singleton, not_or] at live'
      rw [freeStainfo_macAddr] at addr
      exact live'.2 (distinct p psta live'.1 live addr)
    · rw [update_of_ne here, same.stations]
      refine exists_congr fun p => ?_
      by_cases itself : p = psta
      · simp [itself, Live, queue, Ne.symm here]
      · simp [Live, queue, itself, freeStainfo_macAddr, freeStainfo_aid itself]
  · simp only [rtwFreeStainfo_staAid found, freeStainfo_staAid, freeStainfo_macAddr, named, ← aid]
    split
    · simp only [update_apply]
      split
      · rfl
      · exact same.staAid a
    · exact same.staAid a
  · rw [AidTable.freeStainfo_startedAid]
    simp only [rtwFreeStainfo, found]
    split <;> exact same.startedAid

end Rtl88x2bu.Tx
