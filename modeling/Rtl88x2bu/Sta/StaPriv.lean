import Rtl88x2bu.Lib.Chains
import Rtl88x2bu.Key.MacId

/-!
# The stations of an interface

`rtw_alloc_stainfo` (`rust/rtw_sta_mgt_alloc.rs`), `rtw_get_stainfo` (`rust/rtw_sta_mgt_lookup.rs`),
`rtw_free_stainfo` (`core/rtw_sta_mgt_free.c`) and `rtw_aid_alloc` (`rust/rtw_sta_mgt_aid.rs`,
`core/rtw_sta_mgt_rest.c`). `CONFIG_RTW_PRE_LINK_STA` is 0.
-/

namespace Rtl88x2bu.Sta

open Rx (MacAddr isMcast staAddr bcAddr nullAddr)

/-- Settings of `struct sta_priv`. `hwStateAp` is `pmlmeinfo->state == _HW_STATE_AP_`. -/
structure StaCfg where
  maxAid : ℕ
  maxNumSta : ℕ
  rrAid : Bool
  hwStateAp : Bool

variable (cfg : StaCfg)

variable {numSta : ℕ}

/-- `struct sta_priv` with the members of its stations that are modelled here. The entry `a` of
`staAid` is `sta_aid[a - 1]`. -/
structure StaPriv (numSta : ℕ) where
  freeStaQueue : List (Fin numSta)
  staHash : Fin numSta → List (Fin numSta)
  macAddr : Fin numSta → MacAddr
  asocStaCount : ℤ
  aid : Fin numSta → ℕ
  staAid : ℕ → Option (Fin numSta)
  startedAid : ℕ

/-! ## The station table -/

/-- `wifi_mac_hash`. -/
def wifiMacHash (numSta : ℕ) (mac : MacAddr) : ℕ :=
  let x : UInt32 := (mac.get 0).toUInt32
  let x := (x <<< 2) ^^^ (mac.get 1).toUInt32
  let x := (x <<< 2) ^^^ (mac.get 2).toUInt32
  let x := (x <<< 2) ^^^ (mac.get 3).toUInt32
  let x := (x <<< 2) ^^^ (mac.get 4).toUInt32
  let x := (x <<< 2) ^^^ (mac.get 5).toUInt32
  let x := x ^^^ (x >>> 8)
  x.toNat &&& (numSta - 1)

theorem wifiMacHash_lt [NeZero numSta] (mac : MacAddr) : wifiMacHash numSta mac < numSta :=
  lt_of_le_of_lt Nat.and_le_right (Nat.sub_lt (Nat.pos_of_neZero numSta) Nat.one_pos)

def hashIndex [NeZero numSta] (mac : MacAddr) : Fin numSta :=
  ⟨wifiMacHash numSta mac, wifiMacHash_lt mac⟩

/-- `_rtw_init_stainfo`. -/
def initStainfo (st : StaPriv numSta) (psta : Fin numSta) : StaPriv numSta :=
  { st with
    macAddr := Function.update st.macAddr psta nullAddr
    aid := Function.update st.aid psta 0 }

/-- `rtw_alloc_stainfo`. -/
def allocStainfo (st : StaPriv numSta) (hwaddr : MacAddr) :
    Option (Fin numSta) × StaPriv numSta :=
  match st.freeStaQueue with
  | [] => (none, st)
  | psta :: rest =>
    let st := initStainfo { st with freeStaQueue := rest } psta
    let index := wifiMacHash numSta hwaddr
    if small : index < numSta then
      let chain := st.staHash ⟨index, small⟩
      (some psta,
        { st with
          macAddr := Function.update st.macAddr psta hwaddr
          staHash := Function.update st.staHash ⟨index, small⟩ (chain ++ [psta])
          asocStaCount := st.asocStaCount + 1 })
    else (none, st)

/-- `rtw_get_stainfo`. -/
def getStainfo [NeZero numSta] (st : StaPriv numSta) (hwaddr : MacAddr) : Option (Fin numSta) :=
  let addr := staAddr hwaddr
  (st.staHash (hashIndex addr)).find? fun psta => decide (st.macAddr psta = addr)

/-- The part of `rtw_free_stainfo` that gives back the association id. -/
def freeAid (st : StaPriv numSta) (psta : Fin numSta) : StaPriv numSta :=
  if cfg.hwStateAp ∧ 0 < st.aid psta ∧ st.staAid (st.aid psta) = some psta then
    { st with
      staAid := Function.update st.staAid (st.aid psta) none
      aid := Function.update st.aid psta 0 }
  else st

/-- `rtw_free_stainfo`. The list node of the station is on at most one chain. -/
def freeStainfo (st : StaPriv numSta) (psta : Fin numSta) : StaPriv numSta :=
  let st := { st with
    staHash := fun i => (st.staHash i).erase psta
    asocStaCount := st.asocStaCount - 1 }
  let st := freeAid cfg st psta
  { st with freeStaQueue := st.freeStaQueue ++ [psta] }

/-! ## Association ids -/

def aidAt (st : StaPriv numSta) (i : ℕ) : ℕ :=
  (i + st.startedAid - 1) % cfg.maxAid + 1

/-- The loop of `rtw_aid_alloc`, with the number of rounds left: `i`, `used_cnt` and `aid` at its
end. -/
def aidLoop (cfg : StaCfg) (st : StaPriv numSta) : ℕ → ℕ → ℕ → ℕ → ℕ × ℕ × ℕ
  | 0, i, usedCnt, aid => (i, usedCnt, aid)
  | left + 1, i, usedCnt, _ =>
    let aid := aidAt cfg st i
    if st.staAid aid = none then (i, usedCnt, aid)
    else if usedCnt + 1 ≥ cfg.maxNumSta then (i, usedCnt + 1, aid)
    else aidLoop cfg st left (i + 1) (usedCnt + 1) aid

/-- What `rtw_aid_alloc` finds, with 0 for nothing. -/
def aidResult (st : StaPriv numSta) : ℕ :=
  match aidLoop cfg st cfg.maxAid 0 0 0 with
  | (i, usedCnt, aid) => if i ≥ cfg.maxAid ∨ usedCnt ≥ cfg.maxNumSta then 0 else aid

/-- `rtw_aid_alloc`. -/
def aidAlloc (st : StaPriv numSta) (sta : Fin numSta) : StaPriv numSta :=
  let aid := aidResult cfg st
  let st := { st with aid := Function.update st.aid sta aid }
  if aid ≠ 0 then
    { st with
      staAid := Function.update st.staAid aid (some sta)
      startedAid := if cfg.rrAid then aid % cfg.maxAid + 1 else st.startedAid }
  else st

/-! ## Runs -/

def initial (numSta startedAid : ℕ) : StaPriv numSta where
  freeStaQueue := List.finRange numSta
  staHash := fun _ => []
  macAddr := fun _ => nullAddr
  asocStaCount := 0
  aid := fun _ => 0
  staAid := fun _ => none
  startedAid

inductive StaEvent (numSta : ℕ)
  | alloc (hwaddr : MacAddr)
  | aidAlloc (sta : Fin numSta)
  | free (psta : Fin numSta)

def step (st : StaPriv numSta) : StaEvent numSta → StaPriv numSta
  | .alloc hwaddr => (allocStainfo st hwaddr).2
  | .aidAlloc sta => aidAlloc cfg st sta
  | .free psta => freeStainfo cfg st psta

/-- The station is allocated. -/
def Live (st : StaPriv numSta) (psta : Fin numSta) : Prop :=
  psta ∉ st.freeStaQueue

/-- Only allocated stations are freed or get an association id, and those only if they have
none. -/
def Owned (st : StaPriv numSta) : StaEvent numSta → Prop
  | .alloc _ => True
  | .aidAlloc sta => Live st sta ∧ st.aid sta = 0
  | .free psta => Live st psta

/-- Besides, a station is allocated only for an address that no allocated station has. -/
def Mapped (st : StaPriv numSta) : StaEvent numSta → Prop
  | .alloc hwaddr => ∀ psta, Live st psta → st.macAddr psta ≠ hwaddr
  | e => Owned st e

/-! ## The table is a map -/

section Table

variable [NeZero numSta] {cfg : StaCfg} {st : StaPriv numSta}

/-- Queue and chains as a chained hash table. -/
def StaPriv.table (st : StaPriv numSta) : Chains.Table (Fin numSta) MacAddr (Fin numSta) where
  free := st.freeStaQueue
  chain := st.staHash
  key := st.macAddr

theorem getStainfo_eq (hwaddr : MacAddr) :
    getStainfo st hwaddr = st.table.find hashIndex (staAddr hwaddr) := rfl

theorem allocStainfo_eq (hwaddr : MacAddr) :
    (allocStainfo st hwaddr).1 = st.freeStaQueue.head? ∧
      ∀ psta rest, st.freeStaQueue = psta :: rest →
        (allocStainfo st hwaddr).2.table = st.table.attach hashIndex psta hwaddr ∧
        (allocStainfo st hwaddr).2.asocStaCount = st.asocStaCount + 1 := by
  unfold allocStainfo
  split
  next none_free =>
    refine ⟨by rw [none_free]; rfl, fun psta rest first => ?_⟩
    rw [none_free] at first
    cases first
  next psta rest first =>
    simp only [dif_pos (wifiMacHash_lt hwaddr)]
    refine ⟨by rw [first]; rfl, fun psta' rest' first' => ?_⟩
    rw [first] at first'
    cases first'
    refine ⟨?_, rfl⟩
    simp [StaPriv.table, Chains.Table.attach, initStainfo, first, hashIndex]

omit [NeZero numSta] in
theorem allocStainfo_empty {hwaddr : MacAddr} (none_free : st.freeStaQueue = []) :
    (allocStainfo st hwaddr).2 = st := by
  simp [allocStainfo, none_free]

omit [NeZero numSta] in
theorem freeAid_asocStaCount {psta : Fin numSta} :
    (freeAid cfg st psta).asocStaCount = st.asocStaCount := by
  unfold freeAid
  split <;> rfl

omit [NeZero numSta] in
theorem freeStainfo_table (psta : Fin numSta) :
    (freeStainfo cfg st psta).table = st.table.detach psta := by
  simp only [freeStainfo, freeAid]
  split <;> rfl

omit [NeZero numSta] in
theorem aidAlloc_table (sta : Fin numSta) : (aidAlloc cfg st sta).table = st.table := by
  simp only [aidAlloc]
  split <;> rfl

omit [NeZero numSta] in
theorem aidAlloc_asocStaCount (sta : Fin numSta) :
    (aidAlloc cfg st sta).asocStaCount = st.asocStaCount := by
  simp only [aidAlloc]
  split <;> rfl

/-- The table is sound and `asoc_sta_count` is the number of stations in use. -/
structure Counted (st : StaPriv numSta) : Prop where
  sound : st.table.Sound hashIndex
  count : st.asocStaCount = st.table.inUse.card

theorem Counted.initial (startedAid : ℕ) : Counted (initial numSta startedAid) where
  sound := Chains.Table.Sound.empty (List.nodup_finRange numSta) List.mem_finRange _
  count := by simp [Chains.Table.inUse, StaPriv.table, Sta.initial]

theorem Counted.step (counted : Counted st) {e : StaEvent numSta} (ok : Mapped st e) :
    Counted (step cfg st e) := by
  obtain ⟨sound, count⟩ := counted
  cases e with
  | alloc hwaddr =>
    cases first : st.freeStaQueue with
    | nil =>
      rw [Sta.step, allocStainfo_empty first]
      exact ⟨sound, count⟩
    | cons psta rest =>
      obtain ⟨table, more⟩ := (allocStainfo_eq hwaddr).2 psta rest first
      have unused : psta ∉ st.table.inUse := by simp [StaPriv.table, first]
      constructor
      · rw [Sta.step, table]
        exact sound.attach first ok
      · rw [Sta.step, more, table, Chains.inUse_attach sound first,
          Finset.card_insert_of_notMem unused, count]
        push_cast
        rfl
  | aidAlloc sta =>
    constructor
    · rw [Sta.step, aidAlloc_table]
      exact sound
    · rw [Sta.step, aidAlloc_table, aidAlloc_asocStaCount, count]
  | free psta =>
    have used : psta ∈ st.table.inUse := Chains.mem_inUse.mpr ok
    constructor
    · rw [Sta.step, freeStainfo_table]
      exact sound.detach ok
    · have fewer : (freeStainfo cfg st psta).asocStaCount = st.asocStaCount - 1 :=
        freeAid_asocStaCount
      rw [Sta.step, freeStainfo_table, Chains.inUse_detach, fewer, count,
        Finset.cast_card_erase_of_mem used]

/-- In every run each station is on the free queue or on the chain of its own address's hash, a
lookup finds the allocated station that has the address, with one entry for all group addresses,
`asoc_sta_count` is the number of allocated stations, and the check of the hash index in an
allocation does not fail. -/
theorem station_table_is_map {startedAid : ℕ}
    (reached : Run.Reachable (step cfg) Mapped (initial numSta startedAid) st) :
    (st.freeStaQueue.Nodup ∧ (∀ i, (st.staHash i).Nodup) ∧
      ∀ psta i, psta ∈ st.staHash i ↔
        psta ∉ st.freeStaQueue ∧ i.val = wifiMacHash numSta (st.macAddr psta)) ∧
    (∀ hwaddr psta, isMcast hwaddr = false →
      (getStainfo st hwaddr = some psta ↔ psta ∉ st.freeStaQueue ∧ st.macAddr psta = hwaddr)) ∧
    (∀ hwaddr psta, isMcast hwaddr = true →
      (getStainfo st hwaddr = some psta ↔ psta ∉ st.freeStaQueue ∧ st.macAddr psta = bcAddr)) ∧
    st.asocStaCount = (Finset.univ.filter (· ∉ st.freeStaQueue)).card ∧
    ∀ hwaddr, (allocStainfo st hwaddr).1 = st.freeStaQueue.head? := by
  obtain ⟨sound, count⟩ : Counted st :=
    reached.invariant (Counted.initial startedAid) fun _ _ counted ok => counted.step ok
  refine ⟨⟨sound.free_nodup, sound.chain_nodup, fun psta i => ?_⟩, fun hwaddr psta unicast => ?_,
    fun hwaddr psta group => ?_, count, fun hwaddr => (allocStainfo_eq hwaddr).1⟩
  · have placed := sound.placed psta i
    rwa [Fin.ext_iff] at placed
  · rw [getStainfo_eq, sound.find_eq_some_iff, staAddr, unicast]
    rfl
  · rw [getStainfo_eq, sound.find_eq_some_iff, staAddr, group]
    rfl

end Table

def smallCfg : StaCfg := { maxAid := 4, maxNumSta := 2, rrAid := false, hwStateAp := true }

def addrOf (octet : UInt8) : MacAddr := Vector.replicate 6 octet

def smallRun : List (StaEvent 4) :=
  [.alloc bcAddr, .alloc (addrOf 2), .aidAlloc ⟨1, by decide⟩, .alloc (addrOf 4),
    .aidAlloc ⟨2, by decide⟩, .free ⟨1, by decide⟩]

theorem smallRun_reached :
    Run.Reachable (step smallCfg) Mapped (initial 4 1)
      (smallRun.foldl (step smallCfg) (initial 4 1)) := by
  refine Run.Reachable.start.append ⟨?_, ?_, ?_, ?_, ?_, ?_, trivial⟩
  all_goals
    simp only [Mapped, Owned, Live]
    decide

theorem station_table_is_map_small :
    getStainfo (smallRun.foldl (step smallCfg) (initial 4 1)) (addrOf 4) = some 2 :=
  ((station_table_is_map smallRun_reached).2.1 (addrOf 4) 2 (by decide)).mpr (by decide)

end Rtl88x2bu.Sta
