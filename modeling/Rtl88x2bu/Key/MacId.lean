import Rtl88x2bu.Lib.Run
import Rtl88x2bu.Key.Cam

/-!
# MAC ids

`rtw_alloc_macid` and `rtw_release_macid` (`core/rtw_wlan_util.c`) over the stations of several
interfaces that share one chip, with the commands that set and clear keys.
-/

namespace Rtl88x2bu.Key

open Function
open Rx (MacAddr SecurityType bcAddr nullAddr)

def defaultMgmtMacid : ℕ := 1

def invalidSecMacCamId : ℕ := 0xFF

/-- What does not change: the stations' and interfaces' addresses, and `macid_ctl.num`, which
`MACID_NUM_SW_LIMIT` bounds. -/
structure Ifaces (Sta Iface : Type) where
  ifaceOf : Sta → Iface
  addr : Sta → MacAddr
  adapterMacAddr : Iface → MacAddr
  num : ℕ
  num_le : num ≤ 32
  mgmt_lt : defaultMgmtMacid < num

/-- `struct macid_ctl_t`. Its maps have 32 bits, enough for every id. -/
structure MacidCtl (Sta Iface : Type) where
  used : Finset ℕ
  bmc : Finset ℕ
  ifG : Iface → Finset ℕ
  sta : ℕ → Option Sta
  ifaceBmc : Iface → ℕ

/-- The state that the interfaces share. `live` is for the statements only: the last entry of a key,
and whether it has 256 bits. -/
structure Dvobj (Sta Iface : Type) where
  cam : CamCtl
  macidCtl : MacidCtl Sta Iface
  macId : Sta → ℕ
  live : KeyName → Option (ℕ × Bool)

/-- The copy of a WEP group key that `setkey_hdl` makes with `set_stakey_hdl` is an event of its
own. -/
inductive DvEvent (Sta : Type)
  | setStakey (sppMode : Bool) (algorithm : SecurityType) (key : KeyName)
  | setkey (sppMode assocSuccess : Bool) (algorithm : SecurityType) (bssid : MacAddr) (kid : Fin 4)
  | clearstakey (addr : MacAddr)
  | allocMacid (psta : Sta) (staMode : Bool)
  | releaseMacid (psta : Sta)

variable {Sta Iface : Type}

section
variable (net : Ifaces Sta Iface) (d : Dvobj Sta Iface) (psta : Sta)

/-- `rtw_macid_ctl_init` and `rtw_sec_cam` of a new device: no station has an id. -/
def initial : Dvobj Sta Iface where
  cam := {}
  macidCtl :=
    { used := {defaultMgmtMacid}
      bmc := {defaultMgmtMacid}
      ifG := fun _ => {defaultMgmtMacid}
      sta := fun _ => none
      ifaceBmc := fun _ => 0 }
  macId := fun _ => net.num
  live := fun _ => none

/-! ## Allocation and release -/

def Ifaces.isBcSta : Bool :=
  net.addr psta == bcAddr

/-- The station of an interface itself. -/
def Ifaces.isOwn : Bool :=
  net.addr psta == net.adapterMacAddr (net.ifaceOf psta)

/-- The search for a free id, which for a broadcast station has to be a free CAM entry too. -/
def freeMacid (isBcSta : Bool) : Option ℕ :=
  (List.range net.num).find? fun i =>
    !(isBcSta && secCamidIsUsed d.cam i) && !decide (i ∈ d.macidCtl.used)

/-- Only a station without an id is given one. -/
def Allocates : DvEvent Sta → Prop
  | .allocMacid psta _ => d.macId psta = net.num
  | _ => True

/-- The station has an id of its own. -/
def Holds : Prop :=
  d.macId psta < net.num ∧ d.macId psta ≠ defaultMgmtMacid

end

section Model
variable [DecidableEq Sta] [DecidableEq Iface] [Fintype Iface] (net : Ifaces Sta Iface)
  (d : Dvobj Sta Iface) (psta : Sta)

def setIfaceBmc (iface : Iface) (id : ℕ) : Dvobj Sta Iface :=
  { d with macidCtl :=
    { d.macidCtl with ifaceBmc := Function.update d.macidCtl.ifaceBmc iface id } }

def setMacId (id : ℕ) : Dvobj Sta Iface :=
  { d with macId := Function.update d.macId psta id }

/-- The MAC id of a broadcast station is also its CAM entry; `SEC_CAP_CHK_EXTRA_SEC` reserves the
next one too. -/
def reserveCam (iface : Iface) (i : ℕ) : Dvobj Sta Iface :=
  { d with
    macidCtl := { d.macidCtl with
      bmc := insert i d.macidCtl.bmc
      ifaceBmc := Function.update d.macidCtl.ifaceBmc iface i }
    cam := { d.cam with used := secCamMapSet (secCamMapSet d.cam.used i) (i + 1) } }

/-- The part of `rtw_alloc_macid` that every station with a new id goes through. -/
def markMacid (d : Dvobj Sta Iface) (iface : Iface) (psta : Sta) (i : ℕ) : Dvobj Sta Iface :=
  { d with macidCtl := { d.macidCtl with
    used := insert i d.macidCtl.used
    ifG := Function.update d.macidCtl.ifG iface (insert i (d.macidCtl.ifG iface))
    sta := Function.update d.macidCtl.sta i (some psta) } }

/-- `rtw_alloc_macid`. `staMode` is `MLME_IS_STA` or `MLME_IS_NULL` of the station's interface. -/
def allocMacid (staMode : Bool) : Dvobj Sta Iface :=
  let iface := net.ifaceOf psta
  if net.isOwn psta then setMacId d psta net.num
  else
    let isBcSta := net.isBcSta psta
    let d := if isBcSta then setIfaceBmc d iface invalidSecMacCamId else d
    if isBcSta && staMode then setMacId d psta defaultMgmtMacid
    else
      match freeMacid net d isBcSta with
      | none => setMacId d psta net.num
      | some i =>
        let d := if isBcSta then reserveCam d iface i else d
        setMacId (markMacid d iface psta i) psta i

/-- What `rtw_release_macid` clears in the map of CAM entries for a broadcast station. -/
def unreserve (cam : CamCtl) (id : ℕ) : CamCtl :=
  if id ≠ invalidSecMacCamId ∧ id < camNum then
    { cam with used := secCamMapClr (secCamMapClr cam.used id) (id + 1) }
  else cam

def unreserveCam (iface : Iface) : Dvobj Sta Iface :=
  setIfaceBmc { d with cam := unreserve d.cam (d.macidCtl.ifaceBmc iface) } iface
    invalidSecMacCamId

/-- `rtw_macid_get_iface_bmp`. -/
def macidIfaceBmp (id : ℕ) : Finset Iface :=
  Finset.univ.filter fun f => id ∈ d.macidCtl.ifG f

/-- The end of `rtw_release_macid`: the id is free when no other interface uses it. -/
def unmarkMacid (iface : Iface) (id : ℕ) : Dvobj Sta Iface :=
  let ifbmp := (macidIfaceBmp d id).erase iface
  let ctl := d.macidCtl
  let ctl := { ctl with ifG := Function.update ctl.ifG iface ((ctl.ifG iface).erase id) }
  { d with macidCtl :=
    if ifbmp = ∅ then
      { ctl with
        used := ctl.used.erase id
        bmc := ctl.bmc.erase id
        sta := Function.update ctl.sta id none }
    else ctl }

/-- `rtw_release_macid`. -/
def releaseMacid : Dvobj Sta Iface :=
  let iface := net.ifaceOf psta
  let id := d.macId psta
  if net.isOwn psta then setMacId d psta net.num
  else if id ≥ net.num then setMacId d psta net.num
  else if id = defaultMgmtMacid then setMacId d psta net.num
  else if id ∉ d.macidCtl.used then setMacId d psta net.num
  else if iface ∉ macidIfaceBmp d id then setMacId d psta net.num
  else
    let d := if net.isBcSta psta then unreserveCam d iface else d
    setMacId (unmarkMacid d iface id) psta net.num

/-! ## Events -/

/-- The CAM after a key was set, or not. -/
def noteKey (key : KeyName) (extSec : Bool) :
    Option ℕ × CamCtl → Dvobj Sta Iface
  | (none, cam) => { d with cam }
  | (some camId, cam) => { d with cam, live := Function.update d.live key (some (camId, extSec)) }

def forgetKeys (addr : MacAddr) (cam : CamCtl) : Dvobj Sta Iface :=
  { d with cam, live := fun key => if key.addr = addr then none else d.live key }

/-- One event. -/
def step : DvEvent Sta → Dvobj Sta Iface
  | .setStakey sppMode algorithm key =>
    let done := setStakeyHdl sppMode d.cam algorithm key
    if algorithm = .noPrivacy then forgetKeys d key.addr done.2
    else noteKey d key (isSecType256 algorithm) done
  | .setkey sppMode assocSuccess algorithm bssid kid =>
    noteKey d { addr := bssid, kid, gk := true } (isSecType256 algorithm)
      (setkeyHdl sppMode d.cam assocSuccess algorithm bssid kid)
  | .clearstakey addr => forgetKeys d addr (clearstakeyCmd d.cam addr)
  | .allocMacid psta staMode => allocMacid net d psta staMode
  | .releaseMacid psta => releaseMacid net d psta

end Model

/-! ## What an allocation and a release do -/

variable {net : Ifaces Sta Iface} {d d' : Dvobj Sta Iface} {psta : Sta} {staMode : Bool} {i : ℕ}

/-- The maps of ids are the same. -/
structure SameMaps (d' d : Dvobj Sta Iface) : Prop where
  used : d'.macidCtl.used = d.macidCtl.used
  ifG : d'.macidCtl.ifG = d.macidCtl.ifG
  sta : d'.macidCtl.sta = d.macidCtl.sta

theorem Holds.of_macId {a : Sta} (held : d.macId a = i) (here : i < net.num)
    (ne : i ≠ defaultMgmtMacid) : Holds net d a := by
  rw [Holds, held]
  exact ⟨here, ne⟩

theorem holds_congr {a : Sta} (same : d'.macId a = d.macId a) : Holds net d' a ↔ Holds net d a := by
  rw [Holds, same, Holds]

/-- Where one station is left without an id, the holders are others and held before. -/
theorem Holds.before [DecidableEq Sta] {a : Sta} {id : ℕ} (holds : Holds net d' a)
    (macId : d'.macId = Function.update d.macId psta id)
    (none_given : net.num ≤ id ∨ id = defaultMgmtMacid) :
    a ≠ psta ∧ d'.macId a = d.macId a ∧ Holds net d a := by
  have other : a ≠ psta := by
    rintro rfl
    rw [Holds, macId, update_self] at holds
    omega
  have same : d'.macId a = d.macId a := by rw [macId, update_of_ne other]
  exact ⟨other, same, (holds_congr same).mp holds⟩

theorem freeMacid_some {isBcSta : Bool} (found : freeMacid net d isBcSta = some i) :
    i < net.num ∧ i ∉ d.macidCtl.used ∧ (isBcSta = true → secCamidIsUsed d.cam i = false) := by
  have here := List.mem_range.mp (List.mem_of_find?_eq_some found)
  have free := List.find?_some found
  cases isBcSta <;> simp_all

theorem freeMacid_none {isBcSta : Bool} (full : freeMacid net d isBcSta = none)
    (here : i < net.num) :
    i ∈ d.macidCtl.used ∨ (isBcSta = true ∧ secCamidIsUsed d.cam i = true) := by
  have taken := List.find?_eq_none.mp full i (List.mem_range.mpr here)
  by_cases used : i ∈ d.macidCtl.used
  · exact Or.inl used
  · simpa [used] using taken

section Spec

variable [DecidableEq Sta] [DecidableEq Iface]

/-- The ways in which an allocation ends. Only a broadcast station that transmits group data takes
CAM entries. -/
inductive Allocated (net : Ifaces Sta Iface) (d : Dvobj Sta Iface) (psta : Sta) (staMode : Bool)
    (d' : Dvobj Sta Iface) : Prop
  | own (own : net.isOwn psta = true) (maps : SameMaps d' d) (cam : d'.cam = d.cam)
      (macId : d'.macId = Function.update d.macId psta net.num)
  | full (foreign : net.isOwn psta = false)
      (search : freeMacid net d (net.isBcSta psta) = none) (maps : SameMaps d' d)
      (cam : d'.cam = d.cam) (macId : d'.macId = Function.update d.macId psta net.num)
  | shared (foreign : net.isOwn psta = false) (sta : net.isBcSta psta = true ∧ staMode = true)
      (maps : SameMaps d' d) (cam : d'.cam = d.cam)
      (macId : d'.macId = Function.update d.macId psta defaultMgmtMacid)
  | fresh (i : ℕ) (foreign : net.isOwn psta = false)
      (search : freeMacid net d (net.isBcSta psta) = some i)
      (group : net.isBcSta psta = true → staMode = false ∧
        d'.macidCtl.ifaceBmc (net.ifaceOf psta) = i)
      (maps : SameMaps d' (markMacid d (net.ifaceOf psta) psta i))
      (cam : d'.cam = if net.isBcSta psta then (reserveCam d (net.ifaceOf psta) i).cam else d.cam)
      (macId : d'.macId = Function.update d.macId psta i)

theorem allocMacid_allocated : Allocated net d psta staMode (allocMacid net d psta staMode) := by
  unfold allocMacid
  cases own : net.isOwn psta with
  | true => exact .own own ⟨rfl, rfl, rfl⟩ rfl rfl
  | false =>
    -- a broadcast station first resets the group entry of its interface
    cases bc : net.isBcSta psta with
    | true =>
      cases staMode with
      | true => exact .shared own ⟨bc, rfl⟩ ⟨rfl, rfl, rfl⟩ rfl rfl
      | false =>
        have search : freeMacid net (setIfaceBmc d (net.ifaceOf psta) invalidSecMacCamId) true =
            freeMacid net d true := rfl
        simp only [Bool.false_eq_true, if_false, if_true, Bool.and_false, search]
        cases found : freeMacid net d true with
        | none => exact .full own (bc ▸ found) ⟨rfl, rfl, rfl⟩ rfl rfl
        | some i =>
          refine .fresh i own (bc ▸ found) (fun _ => ⟨rfl, ?_⟩) ⟨rfl, rfl, rfl⟩ ?_ rfl
          · exact update_self ..
          · rw [bc]
            rfl
    | false =>
      simp only [Bool.false_eq_true, if_false, Bool.false_and]
      cases found : freeMacid net d false with
      | none => exact .full own (bc ▸ found) ⟨rfl, rfl, rfl⟩ rfl rfl
      | some i =>
        refine .fresh i own (bc ▸ found) (fun isBc => ?_) ⟨rfl, rfl, rfl⟩ ?_ rfl
        · rw [bc] at isBc
          cases isBc
        · rw [bc]
          rfl

theorem allocMacid_ifaceBmc {f : Iface} (other : f ≠ net.ifaceOf psta ∨ net.isBcSta psta = false) :
    (allocMacid net d psta staMode).macidCtl.ifaceBmc f = d.macidCtl.ifaceBmc f := by
  unfold allocMacid
  cases bc : net.isBcSta psta with
  | true =>
    have elsewhere : f ≠ net.ifaceOf psta := other.resolve_right (by simp [bc])
    simp only [if_true, Bool.true_and]
    split
    · rfl
    · split
      · exact update_of_ne elsewhere ..
      · split
        · exact update_of_ne elsewhere ..
        · exact (update_of_ne elsewhere ..).trans (update_of_ne elsewhere ..)
  | false =>
    simp only [Bool.false_eq_true, if_false, Bool.false_and]
    split
    · rfl
    · split <;> rfl

theorem allocMacid_live : (allocMacid net d psta staMode).live = d.live := by
  unfold allocMacid
  cases net.isBcSta psta <;> cases staMode <;>
    simp only [if_true, if_false, Bool.false_eq_true, Bool.and_true, Bool.and_false] <;>
    split <;> (try rfl) <;> split <;> rfl

variable [Fintype Iface]

/-- The ways in which a release ends. -/
inductive Released (net : Ifaces Sta Iface) (d : Dvobj Sta Iface) (psta : Sta)
    (d' : Dvobj Sta Iface) : Prop
  | idle (nothing : net.isOwn psta = true ∨ net.num ≤ d.macId psta ∨
        d.macId psta = defaultMgmtMacid ∨ d.macId psta ∉ d.macidCtl.used ∨
        d.macId psta ∉ d.macidCtl.ifG (net.ifaceOf psta))
      (maps : SameMaps d' d) (cam : d'.cam = d.cam) (ifaceBmc : d'.macidCtl.ifaceBmc =
        d.macidCtl.ifaceBmc)
  | freed (holds : Holds net d psta)
      (maps : SameMaps d' (unmarkMacid d (net.ifaceOf psta) (d.macId psta)))
      (cam : d'.cam = if net.isBcSta psta then (unreserveCam d (net.ifaceOf psta)).cam else d.cam)
      (ifaceBmc : ∀ f, f ≠ net.ifaceOf psta ∨ net.isBcSta psta = false →
        d'.macidCtl.ifaceBmc f = d.macidCtl.ifaceBmc f)

omit [DecidableEq Sta] in
theorem unmarkMacid_ifaceBmc {iface : Iface} {id : ℕ} :
    (unmarkMacid d iface id).macidCtl.ifaceBmc = d.macidCtl.ifaceBmc := by
  simp only [unmarkMacid]
  split <;> rfl

omit [DecidableEq Sta] in
theorem unmarkMacid_unreserveCam {iface : Iface} {id : ℕ} :
    SameMaps (unmarkMacid (unreserveCam d iface) iface id) (unmarkMacid d iface id) := by
  have sharers : macidIfaceBmp (unreserveCam d iface) id = macidIfaceBmp d id := rfl
  simp only [unmarkMacid, sharers]
  split <;> exact ⟨rfl, rfl, rfl⟩

theorem releaseMacid_released : Released net d psta (releaseMacid net d psta) := by
  have member : net.ifaceOf psta ∈ macidIfaceBmp d (d.macId psta) ↔
      d.macId psta ∈ d.macidCtl.ifG (net.ifaceOf psta) := by simp [macidIfaceBmp]
  fun_cases releaseMacid net d psta
  case case1 own => exact .idle (.inl own) ⟨rfl, rfl, rfl⟩ rfl rfl
  case case2 invalid => exact .idle (.inr (.inl invalid)) ⟨rfl, rfl, rfl⟩ rfl rfl
  case case3 mgmt => exact .idle (.inr (.inr (.inl mgmt))) ⟨rfl, rfl, rfl⟩ rfl rfl
  case case4 unused =>
    exact .idle (.inr (.inr (.inr (.inl unused)))) ⟨rfl, rfl, rfl⟩ rfl rfl
  case case5 foreign =>
    exact .idle (.inr (.inr (.inr (.inr (mt member.mpr foreign))))) ⟨rfl, rfl, rfl⟩ rfl rfl
  case case6 invalid mgmt _ _ left =>
    cases bc : net.isBcSta psta with
    | true =>
      have maps : SameMaps (unmarkMacid (unreserveCam d (net.ifaceOf psta)) (net.ifaceOf psta)
          (d.macId psta)) (unmarkMacid d (net.ifaceOf psta) (d.macId psta)) :=
        unmarkMacid_unreserveCam
      rw [show left = unreserveCam d (net.ifaceOf psta) from if_pos bc]
      refine .freed ⟨Nat.not_le.mp invalid, mgmt⟩ ⟨maps.used, maps.ifG, maps.sta⟩ ?_
        fun f other => ?_
      · rw [bc]
        rfl
      · have elsewhere : f ≠ net.ifaceOf psta := other.resolve_right (by simp [bc])
        simp only [setMacId, unmarkMacid_ifaceBmc]
        exact update_of_ne elsewhere ..
    | false =>
      rw [show left = d from if_neg (bc ▸ Bool.false_ne_true)]
      refine .freed ⟨Nat.not_le.mp invalid, mgmt⟩ ⟨rfl, rfl, rfl⟩ ?_ fun f _ => ?_
      · rw [bc]
        rfl
      · simp only [setMacId, unmarkMacid_ifaceBmc]

theorem releaseMacid_macId :
    (releaseMacid net d psta).macId = Function.update d.macId psta net.num := by
  simp only [releaseMacid]
  repeat' split
  all_goals rfl

theorem releaseMacid_live : (releaseMacid net d psta).live = d.live := by
  simp only [releaseMacid]
  repeat' split
  all_goals rfl

end Spec

/-! ## The table of MAC ids -/

/-- An id in use has one holder, whose interface is the only one that uses it. -/
structure MacidTable (net : Ifaces Sta Iface) (d : Dvobj Sta Iface) : Prop where
  mgmt_used : defaultMgmtMacid ∈ d.macidCtl.used
  foreign : ∀ a, Holds net d a → net.isOwn a = false
  used : ∀ a, Holds net d a → d.macId a ∈ d.macidCtl.used
  sta : ∀ a, Holds net d a → d.macidCtl.sta (d.macId a) = some a
  holder : ∀ i < net.num, i ≠ defaultMgmtMacid → i ∈ d.macidCtl.used →
    ∃ a, d.macId a = i ∧ ∀ f, i ∈ d.macidCtl.ifG f ↔ f = net.ifaceOf a
  unshared : ∀ i < net.num, i ∉ d.macidCtl.used → ∀ f, i ∉ d.macidCtl.ifG f

namespace MacidTable

theorem initial : MacidTable net (initial net) where
  mgmt_used := Finset.mem_singleton_self _
  foreign := fun _ holds => absurd holds.1 (Nat.lt_irrefl _)
  used := fun _ holds => absurd holds.1 (Nat.lt_irrefl _)
  sta := fun _ holds => absurd holds.1 (Nat.lt_irrefl _)
  holder := fun _ _ ne used => absurd (Finset.mem_singleton.mp used) ne
  unshared := fun _ _ free _ used => free used

theorem ifG (table : MacidTable net d) {a : Sta} (holds : Holds net d a) (f : Iface) :
    d.macId a ∈ d.macidCtl.ifG f ↔ f = net.ifaceOf a := by
  obtain ⟨b, same, ifG⟩ := table.holder _ holds.1 holds.2 (table.used a holds)
  have owner := table.sta b (.of_macId same holds.1 holds.2)
  rw [same, table.sta a holds] at owner
  cases owner
  exact ifG f

theorem macId_injective (table : MacidTable net d) {a b : Sta} (first : Holds net d a)
    (second : Holds net d b) (same : d.macId a = d.macId b) : a = b := by
  have owner := table.sta a first
  rw [same, table.sta b second] at owner
  exact (Option.some.inj owner).symm

theorem not_holds_of_idle (table : MacidTable net d)
    (nothing : net.isOwn psta = true ∨ net.num ≤ d.macId psta ∨
      d.macId psta = defaultMgmtMacid ∨ d.macId psta ∉ d.macidCtl.used ∨
      d.macId psta ∉ d.macidCtl.ifG (net.ifaceOf psta)) : ¬ Holds net d psta := by
  intro holds
  rcases nothing with own | invalid | mgmt | unused | unshared
  · rw [table.foreign psta holds] at own
    cases own
  · exact Nat.not_lt.mpr invalid holds.1
  · exact holds.2 mgmt
  · exact unused (table.used psta holds)
  · exact unshared ((table.ifG holds _).mpr rfl)

section Steps

variable [DecidableEq Sta]

theorem same_maps (table : MacidTable net d) (maps : SameMaps d' d) (none_held : ¬ Holds net d psta)
    {id : ℕ} (none_given : net.num ≤ id ∨ id = defaultMgmtMacid)
    (macId : d'.macId = Function.update d.macId psta id) : MacidTable net d' := by
  obtain ⟨used, ifG, sta⟩ := maps
  constructor
  · rw [used]
    exact table.mgmt_used
  · exact fun a holds => table.foreign a (holds.before macId none_given).2.2
  · intro a holds
    obtain ⟨-, same, held⟩ := holds.before macId none_given
    rw [used, same]
    exact table.used a held
  · intro a holds
    obtain ⟨-, same, held⟩ := holds.before macId none_given
    rw [sta, same]
    exact table.sta a held
  · intro i here ne isUsed
    rw [used] at isUsed
    obtain ⟨a, held, exactly⟩ := table.holder i here ne isUsed
    have other : a ≠ psta := by
      rintro rfl
      exact none_held (.of_macId held here ne)
    exact ⟨a, by rw [macId, update_of_ne other, held], by rwa [ifG]⟩
  · rw [used, ifG]
    exact table.unshared

variable [DecidableEq Iface]

theorem mark (table : MacidTable net d) (foreign : net.isOwn psta = false) (here : i < net.num)
    (free : i ∉ d.macidCtl.used) (none_held : ¬ Holds net d psta)
    (maps : SameMaps d' (markMacid d (net.ifaceOf psta) psta i))
    (macId : d'.macId = Function.update d.macId psta i) : MacidTable net d' := by
  have new : d'.macId psta = i := by rw [macId, update_self]
  have others : ∀ a, a ≠ psta → d'.macId a = d.macId a := fun a other => by
    rw [macId, update_of_ne other]
  have before : ∀ a, a ≠ psta → Holds net d' a → Holds net d a := fun a other =>
    (holds_congr (others a other)).mp
  have used : d'.macidCtl.used = insert i d.macidCtl.used := maps.used
  have sta : d'.macidCtl.sta = Function.update d.macidCtl.sta i (some psta) := maps.sta
  have ifG : ∀ f, d'.macidCtl.ifG f =
      if f = net.ifaceOf psta then insert i (d.macidCtl.ifG f) else d.macidCtl.ifG f := by
    intro f
    rw [maps.ifG]
    simp only [markMacid, update_apply]
    split
    next same => rw [same]
    · rfl
  have nobody := table.unshared i here free
  constructor
  · rw [used]
    exact Finset.mem_insert_of_mem table.mgmt_used
  · intro a holds
    by_cases same : a = psta
    · rwa [same]
    · exact table.foreign a (before a same holds)
  · intro a holds
    rw [used]
    by_cases same : a = psta
    · rw [same, new]
      exact Finset.mem_insert_self ..
    · rw [others a same]
      exact Finset.mem_insert_of_mem (table.used a (before a same holds))
  · intro a holds
    rw [sta]
    by_cases same : a = psta
    · rw [same, new, update_self]
    · have held := table.used a (before a same holds)
      have other : d.macId a ≠ i := fun eq => free (eq ▸ held)
      rw [others a same, update_of_ne other]
      exact table.sta a (before a same holds)
  · intro j small ne isUsed
    rw [used] at isUsed
    rcases Finset.mem_insert.mp isUsed with rfl | old
    · refine ⟨psta, new, fun f => ?_⟩
      rw [ifG f]
      split
      next same => simp [same]
      next other => simp [nobody f, other]
    · obtain ⟨a, held, exactly⟩ := table.holder j small ne old
      have other : a ≠ psta := by
        rintro rfl
        exact none_held (.of_macId held small ne)
      have apart : j ≠ i := fun eq => free (eq ▸ old)
      refine ⟨a, (others a other).trans held, fun f => ?_⟩
      rw [ifG f, ← exactly f]
      split
      · simp [apart]
      · rfl
  · intro j small unused f
    rw [used, Finset.mem_insert, not_or] at unused
    rw [ifG f]
    have absent := table.unshared j small unused.2 f
    split
    · simp [unused.1, absent]
    · exact absent

variable [Fintype Iface]

theorem unmark (table : MacidTable net d) (holds : Holds net d psta)
    (maps : SameMaps d' (unmarkMacid d (net.ifaceOf psta) (d.macId psta)))
    (macId : d'.macId = Function.update d.macId psta net.num) : MacidTable net d' := by
  -- no other interface has the id, so that it becomes free
  have alone : (macidIfaceBmp d (d.macId psta)).erase (net.ifaceOf psta) = ∅ := by
    ext f
    simp [macidIfaceBmp, table.ifG holds f]
  have used : d'.macidCtl.used = d.macidCtl.used.erase (d.macId psta) := by
    rw [maps.used]
    simp [unmarkMacid, alone]
  have sta : d'.macidCtl.sta = Function.update d.macidCtl.sta (d.macId psta) none := by
    rw [maps.sta]
    simp [unmarkMacid, alone]
  have ifG : ∀ f j, j ≠ d.macId psta → (j ∈ d'.macidCtl.ifG f ↔ j ∈ d.macidCtl.ifG f) := by
    intro f j ne
    rw [maps.ifG]
    simp only [unmarkMacid, alone, if_true, update_apply]
    split
    next same => simp [ne, same]
    · rfl
  have gone : ∀ f, d.macId psta ∉ d'.macidCtl.ifG f := by
    intro f
    rw [maps.ifG]
    simp only [unmarkMacid, alone, if_true, update_apply]
    split
    · simp
    next other => exact fun member => other ((table.ifG holds f).mp member)
  have before : ∀ a, Holds net d' a →
      d'.macId a = d.macId a ∧ Holds net d a ∧ d.macId a ≠ d.macId psta := by
    intro a held
    obtain ⟨other, same, held'⟩ := held.before macId (.inl le_rfl)
    exact ⟨same, held', fun eq => other (table.macId_injective held' holds eq)⟩
  constructor
  · rw [used]
    exact Finset.mem_erase.mpr ⟨Ne.symm holds.2, table.mgmt_used⟩
  · exact fun a held => table.foreign a (before a held).2.1
  · intro a held
    obtain ⟨same, held', differs⟩ := before a held
    rw [used, same]
    exact Finset.mem_erase.mpr ⟨differs, table.used a held'⟩
  · intro a held
    obtain ⟨same, held', differs⟩ := before a held
    rw [sta, same, update_of_ne differs]
    exact table.sta a held'
  · intro j small ne isUsed
    rw [used, Finset.mem_erase] at isUsed
    obtain ⟨a, held, exactly⟩ := table.holder j small ne isUsed.2
    have other : a ≠ psta := by
      rintro rfl
      exact isUsed.1 held.symm
    refine ⟨a, by rw [macId, update_of_ne other, held], fun f => ?_⟩
    rw [ifG f j isUsed.1]
    exact exactly f
  · intro j small unused f
    by_cases same : j = d.macId psta
    · rw [same]
      exact gone f
    · rw [ifG f j same]
      refine table.unshared j small (fun isUsed => unused ?_) f
      rw [used]
      exact Finset.mem_erase.mpr ⟨same, isUsed⟩

omit [DecidableEq Sta] [DecidableEq Iface] [Fintype Iface] in
theorem congr (table : MacidTable net d) (ctl : d'.macidCtl = d.macidCtl)
    (macId : d'.macId = d.macId) : MacidTable net d' := by
  obtain ⟨mgmt_used, foreign, used, sta, holder, unshared⟩ := table
  constructor <;> simp only [Holds, ctl, macId] <;> assumption

theorem step (table : MacidTable net d) {e : DvEvent Sta} (ok : Allocates net d e) :
    MacidTable net (step net d e) := by
  have noted : ∀ key extSec result, MacidTable net (noteKey d key extSec result) := by
    rintro key extSec ⟨_ | camId, cam⟩ <;> exact table.congr rfl rfl
  cases e with
  | setStakey sppMode algorithm key =>
    simp only [Key.step]
    split
    · exact table.congr rfl rfl
    · exact noted ..
  | setkey => exact noted ..
  | clearstakey => exact table.congr rfl rfl
  | allocMacid psta staMode =>
    have none_held : ¬ Holds net d psta := by
      rw [Holds, ok]
      omega
    obtain ⟨_, maps, _, macId⟩ | ⟨_, _, maps, _, macId⟩ | ⟨_, _, maps, _, macId⟩ |
        ⟨i, foreign, search, _, maps, _, macId⟩ :
        Allocated net d psta staMode (Key.step net d (.allocMacid psta staMode)) :=
      allocMacid_allocated
    · exact table.same_maps maps none_held (.inl le_rfl) macId
    · exact table.same_maps maps none_held (.inl le_rfl) macId
    · exact table.same_maps maps none_held (.inr rfl) macId
    · obtain ⟨here, free, -⟩ := freeMacid_some search
      exact table.mark foreign here free none_held maps macId
  | releaseMacid psta =>
    have macId : (Key.step net d (.releaseMacid psta)).macId = _ := releaseMacid_macId
    obtain ⟨nothing, maps, _, _⟩ | ⟨holds, maps, _, _⟩ :
        Released net d psta (Key.step net d (.releaseMacid psta)) := releaseMacid_released
    · exact table.same_maps maps (table.not_holds_of_idle nothing) (.inl le_rfl) macId
    · exact table.unmark holds maps macId

end Steps

end MacidTable

/-! ## Every run -/

section Runs

variable [DecidableEq Sta] [DecidableEq Iface] [Fintype Iface]

abbrev DvRun (net : Ifaces Sta Iface) (d : Dvobj Sta Iface) : Prop :=
  Run.Reachable (step net) (Allocates net) (initial net) d

theorem DvRun.macidTable (reached : DvRun net d) : MacidTable net d :=
  reached.invariant MacidTable.initial fun _ _ table ok => table.step ok

/-- Stations have different ids, the maps say who has an id, and only the interface's own address
or a full table is refused. -/
theorem macid_table_consistent (reached : DvRun net d) :
    (∀ a b, Holds net d a → Holds net d b → d.macId a = d.macId b → a = b) ∧
    (∀ i < net.num, i ≠ defaultMgmtMacid →
      (i ∈ d.macidCtl.used ↔ ∃ a, d.macidCtl.sta i = some a ∧ d.macId a = i ∧
        ∀ f, i ∈ d.macidCtl.ifG f ↔ f = net.ifaceOf a)) ∧
    ∀ a staMode, d.macId a = net.num → (allocMacid net d a staMode).macId a = net.num →
      net.isOwn a = true ∨ ∀ i < net.num,
        i ∈ d.macidCtl.used ∨ (net.isBcSta a = true ∧ secCamidIsUsed d.cam i = true) := by
  have table := reached.macidTable
  refine ⟨fun a b => table.macId_injective, fun i here ne => ?_, fun a staMode _ refused => ?_⟩
  · constructor
    · intro used
      obtain ⟨a, held, exactly⟩ := table.holder i here ne used
      exact ⟨a, held ▸ table.sta a (.of_macId held here ne), held, exactly⟩
    · rintro ⟨a, -, held, -⟩
      exact held ▸ table.used a (.of_macId held here ne)
  · obtain ⟨own, _, _, _⟩ | ⟨_, full, _, _, _⟩ | ⟨_, _, _, _, macId⟩ |
        ⟨i, _, search, _, _, _, macId⟩ :
        Allocated net d a staMode (allocMacid net d a staMode) := allocMacid_allocated
    · exact .inl own
    · exact .inr fun i here => freeMacid_none full here
    · rw [macId, update_self] at refused
      exact absurd refused (Nat.ne_of_lt net.mgmt_lt)
    · rw [macId, update_self] at refused
      exact absurd refused (Nat.ne_of_lt (freeMacid_some search).1)

end Runs

def twoIfaces : Ifaces (Fin 3) (Fin 2) where
  ifaceOf := ![0, 1, 1]
  addr := ![Vector.replicate 6 2, bcAddr, Vector.replicate 6 4]
  adapterMacAddr := ![Vector.replicate 6 6, Vector.replicate 6 8]
  num := 32
  num_le := le_rfl
  mgmt_lt := by decide

def twoIfacesRun : List (DvEvent (Fin 3)) :=
  [.allocMacid 0 false, .allocMacid 1 false, .releaseMacid 0, .allocMacid 2 false]

theorem twoIfaces_reached :
    DvRun twoIfaces (twoIfacesRun.foldl (step twoIfaces) (initial twoIfaces)) := by
  refine Run.Reachable.start.append ⟨?_, ?_, trivial, ?_, trivial⟩
  all_goals
    unfold Allocates
    decide

theorem macid_table_consistent_two :
    (0 ∈ (twoIfacesRun.foldl (step twoIfaces) (initial twoIfaces)).macidCtl.used ↔
      ∃ a, (twoIfacesRun.foldl (step twoIfaces) (initial twoIfaces)).macidCtl.sta 0 = some a ∧
        (twoIfacesRun.foldl (step twoIfaces) (initial twoIfaces)).macId a = 0 ∧
        ∀ f, 0 ∈ (twoIfacesRun.foldl (step twoIfaces) (initial twoIfaces)).macidCtl.ifG f ↔
          f = twoIfaces.ifaceOf a) ∧
    (twoIfacesRun.foldl (step twoIfaces) (initial twoIfaces)).macId 2 = 0 :=
  ⟨(macid_table_consistent twoIfaces_reached).2.1 0 (by decide) (by decide), by decide⟩

end Rtl88x2bu.Key
