import Rtl88x2bu.Rx.Frame

/-!
# The security CAM

`core/rtw_wlan_util.c`: the map of used entries, the cache of their contents, and the allocation of
an entry for a key; `core/rtw_mlme_ext.c`: the commands that set and clear keys. The chip has the
capabilities `SEC_CAP_CHK_BMC` and `SEC_CAP_CHK_EXTRA_SEC` (`rtl8822b_halinit.c`), and neither
`SEC_DEFAULT_KEY_SEARCH` nor `CONFIG_WRITE_CACHE_ONLY` is compiled in.
-/

namespace Rtl88x2bu.Key

open Rx (MacAddr SecurityType nullAddr)

variable (sppMode : Bool)

/-- `cam_ctl.num`: the 64 entries of the chip, cut down to `SEC_CAM_ENT_NUM_SW_LIMIT`. -/
def camNum : ℕ := 32

def securityTypeCode : SecurityType → BitVec 8
  | .noPrivacy => 0x00
  | .wep40 => 0x01
  | .tkip => 0x02
  | .tkipWtmic => 0x03
  | .aes => 0x04
  | .wep104 => 0x05
  | .sms4 => 0x06
  | .gcmp => 0x07
  | .ccmp256 => 0x14
  | .gcmp256 => 0x17
  | .bipCmac128 => 0x20
  | .bipGmac128 => 0x21
  | .bipGmac256 => 0x22
  | .bipCmac256 => 0x23

def isSecType256 (algorithm : SecurityType) : Bool :=
  securityTypeCode algorithm &&& 0x10 != 0

/-! ## Entries -/

structure CamCtrl where
  valid : Bool := false
  ext : Bool := false
  spp : Bool := false
  gk : Bool := false
  /-- `BIT(5)`: the second half of a key of two entries. -/
  second : Bool := false
  algorithm : BitVec 3 := 0
  kid : Fin 4 := ⟨0, Nat.zero_lt_succ (nat_lit 3)⟩
  deriving DecidableEq, Repr

structure SecCamEnt where
  mac : MacAddr := nullAddr
  ctrl : CamCtrl := {}
  deriving DecidableEq, Repr

structure CamCtl where
  used : Finset ℕ := ∅
  cache : ℕ → SecCamEnt := fun _ => {}

variable (c : CamCtl)

structure KeyName where
  addr : MacAddr
  kid : Fin 4
  gk : Bool
  deriving DecidableEq, Repr

/-! ## The map of used entries -/

def secCamMapSet (map : Finset ℕ) (id : ℕ) : Finset ℕ :=
  if id < 32 then insert id map else map

def secCamMapClr (map : Finset ℕ) (id : ℕ) : Finset ℕ :=
  if id < 32 then map.erase id else map

def secCamidIsUsed (id : ℕ) : Bool :=
  if id ≥ camNum then false else decide (id ∈ c.used)

def camidIsGk (id : ℕ) : Bool :=
  if id ≥ camNum then false
  else if secCamidIsUsed c id then (c.cache id).ctrl.gk
  else false

/-! ## Search and allocation -/

/-- `kid` and `gk` are `none` for the source's `-1`, which matches every entry. -/
def camCacheChk (addr : MacAddr) (kid : Option (Fin 4)) (gk : Option Bool) (id : ℕ) : Bool :=
  (c.cache id).mac == addr && kid.all (· == (c.cache id).ctrl.kid) && gk.all (· == camidIsGk c id)

def camidSearch (addr : MacAddr) (kid : Option (Fin 4)) (gk : Option Bool) : Option ℕ :=
  (List.range camNum).find? (camCacheChk c addr kid gk)

/-- The test of the loop in `rtw_get_camid`; a key of two entries needs the next one, too. -/
def hasRoom (extSec : Bool) (i : ℕ) : Bool :=
  !secCamidIsUsed c i && (!extSec || (decide (i + 1 < camNum) && !secCamidIsUsed c (i + 1)))

/-- With `SEC_CAP_CHK_BMC` the search also compares the group bit. -/
def getCamid (key : KeyName) (extSec : Bool) : Option ℕ :=
  match camidSearch c key.addr (some key.kid) (some key.gk) with
  | some i => some i
  | none => (List.range camNum).find? (hasRoom c extSec)

/-- `rtw_camid_alloc` for a key with an address: the entry, and whether it was in use already. -/
def camidAlloc (key : KeyName) (extSec : Bool) : Option (ℕ × Bool) × CamCtl :=
  match getCamid c key extSec with
  | none => (none, c)
  | some camId =>
    let used := secCamMapSet c.used camId
    (some (camId, secCamidIsUsed c camId),
      { c with used := if extSec then secCamMapSet used (camId + 1) else used })

def camidFree (camId : ℕ) : CamCtl :=
  if camId < camNum then { c with used := secCamMapClr c.used camId } else c

def writeCam (id : ℕ) (ctrl : CamCtrl) (mac : MacAddr) : CamCtl :=
  let cache := Function.update c.cache id { mac, ctrl }
  if ctrl.ext then
    { c with cache := Function.update cache (id + 1) { mac, ctrl := { ctrl with second := true } } }
  else { c with cache }

def clearCamEntry (id : ℕ) : CamCtl :=
  { c with cache := Function.update c.cache id {} }

/-- The loops that clear the entries of an address. They do not end for the null address; for others
`camNum` rounds do (`clearKeys_eq`). -/
def clearKeys (addr : MacAddr) (gk : Option Bool) : ℕ → CamCtl → CamCtl
  | 0, c => c
  | fuel + 1, c =>
    match camidSearch c addr none gk with
    | none => c
    | some camId => clearKeys addr gk fuel (camidFree (clearCamEntry c camId) camId)

/-! ## Commands -/

def amsduSppEnable : SecurityType → Bool
  | .aes | .ccmp256 | .gcmp | .gcmp256 => sppMode
  | _ => false

def keyCtrl (algorithm : SecurityType) (key : KeyName) : CamCtrl :=
  { valid := true
    ext := isSecType256 algorithm
    spp := amsduSppEnable sppMode algorithm
    gk := key.gk
    algorithm := (securityTypeCode algorithm).truncate 3
    kid := key.kid }

/-- `set_stakey_hdl` for a station that is known: the entry that the key is written to. -/
def setStakeyHdl (algorithm : SecurityType) (key : KeyName) : Option ℕ × CamCtl :=
  if algorithm = .noPrivacy then
    (none, clearKeys key.addr none camNum c)
  else
    match camidAlloc c key (isSecType256 algorithm) with
    | (none, c) => (none, c)
    | (some (camId, used), c) =>
      let c :=
        if !key.gk && used && camidIsGk c camId then clearKeys key.addr (some true) camNum c
        else c
      (some camId, writeCam c camId (keyCtrl sppMode algorithm key) key.addr)

/-- `setkey_hdl` in station mode: the group key of the access point `bssid`. For a WEP key it goes
on with `set_stakey_hdl`. -/
def setkeyHdl (assocSuccess : Bool) (algorithm : SecurityType) (bssid : MacAddr) (kid : Fin 4) :
    Option ℕ × CamCtl :=
  let key : KeyName := { addr := bssid, kid, gk := true }
  if assocSuccess then
    match camidAlloc c key (isSecType256 algorithm) with
    | (none, c) => (none, c)
    | (some (camId, used), c) =>
      if used && !camidIsGk c camId then (none, clearKeys bssid (some true) camNum c)
      else (some camId, writeCam c camId (keyCtrl sppMode algorithm key) bssid)
  else (none, c)

def clearstakeyCmd (addr : MacAddr) : CamCtl :=
  clearKeys addr none camNum c

/-! ## What the functions do -/

section Spec

variable {c c' : CamCtl} {addr : MacAddr} {key : KeyName} {extSec : Bool} {id n : ℕ}

@[simp]
theorem mem_secCamMapSet {map : Finset ℕ} :
    n ∈ secCamMapSet map id ↔ (n = id ∧ id < 32) ∨ n ∈ map := by
  unfold secCamMapSet
  split <;> simp_all

@[simp]
theorem secCamidIsUsed_iff : secCamidIsUsed c id = true ↔ id < camNum ∧ id ∈ c.used := by
  unfold secCamidIsUsed
  split
  next big => simp [Nat.not_lt.mpr big]
  next small => simp [Nat.not_le.mp small]

theorem camidIsGk_iff :
    camidIsGk c id = true ↔ id < camNum ∧ id ∈ c.used ∧ (c.cache id).ctrl.gk = true := by
  unfold camidIsGk
  split
  next big => simp [Nat.not_lt.mpr big]
  next small =>
    split
    next used => simp [secCamidIsUsed_iff.mp used]
    next unused =>
      have free : id ∉ c.used := fun used =>
        unused (secCamidIsUsed_iff.mpr ⟨Nat.not_le.mp small, used⟩)
      simp [free]

theorem camidAlloc_of_getCamid (found : getCamid c key extSec = some id) :
    camidAlloc c key extSec = (some (id, secCamidIsUsed c id),
      { c with used := if extSec then secCamMapSet (secCamMapSet c.used id) (id + 1)
                       else secCamMapSet c.used id }) := by
  simp [camidAlloc, found]

theorem camidIsGk_of_getCamid (found : getCamid c key extSec = some id)
    (reused : secCamidIsUsed c id = true) : camidIsGk c id = key.gk := by
  unfold getCamid at found
  split at found
  next i search =>
    cases found
    have matched := List.find?_some search
    simp only [camCacheChk, Option.all_some, Bool.and_eq_true, beq_iff_eq] at matched
    exact matched.2.symm
  · have room := List.find?_some found
    simp [hasRoom, reused] at room

theorem camidAlloc_isGk (alloc : camidAlloc c key extSec = (some (id, true), c')) :
    camidIsGk c' id = key.gk := by
  unfold camidAlloc at alloc
  split at alloc
  · simp at alloc
  next camId found =>
    obtain ⟨same, rfl⟩ := Prod.mk.inj alloc
    obtain ⟨rfl, reused⟩ := Prod.mk.inj (Option.some.inj same)
    have gk := camidIsGk_of_getCamid found reused
    have used := secCamidIsUsed_iff.mp reused
    rw [← gk, Bool.eq_iff_iff, camidIsGk_iff, camidIsGk_iff]
    cases extSec <;> simp [used]

def installKey (c : CamCtl) (algorithm : SecurityType) (key : KeyName) : Option ℕ × CamCtl :=
  match camidAlloc c key (isSecType256 algorithm) with
  | (none, c) => (none, c)
  | (some (camId, _), c) =>
    (some camId, writeCam c camId (keyCtrl sppMode algorithm key) key.addr)

theorem setStakeyHdl_eq {sppMode : Bool} {algorithm : SecurityType}
    (keyed : algorithm ≠ .noPrivacy) :
    setStakeyHdl sppMode c algorithm key = installKey sppMode c algorithm key := by
  rw [setStakeyHdl, if_neg keyed, installKey]
  cases alloc : camidAlloc c key (isSecType256 algorithm) with
  | mk result c' =>
    cases result with
    | none => rfl
    | some entry =>
      obtain ⟨camId, used⟩ := entry
      have noConflict : (!key.gk && used && camidIsGk c' camId) = false := by
        cases used with
        | false => simp
        | true => simp [camidAlloc_isGk alloc]
      simp [noConflict]

theorem setkeyHdl_eq {sppMode : Bool} {algorithm : SecurityType} {kid : Fin 4} :
    setkeyHdl sppMode c true algorithm addr kid =
      installKey sppMode c algorithm { addr, kid, gk := true } := by
  simp only [setkeyHdl, installKey, if_true]
  cases alloc : camidAlloc c { addr, kid, gk := true } (isSecType256 algorithm) with
  | mk result c' =>
    cases result with
    | none => rfl
    | some entry =>
      obtain ⟨camId, used⟩ := entry
      have noConflict : (used && !camidIsGk c' camId) = false := by
        cases used with
        | false => simp
        | true => simp [camidAlloc_isGk alloc]
      simp [noConflict]

/-! ## Clearing the keys of an address -/

def entriesOf (c : CamCtl) (addr : MacAddr) : Finset ℕ :=
  (Finset.range camNum).filter fun i => (c.cache i).mac = addr

@[simp]
theorem mem_entriesOf : n ∈ entriesOf c addr ↔ n < camNum ∧ (c.cache n).mac = addr := by
  simp [entriesOf]

theorem camidSearch_addr : camidSearch c addr none none = none ↔ entriesOf c addr = ∅ := by
  simp [camidSearch, camCacheChk, Finset.eq_empty_iff_forall_notMem]

theorem camidSearch_addr_mem (found : camidSearch c addr none none = some id) :
    id ∈ entriesOf c addr := by
  have here := List.mem_range.mp (List.mem_of_find?_eq_some found)
  have matched := List.find?_some found
  simp only [camCacheChk, Option.all_none, Bool.and_true, beq_iff_eq] at matched
  exact mem_entriesOf.mpr ⟨here, matched⟩

theorem entriesOf_clear (known : addr ≠ nullAddr) (here : id < camNum) :
    entriesOf (camidFree (clearCamEntry c id) id) addr = (entriesOf c addr).erase id := by
  ext n
  simp only [mem_entriesOf, camidFree, here, if_true, clearCamEntry, Finset.mem_erase]
  by_cases same : n = id
  · subst same
    simp [Function.update_self, Ne.symm known]
  · simp [same]

theorem clearKeys_of_fuel (known : addr ≠ nullAddr) {fuel : ℕ}
    (enough : (entriesOf c addr).card ≤ fuel) :
    clearKeys addr none fuel c =
      { used := c.used \ entriesOf c addr
        cache := fun i => if i ∈ entriesOf c addr then {} else c.cache i } := by
  induction fuel generalizing c with
  | zero =>
    have none_left : entriesOf c addr = ∅ := Finset.card_eq_zero.mp (Nat.le_zero.mp enough)
    simp [clearKeys, none_left]
  | succ fuel ih =>
    rw [clearKeys]
    split
    next done =>
      have none_left := camidSearch_addr.mp done
      simp [none_left]
    next camId found =>
      have member := camidSearch_addr_mem found
      have here : camId < camNum := (mem_entriesOf.mp member).1
      have fewer := entriesOf_clear (c := c) known here
      have room : (entriesOf (camidFree (clearCamEntry c camId) camId) addr).card ≤ fuel := by
        rw [fewer, Finset.card_erase_of_mem member]
        omega
      rw [ih room, fewer]
      have freed : (camidFree (clearCamEntry c camId) camId).used = c.used.erase camId := by
        have inMap : camId < 32 := here
        simp [camidFree, here, secCamMapClr, inMap, clearCamEntry]
      have cleared : ∀ i, (camidFree (clearCamEntry c camId) camId).cache i =
          if i = camId then {} else c.cache i := by
        intro i
        simp [camidFree, here, clearCamEntry, Function.update_apply]
      congr 1
      · rw [freed]
        ext n
        by_cases same : n = camId
        · simp [same, member]
        · simp [same]
      · funext i
        by_cases same : i = camId
        · simp [same, cleared, member]
        · simp [same, cleared]

theorem clearKeys_eq (known : addr ≠ nullAddr) :
    clearKeys addr none camNum c =
      { used := c.used \ entriesOf c addr
        cache := fun i => if i ∈ entriesOf c addr then {} else c.cache i } := by
  have enough : (entriesOf c addr).card ≤ camNum := by
    simpa [entriesOf] using Finset.card_filter_le (Finset.range camNum) _
  exact clearKeys_of_fuel known enough

end Spec

end Rtl88x2bu.Key
