import Rtl88x2bu.Bridge.Tags

/-!
# What handling a frame does to the IPv4 entries

Inserting sets one address of the map from IPv4 addresses to clients; the rest of `nat25_db_handle`
leaves the map and the shortcut alone.
-/

namespace Rtl88x2bu.Bridge

open Function Option
open Rx (MacAddr nullAddr)
open Tape

/-- The client of an address and when it was last heard of. -/
def Adapter.ipv4 (priv : Adapter) (ip : IpAddr) : Option (MacAddr × ℕ) :=
  (priv.find (.ipv4 ip)).map fun db => (db.macAddr, db.ageingTimer)

/-- No chain has an address twice. -/
def Adapter.Distinct (priv : Adapter) : Prop :=
  Buckets.Distinct DbEntry.networkAddr priv.nethash

/-- The IPv4 entries become `table`, and nothing else changes that matters for IPv4 frames. -/
structure Becomes (table : IpAddr → Option (MacAddr × ℕ)) (priv priv' : Adapter) : Prop where
  ipv4 : priv'.ipv4 = table
  distinct : priv.Distinct → priv'.Distinct
  jiffies : priv'.jiffies = priv.jiffies
  scdbMac : priv'.scdbMac = priv.scdbMac
  scdbIp : priv'.scdbIp = priv.scdbIp
  scdbEntry : priv'.scdbEntry = priv.scdbEntry
  nat25Disable : priv'.ethBrExtInfo.nat25Disable = priv.ethBrExtInfo.nat25Disable
  nat25scDisable : priv'.ethBrExtInfo.nat25scDisable = priv.ethBrExtInfo.nat25scDisable

/-- Nothing changes that matters for IPv4 frames. -/
abbrev Quiet (priv priv' : Adapter) : Prop :=
  Becomes priv.ipv4 priv priv'

theorem Quiet.refl (priv : Adapter) : Quiet priv priv :=
  ⟨rfl, id, rfl, rfl, rfl, rfl, rfl, rfl⟩

theorem Quiet.trans {priv priv' priv'' : Adapter} (first : Quiet priv priv')
    (second : Quiet priv' priv'') : Quiet priv priv'' :=
  ⟨second.ipv4.trans first.ipv4, second.distinct ∘ first.distinct,
    second.jiffies.trans first.jiffies, second.scdbMac.trans first.scdbMac,
    second.scdbIp.trans first.scdbIp, second.scdbEntry.trans first.scdbEntry,
    second.nat25Disable.trans first.nat25Disable,
    second.nat25scDisable.trans first.nat25scDisable⟩

/-! ## The table -/

section Table

variable {priv : Adapter} {env : Env} {addr addr' : NetworkAddr} {ip : IpAddr} {mac : MacAddr}
  {malloc : Bool} {f : DbEntry → DbEntry}

section

variable (same : ∀ db, (f db).networkAddr = db.networkAddr)
include same

theorem find_modify_self : (priv.modify addr f).find addr = (priv.find addr).map f :=
  Buckets.find_modify_self same addr

theorem find_modify_of_ne (apart : addr' ≠ addr) :
    (priv.modify addr f).find addr' = priv.find addr' :=
  Buckets.find_modify_of_ne same apart

theorem distinct_modify (distinct : priv.Distinct) : (priv.modify addr f).Distinct :=
  Buckets.Distinct.modify distinct same addr

theorem ipv4_modify
    (core : ∀ db, ((f db).macAddr, (f db).ageingTimer) = (db.macAddr, db.ageingTimer)) :
    (priv.modify addr f).ipv4 = priv.ipv4 := by
  funext ip
  by_cases here : NetworkAddr.ipv4 ip = addr
  · subst here
    rw [Adapter.ipv4, find_modify_self same, map_map]
    exact congrArg (fun core => Option.map core (priv.find (.ipv4 ip))) (funext core)
  · rw [Adapter.ipv4, find_modify_of_ne same here, Adapter.ipv4]

end

theorem find_dbNetworkInsert_of_ne (apart : addr' ≠ addr) :
    (dbNetworkInsert malloc priv mac addr).find addr' = priv.find addr' := by
  rw [dbNetworkInsert]
  split
  · exact find_modify_of_ne (fun _ => rfl) apart
  · split
    · exact Buckets.find_push_of_ne apart
    · rfl

theorem find_dbNetworkInsert_self :
    ∃ db, (dbNetworkInsert true priv mac addr).find addr = some db ∧ db.macAddr = mac ∧
      db.ageingTimer = priv.jiffies := by
  rw [dbNetworkInsert]
  split
  case h_1 db found =>
    have updated : (priv.modify addr fun db =>
        { db with macAddr := mac, ageingTimer := priv.jiffies }).find addr = _ :=
      find_modify_self fun _ => rfl
    rw [found] at updated
    exact ⟨_, updated, rfl, rfl⟩
  case h_2 =>
    rw [if_pos rfl]
    exact ⟨_, Buckets.find_push_self _, rfl, rfl⟩

theorem distinct_dbNetworkInsert (distinct : priv.Distinct) :
    (dbNetworkInsert malloc priv mac addr).Distinct := by
  rw [dbNetworkInsert]
  split
  · exact distinct_modify (fun _ => rfl) distinct
  case h_2 absent =>
    split
    · exact Buckets.Distinct.push distinct absent
    · exact distinct

/-- Recording a frame sets the client of its source address. -/
theorem ipv4_dbNetworkInsert :
    (dbNetworkInsert true priv mac (.ipv4 ip)).ipv4 =
      Function.update priv.ipv4 ip (some (mac, priv.jiffies)) := by
  funext other
  by_cases here : other = ip
  · subst here
    obtain ⟨db, found, client, time⟩ := @find_dbNetworkInsert_self priv (.ipv4 other) mac
    rw [update_self, Adapter.ipv4, found, map_some, client, time]
  · have apart : NetworkAddr.ipv4 other ≠ .ipv4 ip := fun same => here (NetworkAddr.ipv4.inj same)
    rw [update_of_ne here, Adapter.ipv4, find_dbNetworkInsert_of_ne apart, Adapter.ipv4]

theorem ipv4_dbNetworkInsert_of_ne (apart : ∀ ip, NetworkAddr.ipv4 ip ≠ addr) :
    (dbNetworkInsert malloc priv mac addr).ipv4 = priv.ipv4 := by
  funext ip
  rw [Adapter.ipv4, find_dbNetworkInsert_of_ne (apart ip), Adapter.ipv4]

theorem dbNetworkInsert_eq :
    dbNetworkInsert malloc priv mac addr =
      { priv with nethash := (dbNetworkInsert malloc priv mac addr).nethash } := by
  rw [dbNetworkInsert]
  split
  · rfl
  · split <;> rfl

theorem becomes_dbNetworkInsert {table : IpAddr → Option (MacAddr × ℕ)}
    (ipv4 : (dbNetworkInsert malloc priv mac addr).ipv4 = table) :
    Becomes table priv (dbNetworkInsert malloc priv mac addr) := by
  have only := @dbNetworkInsert_eq priv addr mac malloc
  exact ⟨ipv4, distinct_dbNetworkInsert,
    by rw [only], by rw [only], by rw [only], by rw [only], by rw [only], by rw [only]⟩

theorem quiet_dbNetworkInsert (apart : ∀ ip, NetworkAddr.ipv4 ip ≠ addr) :
    Quiet priv (dbNetworkInsert malloc priv mac addr) :=
  becomes_dbNetworkInsert (ipv4_dbNetworkInsert_of_ne apart)

theorem find_refresh_self :
    (priv.refresh addr).find addr =
      (priv.find addr).map fun db => { db with ageingTimer := priv.jiffies } :=
  find_modify_self fun _ => rfl

theorem find_refresh_of_ne (apart : addr' ≠ addr) :
    (priv.refresh addr).find addr' = priv.find addr' :=
  find_modify_of_ne (fun _ => rfl) apart

theorem ipv4_refresh :
    (priv.refresh (.ipv4 ip)).ipv4 =
      Function.update priv.ipv4 ip ((priv.ipv4 ip).map fun core => (core.1, priv.jiffies)) := by
  funext other
  by_cases here : other = ip
  · subst here
    rw [update_self, Adapter.ipv4, find_refresh_self, Adapter.ipv4, map_map, map_map]
    rfl
  · have apart : NetworkAddr.ipv4 other ≠ .ipv4 ip := fun same => here (NetworkAddr.ipv4.inj same)
    rw [update_of_ne here, Adapter.ipv4, find_refresh_of_ne apart, Adapter.ipv4]

theorem becomes_refresh {time : ℕ} (found : priv.ipv4 ip = some (mac, time)) :
    Becomes (Function.update priv.ipv4 ip (some (mac, priv.jiffies))) priv
      (priv.refresh (.ipv4 ip)) := by
  refine ⟨?_, distinct_modify fun _ => rfl, rfl, rfl, rfl, rfl, rfl, rfl⟩
  rw [ipv4_refresh, found, map_some]

/-- An entry that stays keeps its address, its client and its time. -/
theorem afterExpiry_core {jiffies : ℕ} {db db' : DbEntry}
    (sieved : afterExpiry env jiffies db = some db') : db'.networkAddr = db.networkAddr ∧
      (db'.macAddr, db'.ageingTimer) = (db.macAddr, db.ageingTimer) := by
  revert sieved
  fun_cases afterExpiry env jiffies db
  · exact nofun
  · rintro ⟨⟩
    exact ⟨rfl, rfl⟩
  · rintro ⟨⟩
    exact ⟨rfl, rfl⟩

theorem find_nat25DbExpire (distinct : priv.Distinct) (addr : NetworkAddr) :
    (nat25DbExpire env priv).find addr = (priv.find addr).bind (afterExpiry env priv.jiffies) :=
  Buckets.find_sieve distinct (fun _ _ sieved => (afterExpiry_core sieved).1) addr

theorem distinct_nat25DbExpire (distinct : priv.Distinct) : (nat25DbExpire env priv).Distinct :=
  Buckets.Distinct.sieve distinct fun _ _ sieved => (afterExpiry_core sieved).1

/-- Expiry takes only entries away that are too old. -/
theorem ipv4_nat25DbExpire (distinct : priv.Distinct) (ip : IpAddr) :
    (nat25DbExpire env priv).ipv4 ip = priv.ipv4 ip ∨
      (nat25DbExpire env priv).ipv4 ip = none ∧
        ∃ client time, priv.ipv4 ip = some (client, time) ∧
          time + nat25AgeingTime * env.hz ≤ priv.jiffies := by
  rw [Adapter.ipv4, find_nat25DbExpire distinct, Adapter.ipv4]
  cases there : priv.find (.ipv4 ip) with
  | none => exact Or.inl rfl
  | some db =>
    rw [bind_some]
    cases sieved : afterExpiry env priv.jiffies db with
    | some db' =>
      left
      rw [map_some, map_some, (afterExpiry_core sieved).2]
    | none =>
      right
      refine ⟨rfl, _, _, rfl, ?_⟩
      rw [afterExpiry] at sieved
      split at sieved
      case isTrue expired => exact of_decide_eq_true expired
      case isFalse => exact nomatch sieved

end Table

/-! ## Frames -/

/-- A property of the adapter that handling frames keeps, if the addresses they record are
`Allowed`. -/
structure FrameRule (Allowed : NetworkAddr → Prop) (P : Adapter → Prop) : Prop where
  insert : ∀ malloc priv mac addr, Allowed addr → P priv → P (dbNetworkInsert malloc priv mac addr)
  use : ∀ priv addr, P priv →
    P (priv.modify addr fun db => { db with useCount := db.useCount + 1 })
  bridge : ∀ priv, P priv → P (netdevBrInit priv)
  pppoe : ∀ priv addr left, P priv →
    P { priv with pppoeAddr := addr, pppoeConnectionInProgress := left }

section Frames

variable {env : Env} {priv : Adapter} {skb : SkBuff} {Allowed : NetworkAddr → Prop}
  {P : Adapter → Prop}

theorem priv_cutRelayTag {tag tagLen : ℕ} : (cutRelayTag priv skb tag tagLen).priv = priv := by
  rw [cutRelayTag]
  split
  · rfl
  · dsimp only
    split <;> rfl

theorem priv_lookupRelayTag : (lookupRelayTag priv skb).priv = priv := by
  rw [lookupRelayTag]
  split
  · rfl
  · rw [takeRelayTag]
    dsimp only
    split
    · rfl
    · split
      · rfl
      · exact priv_cutRelayTag

theorem priv_addRelayTag {old : List Byte} : (addRelayTag env priv skb old).priv = priv := by
  rw [addRelayTag]
  split <;> rfl

theorem priv_insertRelayTag : (insertRelayTag env priv skb).priv = priv := by
  rw [insertRelayTag]
  split
  · exact priv_addRelayTag
  · rw [replaceRelayTag]
    dsimp only
    split
    · rfl
    · split
      · rfl
      · exact priv_addRelayTag

section

variable (rule : FrameRule Allowed P) (holds : P priv)
include rule holds

theorem FrameRule.lookup (addr : NetworkAddr) :
    P (dbNetworkLookupAndReplace env priv skb addr).1 := by
  rw [dbNetworkLookupAndReplace]
  split
  · split
    · exact holds
    · exact rule.use priv addr holds
  · exact holds

theorem FrameRule.ipUnknown : P (ipUnknown priv skb).priv := by
  rw [Bridge.ipUnknown]
  dsimp only
  split
  · exact holds
  · split
    · exact rule.bridge priv holds
    · exact holds

theorem FrameRule.ipLookup : P (ipLookup env priv skb).priv := by
  have looked := @FrameRule.lookup env priv ((logIpAddrs env skb).touch 30 4) _ _ rule holds
    (.ipv4 (ipAt ((logIpAddrs env skb).touch 30 4).data 30))
  rw [Bridge.ipLookup]
  split
  case h_1 priv' skb' found =>
    rw [found] at looked
    exact looked
  case h_2 priv' skb' missed =>
    rw [missed] at looked
    exact rule.ipUnknown looked

theorem FrameRule.pppoeLookup : P (pppoeLookup env priv skb).priv := by
  rw [Bridge.pppoeLookup]
  dsimp only
  split
  · split
    · rw [priv_lookupRelayTag]
      exact holds
    · split
      · exact holds
      · exact rule.pppoe priv priv.pppoeAddr _ holds
  · split
    · exact rule.lookup holds _
    · exact holds

/-- Looking a received frame up. -/
theorem FrameRule.handle_lookup : P (nat25DbHandle env priv skb .lookup).priv := by
  fun_cases nat25DbHandle env priv skb .lookup
  · rw [handleIp]
    split
    · exact holds
    · exact rule.ipLookup holds
  · rw [handleArp]
    split
    · exact holds
    · exact rule.lookup holds _
  · exact rule.pppoeLookup holds
  · exact holds
  · exact holds
  · rw [handleIpv6]
    split
    · exact holds
    · exact rule.lookup holds _
  · exact holds

theorem FrameRule.received : P (nat25HandleFrame env priv skb).priv := by
  have looked (skb : SkBuff) : P (lookupFrame env priv skb).priv := by
    fun_cases lookupFrame env priv skb
    all_goals first | exact holds | exact rule.handle_lookup holds
  rw [nat25HandleFrame]
  split
  · exact looked _
  · exact holds

theorem FrameRule.pppoeInsert (pppoe : ∀ sid mac, Allowed (.pppoe sid mac)) :
    P (pppoeInsert env priv skb).priv := by
  rw [Bridge.pppoeInsert]
  split
  · rw [pppoeDiscovery]
    dsimp only
    split
    · split
      · rw [priv_insertRelayTag]
        exact holds
      · split
        · exact holds
        · exact rule.pppoe priv _ _ holds
    · exact holds
  · have inserted := rule.insert env.malloc priv (macAt skb.data 6) _
      (pppoe (sidAt skb.data) (macAt skb.data 0)) holds
    rw [pppoeSession]
    split
    · exact rule.pppoe _ _ 0 inserted
    · exact inserted

theorem FrameRule.ipv6Insert (ipv6 : ∀ ip, Allowed (.ipv6 ip)) :
    P (ipv6Insert env priv skb).priv := by
  have inserted := rule.insert env.malloc priv (macAt skb.data 6) _
    (ipv6 (ipv6At skb.data 22)) holds
  rw [Bridge.ipv6Insert]
  dsimp only
  split
  · exact holds
  · split
    · rw [ipv6Rewrite]
      split <;> exact inserted
    · exact inserted

/-- Recording a client's frame. -/
theorem FrameRule.handle_insert
    (ipv4 : be16 skb.data 12 = ethPIp ∨ be16 skb.data 12 = ethPArp → ∀ ip, Allowed (.ipv4 ip))
    (pppoe : ∀ sid mac, Allowed (.pppoe sid mac)) (ipv6 : ∀ ip, Allowed (.ipv6 ip)) :
    P (nat25DbHandle env priv skb .insert).priv := by
  fun_cases nat25DbHandle env priv skb .insert
  case case1 ip =>
    rw [handleIp]
    split
    · exact holds
    · rw [ipInsert]
      dsimp only
      split
      · exact holds
      · exact rule.insert _ _ _ _ (ipv4 (.inl ip) _) holds
  case case2 arp =>
    rw [handleArp]
    split
    · exact holds
    · exact rule.insert _ _ _ _ (ipv4 (.inr arp) _) holds
  case case3 => exact rule.pppoeInsert holds pppoe
  case case4 => exact holds
  case case5 => exact holds
  case case6 =>
    rw [handleIpv6]
    split
    · exact holds
    · exact rule.ipv6Insert holds ipv6
  case case7 => exact holds

end

/-- Only IPv4 and ARP frames of clients change the map. -/
theorem quiet_rule (priv : Adapter) :
    FrameRule (fun addr => ∀ ip, .ipv4 ip ≠ addr) (Quiet priv) where
  insert _ _ _ _ apart quiet := quiet.trans (quiet_dbNetworkInsert apart)
  use _ _ quiet := quiet.trans
    ⟨ipv4_modify (fun _ => rfl) fun _ => rfl, distinct_modify fun _ => rfl, rfl, rfl, rfl, rfl, rfl,
      rfl⟩
  bridge _ quiet := quiet.trans ⟨rfl, id, rfl, rfl, rfl, rfl, rfl, rfl⟩
  pppoe _ _ _ quiet := quiet.trans ⟨rfl, id, rfl, rfl, rfl, rfl, rfl, rfl⟩

theorem quiet_nat25DbHandle_insert (notIp : be16 skb.data 12 ≠ ethPIp)
    (notArp : be16 skb.data 12 ≠ ethPArp) : Quiet priv (nat25DbHandle env priv skb .insert).priv :=
  (quiet_rule priv).handle_insert (Quiet.refl priv)
    (fun ipv4 => absurd ipv4 (not_or.mpr ⟨notIp, notArp⟩)) (fun _ _ _ => nofun) fun _ _ => nofun

end Frames

section Insert

variable {env : Env} {priv : Adapter} {skb : SkBuff}

/-- Checking changes nothing. -/
theorem nat25DbHandle_check :
    (nat25DbHandle env priv skb .check).priv = priv ∧
      SameFrame skb (nat25DbHandle env priv skb .check).skb := by
  fun_cases nat25DbHandle env priv skb .check
  · rw [handleIp]
    split <;> exact ⟨rfl, rfl, rfl, rfl⟩
  · rw [handleArp]
    split <;> exact ⟨rfl, rfl, rfl, rfl⟩
  · rw [handlePppoe]
    split <;> exact ⟨rfl, rfl, rfl, rfl⟩
  · exact ⟨rfl, rfl, rfl, rfl⟩
  · exact ⟨rfl, rfl, rfl, rfl⟩
  · rw [handleIpv6]
    split
    · exact ⟨rfl, rfl, rfl, rfl⟩
    · dsimp only
      split <;> exact ⟨rfl, rfl, rfl, rfl⟩
  · exact ⟨rfl, rfl, rfl, rfl⟩

/-- An IPv4 frame is recorded, unless its header does not fit. -/
theorem nat25DbHandle_insert_ip (ip : be16 skb.data 12 = ethPIp) :
    (nat25DbHandle env priv skb .insert).ret = some (-1) ∧
        (nat25DbHandle env priv skb .insert).priv = priv ∨
      (nat25DbHandle env priv skb .insert).ret = some 0 ∧
        (nat25DbHandle env priv skb .insert).priv =
          if ipAt skb.data 26 = nullIp then priv
          else dbNetworkInsert env.malloc priv (macAt skb.data 6) (.ipv4 (ipAt skb.data 26)) := by
  have handled : nat25DbHandle env priv skb .insert =
      handleIp env priv (skb.touch (2 * ethAlen) 2) .insert := if_pos ip
  rw [handled, handleIp]
  split
  · exact Or.inl ⟨rfl, rfl⟩
  · right
    rw [ipInsert]
    dsimp only
    split
    case isTrue unset => exact ⟨rfl, (if_pos unset).symm⟩
    case isFalse set =>
      refine ⟨rfl, Eq.trans ?_ (if_neg set).symm⟩
      rw [logIpAddrs]
      split <;> rfl

/-- The sender's address as it is read, behind a hardware address of the stated length. -/
def arpSender (priv : Adapter) (skb : SkBuff) : IpAddr :=
  ipAt (paste skb.data 22 priv.macAddr.toList) (22 + (skb.data 18).toNat)

theorem nat25DbHandle_insert_arp (arp : be16 skb.data 12 = ethPArp) :
    (nat25DbHandle env priv skb .insert).priv = priv ∨
      be16 skb.data 16 = 0x0800 ∧
        (nat25DbHandle env priv skb .insert).priv =
          dbNetworkInsert env.malloc priv (macAt skb.data 6) (.ipv4 (arpSender priv skb)) := by
  have other : ¬ be16 skb.data 12 = ethPIp := by
    rw [arp]
    decide
  have handled : nat25DbHandle env priv skb .insert =
      handleArp env priv (skb.touch (2 * ethAlen) 2) .insert := (if_neg other).trans (if_pos arp)
  rw [handled, handleArp]
  split
  · exact Or.inl rfl
  case isFalse ipv4 =>
    refine Or.inr ⟨not_not.mp ipv4, ?_⟩
    have hardware : paste skb.data 22 priv.macAddr.toList 18 = skb.data 18 := paste_of_lt (by omega)
    have source : macAt (paste skb.data 22 priv.macAddr.toList) 6 = macAt skb.data 6 := by
      apply Vector.ext
      intro i inside
      simp only [addrAt, Vector.getElem_ofFn]
      exact paste_of_lt (by omega)
    change dbNetworkInsert env.malloc priv (macAt (paste skb.data 22 priv.macAddr.toList) 6)
      (.ipv4 (ipAt (paste skb.data 22 priv.macAddr.toList)
        (22 + (paste skb.data 22 priv.macAddr.toList 18).toNat))) = _
    rw [source, hardware, arpSender]

end Insert

end Rtl88x2bu.Bridge
