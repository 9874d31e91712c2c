import Rtl88x2bu.Bridge.DbEffects
import Rtl88x2bu.Lib.Run

/-!
# Forwarding to the last sender

The database and the shortcut are two caches of one map, from an address to the client that sent
from it last. They agree with it as long as clients do not mix: the shortcut goes by the sender's
address alone, and an entry that is found is not given to another sender.
-/

namespace Rtl88x2bu.Bridge

open Function Option
open Rx (MacAddr nullAddr)
open Tape

/-! ## Traffic -/

/-- The driver and, not in the source, who sent last from each address and when. -/
structure Traffic where
  priv : Adapter
  last : IpAddr → Option (MacAddr × ℕ)

/-- What can happen. -/
inductive TrafficEvent
  | clientTx (brPort : Bool) (skb : SkBuff)
  | received (skb : SkBuff)
  | elapse (ticks : ℕ)
  | expire

/-- The frame without its 802.1Q header. -/
def innerFrame (skb : SkBuff) : SkBuff :=
  stripVlan? skb (vlanHdrOf skb)

/-- The last senders once `sa` has sent from `saddr`. -/
def note (last : IpAddr → Option (MacAddr × ℕ)) (sa : MacAddr) (saddr : IpAddr) (now : ℕ) :
    IpAddr → Option (MacAddr × ℕ) :=
  if saddr = nullIp then last else Function.update last saddr (some (sa, now))

/-- The last senders after a client's frame: an accepted IPv4 frame with a unicast source counts. -/
def Traffic.lastAfter (st : Traffic) (frame : SkBuff) (res : ClientTx) :
    IpAddr → Option (MacAddr × ℕ) :=
  if res = .sent ∧ be16 frame.data 12 = ethPIp ∧ frame.data 6 &&& 1 = 0 then
    note st.last (macAt frame.data 6) (ipAt frame.data 26) st.priv.jiffies
  else st.last

/-- One event. -/
def Traffic.step (env : Env) (st : Traffic) : TrafficEvent → Traffic
  | .clientTx brPort skb =>
    let handled := rtwBrClientTx env brPort st.priv skb
    ⟨handled.priv, st.lastAfter (innerFrame skb) handled.res⟩
  | .received skb => { st with priv := (nat25HandleFrame env st.priv skb).priv }
  | .elapse ticks => { st with priv := { st.priv with jiffies := st.priv.jiffies + ticks } }
  | .expire => { st with priv := nat25DbExpire env st.priv }

/-- NAT2.5 and the shortcut are on, and the database is empty. -/
structure Traffic.Begins (st : Traffic) : Prop where
  nat25 : st.priv.ethBrExtInfo.nat25Disable = false
  nat25sc : st.priv.ethBrExtInfo.nat25scDisable = false
  nethash : st.priv.nethash = fun _ => []
  scdbEntry : st.priv.scdbEntry = none
  last : st.last = fun _ => none

/-- A well-formed unicast IPv4 frame for `ip`. -/
structure AddressedTo (skb : SkBuff) (ip : IpAddr) : Prop where
  unicast : skb.data 0 &&& 1 = 0
  ipv4 : be16 (innerFrame skb).data 12 = ethPIp
  header : (((innerFrame skb).data 14).toNat % 16) <<< 2 < (innerFrame skb).len
  daddr : ipAt (innerFrame skb).data 30 = ip

/-- The last frame, or the entry, is not older than the ageing time. -/
def Adapter.NotAged (env : Env) (priv : Adapter) (ip : IpAddr) (t : ℕ) : Prop :=
  priv.jiffies < t + nat25AgeingTime * env.hz ∨
    ∃ client time, priv.ipv4 ip = some (client, time) ∧
      priv.jiffies < time + nat25AgeingTime * env.hz

/-- Received frames go to the last sender of their address. -/
def Traffic.Forwards (env : Env) (st : Traffic) : Prop :=
  ∀ ip mac t, st.last ip = some (mac, t) → st.priv.NotAged env ip t →
    ∀ skb, AddressedTo skb ip → macAt (nat25HandleFrame env st.priv skb).skb.data 0 = mac

/-- The shortcut has the sender with another address, the entry has another client, or the entry is
gone and the shortcut has it for another client. -/
def Adapter.Mixes (priv : Adapter) (sa : MacAddr) (saddr : IpAddr) : Prop :=
  priv.scdbMac = sa ∧ priv.scdbEntry.isSome ∧ priv.scdbIp ≠ saddr ∨
    priv.scdbMac ≠ sa ∧
      ((∃ client time, priv.ipv4 saddr = some (client, time) ∧ client ≠ sa) ∨
        priv.ipv4 saddr = none ∧ priv.scdbIp = saddr)

/-- A client's frame mixes clients or addresses up. -/
def Traffic.ConfusedBy (st : Traffic) (frame : SkBuff) : Prop :=
  let sa := macAt frame.data 6
  let saddr := ipAt frame.data 26
  be16 frame.data 12 = ethPIp ∧ saddr ≠ nullIp ∧ (frame.data 6 &&& 1 ≠ 0 ∨ st.priv.Mixes sa saddr) ∨
    be16 frame.data 12 = ethPArp ∧ be16 frame.data 16 = 0x0800 ∧
      ∃ mac t, st.last (arpSender st.priv frame) = some (mac, t) ∧ mac ≠ sa

/-- Only clients' frames can. -/
def Traffic.Confuses (st : Traffic) : TrafficEvent → Prop
  | .clientTx _ skb => st.ConfusedBy (innerFrame skb)
  | .received _ => False
  | .elapse _ => False
  | .expire => False

/-! ## The caches follow the last senders -/

/-- The caches have nothing else for `ip` than that `mac` sent last from it, at `t`. -/
structure Adapter.Knows (env : Env) (priv : Adapter) (ip : IpAddr) (mac : MacAddr) (t : ℕ) :
    Prop where
  isSet : ip ≠ nullIp
  past : t ≤ priv.jiffies
  entry : ∀ client time, priv.ipv4 ip = some (client, time) → client = mac ∧ t ≤ time
  gone : priv.ipv4 ip = none → t + nat25AgeingTime * env.hz ≤ priv.jiffies
  scdb : priv.scdbIp = ip → priv.scdbMac = mac

/-- The shortcut's entry is the one of its address, which its client was the last to use. -/
structure Traffic.Shortcut (st : Traffic) (addr : NetworkAddr) : Prop where
  addr_eq : addr = .ipv4 st.priv.scdbIp
  there : st.priv.ipv4 st.priv.scdbIp ≠ none
  sender : st.priv.scdbIp ≠ nullIp → ∃ t, st.last st.priv.scdbIp = some (st.priv.scdbMac, t)

/-- The caches agree with the last senders. -/
structure Traffic.Follows (env : Env) (st : Traffic) : Prop where
  nat25 : st.priv.ethBrExtInfo.nat25Disable = false
  nat25sc : st.priv.ethBrExtInfo.nat25scDisable = false
  distinct : st.priv.Distinct
  knows : ∀ ip mac t, st.last ip = some (mac, t) → st.priv.Knows env ip mac t
  shortcut : ∀ addr, st.priv.scdbEntry = some addr → st.Shortcut addr

theorem Traffic.Begins.follows {env : Env} {st : Traffic} (begins : st.Begins) :
    st.Follows env := by
  refine ⟨begins.nat25, begins.nat25sc, ?_, ?_, ?_⟩
  · intro bucket
    rw [begins.nethash]
    exact List.nodup_nil
  · intro ip mac t sent
    exact nomatch (congrFun begins.last ip).symm.trans sent
  · intro addr entry
    exact nomatch begins.scdbEntry.symm.trans entry

section Changes

/-! Each change to the caches, by what becomes of the table. -/

variable {env : Env} {priv priv' : Adapter} {last : IpAddr → Option (MacAddr × ℕ)} {ip : IpAddr}
  {mac : MacAddr}
  (follows : Traffic.Follows env ⟨priv, last⟩)

include follows

theorem Traffic.Follows.of_becomes {table last' : IpAddr → Option (MacAddr × ℕ)}
    (becomes : Becomes table priv priv')
    (knows : ∀ ip mac t, last' ip = some (mac, t) →
      ip ≠ nullIp ∧ t ≤ priv.jiffies ∧
        (∀ client time, table ip = some (client, time) → client = mac ∧ t ≤ time) ∧
        (table ip = none → t + nat25AgeingTime * env.hz ≤ priv.jiffies) ∧
        (priv.scdbIp = ip → priv.scdbMac = mac))
    (linked : ∀ addr, priv.scdbEntry = some addr →
      table priv.scdbIp ≠ none ∧
        (priv.scdbIp ≠ nullIp → ∃ t, last' priv.scdbIp = some (priv.scdbMac, t))) :
    Traffic.Follows env ⟨priv', last'⟩ := by
  refine ⟨becomes.nat25Disable.trans follows.nat25, becomes.nat25scDisable.trans follows.nat25sc,
    becomes.distinct follows.distinct, ?_, ?_⟩
  · intro ip mac t sent
    obtain ⟨isSet, past, entry, gone, scdb⟩ := knows ip mac t sent
    rw [← becomes.ipv4] at entry gone
    rw [← becomes.jiffies] at past gone
    rw [← becomes.scdbIp, ← becomes.scdbMac] at scdb
    exact ⟨isSet, past, entry, gone, scdb⟩
  · intro addr entry
    have before : priv.scdbEntry = some addr := becomes.scdbEntry.symm.trans entry
    obtain ⟨there, sender⟩ := linked addr before
    have addr_eq : addr = .ipv4 priv.scdbIp := (follows.shortcut addr before).addr_eq
    rw [← becomes.ipv4, ← becomes.scdbIp] at there
    rw [← becomes.scdbIp, ← becomes.scdbMac] at sender
    rw [← becomes.scdbIp] at addr_eq
    exact ⟨addr_eq, there, sender⟩

theorem Traffic.Follows.quiet (quiet : Quiet priv priv') : Traffic.Follows env ⟨priv', last⟩ := by
  refine follows.of_becomes quiet ?_ ?_
  · intro ip mac t sent
    obtain ⟨isSet, past, entry, gone, scdb⟩ := follows.knows ip mac t sent
    exact ⟨isSet, past, entry, gone, scdb⟩
  · intro addr linked
    obtain ⟨-, there, sender⟩ := follows.shortcut addr linked
    exact ⟨there, sender⟩

section

variable (becomes : Becomes (Function.update priv.ipv4 ip (some (mac, priv.jiffies))) priv priv')
include becomes

theorem Traffic.Follows.updated {last' : IpAddr → Option (MacAddr × ℕ)}
    (others : ∀ other, other ≠ ip → last' other = last other)
    (here : ∀ m t, last' ip = some (m, t) →
      ip ≠ nullIp ∧ m = mac ∧ t ≤ priv.jiffies ∧ (priv.scdbIp = ip → priv.scdbMac = mac))
    (linked : priv.scdbEntry ≠ none → priv.scdbIp = ip → ip ≠ nullIp →
      ∃ t, last' ip = some (priv.scdbMac, t)) : Traffic.Follows env ⟨priv', last'⟩ := by
  refine follows.of_becomes becomes ?_ ?_
  · intro other m t sent
    by_cases same : other = ip
    · subst same
      obtain ⟨isSet, rfl, past, scdb⟩ := here m t sent
      rw [update_self]
      refine ⟨isSet, past, ?_, nofun, scdb⟩
      rintro client time ⟨⟩
      exact ⟨rfl, past⟩
    · rw [others other same] at sent
      obtain ⟨isSet, past, entry, gone, scdb⟩ := follows.knows other m t sent
      rw [update_of_ne same]
      exact ⟨isSet, past, entry, gone, scdb⟩
  · intro addr entry
    obtain ⟨-, there, sender⟩ := follows.shortcut addr entry
    by_cases same : priv.scdbIp = ip
    · have some : priv.scdbEntry ≠ none := by
        rw [entry]
        exact some_ne_none addr
      rw [same, update_self]
      exact ⟨some_ne_none _, linked some same⟩
    · rw [update_of_ne same, others _ same]
      exact ⟨there, sender⟩

/-- The entry of an address is set again for its client. -/
theorem Traffic.Follows.touched (same : ∀ m t, last ip = some (m, t) → m = mac) :
    Traffic.Follows env ⟨priv', last⟩ := by
  refine follows.updated becomes (fun _ _ => rfl) ?_ ?_
  · intro m t sent
    obtain ⟨isSet, past, -, -, scdb⟩ := follows.knows ip m t sent
    exact ⟨isSet, same m t sent, past, fun here => (scdb here).trans (same m t sent)⟩
  · intro linked here isSet
    obtain ⟨addr, entry⟩ := ne_none_iff_exists'.mp linked
    subst here
    exact (follows.shortcut addr entry).sender isSet

/-- A frame is recorded. -/
theorem Traffic.Follows.sent (isSet : ip ≠ nullIp)
    (scdb : priv.scdbIp = ip → priv.scdbMac = mac) :
    Traffic.Follows env ⟨priv', Function.update last ip (some (mac, priv.jiffies))⟩ := by
  refine follows.updated becomes (fun other apart => update_of_ne apart _ _) ?_ ?_
  · intro m t now
    rw [update_self] at now
    obtain ⟨rfl, rfl⟩ := Prod.mk.inj (some.inj now)
    exact ⟨isSet, rfl, le_rfl, scdb⟩
  · intro _ here _
    exact ⟨priv.jiffies, by rw [update_self, scdb here]⟩

end

theorem Traffic.Follows.last_nullIp : last nullIp = none := by
  cases sent : last nullIp with
  | none => rfl
  | some core => exact absurd rfl (follows.knows nullIp core.1 core.2 sent).isSet

theorem Traffic.Follows.unlink (scdbMac : MacAddr) (scdbIp : IpAddr)
    (scdb : ∀ mac t, last scdbIp = some (mac, t) → scdbMac = mac) :
    Traffic.Follows env
      ⟨{ priv with scdbMac := scdbMac, scdbIp := scdbIp, scdbEntry := none }, last⟩ := by
  refine ⟨follows.nat25, follows.nat25sc, follows.distinct, ?_, fun _ linked => nomatch linked⟩
  intro ip mac t sent
  obtain ⟨isSet, past, entry, gone, -⟩ := follows.knows ip mac t sent
  refine ⟨isSet, past, entry, gone, ?_⟩
  rintro rfl
  exact scdb mac t sent

theorem Traffic.Follows.clearScdb : Traffic.Follows env ⟨priv.clearScdb, last⟩ := by
  refine follows.unlink nullAddr nullIp fun mac t sent => ?_
  rw [follows.last_nullIp] at sent
  exact nomatch sent

theorem Traffic.Follows.link
    (there : priv.ipv4 ip ≠ none) (sender : ip ≠ nullIp → ∃ t, last ip = some (mac, t)) :
    Traffic.Follows env
      ⟨{ priv with scdbMac := mac, scdbIp := ip, scdbEntry := some (.ipv4 ip) }, last⟩ := by
  refine ⟨follows.nat25, follows.nat25sc, follows.distinct, ?_, ?_⟩
  · intro other m t sent
    obtain ⟨isSet, past, entry, gone, -⟩ := follows.knows other m t sent
    refine ⟨isSet, past, entry, gone, ?_⟩
    rintro rfl
    obtain ⟨t', also⟩ := sender isSet
    exact (Prod.mk.inj (some.inj (also.symm.trans sent))).1
  · intro addr linked
    exact ⟨(some.inj linked).symm, there, sender⟩

theorem Traffic.Follows.noted {client : MacAddr}
    (becomes : Becomes (Function.update priv.ipv4 ip (some (client, priv.jiffies))) priv priv')
    (own : ip ≠ nullIp → client = mac)
    (scdb : ip ≠ nullIp → priv.scdbIp = ip → priv.scdbMac = mac) :
    Traffic.Follows env ⟨priv', note last mac ip priv.jiffies⟩ := by
  rw [note]
  split
  case isTrue unset =>
    subst unset
    refine follows.touched becomes fun m t sent => ?_
    rw [follows.last_nullIp] at sent
    exact nomatch sent
  case isFalse isSet =>
    obtain rfl := own isSet
    exact follows.sent becomes isSet (scdb isSet)

theorem Traffic.Follows.refresh {addr : NetworkAddr}
    (linked : priv.scdbEntry = some addr) (own : ip ≠ nullIp → priv.scdbIp = ip) :
    Traffic.Follows env ⟨priv.refresh addr, note last priv.scdbMac ip priv.jiffies⟩ := by
  obtain ⟨rfl, there, sender⟩ := follows.shortcut addr linked
  obtain ⟨⟨client, time⟩, found⟩ := ne_none_iff_exists'.mp there
  have becomes := becomes_refresh found
  rw [note]
  split
  case isTrue =>
    exact follows.touched becomes fun m t sent =>
      ((follows.knows _ m t sent).entry _ _ found).1.symm
  case isFalse isSet =>
    obtain rfl := own isSet
    obtain ⟨t, sent⟩ := sender isSet
    obtain ⟨rfl, -⟩ := (follows.knows _ _ t sent).entry _ _ found
    exact follows.sent becomes isSet fun _ => rfl

omit follows in
theorem scdbFindEntry_eq (priv : Adapter) (ip : IpAddr) :
    scdbFindEntry priv ip = (priv.ipv4 ip).map fun _ => NetworkAddr.ipv4 ip := by
  rw [scdbFindEntry, Adapter.ipv4, map_map]
  cases found : priv.find (.ipv4 ip) with
  | none => rfl
  | some db => exact congrArg some (Buckets.find_key found)

/-- The update of the shortcut, whether or not the database is still asked. -/
theorem Traffic.Follows.updateScdb (unmixed : ip ≠ nullIp → ¬ priv.Mixes mac ip) :
    (updateScdb priv mac ip).1.jiffies = priv.jiffies ∧
      ((updateScdb priv mac ip).2 = false →
        Traffic.Follows env ⟨(updateScdb priv mac ip).1, note last mac ip priv.jiffies⟩) ∧
      ((updateScdb priv mac ip).2 = true →
        Traffic.Follows env ⟨(updateScdb priv mac ip).1, last⟩ ∧
          (ip ≠ nullIp → (updateScdb priv mac ip).1.scdbIp ≠ ip)) := by
  rw [Bridge.updateScdb]
  split
  case isTrue other =>
    rw [scdbFindEntry_eq]
    cases found : priv.ipv4 ip with
    | none =>
      -- `scdb_entry` becomes NULL, but `scdb_mac` and `scdb_ip` stay
      refine ⟨rfl, nofun, fun _ => ⟨?_, ?_⟩⟩
      · refine follows.unlink priv.scdbMac priv.scdbIp fun m t sent => ?_
        exact (follows.knows _ m t sent).scdb rfl
      · intro isSet here
        exact unmixed isSet (Or.inr ⟨other, Or.inr ⟨found, here⟩⟩)
    | some core =>
      obtain ⟨client, time⟩ := core
      have own : ip ≠ nullIp → client = mac := by
        intro isSet
        by_contra differs
        exact unmixed isSet (Or.inr ⟨other, Or.inl ⟨client, time, found, differs⟩⟩)
      refine ⟨rfl, fun _ => ?_, nofun⟩
      -- the old shortcut goes, the frame is recorded, the new shortcut is set
      have cleared : priv.clearScdb.ipv4 ip = some (client, time) := found
      have becomes := becomes_refresh cleared
      have noted := follows.clearScdb.noted becomes own fun isSet here => absurd here.symm isSet
      refine noted.link ?_ ?_
      · rw [becomes.ipv4, update_self]
        exact some_ne_none _
      · intro isSet
        rw [note, if_neg isSet, update_self]
        exact ⟨_, rfl⟩
  case isFalse same =>
    obtain rfl : priv.scdbMac = mac := not_not.mp same
    split
    case h_1 addr linked =>
      refine ⟨rfl, fun _ => ?_, nofun⟩
      refine follows.refresh linked fun isSet => ?_
      by_contra differs
      exact unmixed isSet (Or.inl ⟨rfl, isSome_iff_exists.mpr ⟨addr, linked⟩, differs⟩)
    case h_2 unlinked =>
      -- the entry of the shortcut has expired or was dropped: the rest of the shortcut goes too
      refine ⟨rfl, nofun, fun _ => ⟨?_, fun isSet here => isSet here.symm⟩⟩
      have cleared := follows.clearScdb
      rw [Adapter.clearScdb, ← unlinked] at cleared
      exact cleared

end Changes

/-! ## Frames of clients -/

section Clients

variable {env : Env} {priv : Adapter} {skb : SkBuff} {last : IpAddr → Option (MacAddr × ℕ)}

theorem priv_clientInsert :
    (clientInsert env priv skb).priv =
      (nat25DbHandle env (nat25DbHandle env priv skb .check).priv
        (nat25DbHandle env priv skb .check).skb .insert).priv := by
  rw [clientInsert]
  split
  · rfl
  · split
    · split <;> rfl
    · rfl

/-- A client's IPv4 frame that goes to the database. -/
theorem Traffic.Follows.clientInsert_ip (malloc : env.malloc = true)
    (follows : Traffic.Follows env ⟨priv, last⟩) (ip : be16 skb.data 12 = ethPIp)
    (apart : ipAt skb.data 26 ≠ nullIp → priv.scdbIp ≠ ipAt skb.data 26) :
    Traffic.Follows env ⟨(clientInsert env priv skb).priv,
      if (clientInsert env priv skb).res = .sent then
        note last (macAt skb.data 6) (ipAt skb.data 26) priv.jiffies
      else last⟩ := by
  obtain ⟨priv_eq, data, -, -⟩ := @nat25DbHandle_check env priv skb
  rw [priv_clientInsert]
  rw [← data] at ip
  have inserted := @nat25DbHandle_insert_ip env priv (nat25DbHandle env priv skb .check).skb ip
  rw [data] at inserted
  rw [priv_eq]
  rcases inserted with ⟨ret, unchanged⟩ | ⟨ret, recorded⟩
  · -- the header does not fit into the frame, which goes out as it is
    have passed : (clientInsert env priv skb).res = .passed := by
      rw [clientInsert, priv_eq, ret]
      rfl
    rw [passed, if_neg (by decide), unchanged]
    exact follows
  · have sent : (clientInsert env priv skb).res = .sent := by
      rw [clientInsert, priv_eq, ret]
      rfl
    rw [sent, if_pos rfl, recorded, malloc]
    split
    case isTrue unset =>
      rw [note, if_pos unset]
      exact follows
    case isFalse =>
      refine follows.noted (becomes_dbNetworkInsert ipv4_dbNetworkInsert) (fun _ => rfl) ?_
      exact fun isSet here => absurd here (apart isSet)

theorem Traffic.Follows.clientInsert_other (malloc : env.malloc = true)
    (follows : Traffic.Follows env ⟨priv, last⟩)
    (notIp : be16 skb.data 12 ≠ ethPIp)
    (same : be16 skb.data 12 = ethPArp → be16 skb.data 16 = 0x0800 →
      ∀ mac t, last (arpSender priv skb) = some (mac, t) → mac = macAt skb.data 6) :
    Traffic.Follows env ⟨(clientInsert env priv skb).priv, last⟩ := by
  obtain ⟨priv_eq, data, -, -⟩ := @nat25DbHandle_check env priv skb
  rw [priv_clientInsert, priv_eq]
  obtain ⟨checked, checked_eq⟩ : ∃ checked, (nat25DbHandle env priv skb .check).skb = checked :=
    ⟨_, rfl⟩
  rw [checked_eq] at data ⊢
  rw [← data] at notIp same
  by_cases arp : be16 checked.data 12 = ethPArp
  · rcases nat25DbHandle_insert_arp arp with unchanged | ⟨ipv4, recorded⟩
    · rw [unchanged]
      exact follows
    · rw [recorded, malloc]
      have sender : arpSender priv checked = arpSender priv skb := by
        rw [arpSender, data, arpSender]
      refine follows.touched (becomes_dbNetworkInsert ipv4_dbNetworkInsert) ?_
      rw [sender]
      exact same arp ipv4
  · exact follows.quiet (quiet_nat25DbHandle_insert notIp arp)

theorem Traffic.lastAfter_ip {st : Traffic} {res : ClientTx} (ip : be16 skb.data 12 = ethPIp)
    (unicast : ipAt skb.data 26 ≠ nullIp → skb.data 6 &&& 1 = 0) :
    st.lastAfter skb res =
      if res = .sent then note st.last (macAt skb.data 6) (ipAt skb.data 26) st.priv.jiffies
      else st.last := by
  by_cases isSet : ipAt skb.data 26 = nullIp
  · rw [Traffic.lastAfter, note, if_pos isSet, ite_self, ite_self]
  · simp only [Traffic.lastAfter, ip, unicast isSet, and_true]

theorem Traffic.lastAfter_other {st : Traffic} {res : ClientTx}
    (notIp : be16 skb.data 12 ≠ ethPIp) : st.lastAfter skb res = st.last :=
  if_neg fun counted => notIp counted.2.1

/-- The two ways of a client's IPv4 frame. -/
theorem clientFrame_ip (ip : be16 skb.data 12 = ethPIp) :
    ∃ priv', (priv' = priv ∨ priv' = { priv with brIp := ipAt skb.data 26 }) ∧
      -- either the shortcut is all, or the database is asked
      ((updateScdb priv' (macAt skb.data 6) (ipAt skb.data 26)).2 = false ∧
          (clientFrame env priv skb).res = .sent ∧
          (clientFrame env priv skb).priv =
            (updateScdb priv' (macAt skb.data 6) (ipAt skb.data 26)).1 ∨
        (updateScdb priv' (macAt skb.data 6) (ipAt skb.data 26)).2 = true ∧
          (clientFrame env priv skb).res =
            (clientInsert env (updateScdb priv' (macAt skb.data 6) (ipAt skb.data 26)).1 skb).res ∧
          (clientFrame env priv skb).priv = (clientInsert env
            (updateScdb priv' (macAt skb.data 6) (ipAt skb.data 26)).1 skb).priv) := by
  refine ⟨if macAt skb.data 6 = priv.brMac ∧ be16 skb.data 12 = ethPIp then
    { priv with brIp := ipAt skb.data 26 } else priv, ?_, ?_⟩
  · split
    · exact Or.inr rfl
    · exact Or.inl rfl
  · obtain ⟨priv', priv'_eq⟩ : ∃ priv', (if macAt skb.data 6 = priv.brMac ∧
        be16 skb.data 12 = ethPIp then { priv with brIp := ipAt skb.data 26 } else priv) = priv' :=
      ⟨_, rfl⟩
    simp only [clientFrame, ethHlen, Nat.reduceAdd, priv'_eq, if_pos ip]
    cases more : (updateScdb priv' (macAt skb.data 6) (ipAt skb.data 26)).2 with
    | false => exact Or.inl ⟨rfl, rfl, rfl⟩
    | true =>
      right
      refine ⟨rfl, ?_⟩
      rw [if_pos rfl]
      split
      case h_1 sent => exact ⟨sent.symm ▸ rfl, rfl⟩
      case h_2 => exact ⟨rfl, rfl⟩

theorem Traffic.Follows.clientFrame_ip (malloc : env.malloc = true)
    (follows : Traffic.Follows env ⟨priv, last⟩)
    (ip : be16 skb.data 12 = ethPIp)
    (unmixed : ipAt skb.data 26 ≠ nullIp → ¬ priv.Mixes (macAt skb.data 6) (ipAt skb.data 26)) :
    Traffic.Follows env ⟨(clientFrame env priv skb).priv,
      if (clientFrame env priv skb).res = .sent then
        note last (macAt skb.data 6) (ipAt skb.data 26) priv.jiffies
      else last⟩ := by
  obtain ⟨priv', priv'_eq, outcome⟩ := @Bridge.clientFrame_ip env priv skb ip
  have quiet : Quiet priv priv' := by
    rcases priv'_eq with rfl | rfl
    · exact Quiet.refl _
    · exact ⟨rfl, id, rfl, rfl, rfl, rfl, rfl, rfl⟩
  have unmixed' : ipAt skb.data 26 ≠ nullIp →
      ¬ priv'.Mixes (macAt skb.data 6) (ipAt skb.data 26) := by
    rcases priv'_eq with rfl | rfl
    · exact unmixed
    · exact unmixed
  obtain ⟨now, all, more⟩ := (follows.quiet quiet).updateScdb unmixed'
  rcases outcome with ⟨done, res, handled⟩ | ⟨asked, res, handled⟩
  · rw [res, handled, if_pos rfl, ← quiet.jiffies]
    exact all done
  · obtain ⟨followed, apart⟩ := more asked
    rw [res, handled, ← quiet.jiffies, ← now]
    exact followed.clientInsert_ip malloc ip apart

theorem clientFrame_other (notIp : be16 skb.data 12 ≠ ethPIp) :
    (clientFrame env priv skb).priv = (clientInsert env priv skb).priv := by
  simp only [clientFrame, notIp, and_false, if_false, if_true]
  split <;> rfl

theorem Traffic.Follows.clientFrame (malloc : env.malloc = true)
    (follows : Traffic.Follows env ⟨priv, last⟩)
    (clear : ¬ (Traffic.mk priv last).ConfusedBy skb) :
    Traffic.Follows env ⟨(clientFrame env priv skb).priv,
      (Traffic.mk priv last).lastAfter skb (clientFrame env priv skb).res⟩ := by
  by_cases ip : be16 skb.data 12 = ethPIp
  · rw [Traffic.lastAfter_ip ip]
    · refine follows.clientFrame_ip malloc ip fun isSet mixes => ?_
      exact clear (Or.inl ⟨ip, isSet, Or.inr mixes⟩)
    · intro isSet
      by_contra group
      exact clear (Or.inl ⟨ip, isSet, Or.inl group⟩)
  · rw [Traffic.lastAfter_other ip, clientFrame_other ip]
    refine follows.clientInsert_other malloc ip fun arp ipv4 mac t sent => ?_
    by_contra differs
    exact clear (Or.inr ⟨arp, ipv4, mac, t, sent, differs⟩)

theorem innerFrame_of_ip (ip : be16 skb.data 12 = ethPIp) : innerFrame skb = skb := by
  have untagged : vlanHdrOf skb = none := by
    rw [vlanHdrOf, ip]
    rfl
  rw [innerFrame, untagged]
  rfl

/-- A client's frame keeps the caches in step, unless it mixes something up. -/
theorem Traffic.Follows.clientTx (malloc : env.malloc = true) (brPort : Bool)
    (follows : Traffic.Follows env ⟨priv, last⟩)
    (clear : ¬ (Traffic.mk priv last).ConfusedBy (innerFrame skb)) :
    Traffic.Follows env ((Traffic.mk priv last).step env (.clientTx brPort skb)) := by
  rw [Traffic.step, rtwBrClientTx]
  split
  case isTrue taken =>
    -- this shortcut does not look at the source address at all
    obtain ⟨-, -, -, -, ip, mac, linked⟩ := taken
    obtain ⟨addr, entry⟩ := isSome_iff_exists.mp linked
    rw [innerFrame_of_ip ip] at clear ⊢
    dsimp only
    rw [Traffic.lastAfter_ip ip, if_pos rfl, ← mac, entry]
    · refine follows.refresh entry fun isSet => ?_
      by_contra differs
      exact clear (Or.inl ⟨ip, isSet, Or.inr (Or.inl ⟨mac, linked, differs⟩)⟩)
    · intro isSet
      by_contra group
      exact clear (Or.inl ⟨ip, isSet, Or.inl group⟩)
  case isFalse =>
    have followed := follows.clientFrame malloc clear
    rw [innerFrame] at followed
    dsimp only
    split
    case h_1 sent =>
      rw [innerFrame, sent]
      rw [sent] at followed
      exact followed
    case h_2 => exact followed

end Clients

/-! ## Received frames -/

section Received

variable {env : Env} {priv : Adapter} {skb : SkBuff} {last : IpAddr → Option (MacAddr × ℕ)}
  {ip : IpAddr} {mac : MacAddr}

theorem holds_store (mac : MacAddr) : Holds (skb.store 0 mac.toList).data 0 mac.toList :=
  holds_paste _ _ _

theorem logged_data (env : Env) (skb : SkBuff) :
    ((logIpAddrs env skb).touch 30 4).data = skb.data := by
  rw [logIpAddrs]
  split <;> rfl

theorem ipLookup_alive {db : DbEntry} (found : priv.find (.ipv4 (ipAt skb.data 30)) = some db)
    (alive : nat25HasExpired env priv.jiffies db = false) :
    Holds (ipLookup env priv skb).skb.data 0 db.macAddr.toList := by
  simp only [ipLookup, logged_data, dbNetworkLookupAndReplace, found, alive, Bool.false_eq_true,
    if_false]
  exact holds_store db.macAddr

theorem ipLookup_holds {time : ℕ} (found : priv.ipv4 (ipAt skb.data 30) = some (mac, time))
    (alive : priv.jiffies < time + nat25AgeingTime * env.hz) :
    Holds (ipLookup env priv skb).skb.data 0 mac.toList := by
  obtain ⟨db, there, core⟩ := map_eq_some_iff.mp found
  obtain ⟨rfl, rfl⟩ := Prod.mk.inj core
  exact ipLookup_alive there (decide_eq_false (not_le.mpr alive))

/-- The lookup writes the last sender's address. -/
theorem Traffic.Follows.lookupFrame_holds {t : ℕ} (follows : Traffic.Follows env ⟨priv, last⟩)
    (sent : last ip = some (mac, t)) (notAged : priv.NotAged env ip t)
    (ipv4 : be16 skb.data 12 = ethPIp) (header : ((skb.data 14).toNat % 16) <<< 2 < skb.len)
    (daddr : ipAt skb.data 30 = ip) : Holds (lookupFrame env priv skb).skb.data 0 mac.toList := by
  obtain ⟨-, -, entry, gone, scdb⟩ := follows.knows ip mac t sent
  have enabled : priv.ethBrExtInfo.nat25Disable = false := follows.nat25
  have shortcuts : priv.ethBrExtInfo.nat25scDisable = false := follows.nat25sc
  have taken : lookupFrame env priv skb =
      if priv.scdbIp = ip then
        ⟨some 0, priv, (skb.touch (ethHlen + 16) 4).store 0 priv.scdbMac.toList⟩
      else nat25DbHandle env priv (skb.touch (ethHlen + 16) 4) .lookup := by
    simp [lookupFrame, enabled, shortcuts, ipv4, ethHlen, daddr]
  rw [taken]
  split
  case isTrue here =>
    rw [← scdb here]
    exact holds_store _
  case isFalse =>
    have handled : nat25DbHandle env priv (skb.touch (ethHlen + 16) 4) .lookup =
        handleIp env priv ((skb.touch (ethHlen + 16) 4).touch (2 * ethAlen) 2) .lookup :=
      if_pos ipv4
    rw [handled, handleIp]
    split
    case isTrue malformed =>
      exact absurd header (not_lt.mpr (Nat.le_of_add_le_add_left malformed))
    case isFalse =>
      -- an entry that is gone was older than the last frame, so one that is not aged is there
      have there : ∃ time, priv.ipv4 ip = some (mac, time) ∧
          priv.jiffies < time + nat25AgeingTime * env.hz := by
        cases found : priv.ipv4 ip with
        | none =>
          rcases notAged with recent | ⟨client, time, present, -⟩
          · exact absurd (gone found) (not_le.mpr recent)
          · cases found.symm.trans present
        | some core =>
          obtain ⟨client, time⟩ := core
          obtain ⟨rfl, later⟩ := entry client time found
          refine ⟨time, rfl, ?_⟩
          rcases notAged with recent | ⟨client', time', present, alive⟩
          · omega
          · obtain ⟨-, rfl⟩ := Prod.mk.inj (some.inj (found.symm.trans present))
            exact alive
      obtain ⟨time, found, alive⟩ := there
      rw [← daddr] at found
      exact ipLookup_holds found alive

theorem restoreVlan_holds {vlanHdr : List Byte} (holds : Holds skb.data 0 mac.toList) :
    Holds (restoreVlan skb vlanHdr).data 0 mac.toList := by
  have length : mac.toList.length = 6 := Vector.length_toList
  apply Holds.paste
  · rw [holds_iff] at holds ⊢
    intro i c there
    obtain ⟨inside, -⟩ := List.getElem?_eq_some_iff.mp there
    rw [← holds i c there]
    exact if_pos (by omega)
  · left
    omega

theorem Traffic.Follows.forwards {st : Traffic} (follows : st.Follows env) : st.Forwards env := by
  intro ip mac t sent notAged skb addressed
  obtain ⟨unicast, ipv4, header, daddr⟩ := addressed
  apply addrAt_eq_of_holds
  rw [innerFrame] at ipv4 header daddr
  rw [nat25HandleFrame]
  split
  case isFalse group => exact absurd unicast group
  case isTrue =>
    have same : vlanHdrOf ((skb.touch 0 1).touch 12 2) = vlanHdrOf skb := rfl
    dsimp only
    rw [same]
    cases tagged : vlanHdrOf skb with
    | none =>
      rw [tagged] at ipv4 header daddr
      exact follows.lookupFrame_holds sent notAged ipv4 header daddr
    | some vlanHdr =>
      rw [tagged] at ipv4 header daddr
      exact restoreVlan_holds (follows.lookupFrame_holds sent notAged ipv4 header daddr)

end Received

/-! ## Runs -/

section Runs

variable {env : Env} {priv : Adapter} {last : IpAddr → Option (MacAddr × ℕ)}

theorem Traffic.Follows.elapse (ticks : ℕ) (follows : Traffic.Follows env ⟨priv, last⟩) :
    Traffic.Follows env ⟨{ priv with jiffies := priv.jiffies + ticks }, last⟩ := by
  refine ⟨follows.nat25, follows.nat25sc, follows.distinct, ?_, ?_⟩
  · intro ip mac t sent
    obtain ⟨isSet, past, entry, gone, scdb⟩ := follows.knows ip mac t sent
    exact ⟨isSet, past.trans (Nat.le_add_right _ _), entry,
      fun absent => (gone absent).trans (Nat.le_add_right _ _), scdb⟩
  · intro addr linked
    obtain ⟨addr_eq, there, sender⟩ := follows.shortcut addr linked
    exact ⟨addr_eq, there, sender⟩

theorem nat25DbExpire_scdb (distinct : priv.Distinct) :
    (nat25DbExpire env priv).scdbEntry = none ∧ (nat25DbExpire env priv).scdbIp = nullIp ∨
      (nat25DbExpire env priv).scdbEntry = priv.scdbEntry ∧
        (nat25DbExpire env priv).scdbIp = priv.scdbIp ∧
        (nat25DbExpire env priv).scdbMac = priv.scdbMac ∧
        ∀ addr, priv.scdbEntry = some addr → priv.find addr ≠ none →
          (nat25DbExpire env priv).find addr ≠ none := by
  cases unlinked : priv.scdbEntry.any fun addr =>
      (priv.find addr).any fun f => (afterExpiry env priv.jiffies f).isNone with
  | true =>
    left
    rw [nat25DbExpire]
    dsimp only
    rw [unlinked]
    exact ⟨rfl, rfl⟩
  | false =>
    right
    refine ⟨?_, ?_, ?_, ?_⟩
    iterate 3
      rw [nat25DbExpire]
      dsimp only
      rw [unlinked]
      rfl
    intro addr linked there
    obtain ⟨db, found⟩ := ne_none_iff_exists'.mp there
    rw [linked, any_some, found, any_some] at unlinked
    rw [find_nat25DbExpire distinct, found, bind_some]
    intro removed
    rw [removed] at unlinked
    exact nomatch unlinked

theorem Adapter.ipv4_eq_none_iff {ip : IpAddr} :
    priv.ipv4 ip = none ↔ priv.find (.ipv4 ip) = none :=
  map_eq_none_iff

theorem Traffic.Follows.expire (follows : Traffic.Follows env ⟨priv, last⟩) :
    Traffic.Follows env ⟨nat25DbExpire env priv, last⟩ := by
  have distinct : priv.Distinct := follows.distinct
  have only : (nat25DbExpire env priv).jiffies = priv.jiffies ∧
      (nat25DbExpire env priv).ethBrExtInfo = priv.ethBrExtInfo := by
    rw [nat25DbExpire]
    dsimp only
    split <;> exact ⟨rfl, rfl⟩
  have scdb := @nat25DbExpire_scdb env priv distinct
  refine ⟨?_, ?_, distinct_nat25DbExpire distinct, ?_, ?_⟩
  · change (nat25DbExpire env priv).ethBrExtInfo.nat25Disable = false
    rw [only.2]
    exact follows.nat25
  · change (nat25DbExpire env priv).ethBrExtInfo.nat25scDisable = false
    rw [only.2]
    exact follows.nat25sc
  · intro ip mac t sent
    obtain ⟨isSet, past, entry, gone, shortcut⟩ := follows.knows ip mac t sent
    refine ⟨isSet, past.trans only.1.ge, ?_, ?_, ?_⟩
    · intro client time found
      rcases @ipv4_nat25DbExpire priv env distinct ip with same | ⟨removed, -⟩
      · exact entry client time (same.symm.trans found)
      · exact nomatch removed.symm.trans found
    · intro absent
      rw [only.1]
      rcases @ipv4_nat25DbExpire priv env distinct ip with same | ⟨-, client, time, found, expired⟩
      · exact gone (same.symm.trans absent)
      · -- the timer of the entry is not older than the last frame
        obtain ⟨-, later⟩ := entry client time found
        exact (Nat.add_le_add_right later _).trans expired
    · intro here
      rcases scdb with ⟨-, cleared⟩ | ⟨-, scdbIp, scdbMac, -⟩
      · exact absurd (here.symm.trans cleared) isSet
      · exact scdbMac.trans (shortcut (scdbIp.symm.trans here))
  · intro addr linked
    change (nat25DbExpire env priv).scdbEntry = some addr at linked
    rcases scdb with ⟨cleared, -⟩ | ⟨scdbEntry, scdbIp, scdbMac, stays⟩
    · exact nomatch cleared.symm.trans linked
    · rw [scdbEntry] at linked
      obtain ⟨addr_eq, there, sender⟩ := follows.shortcut addr linked
      subst addr_eq
      constructor
      · exact congrArg NetworkAddr.ipv4 scdbIp.symm
      · change (nat25DbExpire env priv).ipv4 (nat25DbExpire env priv).scdbIp ≠ none
        rw [scdbIp, Ne, Adapter.ipv4_eq_none_iff]
        exact stays _ linked fun absent => there (Adapter.ipv4_eq_none_iff.mpr absent)
      · change (nat25DbExpire env priv).scdbIp ≠ nullIp →
          ∃ t, last (nat25DbExpire env priv).scdbIp = some ((nat25DbExpire env priv).scdbMac, t)
        rw [scdbIp, scdbMac]
        exact sender

theorem Traffic.Follows.step (malloc : env.malloc = true) {st : Traffic}
    (follows : st.Follows env) (e : TrafficEvent) (clear : ¬ st.Confuses e) :
    (st.step env e).Follows env := by
  cases e with
  | clientTx brPort skb => exact follows.clientTx malloc brPort clear
  | received skb => exact follows.quiet ((quiet_rule st.priv).received (Quiet.refl _))
  | elapse ticks => exact follows.elapse ticks
  | expire => exact follows.expire

/-- In every history in which no client's frame mixes clients or addresses up and entries can be
allocated, received frames go to the last sender of the address they are for. -/
theorem forwards_to_last_sender (env : Env) (st : Traffic) (events : List TrafficEvent)
    (malloc : env.malloc = true) (begins : st.Begins)
    (clear : Run.Allows (Traffic.step env) (fun st e => ¬ st.Confuses e) st events) :
    Run.Always (Traffic.step env) (Traffic.Forwards env) st events :=
  Run.always_of_invariant clear begins.follows (fun _ e follows ok => follows.step malloc e ok)
    fun _ follows => follows.forwards

end Runs

def ipFrame (da sa : MacAddr) (saddr daddr : IpAddr) : SkBuff :=
  .ofBytes (da.toList ++ sa.toList ++ htons ethPIp ++
    [0x45, 0, 0, 21, 0, 0, 0, 0, 64, 17, 0, 0] ++ saddr.toList ++ daddr.toList ++ [0]) 0

def twoAddresses : Traffic :=
  ⟨{ macAddr := Rx.macAt [2, 0, 0, 0, 0, 7] 0 }, fun _ => none⟩

def fromFirst : SkBuff :=
  ipFrame (Rx.macAt [2, 0, 0, 0, 0, 9] 0) (Rx.macAt [2, 0, 0, 0, 0, 1] 0) #v[10, 0, 0, 1]
    #v[10, 0, 0, 9]

def fromSecond : SkBuff :=
  ipFrame (Rx.macAt [2, 0, 0, 0, 0, 9] 0) (Rx.macAt [2, 0, 0, 0, 0, 1] 0) #v[10, 0, 0, 2]
    #v[10, 0, 0, 9]

def toSecond : SkBuff :=
  ipFrame (Rx.macAt [2, 0, 0, 0, 0, 7] 0) (Rx.macAt [2, 0, 0, 0, 0, 9] 0) #v[10, 0, 0, 9]
    #v[10, 0, 0, 2]

theorem twoAddresses_begins : twoAddresses.Begins :=
  ⟨rfl, rfl, rfl, rfl, rfl⟩

theorem forwards_to_last_sender_one_address :
    Run.Always (Traffic.step littleHost) (Traffic.Forwards littleHost) twoAddresses
      [.clientTx true fromFirst, .clientTx true fromFirst, .elapse 100, .received toSecond] := by
  apply forwards_to_last_sender littleHost twoAddresses _ rfl twoAddresses_begins
  refine ⟨?_, ?_, id, id, trivial⟩
  · rintro (⟨-, -, group | ⟨own, -⟩ | ⟨-, ⟨client, time, found, -⟩ | ⟨-, here⟩⟩⟩ | ⟨arp, -⟩)
    · exact absurd group (by decide +kernel)
    · exact absurd own (by decide +kernel)
    · have absent : twoAddresses.priv.ipv4 (ipAt (innerFrame fromFirst).data 26) = none := by
        decide +kernel
      exact nomatch absent.symm.trans found
    · exact absurd here (by decide +kernel)
    · exact absurd arp (by decide +kernel)
  · -- the second frame finds the entry of the first, which is its own, and sets the shortcut
    rintro (⟨-, -, group | ⟨own, -⟩ | ⟨-, ⟨client, time, found, differs⟩ | ⟨absent, -⟩⟩⟩ | ⟨arp, -⟩)
    · exact absurd group (by decide +kernel)
    · exact absurd own (by decide +kernel)
    · have entry : (twoAddresses.step littleHost (.clientTx true fromFirst)).priv.ipv4
          (ipAt (innerFrame fromFirst).data 26) =
            some (macAt (innerFrame fromFirst).data 6, 0) := by
        decide +kernel
      exact differs (Prod.mk.inj (some.inj (found.symm.trans entry))).1
    · exact absurd absent (by decide +kernel)
    · exact absurd arp (by decide +kernel)

theorem second_address_not_forwarded :
    twoAddresses.Begins ∧
      ¬ Run.Always (Traffic.step littleHost) (Traffic.Forwards littleHost) twoAddresses
        [.clientTx true fromFirst, .clientTx true fromFirst, .clientTx true fromSecond] := by
  refine ⟨twoAddresses_begins, ?_⟩
  rintro ⟨-, -, -, forwards⟩
  have sent := forwards #v[10, 0, 0, 2] #v[2, 0, 0, 0, 0, 1] 0 (by decide +kernel)
    (Or.inl (by decide +kernel)) toSecond
    ⟨by decide +kernel, by decide +kernel, by decide +kernel, by decide +kernel⟩
  exact absurd sent (by decide +kernel)

end Rtl88x2bu.Bridge
