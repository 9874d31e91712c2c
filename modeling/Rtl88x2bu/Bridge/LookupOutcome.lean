import Rtl88x2bu.Bridge.Forwarding

/-!
# Where a lookup sends a frame

A received IPv4 frame for an address without an entry goes to the bridge or is made a broadcast. An
entry that has expired and is still linked is found, but not used.
-/

namespace Rtl88x2bu.Bridge

open List Function
open Rx (MacAddr bcAddr nullAddr)
open Tape

/-! ## The chains -/

/-- Every entry is on the chain of its address, and is the only one for it. -/
structure WellChained (t : ℕ → List DbEntry) : Prop where
  own : ∀ i, ∀ addr ∈ (t i).map DbEntry.networkAddr, networkHash addr = i
  distinct : Buckets.Distinct DbEntry.networkAddr t

/-- The entry is on one of the chains. -/
def Adapter.Linked (priv : Adapter) (db : DbEntry) : Prop :=
  ∃ i, db ∈ priv.nethash i

section Chains

variable {env : Env} {priv : Adapter} {skb : SkBuff}

theorem WellChained.modify {addr : NetworkAddr} {f : DbEntry → DbEntry}
    (same : ∀ db, (f db).networkAddr = db.networkAddr) (chained : WellChained priv.nethash) :
    WellChained (priv.modify addr f).nethash := by
  refine ⟨fun i => ?_, distinct_modify same chained.distinct⟩
  change ∀ a ∈ (Buckets.modify networkHash DbEntry.networkAddr priv.nethash addr f i).map _, _
  rw [Buckets.modify]
  by_cases here : i = networkHash addr
  · subst here
    rw [update_self, Buckets.modifyFirst_map_key same]
    exact chained.own _
  · rw [update_of_ne here]
    exact chained.own i

theorem WellChained.push {db : DbEntry} (absent : priv.find db.networkAddr = none)
    (chained : WellChained priv.nethash) :
    WellChained (Buckets.push networkHash DbEntry.networkAddr priv.nethash db) := by
  refine ⟨fun i => ?_, chained.distinct.push absent⟩
  rw [Buckets.push]
  by_cases here : i = networkHash db.networkAddr
  · subst here
    rw [update_self, map_cons, forall_mem_cons]
    exact ⟨rfl, chained.own _⟩
  · rw [update_of_ne here]
    exact chained.own i

theorem WellChained.insert {malloc : Bool} {mac : MacAddr} {addr : NetworkAddr}
    (chained : WellChained priv.nethash) :
    WellChained (dbNetworkInsert malloc priv mac addr).nethash := by
  rw [dbNetworkInsert]
  split
  · exact chained.modify fun _ => rfl
  case h_2 absent =>
    split
    · exact chained.push absent
    · exact chained

theorem WellChained.expire (chained : WellChained priv.nethash) :
    WellChained (nat25DbExpire env priv).nethash := by
  refine ⟨fun i addr member => ?_, distinct_nat25DbExpire chained.distinct⟩
  obtain ⟨db', member', rfl⟩ := mem_map.mp member
  obtain ⟨db, there, sieved⟩ := mem_filterMap.mp member'
  rw [(afterExpiry_core sieved).1]
  exact chained.own i _ (mem_map.mpr ⟨db, there, rfl⟩)

theorem wellChained_rule : FrameRule (fun _ => True) fun priv => WellChained priv.nethash :=
  ⟨fun _ _ _ _ _ chained => chained.insert, fun _ _ chained => chained.modify fun _ => rfl,
    fun _ chained => chained, fun _ _ _ chained => chained⟩

section

variable (chained : WellChained priv.nethash)
include chained

theorem WellChained.updateScdb {sa : MacAddr} {saddr : IpAddr} :
    WellChained (updateScdb priv sa saddr).1.nethash := by
  rw [Bridge.updateScdb]
  split
  · split
    · exact @WellChained.modify
        { priv with scdbMac := sa, scdbIp := saddr, scdbEntry := some _ } _ _ (fun _ => rfl) chained
    · exact chained
  · split
    · exact chained.modify fun _ => rfl
    · exact chained

theorem WellChained.clientInsert : WellChained (clientInsert env priv skb).priv.nethash := by
  rw [priv_clientInsert, nat25DbHandle_check.1]
  exact wellChained_rule.handle_insert chained (fun _ _ => trivial) (fun _ _ => trivial)
    fun _ => trivial

theorem WellChained.clientFrame : WellChained (clientFrame env priv skb).priv.nethash := by
  by_cases ip : be16 skb.data 12 = ethPIp
  · obtain ⟨priv', priv'_eq, outcome⟩ := @clientFrame_ip env priv skb ip
    have chained' : WellChained priv'.nethash := by
      rcases priv'_eq with rfl | rfl <;> exact chained
    rcases outcome with ⟨-, -, handled⟩ | ⟨-, -, handled⟩
    · rw [handled]
      exact chained'.updateScdb
    · rw [handled]
      exact chained'.updateScdb.clientInsert
  · rw [clientFrame_other ip]
    exact chained.clientInsert

theorem WellChained.clientTx {brPort : Bool} :
    WellChained (rtwBrClientTx env brPort priv skb).priv.nethash := by
  rw [rtwBrClientTx]
  split
  · cases priv.scdbEntry with
    | none => exact chained
    | some addr => exact chained.modify fun _ => rfl
  · dsimp only
    split <;> exact chained.clientFrame

end

/-- Every event keeps the chains. -/
theorem WellChained.step {st : Traffic} (e : TrafficEvent) (chained : WellChained st.priv.nethash) :
    WellChained (st.step env e).priv.nethash := by
  cases e with
  | clientTx brPort skb => exact chained.clientTx
  | received skb => exact wellChained_rule.received chained
  | elapse ticks => exact chained
  | expire => exact chained.expire

theorem find_eq_some_iff (chained : WellChained priv.nethash) {addr : NetworkAddr} {db : DbEntry} :
    priv.find addr = some db ↔ priv.Linked db ∧ db.networkAddr = addr := by
  constructor
  · intro found
    exact ⟨⟨_, mem_of_find?_eq_some found⟩, Buckets.find_key found⟩
  · rintro ⟨⟨i, member⟩, rfl⟩
    have own := chained.own i _ (mem_map.mpr ⟨db, member, rfl⟩)
    rw [← own] at member
    exact Buckets.find_of_mem chained.distinct member

end Chains

/-! ## The lookup -/

/-- Where a frame for an unknown address goes. -/
def Adapter.fallbackDa (priv : Adapter) (ip : IpAddr) : MacAddr :=
  if ip.get 3 = 0xff then bcAddr else priv.brMac

/-- The client of the entry that has not expired, if there is one, otherwise the fallback. -/
def Adapter.DaFor (env : Env) (priv : Adapter) (ip : IpAddr) (mac : MacAddr) : Prop :=
  (∃ db, priv.Linked db ∧ db.networkAddr = .ipv4 ip ∧ nat25HasExpired env priv.jiffies db = false ∧
    mac = db.macAddr) ∨
  (∀ db, priv.Linked db → db.networkAddr = .ipv4 ip → nat25HasExpired env priv.jiffies db = true) ∧
    mac = priv.fallbackDa ip

/-- A well-formed unicast IPv4 frame. -/
structure WellFormedIp (skb : SkBuff) : Prop where
  unicast : skb.data 0 &&& 1 = 0
  ipv4 : be16 skb.data 12 = ethPIp
  header : ((skb.data 14).toNat % 16) <<< 2 < skb.len

section Lookup

variable {env : Env} {priv : Adapter} {skb : SkBuff}

theorem macAt_store (mac : MacAddr) : macAt (skb.store 0 mac.toList).data 0 = mac :=
  addrAt_eq_of_holds (holds_store mac)

/-! The other outcomes of the search. -/

theorem ipLookup_expired {db : DbEntry} (found : priv.find (.ipv4 (ipAt skb.data 30)) = some db)
    (expired : nat25HasExpired env priv.jiffies db = true) :
    (ipLookup env priv skb).skb.data = skb.data := by
  simp only [ipLookup, logged_data, dbNetworkLookupAndReplace, found, expired, if_true]

theorem macAt_ipUnknown (brMac : priv.brMac ≠ nullAddr) :
    macAt (ipUnknown priv skb).skb.data 0 =
      if skb.data 33 = 0xff then bcAddr else priv.brMac := by
  rw [ipUnknown]
  simp only [touch_data, if_neg brMac]
  split
  · exact macAt_store bcAddr
  · exact macAt_store priv.brMac

theorem ipLookup_absent (absent : priv.find (.ipv4 (ipAt skb.data 30)) = none)
    (brMac : priv.brMac ≠ nullAddr) :
    macAt (ipLookup env priv skb).skb.data 0 = priv.fallbackDa (ipAt skb.data 30) := by
  have last : (ipAt skb.data 30).get 3 = skb.data 33 := by
    rw [ipAt, addrAt, Vector.get_ofFn]
    rfl
  simp only [ipLookup, logged_data, dbNetworkLookupAndReplace, absent]
  rw [macAt_ipUnknown brMac, logged_data, Adapter.fallbackDa, last]

theorem handle_lookup_ip (wellFormed : WellFormedIp skb) :
    nat25DbHandle env priv skb .lookup =
      ipLookup env priv ((skb.touch (2 * ethAlen) 2).touch 14 1) := by
  have handled : nat25DbHandle env priv skb .lookup =
      handleIp env priv (skb.touch (2 * ethAlen) 2) .lookup := if_pos wellFormed.ipv4
  rw [handled, handleIp]
  apply if_neg
  exact fun malformed =>
    absurd wellFormed.header (not_lt.mpr (Nat.le_of_add_le_add_left malformed))

/-- The lookup in one state. -/
theorem daFor_lookup_iff (chained : WellChained priv.nethash) (wellFormed : WellFormedIp skb)
    (brMac : priv.brMac ≠ nullAddr) :
    priv.DaFor env (ipAt skb.data 30) (macAt (nat25DbHandle env priv skb .lookup).skb.data 0) ↔
      (∀ db, priv.Linked db → db.networkAddr = .ipv4 (ipAt skb.data 30) →
        nat25HasExpired env priv.jiffies db = false) ∨
      macAt skb.data 0 = priv.fallbackDa (ipAt skb.data 30) := by
  have data : ((skb.touch (2 * ethAlen) 2).touch 14 1).data = skb.data := rfl
  rw [handle_lookup_ip wellFormed]
  cases found : priv.find (.ipv4 (ipAt skb.data 30)) with
  | none =>
    have absent (db : DbEntry) (linked : priv.Linked db)
        (same : db.networkAddr = .ipv4 (ipAt skb.data 30)) : False :=
      nomatch found.symm.trans ((find_eq_some_iff chained).mpr ⟨linked, same⟩)
    rw [← data] at found
    rw [ipLookup_absent found brMac]
    exact iff_of_true (.inr ⟨fun db linked same => (absent db linked same).elim, rfl⟩)
      (.inl fun db linked same => (absent db linked same).elim)
  | some db =>
    obtain ⟨linked, same⟩ := (find_eq_some_iff chained).mp found
    -- the entry is the only one for the address
    have only (db' : DbEntry) (linked' : priv.Linked db')
        (same' : db'.networkAddr = .ipv4 (ipAt skb.data 30)) : db' = db :=
      Option.some.inj (((find_eq_some_iff chained).mpr ⟨linked', same'⟩).symm.trans found)
    rw [← data] at found
    cases expired : nat25HasExpired env priv.jiffies db with
    | false =>
      rw [macAt, addrAt_eq_of_holds (ipLookup_alive found expired)]
      refine iff_of_true (.inl ⟨db, linked, same, expired, rfl⟩) (.inl fun db' linked' same' => ?_)
      rw [only db' linked' same']
      exact expired
    | true =>
      rw [ipLookup_expired found expired, data]
      constructor
      · rintro (⟨db', linked', same', alive, -⟩ | ⟨-, fallback⟩)
        · rw [only db' linked' same', expired] at alive
          exact nomatch alive
        · exact .inr fallback
      · rintro (alive | fallback)
        · exact nomatch (alive db linked same).symm.trans expired
        · refine .inr ⟨fun db' linked' same' => ?_, fallback⟩
          rw [only db' linked' same']
          exact expired

end Lookup

/-- In every state of every history that starts with an empty database: the lookup of a well-formed
IPv4 frame gives the address it should exactly if no expired entry for its destination is still
linked, or the frame came with the right address. -/
theorem lookup_outcome_iff (env : Env) (st : Traffic) (events : List TrafficEvent)
    (empty : st.priv.nethash = fun _ => []) :
    Run.Always (Traffic.step env)
      (fun st => st.priv.brMac ≠ nullAddr → ∀ skb, WellFormedIp skb →
        (st.priv.DaFor env (ipAt skb.data 30)
            (macAt (nat25DbHandle env st.priv skb .lookup).skb.data 0) ↔
          (∀ db, st.priv.Linked db → db.networkAddr = .ipv4 (ipAt skb.data 30) →
            nat25HasExpired env st.priv.jiffies db = false) ∨
          macAt skb.data 0 = st.priv.fallbackDa (ipAt skb.data 30))) st events := by
  have start : WellChained st.priv.nethash := by
    rw [empty]
    exact ⟨fun _ => nofun, fun _ => nodup_nil⟩
  have allows : Run.Allows (Traffic.step env) (fun _ _ => True) st events :=
    Run.allows_of_forall (fun _ _ => trivial) st
  have kept (st : Traffic) (e : TrafficEvent) (chained : WellChained st.priv.nethash) (_ : True) :
      WellChained (st.step env e).priv.nethash :=
    chained.step e
  exact Run.always_of_invariant allows start kept
    fun _ chained brMac skb wellFormed => daFor_lookup_iff chained wellFormed brMac

def bridged : Traffic :=
  ⟨{ macAddr := Rx.macAt [2, 0, 0, 0, 0, 7] 0, brMac := #v[2, 0, 0, 0, 0, 5] }, fun _ => none⟩

def toFirst : SkBuff :=
  ipFrame (Rx.macAt [2, 0, 0, 0, 0, 7] 0) (Rx.macAt [2, 0, 0, 0, 0, 9] 0) (.ofFn ![10, 0, 0, 9])
    (.ofFn ![10, 0, 0, 1])

theorem toFirst_wellFormed : WellFormedIp toFirst :=
  ⟨by decide +kernel, by decide +kernel, by decide +kernel⟩

theorem lookup_outcome_live :
    let st := bridged.step littleHost (.clientTx true fromFirst)
    st.priv.DaFor littleHost #v[10, 0, 0, 1]
        (macAt (nat25DbHandle littleHost st.priv toFirst .lookup).skb.data 0) ∧
      macAt (nat25DbHandle littleHost st.priv toFirst .lookup).skb.data 0 =
        #v[2, 0, 0, 0, 0, 1] := by
  refine ⟨?_, by decide +kernel⟩
  have outcome := (lookup_outcome_iff littleHost bridged [.clientTx true fromFirst] rfl).2
    (by decide +kernel) toFirst toFirst_wellFormed
  have daddr : ipAt toFirst.data 30 = #v[10, 0, 0, 1] := by decide +kernel
  rw [daddr] at outcome
  refine outcome.mpr (.inl fun db linked same => ?_)
  -- the entry of the frame is the only one
  have chained : WellChained bridged.priv.nethash := ⟨fun _ => nofun, fun _ => nodup_nil⟩
  have found := (find_eq_some_iff (chained.step (.clientTx true fromFirst))).mpr ⟨linked, same⟩
  have live : ((bridged.step littleHost (.clientTx true fromFirst)).priv.find
      (.ipv4 #v[10, 0, 0, 1])).map (nat25HasExpired littleHost 0) = some false := by
    decide +kernel
  rw [found] at live
  exact Option.some.inj live

theorem expired_entry_keeps_da :
    let st := (bridged.step littleHost (.clientTx true fromFirst)).step littleHost (.elapse 30000)
    (st.priv.find (.ipv4 #v[10, 0, 0, 1])).map (nat25HasExpired littleHost st.priv.jiffies) =
      some true ∧
      macAt (nat25DbHandle littleHost st.priv toFirst .lookup).skb.data 0 = #v[2, 0, 0, 0, 0, 7] ∧
      st.priv.fallbackDa #v[10, 0, 0, 1] = #v[2, 0, 0, 0, 0, 5] := by
  decide +kernel

end Rtl88x2bu.Bridge
