import Rtl88x2bu.Lib.Threaded
import Rtl88x2bu.Bridge.Nat25

/-!
# The chains of the NAT2.5 database in memory

`Nat25Db` has the chains as lists. Here they are entries with `next_hash` and `pprev_hash`, the
array `nethash` of their heads, and `scdb_entry` as a pointer. An operation without a result follows
a null pointer or one to freed memory, or walks on for longer than it is given.
-/

namespace Rtl88x2bu.Bridge.HashChains

open List Function Option
open Rx (MacAddr nullAddr)
open Threaded

variable (env : Env)

abbrev Entry := Cell ℕ ℕ DbEntry

abbrev Memory := Heap ℕ ℕ DbEntry

variable (memory : Memory)

variable (fuel : ℕ)

/-- The fields of the adapter that the database consists of. -/
structure Db where
  memory : Memory := ⟨fun _ => none, fun _ => none⟩
  scdbMac : MacAddr := nullAddr
  scdbIp : IpAddr := nullIp
  scdbEntry : Option ℕ := none
  jiffies : ℕ := 0

variable (db : Db)

/-! ## Operations -/

/-- `__network_hash_link`. -/
def networkHashLink (ent hash : ℕ) : Option Memory :=
  memory.link ent hash

/-- `__network_hash_unlink`. -/
def networkHashUnlink (ent : ℕ) : Option Memory :=
  memory.unlink ent

/-- The loop over a chain that compares addresses. -/
def findAddr (addr : NetworkAddr) : Option (Option ℕ) :=
  db.memory.search (fun e => decide (e.networkAddr = addr)) fuel (db.memory.head (networkHash addr))

/-- `rtw_malloc`: it fails, or the memory it finds, with whatever is in it, is not in use. -/
def rtwMalloc (block : Option (ℕ × Entry)) : Option (ℕ × Entry) :=
  block.filter fun b => (memory.cell b.1).isNone

/-- `__nat25_db_network_insert`. -/
def dbNetworkInsert (block : Option (ℕ × Entry)) (db : Db) (macAddr : MacAddr)
    (addr : NetworkAddr) : Option Db := do
  match ← findAddr fuel db addr with
  | some p =>
    let memory ← db.memory.amend p fun e => { e with macAddr, ageingTimer := db.jiffies }
    return { db with memory }
  | none =>
    match rtwMalloc db.memory block with
    | none => return db
    | some (p, old) =>
      let new : DbEntry :=
        { networkAddr := addr, macAddr, useCount := 1, ageingTimer := db.jiffies }
      let memory ← networkHashLink (db.memory.put p (some { old with entry := new })) p
        (networkHash addr)
      return { db with memory }

/-- `__nat25_db_network_lookup_and_replace`. -/
def dbNetworkLookupAndReplace (skb : SkBuff) (addr : NetworkAddr) :
    Option (Db × SkBuff × Bool) := do
  match ← findAddr fuel db addr with
  | some p =>
    let e ← db.memory.entry p
    if nat25HasExpired env db.jiffies e then return (db, skb, true)
    else
      let memory ← db.memory.amend p fun e => { e with useCount := e.useCount + 1 }
      return ({ db with memory }, skb.store 0 e.macAddr.toList, true)
  | none => return (db, skb, false)

/-- The shortcut's entry is set to now. -/
def Db.refresh : Option Db := do
  let p ← db.scdbEntry
  let memory ← db.memory.amend p fun e => { e with ageingTimer := db.jiffies }
  return { db with memory }

/-- The update of the shortcut for a client's IPv4 frame. -/
def updateScdb (sa : MacAddr) (saddr : IpAddr) : Option Db := do
  if db.scdbMac ≠ sa then
    let entry ← findAddr fuel db (.ipv4 saddr)
    let db := { db with scdbEntry := entry }
    if entry.isSome then ({ db with scdbMac := sa, scdbIp := saddr }).refresh else return db
  else if db.scdbEntry.isSome then db.refresh
  else return { db with scdbMac := nullAddr, scdbIp := nullIp }

/-- What `rtw_br_client_tx` does to the shortcut. -/
def clientTxScdb (brPort : Bool) (brMac : MacAddr) (db : Db) (skb : SkBuff) : Option Db :=
  let sa := macAt skb.data 6
  if skb.data 0 &&& 1 = 0 ∧ brPort ∧ sa ≠ brMac ∧ be16 skb.data 12 ≠ ethP8021Q ∧
      be16 skb.data 12 = ethPIp ∧ db.scdbMac = sa ∧ db.scdbEntry.isSome then
    db.refresh
  else
    let skb := stripVlan? skb (vlanHdrOf skb)
    if be16 skb.data 12 = ethPIp then
      updateScdb fuel db (macAt skb.data 6) (ipAt skb.data (ethHlen + 12))
    else some db

/-- The shortcut is dropped if it has the entry `f`. -/
def Db.forget (f : ℕ) : Db :=
  if db.scdbEntry = some f then
    { db with scdbMac := nullAddr, scdbIp := nullIp, scdbEntry := none }
  else db

/-- An entry is unlinked and freed. -/
def dropEntry (f : ℕ) (db : Db) : Option Db := do
  let db := db.forget f
  let memory ← networkHashUnlink db.memory f
  let memory ← memory.free f
  return { db with memory }

/-- The loop over a chain; `g` is read before the entry can be freed. -/
def sweepChain (body : ℕ → Db → Option Db) : ℕ → Option ℕ → Db → Option Db
  | _, none, db => some db
  | 0, some _, _ => none
  | fuel + 1, some f, db => do
    let g ← db.memory.load (.next f)
    let db ← body f db
    sweepChain body fuel g db

/-- The loop over all chains. -/
def sweep (body : ℕ → Db → Option Db) (fuel : ℕ) (db : Db) : Option Db :=
  (List.range nat25HashSize).foldlM
    (fun db i => sweepChain body fuel (db.memory.head i) db) db

/-- The body of the loops of `nat25_db_expire`. -/
def expireEntry (f : ℕ) (db : Db) : Option Db := do
  let e ← db.memory.entry f
  if nat25HasExpired env db.jiffies e then
    let memory ← db.memory.amend f fun e => { e with useCount := e.useCount - 1 }
    if e.useCount - 1 = 0 then dropEntry f { db with memory } else return { db with memory }
  else return db

/-- `nat25_db_expire`. -/
def nat25DbExpire : Option Db :=
  sweep (expireEntry env) fuel db

/-- `nat25_db_cleanup`. -/
def nat25DbCleanup : Option Db :=
  sweep dropEntry fuel db

/-- The operations on the database, and time. -/
inductive Op
  | insert (block : Option (ℕ × Entry)) (macAddr : MacAddr) (addr : NetworkAddr)
  | lookup (skb : SkBuff) (addr : NetworkAddr)
  | clientTx (brPort : Bool) (brMac : MacAddr) (skb : SkBuff)
  | expire
  | cleanup
  | elapse (ticks : ℕ)

/-- One operation. -/
def Db.step : Op → Option Db
  | .insert block macAddr addr => dbNetworkInsert fuel block db macAddr addr
  | .lookup skb addr => (dbNetworkLookupAndReplace env fuel db skb addr).map (·.1)
  | .clientTx brPort brMac skb => clientTxScdb fuel brPort brMac db skb
  | .expire => nat25DbExpire env fuel db
  | .cleanup => nat25DbCleanup fuel db
  | .elapse ticks => some { db with jiffies := db.jiffies + ticks }

/-! ## The shape -/

/-- The address in an entry. -/
def addrOf (p : ℕ) : Option NetworkAddr :=
  (memory.entry p).map DbEntry.networkAddr

/-- The entries are those on the chains, each on that of its hash; no two have one address. -/
structure Db.Shaped (db : Db) (chain : ℕ → List ℕ) : Prop where
  memory : db.memory.Shaped chain
  hashed : ∀ i, ∀ p ∈ chain i, ∃ addr, addrOf db.memory p = some addr ∧ networkHash addr = i
  distinct : ∀ p q addr, addrOf db.memory p = some addr → addrOf db.memory q = some addr → p = q
  scdb : ∀ p, db.scdbEntry = some p → ∃ i, p ∈ chain i

section Shape

variable {db : Db} {chain : ℕ → List ℕ} {fuel : ℕ}

theorem Db.Shaped.allocated (shaped : db.Shaped chain) {i p : ℕ} (mem : p ∈ chain i) :
    db.memory.pprev p ≠ none :=
  (shaped.memory.reaches i).allocated mem

theorem Db.Shaped.mem_of_addrOf (shaped : db.Shaped chain) {p : ℕ} {addr : NetworkAddr}
    (here : addrOf db.memory p = some addr) : p ∈ chain (networkHash addr) := by
  have there : db.memory.pprev p ≠ none := by
    intro missing
    simp [addrOf, Heap.entry, map_eq_none_iff.mp missing] at here
  obtain ⟨i, mem⟩ := shaped.memory.owned p there
  obtain ⟨addr', here', hash⟩ := shaped.hashed i p mem
  cases here.symm.trans here'
  exact hash ▸ mem

theorem addrOf_amended {memory memory' : Memory} {p : ℕ} {f : DbEntry → DbEntry}
    (amended : memory.Amended p f memory') (same : ∀ e, (f e).networkAddr = e.networkAddr) (q : ℕ) :
    addrOf memory' q = addrOf memory q := by
  by_cases self : q = p
  · rw [self, addrOf, amended.own, addrOf, Option.map_map]
    exact congrArg (Option.map · _) (funext same)
  · rw [addrOf, amended.entry q self, addrOf]

section

variable (shaped : db.Shaped chain)
include shaped

/-- Changing an entry keeps the shape, as long as its address stays. -/
theorem Db.Shaped.amend {i p : ℕ} (mem : p ∈ chain i) {f : DbEntry → DbEntry}
    (same : ∀ e, (f e).networkAddr = e.networkAddr) :
    ∃ memory, db.memory.amend p f = some memory ∧ ({ db with memory }).Shaped chain ∧
      db.memory.Amended p f memory := by
  obtain ⟨memory, done, amended⟩ := Heap.exists_amend (shaped.allocated mem) f
  have addrs := addrOf_amended amended same
  refine ⟨memory, done, ⟨shaped.memory.amended amended, ?_, ?_, shaped.scdb⟩, amended⟩
  · intro i q mem
    rw [addrs]
    exact shaped.hashed i q mem
  · intro q r addr here here'
    rw [addrs] at here here'
    exact shaped.distinct q r addr here here'

theorem Db.Shaped.findAddr_eq (enough : ∀ i, (chain i).length ≤ fuel) (addr : NetworkAddr) :
    findAddr fuel db addr = some ((chain (networkHash addr)).find? fun q =>
      (db.memory.entry q).any fun e => decide (e.networkAddr = addr)) := by
  rw [findAddr, shaped.memory.head_eq]
  exact (shaped.memory.reaches (networkHash addr)).search_eq _ (enough _)

/-- The search finds the entry of the address, wherever there is one. -/
theorem Db.Shaped.findAddr (enough : ∀ i, (chain i).length ≤ fuel) (addr : NetworkAddr) :
    ∃ r, findAddr fuel db addr = some r ∧
      (∀ p, r = some p → p ∈ chain (networkHash addr) ∧ addrOf db.memory p = some addr) ∧
      (r = none → ∀ p, addrOf db.memory p ≠ some addr) := by
  have hit_iff (p : ℕ) : (db.memory.entry p).any (fun e => decide (e.networkAddr = addr)) = true ↔
      addrOf db.memory p = some addr := by
    rw [addrOf]
    cases db.memory.entry p with
    | none => simp
    | some e => simp
  refine ⟨_, shaped.findAddr_eq enough addr, fun p found => ?_, fun missing p here => ?_⟩
  · have hit := List.find?_some found
    exact ⟨mem_of_find?_eq_some found, (hit_iff p).mp hit⟩
  · exact List.find?_eq_none.mp missing p (shaped.mem_of_addrOf here) ((hit_iff p).mpr here)

/-- A new entry goes to the front of its chain. -/
theorem Db.Shaped.link {p : ℕ} (fresh : db.memory.cell p = none) (c : Entry)
    (absent : ∀ q, addrOf db.memory q ≠ some c.entry.networkAddr) :
    ∃ memory,
      networkHashLink (db.memory.put p (some c)) p (networkHash c.entry.networkAddr) = some memory ∧
      ({ db with memory }).Shaped (Function.update chain (networkHash c.entry.networkAddr)
        (p :: chain (networkHash c.entry.networkAddr))) ∧
      db.memory.Inserted p c.entry (networkHash c.entry.networkAddr) memory := by
  obtain ⟨memory, done, shaped', inserted⟩ := shaped.memory.insert fresh c
    (networkHash c.entry.networkAddr)
  have own : addrOf memory p = some c.entry.networkAddr := by rw [addrOf, inserted.own]; rfl
  have others {q : ℕ} (other : q ≠ p) : addrOf memory q = addrOf db.memory q := by
    rw [addrOf, inserted.entry q other, addrOf]
  refine ⟨memory, done, ⟨shaped', ?_, ?_, ?_⟩, inserted⟩
  · intro i q mem
    by_cases self : q = p
    · subst self
      rcases Heap.Shaped.mem_update_cons.mp mem with mem | ⟨-, rfl⟩
      · exact absurd (congrArg (Option.map Cell.pprev) fresh) (shaped.allocated mem)
      · exact ⟨_, own, rfl⟩
    · rw [others self]
      rcases Heap.Shaped.mem_update_cons.mp mem with mem | ⟨same, -⟩
      · exact shaped.hashed i q mem
      · exact absurd same self
  · -- the address is in no other entry
    intro q r addr here here'
    by_cases self : q = p
    · subst self
      by_contra other
      rw [others (Ne.symm other)] at here'
      cases own.symm.trans here
      exact absent r here'
    · rw [others self] at here
      by_cases self' : r = p
      · subst self'
        cases own.symm.trans here'
        exact absurd here (absent q)
      · rw [others self'] at here'
        exact shaped.distinct q r addr here here'
  · intro q here
    obtain ⟨i, mem⟩ := shaped.scdb q here
    exact ⟨i, Heap.Shaped.mem_update_cons.mpr (.inl mem)⟩

end

/-- The database is in shape, with at most `n` entries on a chain. -/
def Db.Within (db : Db) (n : ℕ) : Prop :=
  ∃ chain, db.Shaped chain ∧ ∀ i, (chain i).length ≤ n

theorem within_empty : Db.Within {} 0 := by
  refine ⟨fun _ => [], ⟨Heap.Shaped.empty, ?_, ?_, ?_⟩, fun _ => le_rfl⟩
  · exact fun _ p mem => nomatch mem
  · exact fun p q addr here => nomatch here
  · exact fun p here => nomatch here

/-! ### Insertion, lookup and the shortcut -/

variable {n : ℕ}

theorem Db.Within.insert (within : db.Within n) (enough : n ≤ fuel) (block : Option (ℕ × Entry))
    (macAddr : MacAddr) (addr : NetworkAddr) :
    ∃ db', dbNetworkInsert fuel block db macAddr addr = some db' ∧ db'.Within (n + 1) := by
  obtain ⟨chain, shaped, bound⟩ := within
  obtain ⟨r, found, hits, misses⟩ := shaped.findAddr (fun i => (bound i).trans enough) addr
  rw [dbNetworkInsert, found]
  cases r with
  | some p =>
    obtain ⟨memory, done, shaped', -⟩ := shaped.amend (hits p rfl).1
      (f := fun e => { e with macAddr, ageingTimer := db.jiffies }) fun _ => rfl
    refine ⟨{ db with memory }, ?_, chain, shaped', fun i => (bound i).trans n.le_succ⟩
    simp only [bind_eq_bind, bind_some, done]
    rfl
  | none =>
    cases allocated : rtwMalloc db.memory block with
    | none => exact ⟨db, rfl, chain, shaped, fun i => (bound i).trans n.le_succ⟩
    | some b =>
      obtain ⟨p, old⟩ := b
      have fresh : db.memory.cell p = none :=
        isNone_iff_eq_none.mp (filter_eq_some_iff.mp allocated).2
      obtain ⟨memory, done, shaped', -⟩ := shaped.link fresh
        { old with
          entry := { networkAddr := addr, macAddr, useCount := 1, ageingTimer := db.jiffies } }
        (misses rfl)
      refine ⟨{ db with memory }, ?_, _, shaped', ?_⟩
      · simp only [bind_eq_bind, bind_some, done]
        rfl
      · intro i
        rw [update_apply]
        split
        · exact Nat.succ_le_succ (bound _)
        · exact (bound i).trans n.le_succ

theorem Db.Within.lookup (env : Env) (within : db.Within n) (enough : n ≤ fuel) (skb : SkBuff)
    (addr : NetworkAddr) :
    ∃ res, dbNetworkLookupAndReplace env fuel db skb addr = some res ∧ res.1.Within n := by
  obtain ⟨chain, shaped, bound⟩ := within
  obtain ⟨r, found, hits, -⟩ := shaped.findAddr (fun i => (bound i).trans enough) addr
  rw [dbNetworkLookupAndReplace, found]
  cases r with
  | none => exact ⟨(db, skb, false), rfl, chain, shaped, bound⟩
  | some p =>
    obtain ⟨addr', here, -⟩ := shaped.hashed _ p (hits p rfl).1
    obtain ⟨e, there, -⟩ := map_eq_some_iff.mp here
    obtain ⟨memory, done, shaped', -⟩ := shaped.amend (hits p rfl).1
      (f := fun e => { e with useCount := e.useCount + 1 }) fun _ => rfl
    simp only [bind_eq_bind, bind_some, there, done]
    split
    · exact ⟨_, rfl, chain, shaped, bound⟩
    · exact ⟨_, rfl, chain, shaped', bound⟩

theorem Db.Shaped.refresh (shaped : db.Shaped chain) (present : db.scdbEntry.isSome) :
    ∃ db', db.refresh = some db' ∧ db'.Shaped chain := by
  obtain ⟨p, here⟩ := isSome_iff_exists.mp present
  obtain ⟨i, mem⟩ := shaped.scdb p here
  obtain ⟨memory, done, shaped', -⟩ := shaped.amend mem
    (f := fun e => { e with ageingTimer := db.jiffies }) fun _ => rfl
  refine ⟨{ db with memory }, ?_, shaped'⟩
  simp only [Db.refresh, here, bind_eq_bind, bind_some, done]
  rfl

theorem Db.Shaped.updateScdb (shaped : db.Shaped chain) (enough : ∀ i, (chain i).length ≤ fuel)
    (sa : MacAddr) (saddr : IpAddr) :
    ∃ db', updateScdb fuel db sa saddr = some db' ∧ db'.Shaped chain := by
  rw [HashChains.updateScdb]
  split
  · obtain ⟨r, found, hits, -⟩ := shaped.findAddr enough (.ipv4 saddr)
    simp only [found, bind_eq_bind, bind_some]
    have linked (p : ℕ) (same : r = some p) : ∃ i, p ∈ chain i := ⟨_, (hits p same).1⟩
    split
    next present =>
      exact Db.Shaped.refresh ⟨shaped.memory, shaped.hashed, shaped.distinct, linked⟩ present
    · exact ⟨_, rfl, shaped.memory, shaped.hashed, shaped.distinct, linked⟩
  · split
    next present => exact shaped.refresh present
    · exact ⟨_, rfl, shaped.memory, shaped.hashed, shaped.distinct, shaped.scdb⟩

theorem Db.Within.clientTx (within : db.Within n) (enough : n ≤ fuel) (brPort : Bool)
    (brMac : MacAddr) (skb : SkBuff) :
    ∃ db', clientTxScdb fuel brPort brMac db skb = some db' ∧ db'.Within n := by
  obtain ⟨chain, shaped, bound⟩ := within
  suffices ∃ db', clientTxScdb fuel brPort brMac db skb = some db' ∧ db'.Shaped chain by
    obtain ⟨db', done, shaped'⟩ := this
    exact ⟨db', done, chain, shaped', bound⟩
  rw [clientTxScdb]
  dsimp only
  split
  next shortcut => exact shaped.refresh shortcut.2.2.2.2.2.2
  · split
    · exact shaped.updateScdb (fun i => (bound i).trans enough) _ _
    · exact ⟨db, rfl, shaped⟩

/-! ### The loops over all entries -/

theorem forget_memory (db : Db) (f : ℕ) : (db.forget f).memory = db.memory := by
  rw [Db.forget]
  split <;> rfl

theorem forget_with_memory (db : Db) (memory memory' : Memory) (f : ℕ) :
    { ({ db with memory }).forget f with memory := memory' } =
      { db.forget f with memory := memory' } := by
  rw [Db.forget, Db.forget]
  dsimp only
  split <;> rfl

theorem forget_scdbEntry {f p : ℕ} (here : (db.forget f).scdbEntry = some p) :
    db.scdbEntry = some p ∧ p ≠ f := by
  rw [Db.forget] at here
  split at here
  · cases here
  next other => exact ⟨here, fun same => other (same ▸ here)⟩

section

variable (shaped : db.Shaped chain) {i f : ℕ} {ks rest : List ℕ} (place : chain i = ks ++ f :: rest)
include shaped place

/-- An entry that is dropped leaves its chain, and nothing else changes. -/
theorem Db.Shaped.dropEntry : ∃ memory, dropEntry f db = some { db.forget f with memory } ∧
      ({ db.forget f with memory }).Shaped (Function.update chain i (ks ++ rest)) ∧
      memory.entry f = none ∧ ∀ q, q ≠ f → memory.entry q = db.memory.entry q := by
  obtain ⟨memory, done, shaped', gone, entries⟩ := shaped.memory.remove place
  have addrs {q : ℕ} (other : q ≠ f) : addrOf memory q = addrOf db.memory q := by
    rw [addrOf, entries q other, addrOf]
  have left {q : ℕ} {addr : NetworkAddr} (here : addrOf memory q = some addr) : q ≠ f := by
    rintro rfl
    rw [addrOf, gone] at here
    cases here
  refine ⟨memory, ?_, ⟨shaped', ?_, ?_, ?_⟩, gone, entries⟩
  · obtain ⟨memory₁, unlinked, freed⟩ := bind_eq_some_iff.mp done
    rw [HashChains.dropEntry, forget_memory]
    simp only [networkHashUnlink, bind_eq_bind, unlinked, freed, bind_some]
    rfl
  · intro j q mem
    obtain ⟨mem, other⟩ := (shaped.memory.mem_update place j q).mp mem
    rw [addrs other]
    exact shaped.hashed j q mem
  · intro p q addr here here'
    apply shaped.distinct p q addr
    · rw [← addrs (left here), here]
    · rw [← addrs (left here'), here']
  · intro p here
    obtain ⟨before, other⟩ := forget_scdbEntry here
    obtain ⟨j, mem⟩ := shaped.scdb p before
    exact ⟨j, (shaped.memory.mem_update place j p).mpr ⟨mem, other⟩⟩

/-- The loop's body leaves the entry as `afterExpiry` says, or drops it. -/
theorem Db.Shaped.expireEntry : ∃ e memory, db.memory.entry f = some e ∧ memory.entry f =
    afterExpiry env db.jiffies e ∧ (∀ q, q ≠ f → memory.entry q = db.memory.entry q) ∧ if
    (afterExpiry env db.jiffies e).isSome then expireEntry env f db = some { db with memory } ∧
    ({ db with memory }).Shaped chain else expireEntry env f db = some { db.forget f with memory } ∧
    ({ db.forget f with memory }).Shaped (Function.update chain i (ks ++ rest)) := by
  have mem : f ∈ chain i := place ▸ mem_append_right ks mem_cons_self
  obtain ⟨addr, here, -⟩ := shaped.hashed i f mem
  obtain ⟨e, there, -⟩ := map_eq_some_iff.mp here
  obtain ⟨memory, done, shaped', amended⟩ := shaped.amend mem
    (f := fun e => { e with useCount := e.useCount - 1 }) fun _ => rfl
  have own := amended.own
  rw [there, map_some] at own
  refine ⟨e, ?_⟩
  simp only [HashChains.expireEntry, afterExpiry, there, done, bind_eq_bind,
    bind_some, true_and]
  by_cases expired : nat25HasExpired env db.jiffies e
  · simp only [expired, if_true]
    by_cases last : e.useCount - 1 = 0
    · obtain ⟨memory', dropped, shaped'', gone, entries⟩ := shaped'.dropEntry place
      rw [forget_with_memory] at dropped shaped''
      simp only [last, if_true]
      refine ⟨memory', gone, ?_, dropped, shaped''⟩
      exact fun q other => (entries q other).trans (amended.entry q other)
    · simp only [last, if_false]
      exact ⟨memory, own, amended.entry, rfl, shaped'⟩
  · simp only [expired]
    exact ⟨db.memory, there, fun _ _ => rfl, rfl, shaped⟩

end

/-- The body of a loop over a chain keeps the shape and, on the part it is through with, `Q`. -/
def Sweeps (body : ℕ → Db → Option Db) (Q : List ℕ → Prop) : Prop :=
  ∀ ⦃db : Db⦄ ⦃chain : ℕ → List ℕ⦄ ⦃i f : ℕ⦄ ⦃ks rest : List ℕ⦄, db.Shaped chain →
    chain i = ks ++ f :: rest → Q ks →
    ∃ db' ks', body f db = some db' ∧ db'.Shaped (Function.update chain i (ks' ++ rest)) ∧
      ks'.length ≤ ks.length + 1 ∧ Q ks'

theorem sweeps_expireEntry : Sweeps (expireEntry env) fun _ => True := by
  intro db chain i f ks rest shaped place _
  obtain ⟨e, memory, -, -, -, outcome⟩ := shaped.expireEntry env place
  split at outcome
  · refine ⟨_, ks ++ [f], outcome.1, ?_, length_append.le, trivial⟩
    rw [append_assoc, singleton_append, ← place, update_eq_self]
    exact outcome.2
  · exact ⟨_, ks, outcome.1, outcome.2, Nat.le_succ _, trivial⟩

theorem sweeps_dropEntry : Sweeps dropEntry fun ks => ks = [] := by
  intro db chain i f ks rest shaped place empty
  obtain ⟨memory, done, shaped', -⟩ := shaped.dropEntry place
  exact ⟨_, ks, done, shaped', Nat.le_succ _, empty⟩

variable {body : ℕ → Db → Option Db} {Q : List ℕ → Prop}

/-- The loop over one chain, by induction over what is left of it. -/
theorem Sweeps.one (sweeps : Sweeps body Q) {i : ℕ} {ks rest : List ℕ} (shaped : db.Shaped chain)
    (place : chain i = ks ++ rest) (passed : Q ks) (enough : rest.length ≤ fuel) :
    ∃ db' ks', sweepChain body fuel rest.head? db = some db' ∧
      db'.Shaped (Function.update chain i ks') ∧ ks'.length ≤ ks.length + rest.length ∧ Q ks' := by
  induction rest generalizing fuel ks db chain with
  | nil =>
    refine ⟨db, ks, by rw [List.head?_nil, sweepChain], ?_, Nat.le_add_right _ _, passed⟩
    rw [append_nil] at place
    rw [← place, update_eq_self]
    exact shaped
  | cons f rest ih =>
    obtain ⟨fuel, rfl⟩ : ∃ m, fuel = m + 1 := ⟨fuel - 1, by rw [length_cons] at enough; omega⟩
    have next : db.memory.load (.next f) = some rest.head? := by
      have reaches := shaped.memory.reaches i
      rw [place] at reaches
      exact reaches.tail.load_eq
    obtain ⟨db₁, ks₁, done, shaped₁, length₁, passed₁⟩ := sweeps shaped place passed
    obtain ⟨db', ks', swept, shaped', length', passed'⟩ :=
      ih shaped₁ (update_self _ _ _) passed₁ (Nat.le_of_succ_le_succ enough)
    refine ⟨db', ks', ?_, ?_, ?_, passed'⟩
    · rw [List.head?_cons, sweepChain, next]
      simp only [bind_eq_bind, bind_some, done]
      exact swept
    · rw [update_idem] at shaped'
      exact shaped'
    · rw [length_cons]
      omega

/-- The loop over the chains. -/
theorem Sweeps.all (sweeps : Sweeps body Q) (fresh : Q []) (shaped : db.Shaped chain)
    (bound : ∀ i, (chain i).length ≤ n) (enough : n ≤ fuel) (m : ℕ) :
    ∃ db' chain', (List.range m).foldlM
        (fun db i => sweepChain body fuel (db.memory.head i) db) db = some db' ∧
      db'.Shaped chain' ∧ (∀ i, (chain' i).length ≤ n) ∧ ∀ i < m, Q (chain' i) := by
  induction m with
  | zero => exact ⟨db, chain, rfl, shaped, bound, fun i below => nomatch below⟩
  | succ m ih =>
    obtain ⟨db₁, chain₁, done, shaped₁, bound₁, passed₁⟩ := ih
    obtain ⟨db', ks', swept, shaped', length', passed'⟩ :=
      sweeps.one shaped₁ (nil_append _).symm fresh ((bound₁ m).trans enough)
    refine ⟨db', _, ?_, shaped', ?_, ?_⟩
    · rw [range_succ, foldlM_append, done]
      simp only [bind_eq_bind, bind_some, foldlM_cons, foldlM_nil]
      rw [shaped₁.memory.head_eq, swept]
      rfl
    · intro i
      rw [update_apply]
      split
      · rw [length_nil, Nat.zero_add] at length'
        exact length'.trans (bound₁ m)
      · exact bound₁ i
    · intro i below
      rw [update_apply]
      split
      · exact passed'
      next other => exact passed₁ i (by omega)

theorem Db.Within.expire (within : db.Within n) (enough : n ≤ fuel) :
    ∃ db', nat25DbExpire env fuel db = some db' ∧ db'.Within n := by
  obtain ⟨chain, shaped, bound⟩ := within
  obtain ⟨db', chain', done, shaped', bound', -⟩ :=
    (sweeps_expireEntry env).all trivial shaped bound enough nat25HashSize
  exact ⟨db', done, chain', shaped', bound'⟩

theorem networkHash_lt (addr : NetworkAddr) : networkHash addr < nat25HashSize := by
  have below (x : ℕ) : x &&& (nat25HashSize - 1) < nat25HashSize :=
    Nat.lt_succ_of_le Nat.and_le_right
  cases addr <;> exact below _

theorem Db.Shaped.eq_nil_of_le (shaped : db.Shaped chain) {i : ℕ} (le : nat25HashSize ≤ i) :
    chain i = [] := by
  apply eq_nil_iff_forall_not_mem.mpr
  intro p mem
  obtain ⟨addr, -, hash⟩ := shaped.hashed i p mem
  have := networkHash_lt addr
  omega

theorem Db.Within.cleanup (within : db.Within n) (enough : n ≤ fuel) :
    ∃ db', nat25DbCleanup fuel db = some db' ∧ db'.Shaped fun _ => [] := by
  obtain ⟨chain, shaped, bound⟩ := within
  obtain ⟨db', chain', done, shaped', -, empty⟩ :=
    sweeps_dropEntry.all rfl shaped bound enough nat25HashSize
  have all : chain' = fun _ => [] := by
    funext i
    rcases Nat.lt_or_ge i nat25HashSize with below | above
    · exact empty i below
    · exact shaped'.eq_nil_of_le above
  exact ⟨db', done, all ▸ shaped'⟩

/-! ## Runs -/

/-- Every operation ends and keeps the shape. -/
theorem Db.Within.step (within : db.Within n) (enough : n ≤ fuel) (op : Op) :
    ∃ db', db.step env fuel op = some db' ∧ db'.Within (n + 1) := by
  have grow {db' : Db} (within' : db'.Within n) : db'.Within (n + 1) := by
    obtain ⟨chain, shaped, bound⟩ := within'
    exact ⟨chain, shaped, fun i => (bound i).trans n.le_succ⟩
  cases op with
  | insert block macAddr addr => exact within.insert enough block macAddr addr
  | lookup skb addr =>
    obtain ⟨res, done, within'⟩ := within.lookup env enough skb addr
    exact ⟨res.1, congrArg (Option.map Prod.fst) done, grow within'⟩
  | clientTx brPort brMac skb =>
    obtain ⟨db', done, within'⟩ := within.clientTx enough brPort brMac skb
    exact ⟨db', done, grow within'⟩
  | expire =>
    obtain ⟨db', done, within'⟩ := within.expire env enough
    exact ⟨db', done, grow within'⟩
  | cleanup =>
    obtain ⟨db', done, shaped⟩ := within.cleanup enough
    exact ⟨db', done, _, shaped, fun _ => Nat.zero_le _⟩
  | elapse ticks =>
    obtain ⟨chain, shaped, bound⟩ := within
    refine ⟨_, rfl, grow ⟨chain, ?_, bound⟩⟩
    exact ⟨shaped.memory, shaped.hashed, shaped.distinct, shaped.scdb⟩

theorem Db.Within.run (within : db.Within n) {ops : List Op} (enough : n + ops.length ≤ fuel) :
    ∃ db', ops.foldlM (Db.step env fuel) db = some db' ∧ db'.Within (n + ops.length) := by
  induction ops generalizing db n with
  | nil => exact ⟨db, rfl, within⟩
  | cons op ops ih =>
    rw [length_cons] at enough ⊢
    obtain ⟨db₁, done, within₁⟩ := within.step env (Nat.le_of_add_right_le enough) op
    obtain ⟨db', rest, within'⟩ := ih within₁ (by omega)
    refine ⟨db', ?_, by rwa [Nat.add_right_comm, Nat.add_assoc] at within'⟩
    rw [foldlM_cons, done]
    exact rest

end Shape

/-- The database keeps its shape over every run, and is empty after a cleanup. -/
theorem db_shape_over_runs (env : Env) (ops : List Op) (fuel : ℕ) (enough : ops.length ≤ fuel) :
    ∃ db, ops.foldlM (Db.step env fuel) {} = some db ∧ (∃ chain, db.Shaped chain) ∧
      ∃ db', nat25DbCleanup fuel db = some db' ∧ ∀ i, db'.memory.head i = none := by
  have enough' : 0 + ops.length ≤ fuel := (Nat.zero_add _).symm ▸ enough
  obtain ⟨db, ran, within⟩ := within_empty.run env enough'
  obtain ⟨db', cleaned, empty⟩ := within.cleanup enough'
  obtain ⟨chain, shaped, -⟩ := within
  exact ⟨db, ran, ⟨chain, shaped⟩, db', cleaned, empty.memory.head_eq⟩

def twoOnOneChain : List Op :=
  let old : Entry := ⟨⟨.ipv4 nullIp, nullAddr, 0, 0⟩, some 7, some (.next 9)⟩
  [.insert (some (1, old)) #v[2, 0, 0, 0, 0, 1] (.ipv4 #v[10, 1, 0, 0]), .elapse 100,
    .insert (some (2, old)) #v[2, 0, 0, 0, 0, 2] (.ipv4 #v[10, 0, 1, 0]), .elapse 29950, .expire]

theorem db_shape_over_runs_two :
    ∃ db, twoOnOneChain.foldlM (Db.step littleHost 5) {} = some db ∧
      (∃ chain, db.Shaped chain) ∧
      ∃ db', nat25DbCleanup 5 db = some db' ∧ ∀ i, db'.memory.head i = none :=
  db_shape_over_runs littleHost twoOnOneChain 5 (by decide)

-- the first one is gone and the second one is alone on the chain
example : (twoOnOneChain.foldlM (Db.step littleHost 5) {}).map
    (fun db => (db.memory.head 11, db.memory.pprev 2, db.memory.load (.next 2),
      db.memory.pprev 1)) =
      some (some 2, some (some (.head 11)), some none, none) := by
  rfl

end Rtl88x2bu.Bridge.HashChains
