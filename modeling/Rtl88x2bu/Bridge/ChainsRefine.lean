import Rtl88x2bu.Bridge.DbEffects
import Rtl88x2bu.Bridge.HashChains

/-!
# The chains in memory and the chains as lists

What the operations do to the chains in memory they do to the lists of `Nat25Db`.
-/

namespace Rtl88x2bu.Bridge.HashChains

open List Function Option
open Rx (MacAddr nullAddr)
open Threaded

/-- The lists are the entries that the links lead to; the shortcut's key is the address of its
entry. -/
structure Represents (db : Db) (chain : ℕ → List ℕ) (priv : Adapter) : Prop where
  shaped : db.Shaped chain
  nethash : ∀ i, priv.nethash i = (chain i).filterMap db.memory.entry
  scdbEntry : priv.scdbEntry = db.scdbEntry.bind (addrOf db.memory)
  scdbMac : priv.scdbMac = db.scdbMac
  scdbIp : priv.scdbIp = db.scdbIp
  jiffies : priv.jiffies = db.jiffies

section Lists

variable {E : Type} {entry entry' : ℕ → Option E} {ps : List ℕ}

/-- Changing one entry in memory changes the first one with its key in the list. -/
theorem filterMap_amended {Key : Type} [DecidableEq Key] {key : E → Key} {k : Key}
    {f : E → E} {p : ℕ}
    (mem : p ∈ ps) (nodup : ps.Nodup) (own : entry' p = (entry p).map f)
    (others : ∀ q, q ≠ p → entry' q = entry q)
    (unique : ∀ q, (entry q).map key = some k ↔ q = p) :
    ps.filterMap entry' = Buckets.modifyFirst key k f (ps.filterMap entry) := by
  induction ps with
  | nil => cases mem
  | cons q ps ih =>
    rw [nodup_cons] at nodup
    by_cases self : q = p
    · subst self
      obtain ⟨e, there, key_eq⟩ := map_eq_some_iff.mp ((unique q).mpr rfl)
      have rest : ps.filterMap entry' = ps.filterMap entry :=
        filterMap_congr fun r mem => others r fun same => nodup.1 (same ▸ mem)
      simp [there, own, rest, Buckets.modifyFirst, key_eq]
    · have later : p ∈ ps := (mem_cons.mp mem).resolve_left (Ne.symm self)
      rw [filterMap_cons, filterMap_cons, others q self, ih later nodup.2]
      cases there : entry q with
      | none => rfl
      | some e =>
        have missed : key e ≠ k := fun same =>
          self ((unique q).mp (by rw [there, map_some, same]))
        simp [Buckets.modifyFirst, missed]

end Lists

section Steps

variable {db : Db} {chain : ℕ → List ℕ} {priv : Adapter} {fuel : ℕ}
  (rep : Represents db chain priv)

include rep

/-- The search over the links finds what the list has. -/
theorem Represents.find (enough : ∀ i, (chain i).length ≤ fuel) (addr : NetworkAddr) :
    ∃ r, findAddr fuel db addr = some r ∧ priv.find addr = r.bind db.memory.entry := by
  refine ⟨_, rep.shaped.findAddr_eq enough addr, ?_⟩
  rw [Adapter.find, Buckets.find, rep.nethash]
  exact List.find?_filterMap

/-- Changing an entry in memory is `modify` on the lists. -/
theorem Represents.amend {p : ℕ} {addr : NetworkAddr}
    (here : addrOf db.memory p = some addr) {f : DbEntry → DbEntry}
    (same : ∀ e, (f e).networkAddr = e.networkAddr) :
    ∃ memory, db.memory.amend p f = some memory ∧
      Represents { db with memory } chain (priv.modify addr f) := by
  have mem := rep.shaped.mem_of_addrOf here
  obtain ⟨memory, done, shaped', amended⟩ := rep.shaped.amend mem same
  refine ⟨memory, done, shaped', ?_, ?_, rep.scdbMac, rep.scdbIp, rep.jiffies⟩
  · intro i
    change Buckets.modify networkHash DbEntry.networkAddr priv.nethash addr f i = _
    rw [Buckets.modify, update_apply]
    split
    next at_hash =>
      subst at_hash
      rw [rep.nethash]
      refine (filterMap_amended mem (rep.shaped.memory.nodup _) amended.own amended.entry ?_).symm
      exact fun q => ⟨fun here' => rep.shaped.distinct q p addr here' here, fun same => same ▸ here⟩
    next other =>
      rw [rep.nethash]
      apply filterMap_congr
      intro q mem'
      refine (amended.entry q ?_).symm
      rintro rfl
      exact other (rep.shaped.memory.apart mem' mem)
  · change priv.scdbEntry = db.scdbEntry.bind (addrOf memory)
    rw [rep.scdbEntry, funext (addrOf_amended amended same)]

/-- Inserting, also if there is no memory for a new entry. -/
theorem Represents.insert (enough : ∀ i, (chain i).length ≤ fuel) {block : Option (ℕ × Entry)}
    (fresh : ∀ b ∈ block, db.memory.cell b.1 = none) (macAddr : MacAddr) (addr : NetworkAddr) :
    ∃ db' chain', dbNetworkInsert fuel block db macAddr addr = some db' ∧
      Represents db' chain' (Bridge.dbNetworkInsert block.isSome priv macAddr addr) := by
  obtain ⟨r, found, hits, misses⟩ := rep.shaped.findAddr enough addr
  obtain ⟨r', found', find_eq⟩ := rep.find enough addr
  cases found.symm.trans found'
  rw [dbNetworkInsert, found, Bridge.dbNetworkInsert, find_eq]
  cases r with
  | some q =>
    obtain ⟨e, there, -⟩ := map_eq_some_iff.mp (hits q rfl).2
    obtain ⟨memory, done, rep'⟩ := rep.amend (hits q rfl).2
      (f := fun e => { e with macAddr, ageingTimer := db.jiffies }) fun _ => rfl
    refine ⟨{ db with memory }, chain, ?_, ?_⟩
    · simp only [bind_eq_bind, bind_some, done]
      rfl
    · rw [bind_some, there, rep.jiffies]
      exact rep'
  | none =>
    cases block with
    | none => exact ⟨db, chain, rfl, rep⟩
    | some b =>
    obtain ⟨p, old⟩ := b
    replace fresh : db.memory.cell p = none := fresh _ rfl
    have allocated : rtwMalloc db.memory (some (p, old)) = some (p, old) := by
      simp [rtwMalloc, fresh]
    obtain ⟨memory, done, shaped', inserted⟩ := rep.shaped.link fresh
      { old with
        entry := { networkAddr := addr, macAddr, useCount := 1, ageingTimer := db.jiffies } }
      (misses rfl)
    have unused (i : ℕ) : p ∉ chain i := fun mem =>
      rep.shaped.allocated mem (congrArg (Option.map Cell.pprev) fresh)
    have lists (i : ℕ) :
        (chain i).filterMap memory.entry = (chain i).filterMap db.memory.entry := by
      apply filterMap_congr
      intro q mem
      apply inserted.entry
      rintro rfl
      exact unused i mem
    refine ⟨{ db with memory }, _, ?_, shaped', ?_, ?_, rep.scdbMac, rep.scdbIp, rep.jiffies⟩
    · simp only [bind_eq_bind, bind_some, allocated, done]
      rfl
    · intro i
      change Buckets.push networkHash DbEntry.networkAddr priv.nethash _ i = _
      rw [Buckets.push, update_apply, update_apply]
      split
      · rw [filterMap_cons, inserted.own, lists, rep.nethash, rep.jiffies]
      · rw [lists, rep.nethash]
    · change priv.scdbEntry = db.scdbEntry.bind (addrOf memory)
      rw [rep.scdbEntry]
      cases linked : db.scdbEntry with
      | none => rfl
      | some q =>
        obtain ⟨i, mem⟩ := rep.shaped.scdb q linked
        have other : q ≠ p := fun same => unused i (same ▸ mem)
        rw [bind_some, bind_some, addrOf, addrOf, inserted.entry q other]

theorem Represents.lookup (env : Env)
    (enough : ∀ i, (chain i).length ≤ fuel) (skb : SkBuff) (addr : NetworkAddr) :
    ∃ db', dbNetworkLookupAndReplace env fuel db skb addr =
        some (db', (Bridge.dbNetworkLookupAndReplace env priv skb addr).2) ∧
      Represents db' chain (Bridge.dbNetworkLookupAndReplace env priv skb addr).1 := by
  obtain ⟨r, found, hits, -⟩ := rep.shaped.findAddr enough addr
  obtain ⟨r', found', find_eq⟩ := rep.find enough addr
  cases found.symm.trans found'
  rw [dbNetworkLookupAndReplace, found, Bridge.dbNetworkLookupAndReplace, find_eq]
  cases r with
  | none => exact ⟨db, rfl, rep⟩
  | some p =>
    obtain ⟨e, there, -⟩ := map_eq_some_iff.mp (hits p rfl).2
    obtain ⟨memory, done, rep'⟩ := rep.amend (hits p rfl).2
      (f := fun e => { e with useCount := e.useCount + 1 }) fun _ => rfl
    simp only [bind_eq_bind, bind_some, there, done, rep.jiffies]
    split
    · exact ⟨db, rfl, rep⟩
    · exact ⟨{ db with memory }, rfl, rep'⟩

theorem Represents.refresh (present : db.scdbEntry.isSome) :
    ∃ db' addr, db.refresh = some db' ∧ priv.scdbEntry = some addr ∧
      Represents db' chain (priv.refresh addr) := by
  obtain ⟨p, linked⟩ := isSome_iff_exists.mp present
  obtain ⟨i, mem⟩ := rep.shaped.scdb p linked
  obtain ⟨addr, here, -⟩ := rep.shaped.hashed i p mem
  obtain ⟨memory, done, rep'⟩ := rep.amend here
    (f := fun e => { e with ageingTimer := db.jiffies }) fun _ => rfl
  refine ⟨{ db with memory }, addr, ?_, ?_, ?_⟩
  · simp only [Db.refresh, linked, bind_eq_bind, bind_some, done]
    rfl
  · rw [rep.scdbEntry, linked, bind_some, here]
  · rw [Adapter.refresh, rep.jiffies]
    exact rep'

theorem Represents.updateScdb
    (enough : ∀ i, (chain i).length ≤ fuel) (sa : MacAddr) (saddr : IpAddr) :
    ∃ db', updateScdb fuel db sa saddr = some db' ∧
      Represents db' chain (Bridge.updateScdb priv sa saddr).1 := by
  rw [HashChains.updateScdb, Bridge.updateScdb, rep.scdbMac]
  by_cases moved : db.scdbMac ≠ sa
  · rw [if_pos moved, if_pos moved]
    obtain ⟨r, found, hits, -⟩ := rep.shaped.findAddr enough (.ipv4 saddr)
    obtain ⟨r', found', find_eq⟩ := rep.find enough (.ipv4 saddr)
    cases found.symm.trans found'
    have linked (p : ℕ) (same : r = some p) : ∃ i, p ∈ chain i := ⟨_, (hits p same).1⟩
    have shaped' (scdbMac : MacAddr) (scdbIp : IpAddr) :
        ({ db with scdbMac, scdbIp, scdbEntry := r }).Shaped chain :=
      ⟨rep.shaped.memory, rep.shaped.hashed, rep.shaped.distinct, linked⟩
    simp only [found, bind_eq_bind, bind_some, scdbFindEntry, find_eq]
    cases r with
    | none =>
      exact ⟨_, rfl, shaped' _ _, rep.nethash, rfl, rfl, rep.scdbIp, rep.jiffies⟩
    | some p =>
      have here := (hits p rfl).2
      obtain ⟨e, there, key⟩ := map_eq_some_iff.mp here
      have rep' : Represents { db with scdbMac := sa, scdbIp := saddr, scdbEntry := some p } chain
          { priv with scdbMac := sa, scdbIp := saddr, scdbEntry := some e.networkAddr } :=
        ⟨shaped' _ _, rep.nethash, by rw [key]; exact here.symm, rfl, rfl, rep.jiffies⟩
      obtain ⟨db', addr, done, same, rep''⟩ := rep'.refresh rfl
      cases same
      refine ⟨db', done, ?_⟩
      simp only [bind_some, there, map_some]
      exact rep''
  · rw [if_neg moved, if_neg moved]
    by_cases present : db.scdbEntry.isSome
    · obtain ⟨db', addr, done, same, rep'⟩ := rep.refresh present
      rw [if_pos present, same]
      exact ⟨db', done, rep'⟩
    · have none_left : db.scdbEntry = none := not_isSome_iff_eq_none.mp present
      rw [if_neg present, rep.scdbEntry, none_left]
      refine ⟨_, rfl, ?_, rep.nethash, rfl, rfl, rfl, rep.jiffies⟩
      exact ⟨rep.shaped.memory, rep.shaped.hashed, rep.shaped.distinct, fun p here => by cases here⟩

end Steps

/-! ## Expiry -/

section Expiry

variable {env : Env} {db₀ db : Db} {chain : ℕ → List ℕ} {done : List ℕ} {f fuel : ℕ}

section

variable (env db₀ done)

/-- The loop does not drop the entry. -/
def staysLinked (q : ℕ) : Bool :=
  ((db₀.memory.entry q).bind (afterExpiry env db₀.jiffies)).isSome

/-- The shortcut's entry is one that was dropped. -/
def lost : Bool :=
  db₀.scdbEntry.any fun p => decide (p ∈ done) && !staysLinked env db₀ p

/-- The shortcut once the loop is through with `done`. -/
def settled : Db :=
  if lost env db₀ done then { db₀ with scdbMac := nullAddr, scdbIp := nullIp, scdbEntry := none }
  else db₀

end

theorem settled_cons_of_stays (stays : staysLinked env db₀ f = true) :
    settled env db₀ (f :: done) = settled env db₀ done := by
  have same : lost env db₀ (f :: done) = lost env db₀ done := by
    rw [lost, lost]
    cases db₀.scdbEntry with
    | none => rfl
    | some p =>
      by_cases self : p = f
      · simp [self, stays]
      · simp [self]
  rw [settled, settled, same]

theorem settled_cons_of_drops (drops : staysLinked env db₀ f = false) :
    settled env db₀ (f :: done) = (settled env db₀ done).forget f := by
  cases linked : db₀.scdbEntry with
  | none => simp [settled, lost, linked, Db.forget]
  | some p =>
    by_cases self : p = f
    · subst self
      by_cases mem : p ∈ done
      · simp [settled, lost, linked, drops, Db.forget, mem]
      · simp [settled, lost, linked, drops, Db.forget, mem]
    · cases gone : decide (p ∈ done) && !staysLinked env db₀ p with
      | true => simp [settled, lost, linked, Db.forget, self, gone]
      | false => simp [settled, lost, linked, Db.forget, self, gone]

/-- The loop is through with the entries of `done`. -/
structure Swept (env : Env) (db₀ db : Db) (done : List ℕ) : Prop where
  entry : ∀ q, db.memory.entry q =
    if q ∈ done then (db₀.memory.entry q).bind (afterExpiry env db₀.jiffies) else db₀.memory.entry q
  rest : db = { settled env db₀ done with memory := db.memory }

theorem Swept.start (env : Env) (db₀ : Db) : Swept env db₀ db₀ [] := by
  have kept : lost env db₀ [] = false := by
    rw [lost]
    cases db₀.scdbEntry with
    | none => rfl
    | some p => simp
  refine ⟨fun q => by simp, ?_⟩
  rw [settled, kept]
  rfl

theorem settled_jiffies (env : Env) (db₀ : Db) (done : List ℕ) :
    (settled env db₀ done).jiffies = db₀.jiffies := by
  rw [settled]
  split <;> rfl

section

variable (swept : Swept env db₀ db done)
include swept

theorem Swept.now : db.jiffies = db₀.jiffies := by
  rw [swept.rest]
  exact settled_jiffies env db₀ done

theorem Swept.entry_cons (fresh : f ∉ done) {e : DbEntry} (there : db.memory.entry f = some e)
    {memory : Memory} (own : memory.entry f = afterExpiry env db.jiffies e)
    (others : ∀ q, q ≠ f → memory.entry q = db.memory.entry q) (q : ℕ) :
    memory.entry q = if q ∈ f :: done then (db₀.memory.entry q).bind (afterExpiry env db₀.jiffies)
      else db₀.memory.entry q := by
  have before : db₀.memory.entry f = some e := by
    rw [← there, swept.entry, if_neg fresh]
  by_cases self : q = f
  · rw [self, own, swept.now, if_pos mem_cons_self, before, bind_some]
  · rw [others q self, swept.entry]
    simp only [mem_cons, self, false_or]

/-- The body of the loop on one more entry. -/
theorem Swept.step (shaped : db.Shaped chain) {i : ℕ} {ks rest : List ℕ}
    (place : chain i = ks ++ f :: rest) (fresh : f ∉ done) :
    ∃ db', expireEntry env f db = some db' ∧ Swept env db₀ db' (f :: done) ∧
      db'.Shaped (Function.update chain i ((ks ++ [f].filter (staysLinked env db₀)) ++ rest)) := by
  obtain ⟨e, memory, there, own, others, outcome⟩ := shaped.expireEntry env place
  have entries := swept.entry_cons fresh there own others
  have stays_eq : staysLinked env db₀ f = (afterExpiry env db.jiffies e).isSome := by
    have before : db₀.memory.entry f = some e := by
      rw [← there, swept.entry, if_neg fresh]
    rw [staysLinked, before, bind_some, swept.now]
  cases stays : staysLinked env db₀ f with
  | true =>
    rw [← stays_eq, stays, if_pos rfl] at outcome
    refine ⟨_, outcome.1, ⟨entries, ?_⟩, ?_⟩
    · rw [settled_cons_of_stays stays]
      exact congrArg (fun d : Db => { d with memory }) swept.rest
    · have unchanged : (ks ++ [f].filter (staysLinked env db₀)) ++ rest = chain i := by
        simp [stays, place]
      rw [unchanged, update_eq_self]
      exact outcome.2
  | false =>
    rw [← stays_eq, stays, if_neg Bool.false_ne_true] at outcome
    refine ⟨_, outcome.1, ⟨entries, ?_⟩, ?_⟩
    · rw [settled_cons_of_drops stays]
      have forgotten : { db.forget f with memory } =
          { (settled env db₀ done).forget f with memory } := by
        rw [swept.rest, forget_with_memory]
      exact forgotten
    · simpa [stays] using outcome.2

/-- The loop over the rest of a chain. -/
theorem Swept.one (shaped : db.Shaped chain) {i : ℕ} {ks rest : List ℕ}
    (place : chain i = ks ++ rest) (fresh : ∀ q ∈ rest, q ∉ done) (enough : rest.length ≤ fuel) :
    ∃ db' done', sweepChain (expireEntry env) fuel rest.head? db = some db' ∧
      Swept env db₀ db' done' ∧ (∀ q, q ∈ done' ↔ q ∈ done ∨ q ∈ rest) ∧
      db'.Shaped (Function.update chain i (ks ++ rest.filter (staysLinked env db₀))) := by
  induction rest generalizing fuel ks db chain done with
  | nil =>
    refine ⟨db, done, by rw [List.head?_nil, sweepChain], swept, by simp, ?_⟩
    rw [filter_nil, ← place, update_eq_self]
    exact shaped
  | cons f rest ih =>
    obtain ⟨fuel, rfl⟩ : ∃ m, fuel = m + 1 := ⟨fuel - 1, by rw [length_cons] at enough; omega⟩
    have nodup := shaped.memory.nodup i
    have reaches := shaped.memory.reaches i
    rw [place] at nodup reaches
    have f_notMem : f ∉ rest := (nodup_cons.mp (nodup_append.mp nodup).2.1).1
    obtain ⟨db₁, stepped, swept₁, shaped₁⟩ :=
      swept.step shaped place (fresh f mem_cons_self)
    have fresh₁ (q : ℕ) (mem : q ∈ rest) : q ∉ f :: done := by
      rw [mem_cons, not_or]
      exact ⟨fun same => f_notMem (same ▸ mem), fresh q (mem_cons_of_mem f mem)⟩
    obtain ⟨db', done', swept_rest, swept', mem_done, shaped'⟩ :=
      ih swept₁ shaped₁ (update_self _ _ _) fresh₁ (Nat.le_of_succ_le_succ enough)
    refine ⟨db', done', ?_, swept', ?_, ?_⟩
    · rw [List.head?_cons, sweepChain, reaches.tail.load_eq]
      simp only [bind_eq_bind, bind_some, stepped]
      exact swept_rest
    · intro q
      rw [mem_done, mem_cons, mem_cons]
      tauto
    · rw [update_idem, append_assoc, ← filter_append] at shaped'
      exact shaped'

end

/-- The loop over the first `m` chains. -/
theorem Swept.all (env : Env) (shaped : db₀.Shaped chain) (enough : ∀ i, (chain i).length ≤ fuel)
    (m : ℕ) :
    ∃ db chain' done, (List.range m).foldlM
        (fun db i => sweepChain (expireEntry env) fuel (db.memory.head i) db) db₀ = some db ∧
      Swept env db₀ db done ∧ (∀ q, q ∈ done ↔ ∃ i < m, q ∈ chain i) ∧ db.Shaped chain' ∧
      ∀ i, chain' i = if i < m then (chain i).filter (staysLinked env db₀) else chain i := by
  induction m with
  | zero => exact ⟨db₀, chain, [], rfl, Swept.start env db₀, by simp, shaped, by simp⟩
  | succ m ih =>
    obtain ⟨db₁, chain₁, done₁, ran, swept₁, mem_done₁, shaped₁, chain_eq⟩ := ih
    have at_m : chain₁ m = chain m := by rw [chain_eq, if_neg (lt_irrefl m)]
    have fresh (q : ℕ) (mem : q ∈ chain m) : q ∉ done₁ := by
      rw [mem_done₁]
      rintro ⟨i, below, mem'⟩
      exact absurd (shaped.memory.apart mem' mem) (ne_of_lt below)
    obtain ⟨db', done', swept_m, swept', mem_done', shaped'⟩ :=
      swept₁.one shaped₁ (at_m.trans (nil_append _).symm) fresh (enough m)
    refine ⟨db', _, done', ?_, swept', ?_, shaped', ?_⟩
    · rw [range_succ, foldlM_append, ran]
      simp only [bind_eq_bind, bind_some, foldlM_cons, foldlM_nil]
      rw [shaped₁.memory.head_eq, at_m, swept_m]
      rfl
    · intro q
      rw [mem_done', mem_done₁]
      constructor
      · rintro (⟨i, below, mem⟩ | mem)
        · exact ⟨i, Nat.lt_succ_of_lt below, mem⟩
        · exact ⟨m, Nat.lt_succ_self m, mem⟩
      · rintro ⟨i, below, mem⟩
        rcases Nat.lt_succ_iff_lt_or_eq.mp below with below | rfl
        · exact .inl ⟨i, below, mem⟩
        · exact .inr mem
    · intro i
      by_cases same : i = m
      · subst same
        rw [update_self, nil_append, if_pos (Nat.lt_succ_self i)]
      · rw [update_of_ne same, chain_eq]
        have iff : i < m ↔ i < m + 1 := by omega
        simp only [iff]

variable {priv : Adapter}

theorem Represents.find_scdb (rep : Represents db chain priv)
    (enough : ∀ i, (chain i).length ≤ fuel) {p : ℕ} (linked : db.scdbEntry = some p) :
    ∃ e, db.memory.entry p = some e ∧ priv.scdbEntry = some e.networkAddr ∧
      priv.find e.networkAddr = some e := by
  obtain ⟨i, mem⟩ := rep.shaped.scdb p linked
  obtain ⟨addr, here, -⟩ := rep.shaped.hashed i p mem
  obtain ⟨e, there, rfl⟩ := map_eq_some_iff.mp here
  refine ⟨e, there, by rw [rep.scdbEntry, linked, bind_some, here], ?_⟩
  obtain ⟨r, found, hits, misses⟩ := rep.shaped.findAddr enough e.networkAddr
  obtain ⟨r', found', find_eq⟩ := rep.find enough e.networkAddr
  cases found.symm.trans found'
  cases r with
  | none => exact absurd here (misses rfl p)
  | some q =>
    cases rep.shaped.distinct q p e.networkAddr (hits q rfl).2 here
    rw [find_eq, bind_some, there]

theorem Swept.complete (swept : Swept env db₀ db done) (shaped : db₀.Shaped chain)
    (all : ∀ q, q ∈ done ↔ ∃ i < nat25HashSize, q ∈ chain i) (q : ℕ) :
    db.memory.entry q = (db₀.memory.entry q).bind (afterExpiry env db₀.jiffies) := by
  rw [swept.entry]
  split
  · rfl
  next outside =>
    cases there : db₀.memory.entry q with
    | none => rfl
    | some e =>
      have here : addrOf db₀.memory q = some e.networkAddr := by rw [addrOf, there, map_some]
      exact absurd ((all q).mpr ⟨_, networkHash_lt _, shaped.mem_of_addrOf here⟩) outside

theorem filterMap_swept (swept : ∀ q, db.memory.entry q =
      (db₀.memory.entry q).bind (afterExpiry env db₀.jiffies)) (ps : List ℕ) :
    (ps.filter (staysLinked env db₀)).filterMap db.memory.entry =
      (ps.filterMap db₀.memory.entry).filterMap (afterExpiry env db₀.jiffies) := by
  rw [filterMap_filterMap, filterMap_filter]
  apply filterMap_congr
  intro q _
  rw [swept, staysLinked]
  cases (db₀.memory.entry q).bind (afterExpiry env db₀.jiffies) with
  | none => rfl
  | some e => rfl

theorem Represents.lost_eq (rep : Represents db chain priv) (env : Env)
    (enough : ∀ i, (chain i).length ≤ fuel)
    (all : ∀ q, q ∈ done ↔ ∃ i < nat25HashSize, q ∈ chain i) :
    lost env db done = priv.scdbEntry.any fun addr =>
      (priv.find addr).any fun f => (afterExpiry env priv.jiffies f).isNone := by
  cases linked : db.scdbEntry with
  | none => rw [lost, linked, rep.scdbEntry, linked]; rfl
  | some p =>
    obtain ⟨e, there, key, found⟩ := rep.find_scdb enough linked
    have here : addrOf db.memory p = some e.networkAddr := by rw [addrOf, there, map_some]
    have mem : p ∈ done := (all p).mpr ⟨_, networkHash_lt _, rep.shaped.mem_of_addrOf here⟩
    rw [lost, linked, key, any_some, any_some, found, any_some, staysLinked,
      there, bind_some, rep.jiffies]
    simp [mem]

/-- Expiry in memory is expiry on the lists. -/
theorem Represents.expire (env : Env) (rep : Represents db chain priv)
    (enough : ∀ i, (chain i).length ≤ fuel) :
    ∃ db' chain', nat25DbExpire env fuel db = some db' ∧
      Represents db' chain' (Bridge.nat25DbExpire env priv) := by
  obtain ⟨db', chain', done, ran, swept, all, shaped', chain_eq⟩ :=
    Swept.all env rep.shaped enough nat25HashSize
  have entries := swept.complete rep.shaped all
  refine ⟨db', chain', ran, ?_⟩
  have lists (i : ℕ) : (priv.nethash i).filterMap (afterExpiry env priv.jiffies) =
      (chain' i).filterMap db'.memory.entry := by
    rw [rep.nethash, rep.jiffies, ← filterMap_swept entries, chain_eq]
    split
    · rfl
    next above => rw [rep.shaped.eq_nil_of_le (not_lt.mp above)]; rfl
  have scdbEntry : db'.scdbEntry = (settled env db done).scdbEntry :=
    (congrArg Db.scdbEntry swept.rest).trans rfl
  have scdbMac : db'.scdbMac = (settled env db done).scdbMac :=
    (congrArg Db.scdbMac swept.rest).trans rfl
  have scdbIp : db'.scdbIp = (settled env db done).scdbIp :=
    (congrArg Db.scdbIp swept.rest).trans rfl
  have jiffies : db'.jiffies = db.jiffies :=
    (congrArg Db.jiffies swept.rest).trans (settled_jiffies env db done)
  have same := rep.lost_eq env enough all
  rw [Bridge.nat25DbExpire, ← same]
  rw [settled] at scdbEntry scdbMac scdbIp
  cases gone : lost env db done with
  | true =>
    rw [gone, if_pos rfl] at scdbEntry scdbMac scdbIp
    exact ⟨shaped', lists, by rw [scdbEntry]; rfl, scdbMac.symm, scdbIp.symm,
      rep.jiffies.trans jiffies.symm⟩
  | false =>
    rw [gone, if_neg Bool.false_ne_true] at scdbEntry scdbMac scdbIp
    refine ⟨shaped', lists, ?_, rep.scdbMac.trans scdbMac.symm, rep.scdbIp.trans scdbIp.symm,
      rep.jiffies.trans jiffies.symm⟩
    -- an entry that stays keeps its address
    change priv.scdbEntry = _
    rw [scdbEntry, rep.scdbEntry]
    cases linked : db.scdbEntry with
    | none => rfl
    | some p =>
      obtain ⟨i, mem⟩ := shaped'.scdb p (scdbEntry.trans linked)
      obtain ⟨addr, here', -⟩ := shaped'.hashed i p mem
      obtain ⟨e', there', rfl⟩ := map_eq_some_iff.mp here'
      obtain ⟨e, there, stays⟩ := bind_eq_some_iff.mp ((entries p).symm.trans there')
      rw [bind_some, bind_some, here', addrOf, there, map_some, (afterExpiry_core stays).1]

end Expiry

/-! ## Runs -/

/-- What a client's frame does to the shortcut of the lists. -/
def clientTxLists (brPort : Bool) (brMac : MacAddr) (priv : Adapter) (skb : SkBuff) : Adapter :=
  let sa := macAt skb.data 6
  if skb.data 0 &&& 1 = 0 ∧ brPort ∧ sa ≠ brMac ∧ be16 skb.data 12 ≠ ethP8021Q ∧
      be16 skb.data 12 = ethPIp ∧ priv.scdbMac = sa ∧ priv.scdbEntry.isSome then
    (priv.scdbEntry.map priv.refresh).getD priv
  else
    let skb := stripVlan? skb (vlanHdrOf skb)
    if be16 skb.data 12 = ethPIp then
      (Bridge.updateScdb priv (macAt skb.data 6) (ipAt skb.data (ethHlen + 12))).1
    else priv

/-- The operations on the lists; there is no cleanup of them. -/
def stepLists (env : Env) (priv : Adapter) : Op → Adapter
  | .insert block macAddr addr => Bridge.dbNetworkInsert block.isSome priv macAddr addr
  | .lookup skb addr => (Bridge.dbNetworkLookupAndReplace env priv skb addr).1
  | .clientTx brPort brMac skb => clientTxLists brPort brMac priv skb
  | .expire => Bridge.nat25DbExpire env priv
  | .cleanup => priv
  | .elapse ticks => { priv with jiffies := priv.jiffies + ticks }

/-- The lists have the operation, and memory that is allocated for it was not in use. -/
def Op.OnLists (db : Db) : Op → Prop
  | .insert block _ _ => ∀ b ∈ block, db.memory.cell b.1 = none
  | .cleanup => False
  | _ => True

section Runs

variable {env : Env} {db : Db} {chain : ℕ → List ℕ} {priv : Adapter} {fuel : ℕ}

theorem Represents.scdb_isSome (rep : Represents db chain priv) :
    priv.scdbEntry.isSome = db.scdbEntry.isSome := by
  rw [rep.scdbEntry]
  cases linked : db.scdbEntry with
  | none => rfl
  | some p =>
    obtain ⟨i, mem⟩ := rep.shaped.scdb p linked
    obtain ⟨addr, here, -⟩ := rep.shaped.hashed i p mem
    rw [bind_some, here]
    rfl

theorem Represents.clientTx (rep : Represents db chain priv)
    (enough : ∀ i, (chain i).length ≤ fuel) (brPort : Bool) (brMac : MacAddr) (skb : SkBuff) :
    ∃ db', clientTxScdb fuel brPort brMac db skb = some db' ∧
      Represents db' chain (clientTxLists brPort brMac priv skb) := by
  rw [clientTxScdb, clientTxLists, rep.scdb_isSome, rep.scdbMac]
  dsimp only
  split
  next shortcut =>
    obtain ⟨db', addr, done, same, rep'⟩ := rep.refresh shortcut.2.2.2.2.2.2
    refine ⟨db', done, ?_⟩
    rw [same]
    exact rep'
  · split
    · exact rep.updateScdb enough _ _
    · exact ⟨db, rfl, rep⟩

/-- Each operation in memory does what it does on the lists. -/
theorem Represents.step (env : Env) (rep : Represents db chain priv)
    (enough : ∀ i, (chain i).length ≤ fuel) (op : Op) (on_lists : op.OnLists db) :
    ∃ db' chain', db.step env fuel op = some db' ∧
      Represents db' chain' (stepLists env priv op) := by
  cases op with
  | insert block macAddr addr => exact rep.insert enough on_lists macAddr addr
  | lookup skb addr =>
    obtain ⟨db', done, rep'⟩ := rep.lookup env enough skb addr
    exact ⟨db', chain, congrArg (Option.map Prod.fst) done, rep'⟩
  | clientTx brPort brMac skb =>
    obtain ⟨db', done, rep'⟩ := rep.clientTx enough brPort brMac skb
    exact ⟨db', chain, done, rep'⟩
  | expire => exact rep.expire env enough
  | cleanup => exact absurd on_lists id
  | elapse ticks =>
    refine ⟨_, chain, rfl, ?_, rep.nethash, rep.scdbEntry, rep.scdbMac, rep.scdbIp, ?_⟩
    · exact ⟨rep.shaped.memory, rep.shaped.hashed, rep.shaped.distinct, rep.shaped.scdb⟩
    · exact congrArg (· + ticks) rep.jiffies

/-- All operations of a run are on the lists. -/
def RunsOnLists (env : Env) (fuel : ℕ) : Db → List Op → Prop
  | _, [] => True
  | db, op :: ops =>
    op.OnLists db ∧ ∀ db', db.step env fuel op = some db' → RunsOnLists env fuel db' ops

theorem Represents.run (env : Env) (rep : Represents db chain priv) {n : ℕ}
    (bound : ∀ i, (chain i).length ≤ n) {ops : List Op} (enough : n + ops.length ≤ fuel)
    (on_lists : RunsOnLists env fuel db ops) :
    ∃ db' chain', ops.foldlM (Db.step env fuel) db = some db' ∧
      Represents db' chain' (ops.foldl (stepLists env) priv) := by
  induction ops generalizing db chain priv n with
  | nil => exact ⟨db, chain, rfl, rep⟩
  | cons op ops ih =>
    rw [length_cons] at enough
    have enough_here : n ≤ fuel := by omega
    obtain ⟨db₁, chain₁, done, rep₁⟩ :=
      rep.step env (fun i => (bound i).trans enough_here) op on_lists.1
    obtain ⟨db₂, done', chain₂, shaped₂, bound₂⟩ :=
      Db.Within.step env ⟨chain, rep.shaped, bound⟩ enough_here op
    cases done.symm.trans done'
    have bound₁ (i : ℕ) : (chain₁ i).length ≤ n + 1 := by
      rw [(rep₁.shaped.memory.reaches i).unique (shaped₂.memory.reaches i)]
      exact bound₂ i
    obtain ⟨db', chain', ran, rep'⟩ := ih rep₁ bound₁ (by omega) (on_lists.2 db₁ done)
    refine ⟨db', chain', ?_, rep'⟩
    rw [foldlM_cons, done]
    exact ran

/-- The code refines the database of lists: as long as nothing is cleaned up, every run over the
chains in memory ends, and what the links lead to then is what the same run over lists leaves, with
the same shortcut. -/
theorem memory_refines_lists (env : Env) (macAddr : MacAddr) (ops : List Op)
    (enough : ops.length ≤ fuel) (on_lists : RunsOnLists env fuel {} ops) :
    ∃ db chain, ops.foldlM (Db.step env fuel) {} = some db ∧
      Represents db chain (ops.foldl (stepLists env) { macAddr }) := by
  obtain ⟨chain, shaped, bound⟩ := within_empty
  have empty (i : ℕ) : chain i = [] := eq_nil_of_length_eq_zero (Nat.le_zero.mp (bound i))
  refine Represents.run env ⟨shaped, fun i => ?_, rfl, rfl, rfl, rfl⟩ bound ?_ on_lists
  · rw [empty]
    rfl
  · rwa [Nat.zero_add]

end Runs

theorem memory_refines_lists_two :
    ∃ db chain, twoOnOneChain.foldlM (Db.step littleHost 5) {} = some db ∧
      Represents db chain (twoOnOneChain.foldl (stepLists littleHost) { macAddr := nullAddr }) := by
  refine memory_refines_lists littleHost nullAddr twoOnOneChain (by decide) ⟨?_, fun db first => ?_⟩
  · rintro b ⟨⟩
    rfl
  obtain rfl := Option.some.inj first
  refine ⟨trivial, fun db second => ?_⟩
  obtain rfl := Option.some.inj second
  refine ⟨?_, fun _ _ => ⟨trivial, fun _ _ => ⟨trivial, fun _ _ => trivial⟩⟩⟩
  rintro b ⟨⟩
  rfl

end Rtl88x2bu.Bridge.HashChains
