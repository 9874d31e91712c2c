import Rtl88x2bu.Lib.Slots
import Rtl88x2bu.Key.MacId

/-!
# Who occupies the CAM entries

A key of 128 bits occupies one entry, one of 256 bits two; the broadcast station of an access point
reserves the entry of its MAC id and the next one. The map of used entries is right in a run as long
as no key is set again with another width in place, and no broadcast station takes an entry whose
next one is used.
-/

namespace Rtl88x2bu.Key

open List Function
open Rx (MacAddr SecurityType bcAddr nullAddr)

variable {Sta Iface : Type} {net : Ifaces Sta Iface} {d d' : Dvobj Sta Iface}

def keySlots : Option (ℕ × Bool) → Finset ℕ
  | none => ∅
  | some (i, false) => {i}
  | some (i, true) => {i, i + 1}

instance (net : Ifaces Sta Iface) (d : Dvobj Sta Iface) (psta : Sta) :
    Decidable (Holds net d psta) :=
  inferInstanceAs (Decidable (_ ∧ _))

section

variable (net d)

def reservedSlots (psta : Sta) : Finset ℕ :=
  if net.isBcSta psta = true ∧ Holds net d psta then {d.macId psta, d.macId psta + 1} else ∅

def heldSlots : KeyName ⊕ Sta → Finset ℕ
  | .inl key => keySlots (d.live key)
  | .inr psta => reservedSlots net d psta

/-- An entry is marked exactly when a live key or a reservation occupies it, and none is occupied
twice. -/
def CamExclusive : Prop :=
  Slots.Exclusive d.cam.used (heldSlots net d)

/-- A key that is live with the other width is set again. -/
def Rekeys (key : KeyName) (extSec : Bool) : Prop :=
  ∃ i, d.live key = some (i, !extSec) ∧
    (extSec = true → i + 1 ∈ d.cam.used ∨ camNum ≤ i + 1)

/-- The broadcast station takes the lowest id that is free for it, and the next entry is not free.
-/
def Oversteps (psta : Sta) (staMode : Bool) : Prop :=
  net.isOwn psta = false ∧ net.isBcSta psta = true ∧ staMode = false ∧
    ∃ i < net.num, i ∉ d.macidCtl.used ∧ i ∉ d.cam.used ∧
      (∀ j < i, j ∈ d.macidCtl.used ∨ j ∈ d.cam.used) ∧
      (i + 1 ∈ d.cam.used ∨ camNum ≤ i + 1)

def Overlaps : DvEvent Sta → Prop
  | .setStakey _ algorithm key => algorithm ≠ .noPrivacy ∧ Rekeys d key (isSecType256 algorithm)
  | .setkey _ assocSuccess algorithm bssid kid =>
    assocSuccess = true ∧ Rekeys d { addr := bssid, kid, gk := true } (isSecType256 algorithm)
  | .allocMacid psta staMode => Oversteps net d psta staMode
  | .clearstakey _ | .releaseMacid _ => False

/-- The keys belong to stations with an address, and MAC ids are allocated as they should be. -/
def Addressed (e : DvEvent Sta) : Prop :=
  Allocates net d e ∧
    match e with
    | .setStakey _ _ key => key.addr ≠ nullAddr
    | .setkey _ _ _ addr _ | .clearstakey addr => addr ≠ nullAddr
    | .allocMacid .. | .releaseMacid _ => True

end

/-! ## Slots of one key -/

theorem mem_keySlots {n i : ℕ} {ext : Bool} :
    n ∈ keySlots (some (i, ext)) ↔ n = i ∨ (ext = true ∧ n = i + 1) := by
  cases ext <;> simp [keySlots]

theorem keySlots_subset_iff {i : ℕ} {old new : Bool} :
    keySlots (some (i, old)) ⊆ keySlots (some (i, new)) ↔ (old = true → new = true) := by
  constructor
  · intro sub isOld
    have next := sub (mem_keySlots.mpr (.inr ⟨isOld, rfl⟩))
    rcases mem_keySlots.mp next with same | ⟨isNew, -⟩
    · omega
    · exact isNew
  · intro wider n held
    rcases mem_keySlots.mp held with same | ⟨isOld, next⟩
    · exact mem_keySlots.mpr (.inl same)
    · exact mem_keySlots.mpr (.inr ⟨wider isOld, next⟩)

theorem keySlots_covered_iff {i : ℕ} {ext : Bool} {used : Finset ℕ} (head : i ∈ used) :
    keySlots (some (i, ext)) ⊆ used ∪ (keySlots (some (i, ext))).filter (· < 32) ↔
      (ext = true → i + 1 ∈ used ∨ i + 1 < 32) := by
  constructor
  · intro covered isExt
    have next := covered (mem_keySlots.mpr (.inr ⟨isExt, rfl⟩))
    rcases Finset.mem_union.mp next with marked | added
    · exact .inl marked
    · exact .inr (Finset.mem_filter.mp added).2
  · intro covered n held
    rcases mem_keySlots.mp held with rfl | ⟨isExt, rfl⟩
    · exact Finset.mem_union_left _ head
    · rcases covered isExt with marked | small
      · exact Finset.mem_union_left _ marked
      · exact Finset.mem_union_right _ (Finset.mem_filter.mpr ⟨held, small⟩)

theorem keySlots_new_free_iff {i : ℕ} {old new : Bool} {used : Finset ℕ} :
    Disjoint (keySlots (some (i, new)) \ keySlots (some (i, old))) used ↔
      (new = true → old = false → i + 1 ∉ used) := by
  rw [Finset.disjoint_left]
  constructor
  · intro free isNew isOld
    refine free (Finset.mem_sdiff.mpr ⟨mem_keySlots.mpr (.inr ⟨isNew, rfl⟩), ?_⟩)
    simp [mem_keySlots, isOld]
  · intro free n fresh
    obtain ⟨held, not_held⟩ := Finset.mem_sdiff.mp fresh
    rw [mem_keySlots, not_or] at not_held
    rcases mem_keySlots.mp held with same | ⟨isNew, rfl⟩
    · exact absurd same not_held.1
    · refine free isNew ?_
      by_contra isOld
      exact not_held.2 ⟨by simpa using isOld, rfl⟩

theorem camidAlloc_used {cam : CamCtl} {key : KeyName} {extSec : Bool} {i : ℕ}
    (found : getCamid cam key extSec = some i) :
    (camidAlloc cam key extSec).2.used =
      cam.used ∪ (keySlots (some (i, extSec))).filter (· < 32) := by
  rw [camidAlloc_of_getCamid found]
  ext n
  cases extSec with
  | false =>
    simp only [Bool.false_eq_true, if_false, mem_secCamMapSet, Finset.mem_union,
      Finset.mem_filter, mem_keySlots, false_and, or_false]
    grind
  | true =>
    simp only [if_true, mem_secCamMapSet, Finset.mem_union, Finset.mem_filter, mem_keySlots,
      true_and]
    grind

/-! ## The cache mirrors the live keys -/

/-- Entries of live keys have their contents, all others are blank, and a reservation is known to
its interface. -/
structure Mirrored (net : Ifaces Sta Iface) (d : Dvobj Sta Iface) : Prop where
  mapped : ∀ n ∈ d.cam.used, n < camNum
  addr : ∀ key, d.live key ≠ none → key.addr ≠ nullAddr
  entry : ∀ key, ∀ n ∈ keySlots (d.live key), (d.cam.cache n).mac = key.addr ∧
    (d.cam.cache n).ctrl.kid = key.kid ∧ (d.cam.cache n).ctrl.gk = key.gk
  blank : ∀ n, (∀ key, n ∉ keySlots (d.live key)) → (d.cam.cache n).mac = nullAddr
  group : ∀ a, net.isBcSta a = true → Holds net d a →
    d.macidCtl.ifaceBmc (net.ifaceOf a) = d.macId a

theorem Mirrored.initial : Mirrored net (initial net) where
  mapped := fun n used => by simp [Key.initial] at used
  addr := fun key live => absurd rfl live
  entry := fun key n held => by simp [Key.initial, keySlots] at held
  blank := fun _ _ => rfl
  group := fun _ _ holds => absurd holds.1 (Nat.lt_irrefl _)

/-- Keys and cache stay. -/
theorem Mirrored.congr (mirrored : Mirrored net d) (live : d'.live = d.live)
    (cache : d'.cam.cache = d.cam.cache) (mapped : ∀ n ∈ d'.cam.used, n < camNum)
    (group : ∀ a, net.isBcSta a = true → Holds net d' a →
      d'.macidCtl.ifaceBmc (net.ifaceOf a) = d'.macId a) : Mirrored net d' := by
  refine ⟨mapped, ?_, ?_, ?_, group⟩ <;> rw [live]
  · exact mirrored.addr
  · rw [cache]
    exact mirrored.entry
  · rw [cache]
    exact mirrored.blank

theorem CamExclusive.initial : CamExclusive net (initial net) := by
  have nothing : heldSlots net (Key.initial net) = fun _ => ∅ := by
    funext o
    cases o with
    | inl key => rfl
    | inr psta => simp [heldSlots, reservedSlots, Holds, Key.initial]
  rw [CamExclusive, nothing]
  exact Slots.Exclusive.empty

section Search

variable {key : KeyName} {n : ℕ}

theorem CamExclusive.slot_used (right : CamExclusive net d) (held : n ∈ keySlots (d.live key)) :
    n ∈ d.cam.used :=
  (right.marked_iff n).mpr ⟨.inl key, held⟩

theorem Mirrored.mac_eq_iff (mirrored : Mirrored net d) {addr : MacAddr} (known : addr ≠ nullAddr) :
    (d.cam.cache n).mac = addr ↔ ∃ key, key.addr = addr ∧ n ∈ keySlots (d.live key) := by
  constructor
  · intro mac
    by_contra none_held
    have unheld : ∀ key, n ∉ keySlots (d.live key) := by
      intro key held
      exact none_held ⟨key, (mirrored.entry key n held).1.symm.trans mac, held⟩
    exact known (mac.symm.trans (mirrored.blank n unheld))
  · rintro ⟨key, rfl, held⟩
    exact (mirrored.entry key n held).1

variable (right : CamExclusive net d) (mirrored : Mirrored net d)

include right mirrored

theorem camCacheChk_iff (known : key.addr ≠ nullAddr) :
    camCacheChk d.cam key.addr (some key.kid) (some key.gk) n = true ↔
      n ∈ keySlots (d.live key) := by
  simp only [camCacheChk, Option.all_some, Bool.and_eq_true, beq_iff_eq]
  have gk : ∀ {key' : KeyName}, n ∈ keySlots (d.live key') →
      camidIsGk d.cam n = (d.cam.cache n).ctrl.gk := by
    intro key' held
    have used := right.slot_used held
    rw [Bool.eq_iff_iff, camidIsGk_iff]
    simp [mirrored.mapped n used, used]
  constructor
  · rintro ⟨⟨mac, kid⟩, isGk⟩
    obtain ⟨key', addr', held⟩ := (mirrored.mac_eq_iff known).mp mac
    obtain ⟨-, kid', gk'⟩ := mirrored.entry key' n held
    rw [gk held] at isGk
    have same : key' = key := by
      cases key
      cases key'
      simp_all
    exact same ▸ held
  · intro held
    obtain ⟨mac, kid, gk'⟩ := mirrored.entry key n held
    exact ⟨⟨mac, kid.symm⟩, by rw [gk held, gk']⟩

theorem camidSearch_eq (known : key.addr ≠ nullAddr) :
    camidSearch d.cam key.addr (some key.kid) (some key.gk) = (d.live key).map Prod.fst := by
  have accepts := fun n => camCacheChk_iff (n := n) right mirrored known
  cases live : d.live key with
  | none =>
    rw [live] at accepts
    refine List.find?_eq_none.mpr fun n _ matched => ?_
    simpa [keySlots] using (accepts n).mp matched
  | some slot =>
    obtain ⟨i, ext⟩ := slot
    rw [live] at accepts
    have head : i ∈ keySlots (d.live key) := by
      rw [live]
      exact mem_keySlots.mpr (.inl rfl)
    have small := mirrored.mapped i (right.slot_used head)
    refine List.find?_range_eq_some.mpr ⟨(accepts i).mpr (live ▸ head), mem_range.mpr small, ?_⟩
    intro j before
    have other : j ∉ keySlots (some (i, ext)) := by
      rw [mem_keySlots]
      omega
    simpa using mt (accepts j).mp other

end Search

/-! ## Setting a key -/

section Install

variable {sppMode extSec : Bool} {algorithm : SecurityType} {key : KeyName} {i : ℕ}
variable {cam : CamCtl}

theorem installKey_of_getCamid (found : getCamid cam key (isSecType256 algorithm) = some i) :
    installKey sppMode cam algorithm key = (some i,
      writeCam (camidAlloc cam key (isSecType256 algorithm)).2 i (keyCtrl sppMode algorithm key)
        key.addr) := by
  rw [installKey, camidAlloc_of_getCamid found]

theorem installKey_full (full : getCamid cam key (isSecType256 algorithm) = none) :
    installKey sppMode cam algorithm key = (none, cam) := by
  simp [installKey, camidAlloc, full]

@[simp]
theorem writeCam_used {ctrl : CamCtrl} {mac : MacAddr} :
    (writeCam cam i ctrl mac).used = cam.used := by
  unfold writeCam
  split <;> rfl

theorem writeCam_cache_mem {n : ℕ} (held : n ∈ keySlots (some (i, isSecType256 algorithm))) :
    let ent := (writeCam cam i (keyCtrl sppMode algorithm key) key.addr).cache n
    ent.mac = key.addr ∧ ent.ctrl.kid = key.kid ∧ ent.ctrl.gk = key.gk := by
  rcases mem_keySlots.mp held with rfl | ⟨ext, rfl⟩
  · cases ext : isSecType256 algorithm <;> simp [writeCam, keyCtrl, ext]
  · simp [writeCam, keyCtrl, ext]

theorem writeCam_cache_of_not_mem {n : ℕ} (free : n ∉ keySlots (some (i, isSecType256 algorithm))) :
    (writeCam cam i (keyCtrl sppMode algorithm key) key.addr).cache n = cam.cache n := by
  rw [mem_keySlots, not_or] at free
  cases ext : isSecType256 algorithm with
  | false => simp [writeCam, keyCtrl, ext, update_of_ne free.1]
  | true =>
    have next_free : n ≠ i + 1 := fun eq => free.2 ⟨ext, eq⟩
    simp [writeCam, keyCtrl, ext, update_of_ne free.1, update_of_ne next_free]

theorem camidAlloc_cache : (camidAlloc cam key extSec).2.cache = cam.cache := by
  unfold camidAlloc
  split <;> rfl

theorem noteKey_live_self : (noteKey d key extSec (some i, cam)).live key = some (i, extSec) :=
  update_self ..

theorem noteKey_live_of_ne {key' : KeyName} (other : key' ≠ key) :
    (noteKey d key extSec (some i, cam)).live key' = d.live key' :=
  update_of_ne other ..

theorem heldSlots_noteKey [DecidableEq Sta] :
    heldSlots net (noteKey d key extSec (some i, cam)) =
      Function.update (heldSlots net d) (.inl key) (keySlots (some (i, extSec))) := by
  funext o
  cases o with
  | inl key' =>
    by_cases same : key' = key
    · subst same
      rw [update_self, heldSlots, noteKey_live_self]
    · have other : (Sum.inl key' : KeyName ⊕ Sta) ≠ .inl key := by simpa using same
      rw [update_of_ne other, heldSlots, heldSlots, noteKey_live_of_ne same]
  | inr psta => rfl

theorem room_free (free : hasRoom d.cam extSec i = true) (here : i < camNum) :
    ∀ n ∈ keySlots (some (i, extSec)), n < camNum ∧ n ∉ d.cam.used := by
  simp only [hasRoom, Bool.and_eq_true, Bool.or_eq_true, Bool.not_eq_true', decide_eq_true_eq,
    ← Bool.not_eq_true, secCamidIsUsed_iff, not_and] at free
  intro n held
  rcases mem_keySlots.mp held with rfl | ⟨rfl, rfl⟩
  · exact ⟨here, free.1 here⟩
  · obtain ⟨small, unused⟩ := free.2.resolve_left (by simp)
    exact ⟨small, unused small⟩

theorem put_slots_iff (right : CamExclusive net d) (mirrored : Mirrored net d)
    (known : key.addr ≠ nullAddr) (found : getCamid d.cam key extSec = some i) :
    (keySlots (d.live key) ⊆ keySlots (some (i, extSec)) ∧
      keySlots (some (i, extSec)) ⊆
        d.cam.used ∪ (keySlots (some (i, extSec))).filter (· < 32) ∧
      Disjoint (keySlots (some (i, extSec)) \ keySlots (d.live key)) d.cam.used) ↔
      ¬ Rekeys d key extSec := by
  have search := camidSearch_eq right mirrored known
  rw [getCamid, search] at found
  cases live : d.live key with
  | none =>
    rw [live] at found
    have here := mem_range.mp (mem_of_find?_eq_some found)
    have free := room_free (List.find?_some found) here
    refine iff_of_true ⟨by simp [keySlots], fun n held => ?_, ?_⟩ (by simp [Rekeys, live])
    · exact Finset.mem_union_right _ (Finset.mem_filter.mpr ⟨held, (free n held).1⟩)
    · exact Finset.disjoint_left.mpr fun n new => (free n (Finset.mem_sdiff.mp new).1).2
  | some slot =>
    obtain ⟨j, old⟩ := slot
    rw [live] at found
    obtain rfl : j = i := Option.some.inj found
    have held : ∀ n ∈ keySlots (some (j, old)), n ∈ d.cam.used := by
      rw [← live]
      exact fun n => right.slot_used
    have head : j ∈ d.cam.used := held j (mem_keySlots.mpr (.inl rfl))
    have tail : old = true → j + 1 ∈ d.cam.used := fun isOld =>
      held (j + 1) (mem_keySlots.mpr (.inr ⟨isOld, rfl⟩))
    rw [keySlots_subset_iff, keySlots_covered_iff head, keySlots_new_free_iff]
    cases old with
    | false =>
      cases extSec with
      | false => simp [Rekeys, live]
      | true =>
        simp only [Rekeys, live, camNum]
        grind
    | true =>
      cases extSec with
      | false => simp [Rekeys, live]
      | true => simp [Rekeys, live, tail]

theorem installKey_exclusive_iff [DecidableEq Sta] (right : CamExclusive net d)
    (mirrored : Mirrored net d) (known : key.addr ≠ nullAddr) :
    CamExclusive net (noteKey d key (isSecType256 algorithm)
      (installKey sppMode d.cam algorithm key)) ↔ ¬ Rekeys d key (isSecType256 algorithm) := by
  cases found : getCamid d.cam key (isSecType256 algorithm) with
  | none =>
    rw [installKey_full found]
    refine iff_of_true right ?_
    rintro ⟨i, live, -⟩
    rw [getCamid, camidSearch_eq right mirrored known, live] at found
    cases found
  | some i =>
    rw [installKey_of_getCamid found, CamExclusive, heldSlots_noteKey]
    simp only [noteKey, writeCam_used, camidAlloc_used found]
    rw [Slots.Exclusive.put_iff right (.inl key) (Finset.filter_subset ..)]
    exact put_slots_iff right mirrored known found

theorem Mirrored.installKey [DecidableEq Sta] (mirrored : Mirrored net d)
    (right : CamExclusive net d)
    (known : key.addr ≠ nullAddr)
    (after : CamExclusive net (noteKey d key (isSecType256 algorithm)
      (installKey sppMode d.cam algorithm key))) :
    Mirrored net (noteKey d key (isSecType256 algorithm)
      (Key.installKey sppMode d.cam algorithm key)) := by
  cases found : getCamid d.cam key (isSecType256 algorithm) with
  | none =>
    rw [installKey_full found]
    exact mirrored.congr rfl rfl mirrored.mapped mirrored.group
  | some i =>
    have may := (installKey_exclusive_iff right mirrored known).mp after
    obtain ⟨kept, -, -⟩ := (put_slots_iff right mirrored known found).mpr may
    rw [installKey_of_getCamid found] at after ⊢
    -- no other live key has one of the entries that are written
    have apart : ∀ key', key' ≠ key → ∀ n ∈ keySlots (d.live key'),
        n ∉ keySlots (some (i, isSecType256 algorithm)) := by
      intro key' other n held new
      refine other (Sum.inl_injective (after.unique n (.inl key') (.inl key) ?_ ?_))
      · rwa [heldSlots, noteKey_live_of_ne other]
      · rwa [heldSlots, noteKey_live_self]
    constructor
    · intro n used
      simp only [noteKey, writeCam_used, camidAlloc_used found, Finset.mem_union,
        Finset.mem_filter] at used
      exact used.elim (mirrored.mapped n) fun added => added.2
    · intro key' live
      by_cases same : key' = key
      · rwa [same]
      · rw [noteKey_live_of_ne same] at live
        exact mirrored.addr key' live
    · intro key' n held
      by_cases same : key' = key
      · subst same
        rw [noteKey_live_self] at held
        exact writeCam_cache_mem held
      · rw [noteKey_live_of_ne same] at held
        have old := mirrored.entry key' n held
        simp only [noteKey, writeCam_cache_of_not_mem (apart key' same n held), camidAlloc_cache]
        exact old
    · intro n unheld
      have free := unheld key
      rw [noteKey_live_self] at free
      simp only [noteKey, writeCam_cache_of_not_mem free, camidAlloc_cache]
      refine mirrored.blank n fun key' held => ?_
      by_cases same : key' = key
      · subst same
        exact free (kept held)
      · exact unheld key' (by rwa [noteKey_live_of_ne same])
    · exact mirrored.group

end Install

/-! ## Clearing the keys of a station -/

section Clear

variable {addr : MacAddr}

theorem forgetKeys_live_self {cam : CamCtl} {key : KeyName} (same : key.addr = addr) :
    (forgetKeys d addr cam).live key = none :=
  if_pos same

theorem forgetKeys_live_of_ne {cam : CamCtl} {key : KeyName} (other : key.addr ≠ addr) :
    (forgetKeys d addr cam).live key = d.live key :=
  if_neg other

variable (right : CamExclusive net d) (mirrored : Mirrored net d)
  (known : addr ≠ nullAddr)

include right mirrored known

theorem mem_entriesOf_iff {n : ℕ} :
    n ∈ entriesOf d.cam addr ↔ ∃ key, key.addr = addr ∧ n ∈ keySlots (d.live key) := by
  rw [mem_entriesOf, mirrored.mac_eq_iff known, and_iff_right_iff_imp]
  rintro ⟨key, -, held⟩
  exact mirrored.mapped n (right.slot_used held)

theorem forgetKeys_exclusive :
    CamExclusive net (forgetKeys d addr (clearKeys addr none camNum d.cam)) := by
  rw [clearKeys_eq known]
  refine right.drop (Sum.elim (fun key => key.addr = addr) fun _ => False) (fun n => ?_) ?_ ?_
  · change n ∈ d.cam.used \ entriesOf d.cam addr ↔ _
    rw [Finset.mem_sdiff, mem_entriesOf_iff right mirrored known]
    refine and_congr_right fun _ => ⟨?_, ?_⟩
    · rintro unheld (key | psta) isGone held
      · exact unheld ⟨key, isGone, held⟩
      · exact isGone
    · rintro unheld ⟨key, same, held⟩
      exact unheld (.inl key) same held
  · rintro (key | psta) isGone
    · rw [heldSlots, forgetKeys_live_self isGone, keySlots]
    · exact isGone.elim
  · rintro (key | psta) stays
    · rw [heldSlots, forgetKeys_live_of_ne stays, heldSlots]
    · rfl

theorem forgetKeys_mirrored :
    Mirrored net (forgetKeys d addr (clearKeys addr none camNum d.cam)) := by
  rw [clearKeys_eq known]
  constructor
  · intro n used
    exact mirrored.mapped n (Finset.mem_sdiff.mp used).1
  · intro key live
    by_cases same : key.addr = addr
    · rwa [same]
    · rw [forgetKeys_live_of_ne same] at live
      exact mirrored.addr key live
  · intro key n held
    by_cases same : key.addr = addr
    · rw [forgetKeys_live_self same] at held
      simp [keySlots] at held
    · rw [forgetKeys_live_of_ne same] at held
      have elsewhere : n ∉ entriesOf d.cam addr := by
        rw [mem_entriesOf, (mirrored.entry key n held).1]
        exact fun both => same both.2
      simp only [forgetKeys, if_neg elsewhere]
      exact mirrored.entry key n held
  · intro n unheld
    by_cases cleared : n ∈ entriesOf d.cam addr
    · simp only [forgetKeys, if_pos cleared]
    · simp only [forgetKeys, if_neg cleared]
      refine mirrored.blank n fun key held => ?_
      by_cases same : key.addr = addr
      · exact cleared ((mem_entriesOf_iff right mirrored known).mpr ⟨key, same, held⟩)
      · exact unheld key (by rwa [forgetKeys_live_of_ne same])
  · exact mirrored.group

end Clear

/-! ## Reserving and giving back entries -/

section Reserve

variable [DecidableEq Sta] {psta : Sta} {staMode : Bool} {id : ℕ}

omit [DecidableEq Sta] in
theorem reservedSlots_congr (same : d'.macId psta = d.macId psta) :
    reservedSlots net d' psta = reservedSlots net d psta := by
  unfold reservedSlots
  rw [same]
  exact if_congr (by rw [Holds, Holds, same]) rfl rfl

theorem heldSlots_update (live : d'.live = d.live)
    (macId : d'.macId = Function.update d.macId psta id) :
    heldSlots net d' =
      Function.update (heldSlots net d) (.inr psta) (reservedSlots net d' psta) := by
  funext o
  cases o with
  | inl key => simp [heldSlots, live]
  | inr a =>
    by_cases same : a = psta
    · rw [same, update_self, heldSlots]
    · have other : (Sum.inr a : KeyName ⊕ Sta) ≠ .inr psta := by simpa using same
      rw [update_of_ne other, heldSlots, heldSlots]
      refine reservedSlots_congr ?_
      rw [macId, update_of_ne same]

omit [DecidableEq Sta] in
theorem reservedSlots_of_not_holds (none_held : ¬ Holds net d psta) :
    reservedSlots net d psta = ∅ :=
  if_neg fun both => none_held both.2

theorem exclusive_of_no_slots (right : CamExclusive net d) (cam : d'.cam = d.cam)
    (live : d'.live = d.live) (macId : d'.macId = Function.update d.macId psta id)
    (before : reservedSlots net d psta = ∅) (after : reservedSlots net d' psta = ∅) :
    CamExclusive net d' := by
  have same : heldSlots net d' = heldSlots net d := by
    rw [heldSlots_update live macId, after, ← before]
    exact update_eq_self ..
  rw [CamExclusive, same, cam]
  exact right

omit [DecidableEq Sta] in
theorem freeMacid_eq_some_iff {i : ℕ} (mirrored : Mirrored net d) :
    freeMacid net d true = some i ↔ i < net.num ∧ i ∉ d.macidCtl.used ∧ i ∉ d.cam.used ∧
      ∀ j < i, j ∈ d.macidCtl.used ∨ j ∈ d.cam.used := by
  have unused : ∀ j, secCamidIsUsed d.cam j = true ↔ j ∈ d.cam.used := by
    intro j
    rw [secCamidIsUsed_iff]
    exact and_iff_right_of_imp (mirrored.mapped j)
  rw [freeMacid, List.find?_range_eq_some]
  simp only [Bool.true_and, Bool.and_eq_true, Bool.not_eq_true', ← Bool.not_eq_true, unused,
    decide_eq_true_eq, mem_range]
  grind

variable [DecidableEq Iface]

omit [DecidableEq Sta] in
theorem reserveCam_used {iface : Iface} {i : ℕ} :
    (reserveCam d iface i).cam.used =
      d.cam.used ∪ (keySlots (some (i, true))).filter (· < 32) := by
  ext n
  simp only [reserveCam, mem_secCamMapSet, Finset.mem_union, Finset.mem_filter, mem_keySlots,
    true_and]
  grind

omit [DecidableEq Sta] [DecidableEq Iface] in
theorem oversteps_iff {i : ℕ} (mirrored : Mirrored net d) (foreign : net.isOwn psta = false)
    (bc : net.isBcSta psta = true) (ap : staMode = false)
    (search : freeMacid net d true = some i) :
    Oversteps net d psta staMode ↔ i + 1 ∈ d.cam.used ∨ camNum ≤ i + 1 := by
  constructor
  · rintro ⟨-, -, -, j, here, unused, free, lower, beyond⟩
    have same := (freeMacid_eq_some_iff mirrored).mpr ⟨here, unused, free, lower⟩
    rw [search] at same
    cases same
    exact beyond
  · intro beyond
    obtain ⟨here, unused, free, lower⟩ := (freeMacid_eq_some_iff mirrored).mp search
    exact ⟨foreign, bc, ap, i, here, unused, free, lower, beyond⟩

theorem allocMacid_exclusive_iff (table : MacidTable net d) (right : CamExclusive net d)
    (mirrored : Mirrored net d) (none_held : d.macId psta = net.num) :
    CamExclusive net (allocMacid net d psta staMode) ↔ ¬ Oversteps net d psta staMode := by
  have live : (allocMacid net d psta staMode).live = d.live := allocMacid_live
  have before : reservedSlots net d psta = ∅ := by
    refine reservedSlots_of_not_holds fun holds => ?_
    exact Nat.ne_of_lt holds.1 none_held
  have idle : ∀ {id}, net.num ≤ id ∨ id = defaultMgmtMacid →
      (allocMacid net d psta staMode).cam = d.cam →
      (allocMacid net d psta staMode).macId = Function.update d.macId psta id →
      CamExclusive net (allocMacid net d psta staMode) := by
    intro id none_given cam macId
    refine exclusive_of_no_slots right cam live macId before (reservedSlots_of_not_holds ?_)
    exact fun holds => (holds.before macId none_given).1 rfl
  obtain ⟨own, maps, cam, macId⟩ | ⟨foreign, full, maps, cam, macId⟩ |
      ⟨foreign, sta, maps, cam, macId⟩ | ⟨i, foreign, search, group, maps, cam, macId⟩ :
      Allocated net d psta staMode (allocMacid net d psta staMode) := allocMacid_allocated
  · refine iff_of_true (idle (.inl le_rfl) cam macId) ?_
    rintro ⟨foreign, -⟩
    rw [own] at foreign
    cases foreign
  · refine iff_of_true (idle (.inl le_rfl) cam macId) ?_
    rintro ⟨-, bc, -, i, here, unused, free, lower, -⟩
    rw [bc, (freeMacid_eq_some_iff mirrored).mpr ⟨here, unused, free, lower⟩] at full
    cases full
  · refine iff_of_true (idle (.inr rfl) cam macId) ?_
    rintro ⟨-, -, ap, -⟩
    rw [sta.2] at ap
    cases ap
  · cases bc : net.isBcSta psta with
    | false =>
      rw [bc] at cam
      refine iff_of_true (exclusive_of_no_slots right cam live macId before ?_) ?_
      · exact if_neg fun both => by simp [bc] at both
      · rintro ⟨-, isBc, -⟩
        rw [bc] at isBc
        cases isBc
    | true =>
      rw [bc] at search cam
      obtain ⟨here, unused, free, lower⟩ := (freeMacid_eq_some_iff mirrored).mp search
      have holds : Holds net (allocMacid net d psta staMode) psta := by
        rw [Holds, macId, update_self]
        exact ⟨here, fun mgmt => unused (mgmt ▸ table.mgmt_used)⟩
      have after : reservedSlots net (allocMacid net d psta staMode) psta =
          keySlots (some (i, true)) := by
        rw [reservedSlots, if_pos ⟨bc, holds⟩, macId, update_self, keySlots]
      rw [CamExclusive, heldSlots_update live macId, after, cam, if_pos rfl, reserveCam_used,
        Slots.Exclusive.put_iff right (.inr psta) (Finset.filter_subset ..), heldSlots, before,
        oversteps_iff mirrored foreign bc (group bc).1 search, Finset.sdiff_empty,
        Finset.disjoint_left]
      have small : i < camNum := lt_of_lt_of_le here net.num_le
      constructor
      · rintro ⟨-, covered, apart⟩ (used | beyond)
        · exact apart (mem_keySlots.mpr (.inr ⟨rfl, rfl⟩)) used
        · have marked := covered (mem_keySlots.mpr (.inr ⟨rfl, rfl⟩))
          rcases Finset.mem_union.mp marked with used | added
          · exact Nat.not_lt.mpr beyond (mirrored.mapped _ used)
          · exact Nat.not_lt.mpr beyond (Finset.mem_filter.mp added).2
      · intro fits
        rw [not_or, Nat.not_le] at fits
        refine ⟨Finset.empty_subset _, fun n held => ?_, fun n held => ?_⟩
        · refine Finset.mem_union_right _ (Finset.mem_filter.mpr ⟨held, ?_⟩)
          rcases mem_keySlots.mp held with rfl | ⟨-, rfl⟩
          · exact small
          · exact fits.2
        · rcases mem_keySlots.mp held with rfl | ⟨-, rfl⟩
          · exact free
          · exact fits.1

def OneBcSta (net : Ifaces Sta Iface) : Prop :=
  ∀ a b, net.isBcSta a = true → net.isBcSta b = true → net.ifaceOf a = net.ifaceOf b → a = b

omit [DecidableEq Sta] [DecidableEq Iface] in
theorem OneBcSta.elsewhere (single : OneBcSta net) {a : Sta} (bc : net.isBcSta a = true)
    (other : a ≠ psta) : net.ifaceOf a ≠ net.ifaceOf psta ∨ net.isBcSta psta = false := by
  cases bc' : net.isBcSta psta with
  | false => exact .inr rfl
  | true => exact .inl fun same => other (single a psta bc bc' same)

theorem Mirrored.allocMacid (single : OneBcSta net) (mirrored : Mirrored net d) :
    Mirrored net (allocMacid net d psta staMode) := by
  have live : (Key.allocMacid net d psta staMode).live = d.live := allocMacid_live
  have others : ∀ {a}, a ≠ psta ∧ (Key.allocMacid net d psta staMode).macId a = d.macId a ∧
      Holds net d a → net.isBcSta a = true →
      (Key.allocMacid net d psta staMode).macidCtl.ifaceBmc (net.ifaceOf a) =
        (Key.allocMacid net d psta staMode).macId a := by
    rintro a ⟨other, same, held⟩ bc
    rw [allocMacid_ifaceBmc (single.elsewhere bc other), same]
    exact mirrored.group a bc held
  obtain ⟨_, _, cam, macId⟩ | ⟨_, _, _, cam, macId⟩ | ⟨_, _, _, cam, macId⟩ |
      ⟨i, _, _, group, _, cam, macId⟩ :
      Allocated net d psta staMode (Key.allocMacid net d psta staMode) := allocMacid_allocated
  · exact mirrored.congr live (by rw [cam]) (cam ▸ mirrored.mapped) fun a bc holds =>
      others (holds.before macId (.inl le_rfl)) bc
  · exact mirrored.congr live (by rw [cam]) (cam ▸ mirrored.mapped) fun a bc holds =>
      others (holds.before macId (.inl le_rfl)) bc
  · exact mirrored.congr live (by rw [cam]) (cam ▸ mirrored.mapped) fun a bc holds =>
      others (holds.before macId (.inr rfl)) bc
  · refine mirrored.congr live ?_ ?_ fun a bc holds => ?_
    · rw [cam]
      split <;> rfl
    · -- the map only gets bits that it has
      rw [cam]
      split
      · intro n used
        rw [reserveCam_used, Finset.mem_union] at used
        exact used.elim (mirrored.mapped n) fun added => (Finset.mem_filter.mp added).2
      · exact mirrored.mapped
    · by_cases same : a = psta
      · subst same
        rw [(group bc).2, macId, update_self]
      · have kept : (Key.allocMacid net d psta staMode).macId a = d.macId a := by
          rw [macId, update_of_ne same]
        exact others ⟨same, kept, (holds_congr kept).mp holds⟩ bc

variable [Fintype Iface]

omit [DecidableEq Sta] [Fintype Iface] in
theorem unreserveCam_used (mirrored : Mirrored net d) (bc : net.isBcSta psta = true)
    (holds : Holds net d psta) (n : ℕ) :
    n ∈ (unreserveCam d (net.ifaceOf psta)).cam.used ↔
      n ∈ d.cam.used ∧ n ∉ reservedSlots net d psta := by
  have small : d.macId psta < 32 := lt_of_lt_of_le holds.1 net.num_le
  have id := mirrored.group psta bc holds
  have valid : d.macId psta ≠ invalidSecMacCamId ∧ d.macId psta < camNum :=
    ⟨fun eq => by simp [eq, invalidSecMacCamId] at small, small⟩
  have used : (unreserveCam d (net.ifaceOf psta)).cam.used =
      secCamMapClr (secCamMapClr d.cam.used (d.macId psta)) (d.macId psta + 1) := by
    simp only [unreserveCam, setIfaceBmc, unreserve, id, if_pos valid]
  rw [used, reservedSlots, if_pos ⟨bc, holds⟩]
  simp only [secCamMapClr, small, if_true, Finset.mem_insert, Finset.mem_singleton, not_or]
  split
  · simp only [Finset.mem_erase]; tauto
  next big =>
    have bound := mirrored.mapped n
    simp only [camNum] at bound
    simp only [Finset.mem_erase]
    constructor
    · rintro ⟨other, used⟩
      exact ⟨used, other, fun eq => big (eq ▸ bound used)⟩
    · rintro ⟨used, other, -⟩
      exact ⟨other, used⟩

theorem releaseMacid_exclusive (table : MacidTable net d) (right : CamExclusive net d)
    (mirrored : Mirrored net d) : CamExclusive net (releaseMacid net d psta) := by
  have live : (releaseMacid net d psta).live = d.live := releaseMacid_live
  have macId : (releaseMacid net d psta).macId = _ := releaseMacid_macId
  have after : reservedSlots net (releaseMacid net d psta) psta = ∅ :=
    reservedSlots_of_not_holds fun holds => (holds.before macId (.inl le_rfl)).1 rfl
  obtain ⟨nothing, _, cam, _⟩ | ⟨holds, _, cam, _⟩ :
      Released net d psta (releaseMacid net d psta) := releaseMacid_released
  · refine exclusive_of_no_slots right cam live macId ?_ after
    exact reservedSlots_of_not_holds (table.not_holds_of_idle nothing)
  · cases bc : net.isBcSta psta with
    | false =>
      rw [bc] at cam
      refine exclusive_of_no_slots right cam live macId ?_ after
      exact if_neg fun both => by simp [bc] at both
    | true =>
      rw [bc] at cam
      refine right.drop (· = .inr psta) (fun n => ?_) ?_ ?_
      · rw [cam, if_pos rfl, unreserveCam_used mirrored bc holds]
        simp [heldSlots]
      · rintro o rfl
        exact after
      · intro o other
        rw [heldSlots_update live macId, update_of_ne other]

theorem Mirrored.releaseMacid (single : OneBcSta net) (mirrored : Mirrored net d) :
    Mirrored net (releaseMacid net d psta) := by
  have live : (Key.releaseMacid net d psta).live = d.live := releaseMacid_live
  have before : ∀ a, Holds net (Key.releaseMacid net d psta) a → _ := fun _ holds =>
    holds.before releaseMacid_macId (.inl le_rfl)
  obtain ⟨_, _, cam, ifaceBmc⟩ | ⟨holds, _, cam, ifaceBmc⟩ :
      Released net d psta (Key.releaseMacid net d psta) := releaseMacid_released
  · refine mirrored.congr live (by rw [cam]) (cam ▸ mirrored.mapped) fun a bc held => ?_
    obtain ⟨-, same, held'⟩ := before a held
    rw [ifaceBmc, same]
    exact mirrored.group a bc held'
  · refine mirrored.congr live ?_ (fun n used => ?_) fun a bc held => ?_
    · rw [cam]
      split
      · simp only [unreserveCam, setIfaceBmc, unreserve]
        split <;> rfl
      · rfl
    · rw [cam] at used
      cases bc : net.isBcSta psta with
      | true =>
        rw [bc, if_pos rfl, unreserveCam_used mirrored bc holds] at used
        exact mirrored.mapped n used.1
      | false =>
        rw [bc] at used
        exact mirrored.mapped n used
    · obtain ⟨other, same, held'⟩ := before a held
      rw [ifaceBmc _ (single.elsewhere bc other), same]
      exact mirrored.group a bc held'

end Reserve

/-! ## Every run -/

section Runs

variable [DecidableEq Sta] [DecidableEq Iface] [Fintype Iface] {e : DvEvent Sta}

theorem step_exclusive_iff (table : MacidTable net d) (mirrored : Mirrored net d)
    (ok : Addressed net d e) (right : CamExclusive net d) :
    CamExclusive net (step net d e) ↔ ¬ Overlaps net d e := by
  obtain ⟨allocates, known⟩ := ok
  cases e with
  | setStakey sppMode algorithm key =>
    simp only [step, Overlaps]
    split
    next clear =>
      rw [setStakeyHdl, if_pos clear]
      exact iff_of_true (forgetKeys_exclusive right mirrored known) fun overlaps =>
        overlaps.1 clear
    next keyed =>
      rw [setStakeyHdl_eq keyed, installKey_exclusive_iff right mirrored known]
      simp [keyed]
  | setkey sppMode assocSuccess algorithm bssid kid =>
    cases assocSuccess with
    | false => exact iff_of_true right fun overlaps => Bool.noConfusion overlaps.1
    | true =>
      rw [step, setkeyHdl_eq, installKey_exclusive_iff right mirrored known]
      simp [Overlaps]
  | clearstakey addr => exact iff_of_true (forgetKeys_exclusive right mirrored known) id
  | allocMacid psta staMode => exact allocMacid_exclusive_iff table right mirrored allocates
  | releaseMacid psta => exact iff_of_true (releaseMacid_exclusive table right mirrored) id

theorem step_mirrored (single : OneBcSta net) (mirrored : Mirrored net d)
    (ok : Addressed net d e) (right : CamExclusive net d)
    (after : CamExclusive net (step net d e)) :
    Mirrored net (step net d e) := by
  obtain ⟨-, known⟩ := ok
  cases e with
  | setStakey sppMode algorithm key =>
    simp only [step] at after ⊢
    split at after
    next clear =>
      rw [if_pos clear, setStakeyHdl, if_pos clear]
      exact forgetKeys_mirrored right mirrored known
    next keyed =>
      rw [setStakeyHdl_eq keyed] at after
      rw [if_neg keyed, setStakeyHdl_eq keyed]
      exact mirrored.installKey right known after
  | setkey sppMode assocSuccess algorithm bssid kid =>
    cases assocSuccess with
    | false => exact mirrored.congr rfl rfl mirrored.mapped mirrored.group
    | true =>
      rw [step, setkeyHdl_eq] at after ⊢
      exact mirrored.installKey right known after
  | clearstakey addr => exact forgetKeys_mirrored right mirrored known
  | allocMacid psta staMode => exact mirrored.allocMacid single
  | releaseMacid psta => exact mirrored.releaseMacid single

/-- In a run in which every key is for a station with an address, the map of used entries is right
in every state exactly if no key is set again with another width where it cannot be, and no
broadcast station takes an entry whose next one is used. -/
theorem cam_slots_exclusive_iff (single : OneBcSta net) (events : List (DvEvent Sta))
    (addressed : Run.Allows (step net) (Addressed net) (initial net) events) :
    Run.Always (step net) (CamExclusive net) (initial net) events ↔
      Run.Allows (step net) (fun d e => ¬ Overlaps net d e) (initial net) events :=
  Run.always_iff_allows (fun d => MacidTable net d ∧ Mirrored net d) addressed
    ⟨MacidTable.initial, Mirrored.initial⟩
    (fun _ _ known ok right after =>
      ⟨known.1.step ok.1, step_mirrored single known.2 ok right after⟩)
    (fun _ _ known ok right => step_exclusive_iff known.1 known.2 ok right)
    CamExclusive.initial

end Runs

theorem twoIfaces_single : OneBcSta twoIfaces := by
  unfold OneBcSta
  decide

def pairwiseKey (octet : UInt8) : KeyName :=
  { addr := Vector.replicate 6 octet, kid := ⟨0, Nat.zero_lt_succ (nat_lit 3)⟩, gk := false }

def narrowedRun : List (DvEvent (Fin 3)) :=
  [.setStakey false .gcmp256 (pairwiseKey 2), .clearstakey (Vector.replicate 6 2),
    .setStakey false .aes (pairwiseKey 2)]

theorem cam_slots_exclusive_narrowed :
    Run.Always (step twoIfaces) (CamExclusive twoIfaces) (initial twoIfaces) narrowedRun := by
  refine (cam_slots_exclusive_iff twoIfaces_single narrowedRun ?_).mpr ⟨?_, id, ?_, trivial⟩
  · exact ⟨⟨trivial, by decide⟩, ⟨trivial, by decide⟩, ⟨trivial, by decide⟩, trivial⟩
  · rintro ⟨-, i, live, -⟩
    cases live
  · rintro ⟨-, i, live, -⟩
    cases live

def reservedRun : List (DvEvent (Fin 3)) :=
  [.setStakey false .aes (pairwiseKey 2), .setStakey false .aes (pairwiseKey 4),
    .clearstakey (Vector.replicate 6 2), .allocMacid ⟨1, by decide⟩ false]

theorem bc_sta_reserves_used_entry :
    Run.Allows (step twoIfaces) (Addressed twoIfaces) (initial twoIfaces) reservedRun ∧
      ¬ CamExclusive twoIfaces (reservedRun.foldl (step twoIfaces) (initial twoIfaces)) := by
  constructor
  · refine ⟨⟨trivial, by decide⟩, ⟨trivial, by decide⟩, ⟨trivial, by decide⟩, ⟨?_, trivial⟩,
    trivial⟩
    unfold Allocates
    decide
  · intro right
    have same := right.unique 1 (.inl (pairwiseKey 4)) (.inr 1) (by decide) (by decide)
    cases same

end Rtl88x2bu.Key
