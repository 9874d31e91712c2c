import Rtl88x2bu.Sta.StaPriv

/-!
# Association ids

`rtw_aid_alloc` counts the ids in use only up to the first free one, so that a start that moves on
finds a free id before it has seen `max_num_sta` used ones.
-/

namespace Rtl88x2bu.Sta

open List Function

variable {numSta : ℕ} {cfg : StaCfg} {st : StaPriv numSta}

/-! ## What the search finds -/

/-- The rounds that the search may come to. -/
def Searched (cfg : StaCfg) (i : ℕ) : Prop :=
  i < cfg.maxAid ∧ i < cfg.maxNumSta

/-- The test behind the loop. -/
def checkLimits (cfg : StaCfg) : ℕ × ℕ × ℕ → ℕ
  | (i, usedCnt, aid) => if i ≥ cfg.maxAid ∨ usedCnt ≥ cfg.maxNumSta then 0 else aid

/-- The loop stops at the first free id. Up to there every round has found a used one, so that the
number of used ids is that of the rounds. -/
theorem checkLimits_aidLoop {left i aid : ℕ} (rounds : left + i = cfg.maxAid)
    (limit : i < cfg.maxNumSta ∨ i = 0) (seen : ∀ j < i, st.staAid (aidAt cfg st j) ≠ none) :
    (checkLimits cfg (aidLoop cfg st left i i aid) = 0 ∧
      ∀ j, Searched cfg j → st.staAid (aidAt cfg st j) ≠ none) ∨
    ∃ j, Searched cfg j ∧ st.staAid (aidAt cfg st j) = none ∧
      checkLimits cfg (aidLoop cfg st left i i aid) = aidAt cfg st j := by
  induction left generalizing i aid with
  | zero =>
    refine .inl ⟨if_pos (.inl (by omega)), fun j searched => seen j ?_⟩
    have small := searched.1
    omega
  | succ left ih =>
    rw [aidLoop]
    split
    next free =>
      by_cases inLimit : i < cfg.maxNumSta
      · refine .inr ⟨i, ⟨by omega, inLimit⟩, free, if_neg ?_⟩
        omega
      · -- only without a single permitted station
        refine .inl ⟨if_pos (.inr (by omega)), fun j searched => ?_⟩
        have small := searched.2
        omega
    next used =>
      have seen' : ∀ j < i + 1, st.staAid (aidAt cfg st j) ≠ none := by
        intro j before
        rcases Nat.lt_succ_iff_lt_or_eq.mp before with earlier | rfl
        · exact seen j earlier
        · exact used
      split
      next full =>
        refine .inl ⟨if_pos (.inr full), fun j searched => seen' j ?_⟩
        have small := searched.2
        omega
      next more => exact ih (by omega) (.inl (by omega)) seen'

variable (cfg st) in
theorem aidResult_cases :
    (aidResult cfg st = 0 ∧ ∀ j, Searched cfg j → st.staAid (aidAt cfg st j) ≠ none) ∨
    ∃ j, Searched cfg j ∧ st.staAid (aidAt cfg st j) = none ∧
      aidResult cfg st = aidAt cfg st j :=
  checkLimits_aidLoop (Nat.add_zero _) (.inr rfl) fun _ before => absurd before (Nat.not_lt_zero _)

theorem aidAt_mem (j : ℕ) (some_aid : 0 < cfg.maxAid) :
    0 < aidAt cfg st j ∧ aidAt cfg st j ≤ cfg.maxAid := by
  have small := Nat.mod_lt (j + st.startedAid - 1) some_aid
  unfold aidAt
  omega

theorem aidResult_eq_zero_iff :
    aidResult cfg st = 0 ↔ ∀ j, Searched cfg j → st.staAid (aidAt cfg st j) ≠ none := by
  rcases aidResult_cases cfg st with ⟨none_left, all⟩ | ⟨j, searched, free, found⟩
  · exact iff_of_true none_left all
  · refine iff_of_false ?_ fun all => all j searched free
    have positive : 0 < aidAt cfg st j := (aidAt_mem j (Nat.zero_lt_of_lt searched.1)).1
    omega

theorem aidAt_injOn (started : 0 < st.startedAid) :
    Set.InjOn (aidAt cfg st) {j | j < cfg.maxAid} := by
  intro i small j small' same
  have residue : (i + st.startedAid - 1) % cfg.maxAid = (j + st.startedAid - 1) % cfg.maxAid :=
    Nat.succ_injective same
  have shifted : ∀ k, k + st.startedAid - 1 = k + (st.startedAid - 1) := fun k => by omega
  rw [shifted, shifted] at residue
  have congruent : i ≡ j [MOD cfg.maxAid] := Nat.ModEq.add_right_cancel' _ residue
  rwa [Nat.ModEq, Nat.mod_eq_of_lt small, Nat.mod_eq_of_lt small'] at congruent

theorem aidAt_surj (started : 0 < st.startedAid) {a : ℕ} (a_pos : 0 < a) (a_le : a ≤ cfg.maxAid) :
    ∃ j < cfg.maxAid, aidAt cfg st j = a := by
  have image : (Finset.range cfg.maxAid).image (aidAt cfg st) = Finset.Icc 1 cfg.maxAid := by
    refine Finset.eq_of_subset_of_card_le ?_ ?_
    · intro b mem
      obtain ⟨j, -, rfl⟩ := Finset.mem_image.mp mem
      exact Finset.mem_Icc.mpr (aidAt_mem j (by omega))
    · rw [Finset.card_image_of_injOn (by simpa [Set.InjOn] using aidAt_injOn started)]
      simp
  have mem : a ∈ (Finset.range cfg.maxAid).image (aidAt cfg st) := by
    rw [image]
    exact Finset.mem_Icc.mpr ⟨a_pos, a_le⟩
  obtain ⟨j, small, rfl⟩ := Finset.mem_image.mp mem
  exact ⟨j, Finset.mem_range.mp small, rfl⟩

theorem aidAlloc_refused {sta : Fin numSta} (unassociated : st.aid sta = 0)
    (refused : aidResult cfg st = 0) : aidAlloc cfg st sta = st := by
  have kept : Function.update st.aid sta 0 = st.aid := by
    rw [← unassociated, update_eq_self]
  simp [aidAlloc, refused, kept]

/-! ## The table of ids -/

/-- The table names for every id the allocated station that has it. -/
structure AidTable (cfg : StaCfg) (st : StaPriv numSta) : Prop where
  started : 0 < st.startedAid ∧ st.startedAid ≤ cfg.maxAid
  holder : ∀ a s, st.staAid a = some s ↔ Live st s ∧ st.aid s = a ∧ 0 < a
  bound : ∀ s, Live st s → st.aid s ≤ cfg.maxAid
  free_nodup : st.freeStaQueue.Nodup

namespace AidTable

variable {psta s s' : Fin numSta}

theorem initial {startedAid : ℕ} (started : 0 < startedAid ∧ startedAid ≤ cfg.maxAid) :
    AidTable cfg (initial numSta startedAid) where
  started := started
  holder := fun a s => by simp [Sta.initial, Live]
  bound := fun s live => absurd (mem_finRange s) live
  free_nodup := nodup_finRange numSta

section
variable (table : AidTable cfg st)
include table

theorem staAid_aid (live : Live st s) (associated : 0 < st.aid s) :
    st.staAid (st.aid s) = some s :=
  (table.holder _ s).mpr ⟨live, rfl, associated⟩

/-- Two stations have different ids. -/
theorem aid_inj (live : Live st s) (live' : Live st s') (associated : st.aid s ≠ 0)
    (same : st.aid s = st.aid s') : s = s' := by
  have named := table.staAid_aid live (Nat.pos_of_ne_zero associated)
  have named' := table.staAid_aid live' (Nat.pos_of_ne_zero (same ▸ associated))
  rw [same, named'] at named
  exact (Option.some.inj named).symm

theorem alloc (hwaddr : Rx.MacAddr) : AidTable cfg (allocStainfo st hwaddr).2 := by
  obtain ⟨started, holder, bound, free_nodup⟩ := table
  unfold allocStainfo
  split
  · exact ⟨started, holder, bound, free_nodup⟩
  next psta rest first =>
    have nodup : (psta :: rest).Nodup := first ▸ free_nodup
    have dead : ¬ Live st psta := by simp [Live, first]
    have fresh : AidTable cfg (initStainfo { st with freeStaQueue := rest } psta) := by
      have others : ∀ s, s ≠ psta → (s ∉ rest ↔ Live st s) := fun s other => by
        simp [Live, first, other]
      constructor
      · exact started
      · intro a s
        simp only [initStainfo, Live]
        rw [holder]
        by_cases same : s = psta
        · subst same
          simp only [dead, update_self, false_and, false_iff]
          omega
        · rw [update_of_ne same, others s same]
      · intro s live
        simp only [initStainfo, Live] at live ⊢
        by_cases same : s = psta
        · simp [same]
        · rw [update_of_ne same]
          exact bound s ((others s same).mp live)
      · exact (nodup_cons.mp nodup).2
    simp only []
    obtain ⟨started, holder, bound, free_nodup⟩ := fresh
    split <;> exact ⟨started, holder, bound, free_nodup⟩

/-- The id that the search finds was free, so that no other station has it. -/
theorem aidAlloc (live : Live st s) (unassociated : st.aid s = 0) :
    AidTable cfg (aidAlloc cfg st s) := by
  rcases aidResult_cases cfg st with ⟨none_left, -⟩ | ⟨j, searched, free, found⟩
  · rwa [aidAlloc_refused unassociated none_left]
  · obtain ⟨started, holder, bound, free_nodup⟩ := table
    have some_aid : 0 < cfg.maxAid := Nat.zero_lt_of_lt searched.1
    obtain ⟨positive, small⟩ : 0 < aidAt cfg st j ∧ aidAt cfg st j ≤ cfg.maxAid :=
      aidAt_mem j some_aid
    rw [← found] at free positive small
    simp only [Sta.aidAlloc, if_pos positive.ne']
    refine ⟨?_, fun a t => ?_, fun t live' => ?_, free_nodup⟩
    · dsimp only
      split
      · have residue := Nat.mod_lt (aidResult cfg st) some_aid
        omega
      · exact started
    · have unheld := holder (aidResult cfg st) t
      rw [free] at unheld
      simp only [Live, update_apply] at live unheld ⊢
      by_cases here : a = aidResult cfg st <;> by_cases itself : t = s
      · simp [here, itself, live, positive]
      · simpa [here, itself, Ne.symm itself] using unheld.mpr
      · simp [here, itself, holder, unassociated, Ne.symm here]
        omega
      · simp [here, itself, holder, Live]
    · simp only [update_apply]
      split
      · exact small
      · exact bound t live'

section
variable (ap : cfg.hwStateAp = true)
include ap

theorem freeStainfo_aids (live : Live st psta) :
    (freeStainfo cfg st psta).aid = Function.update st.aid psta 0 ∧
    ∀ a, (freeStainfo cfg st psta).staAid a =
      if st.staAid a = some psta then none else st.staAid a := by
  by_cases associated : 0 < st.aid psta
  · have named := table.staAid_aid live associated
    have unique : ∀ a, st.staAid a = some psta ↔ a = st.aid psta := by
      intro a
      rw [table.holder]
      constructor
      · rintro ⟨-, same, -⟩
        exact same.symm
      · rintro rfl
        exact ⟨live, rfl, associated⟩
    simp only [freeStainfo, freeAid, ap, associated, named, and_self, if_true, true_and]
    intro a
    rw [update_apply]
    simp only [unique]
  · have none_held : st.aid psta = 0 := by omega
    have unnamed : ∀ a, st.staAid a ≠ some psta := by
      intro a named
      obtain ⟨-, same, positive⟩ := (table.holder a psta).mp named
      omega
    have kept : Function.update st.aid psta 0 = st.aid := by
      rw [← none_held, update_eq_self]
    simp [freeStainfo, freeAid, associated, unnamed, kept]

omit table ap in
theorem freeStainfo_freeStaQueue :
    (freeStainfo cfg st psta).freeStaQueue = st.freeStaQueue ++ [psta] := by
  simp only [freeStainfo, freeAid]
  split <;> rfl

omit table ap in
theorem freeStainfo_startedAid : (freeStainfo cfg st psta).startedAid = st.startedAid := by
  simp only [freeStainfo, freeAid]
  split <;> rfl

theorem free (live : Live st psta) : AidTable cfg (freeStainfo cfg st psta) := by
  obtain ⟨aid, staAid⟩ := table.freeStainfo_aids ap live
  have alive : ∀ s, Live (freeStainfo cfg st psta) s ↔ Live st s ∧ s ≠ psta := by
    intro s
    simp [Live, freeStainfo_freeStaQueue]
  constructor
  · rw [freeStainfo_startedAid]
    exact table.started
  · intro a s
    rw [staAid, alive, aid]
    by_cases same : s = psta
    · subst same
      simp
    · rw [update_of_ne same]
      split
      next named =>
        have other : st.staAid a ≠ some s := by
          rw [named]
          simpa using Ne.symm same
        rw [Ne, table.holder] at other
        simp only [reduceCtorEq, false_iff]
        exact fun held => other ⟨held.1.1, held.2⟩
      · rw [table.holder]
        simp [same]
  · intro s live'
    obtain ⟨live', other⟩ := (alive s).mp live'
    rw [aid, update_of_ne other]
    exact table.bound s live'
  · rw [freeStainfo_freeStaQueue]
    exact table.free_nodup.append (nodup_singleton psta) (by simpa [Live] using live)

theorem step {e : StaEvent numSta} (ok : Owned st e) : AidTable cfg (step cfg st e) := by
  cases e with
  | alloc hwaddr => exact table.alloc hwaddr
  | aidAlloc sta => exact table.aidAlloc ok.1 ok.2
  | free psta => exact table.free ap ok

end

end

end AidTable

/-- The ids in use. -/
def usedAids (cfg : StaCfg) (st : StaPriv numSta) : Finset ℕ :=
  (Finset.Icc 1 cfg.maxAid).filter fun a => st.staAid a ≠ none

theorem usedAids_of_aidResult_eq_zero (table : AidTable cfg st) (full : aidResult cfg st = 0) :
    (∀ a, 0 < a → a ≤ cfg.maxAid → st.staAid a ≠ none) ∨
      cfg.maxNumSta ≤ (usedAids cfg st).card := by
  have used := aidResult_eq_zero_iff.mp full
  rcases Nat.le_total cfg.maxAid cfg.maxNumSta with all | fewer
  · refine .inl fun a positive small => ?_
    obtain ⟨j, here, rfl⟩ := aidAt_surj table.started.1 positive small
    exact used j ⟨here, lt_of_lt_of_le here all⟩
  · refine .inr ?_
    have inj : Set.InjOn (aidAt cfg st) (Finset.range cfg.maxNumSta) := by
      refine (aidAt_injOn table.started.1).mono fun j small => ?_
      exact lt_of_lt_of_le (Finset.mem_range.mp small) fewer
    calc cfg.maxNumSta = ((Finset.range cfg.maxNumSta).image (aidAt cfg st)).card := by
          rw [Finset.card_image_of_injOn inj, Finset.card_range]
      _ ≤ (usedAids cfg st).card := by
          refine Finset.card_le_card fun a mem => ?_
          obtain ⟨j, small, rfl⟩ := Finset.mem_image.mp mem
          have searched : Searched cfg j :=
            ⟨lt_of_lt_of_le (Finset.mem_range.mp small) fewer, Finset.mem_range.mp small⟩
          have within : 0 < aidAt cfg st j ∧ aidAt cfg st j ≤ cfg.maxAid :=
            aidAt_mem j (Nat.zero_lt_of_lt searched.1)
          exact Finset.mem_filter.mpr ⟨Finset.mem_Icc.mpr within, used j searched⟩

/-! ## Every run of an access point -/

/-- In every run the table names the allocated station that has an id, allocated stations have
different ids, and an id is refused only if all are in use or as many as stations are permitted. -/
theorem aid_table_consistent {startedAid : ℕ} (ap : cfg.hwStateAp = true)
    (started : 0 < startedAid ∧ startedAid ≤ cfg.maxAid)
    (reached : Run.Reachable (step cfg) Owned (initial numSta startedAid) st) :
    (∀ a s, 0 < a → a ≤ cfg.maxAid → (st.staAid a = some s ↔ Live st s ∧ st.aid s = a)) ∧
    (∀ s s', Live st s → Live st s' → st.aid s ≠ 0 → st.aid s = st.aid s' → s = s') ∧
    (∀ s, Live st s → st.aid s ≤ cfg.maxAid) ∧
    (aidResult cfg st = 0 → (∀ a, 0 < a → a ≤ cfg.maxAid → st.staAid a ≠ none) ∨
      cfg.maxNumSta ≤ (usedAids cfg st).card) := by
  have table : AidTable cfg st :=
    reached.invariant (AidTable.initial started) fun _ _ table ok => table.step ap ok
  refine ⟨fun a s positive _ => ?_, fun _ _ => table.aid_inj, table.bound,
    usedAids_of_aidResult_eq_zero table⟩
  rw [table.holder]
  simp [positive]

theorem smallRun_owned : Run.Allows (step smallCfg) Owned (initial 4 1) smallRun := by
  refine ⟨trivial, trivial, ?_, trivial, ?_, ?_, trivial⟩
  all_goals
    simp only [Owned, Live]
    decide

theorem aid_table_consistent_small :
    ((smallRun.foldl (step smallCfg) (initial 4 1)).staAid 2 = some 2 ↔
      Live (smallRun.foldl (step smallCfg) (initial 4 1)) 2 ∧
        (smallRun.foldl (step smallCfg) (initial 4 1)).aid 2 = 2) ∧
    (smallRun.foldl (step smallCfg) (initial 4 1)).aid 2 = 2 :=
  ⟨(aid_table_consistent rfl (by decide) (Run.Reachable.start.append smallRun_owned)).1 2 2
    (by decide) (by decide), by decide⟩

/-! ## The limit on associated stations -/

/-- The stations with an id. -/
def associated (st : StaPriv numSta) : Finset (Fin numSta) :=
  Finset.univ.filter fun s => s ∉ st.freeStaQueue ∧ st.aid s ≠ 0

theorem mem_associated {s : Fin numSta} : s ∈ associated st ↔ Live st s ∧ st.aid s ≠ 0 := by
  simp [associated, Live]

/-- As many stations are associated as permitted, and an id that the search looks at is free. -/
def Exceeds (cfg : StaCfg) (st : StaPriv numSta) : StaEvent numSta → Prop
  | .aidAlloc _ => (associated st).card = cfg.maxNumSta ∧
      ∃ j, Searched cfg j ∧ st.staAid (aidAt cfg st j) = none
  | .alloc _ | .free _ => False

theorem associated_alloc (hwaddr : Rx.MacAddr) :
    associated (allocStainfo st hwaddr).2 ⊆ associated st := by
  intro s
  unfold allocStainfo
  split
  · exact id
  next psta rest first =>
    simp only [mem_associated, Live, initStainfo]
    by_cases same : s = psta
    · subst same
      split <;> simp
    · split <;> simp [same, first]

theorem associated_free (table : AidTable cfg st) (ap : cfg.hwStateAp = true) {psta : Fin numSta}
    (live : Live st psta) : associated (freeStainfo cfg st psta) ⊆ associated st := by
  intro s
  obtain ⟨aid, -⟩ := table.freeStainfo_aids ap live
  simp only [mem_associated, Live, aid, AidTable.freeStainfo_freeStaQueue]
  by_cases same : s = psta <;> simp [same]

theorem associated_aidAlloc {sta : Fin numSta} (live : Live st sta) (given : aidResult cfg st ≠ 0) :
    associated (aidAlloc cfg st sta) = insert sta (associated st) := by
  ext s
  simp only [Finset.mem_insert, mem_associated, Live, aidAlloc, if_pos given]
  by_cases same : s = sta
  · subst same
    simpa [given, Live] using live
  · simp [same]

/-- One event keeps the limit unless it exceeds it. -/
theorem step_limit_iff (table : AidTable cfg st) (ap : cfg.hwStateAp = true) {e : StaEvent numSta}
    (ok : Owned st e) (within : (associated st).card ≤ cfg.maxNumSta) :
    (associated (step cfg st e)).card ≤ cfg.maxNumSta ↔ ¬ Exceeds cfg st e := by
  cases e with
  | alloc hwaddr =>
    exact iff_of_true ((Finset.card_le_card (associated_alloc hwaddr)).trans within) id
  | free psta =>
    exact iff_of_true ((Finset.card_le_card (associated_free table ap ok)).trans within) id
  | aidAlloc sta =>
    obtain ⟨live, unassociated⟩ := ok
    simp only [step, Exceeds]
    by_cases given : aidResult cfg st = 0
    · rw [aidAlloc_refused unassociated given]
      refine iff_of_true within ?_
      rintro ⟨-, j, searched, free⟩
      exact aidResult_eq_zero_iff.mp given j searched free
    · have free : ∃ j, Searched cfg j ∧ st.staAid (aidAt cfg st j) = none := by
        by_contra none_free
        push Not at none_free
        exact given (aidResult_eq_zero_iff.mpr none_free)
      have new : sta ∉ associated st := fun member =>
        (mem_associated.mp member).2 unassociated
      rw [associated_aidAlloc live given, Finset.card_insert_of_notMem new]
      simp only [free, and_true]
      omega

/-- Without the round-robin start every id in use is one that the search looks at. -/
structure Window (cfg : StaCfg) (st : StaPriv numSta) : Prop where
  table : AidTable cfg st
  searched : ∀ a, st.staAid a ≠ none → ∃ j, Searched cfg j ∧ aidAt cfg st j = a

namespace Window

theorem step (fixed : cfg.rrAid = false) (ap : cfg.hwStateAp = true) (window : Window cfg st)
    {e : StaEvent numSta} (ok : Owned st e) : Window cfg (step cfg st e) := by
  refine ⟨window.table.step ap ok, ?_⟩
  cases e with
  | alloc hwaddr =>
    have same : (allocStainfo st hwaddr).2.staAid = st.staAid ∧
        (allocStainfo st hwaddr).2.startedAid = st.startedAid := by
      unfold allocStainfo
      split
      · exact ⟨rfl, rfl⟩
      · simp only []; split <;> exact ⟨rfl, rfl⟩
    simp only [Sta.step, aidAt, same]
    exact window.searched
  | free psta =>
    obtain ⟨-, staAid⟩ := window.table.freeStainfo_aids ap ok
    intro a used
    simp only [Sta.step, aidAt, AidTable.freeStainfo_startedAid]
    refine window.searched a fun free => used ?_
    rw [Sta.step, staAid, free]
    simp
  | aidAlloc sta =>
    rcases aidResult_cases cfg st with ⟨refused, -⟩ | ⟨j, searched, -, found⟩
    · rw [Sta.step, aidAlloc_refused ok.2 refused]
      exact window.searched
    · have given : aidResult cfg st ≠ 0 := by
        rw [found]
        exact Nat.ne_of_gt (aidAt_mem j (Nat.zero_lt_of_lt searched.1)).1
      have started : (Sta.aidAlloc cfg st sta).startedAid = st.startedAid := by
        simp [Sta.aidAlloc, given, fixed]
      intro a used
      simp only [Sta.step, aidAt, started]
      by_cases here : a = aidResult cfg st
      · exact ⟨j, searched, (here.trans found).symm⟩
      · refine window.searched a ?_
        simpa [Sta.step, Sta.aidAlloc, given, here] using used

theorem card_le (window : Window cfg st) : (associated st).card ≤ cfg.maxNumSta := by
  have image : (associated st).image st.aid ⊆
      (Finset.range cfg.maxNumSta).image (aidAt cfg st) := by
    intro a mem
    obtain ⟨s, member, rfl⟩ := Finset.mem_image.mp mem
    obtain ⟨live, associated⟩ := mem_associated.mp member
    have named := window.table.staAid_aid live (Nat.pos_of_ne_zero associated)
    obtain ⟨j, searched, same⟩ := window.searched (st.aid s) (by simp [named])
    exact Finset.mem_image.mpr ⟨j, Finset.mem_range.mpr searched.2, same⟩
  have inj : Set.InjOn st.aid (associated st) := by
    intro s member s' member' same
    obtain ⟨live, associated⟩ := mem_associated.mp member
    exact window.table.aid_inj live (mem_associated.mp member').1 associated same
  calc (associated st).card = ((associated st).image st.aid).card :=
        (Finset.card_image_of_injOn inj).symm
    _ ≤ ((Finset.range cfg.maxNumSta).image (aidAt cfg st)).card := Finset.card_le_card image
    _ ≤ cfg.maxNumSta := Finset.card_image_le.trans (Finset.card_range _).le

end Window

/-- The limit on associated stations is kept in a run exactly if no id is asked for at the limit
while one of the ids that the search looks at is free, which the round-robin start permits and a
fixed start does not. -/
theorem assoc_limit_iff {startedAid : ℕ} (ap : cfg.hwStateAp = true)
    (started : 0 < startedAid ∧ startedAid ≤ cfg.maxAid) (events : List (StaEvent numSta))
    (owned : Run.Allows (step cfg) Owned (initial numSta startedAid) events) :
    (Run.Always (step cfg) (fun st => (associated st).card ≤ cfg.maxNumSta)
        (initial numSta startedAid) events ↔
      Run.Allows (step cfg) (fun st e => ¬ Exceeds cfg st e) (initial numSta startedAid)
        events) ∧
    (cfg.rrAid = false →
      Run.Always (step cfg) (fun st => (associated st).card ≤ cfg.maxNumSta)
        (initial numSta startedAid) events) := by
  have none_yet : associated (initial numSta startedAid) = ∅ := by
    simp [associated, initial]
  have exactly := Run.always_iff_allows (AidTable cfg) owned (AidTable.initial started)
    (fun _ _ table ok _ _ => table.step ap ok)
    (fun _ _ table ok within => step_limit_iff table ap ok within) (by simp [none_yet])
  refine ⟨exactly, fun fixed => ?_⟩
  have start : Window cfg (initial numSta startedAid) :=
    ⟨AidTable.initial started, fun a used => absurd rfl used⟩
  exact Run.always_of_invariant owned start (fun _ _ window ok => window.step fixed ap ok)
    fun _ window => window.card_le

theorem assoc_limit_small :
    Run.Always (step smallCfg) (fun st => (associated st).card ≤ 2) (initial 4 1) smallRun :=
  (assoc_limit_iff rfl (by decide) smallRun smallRun_owned).2 rfl

def rrCfg : StaCfg := { maxAid := 2, maxNumSta := 1, rrAid := true, hwStateAp := true }

def rrRun : List (StaEvent 2) :=
  [.alloc (addrOf 2), .aidAlloc ⟨0, by decide⟩, .alloc (addrOf 4), .aidAlloc ⟨1, by decide⟩]

theorem rr_aid_exceeds_limit :
    Run.Allows (step rrCfg) Owned (initial 2 1) rrRun ∧
      (associated (rrRun.foldl (step rrCfg) (initial 2 1))).card = 2 := by
  refine ⟨⟨trivial, ?_, trivial, ?_, trivial⟩, by decide⟩
  all_goals
    simp only [Owned, Live]
    decide

end Rtl88x2bu.Sta
