import Rtl88x2bu.Tx.ReleaseMoves

/-!
# Stopping a station

`stop_sta_xmit` moves every frame that waits for a station to its sleep queue: none is passed by,
because the station's own bit has just been set.
-/

namespace Rtl88x2bu.Tx

open List Function Option
open Rx (MacAddr isMcast staAddr bcAddr)

section
variable {cfg : ApConfig} {allowed : MacAddr → StaMove → Prop} {s s' : TxState} {addr : MacAddr}
  {psta : StaInfo}

/-! ## Bits that are only set -/

/-- Bits are only set, and those of the group if a frame is buffered for it. -/
structure TxState.Grows (s s' : TxState) : Prop where
  aids : s'.staAid = s.staAid
  tim : s.timBitmap ⊆ s'.timBitmap
  dz : s.staDzBitmap ⊆ s'.staDzBitmap
  announced : s'.sleepQ bcAddr ≠ s.sleepQ bcAddr → 0 ∈ s'.timBitmap ∧ 0 ∈ s'.staDzBitmap

theorem TxState.Grows.refl (s : TxState) : s.Grows s :=
  ⟨rfl, Finset.Subset.refl _, Finset.Subset.refl _, fun changed => absurd rfl changed⟩

theorem TxState.Grows.trans {s'' : TxState} (first : s.Grows s') (second : s'.Grows s'') :
    s.Grows s'' := by
  refine ⟨second.aids.trans first.aids, first.tim.trans second.tim, first.dz.trans second.dz, ?_⟩
  intro changed
  by_cases later : s''.sleepQ bcAddr = s'.sleepQ bcAddr
  · obtain ⟨tim, dz⟩ := first.announced (later ▸ changed)
    exact ⟨second.tim tim, second.dz dz⟩
  · exact second.announced later

/-- Every frame for this station is diverted. -/
def TxState.Ready (cfg : ApConfig) (addr : MacAddr) (s : TxState) : Prop :=
  ∀ psta, s.stations addr = some psta → s.Diverts cfg addr psta

theorem TxState.Diverts.mono {psta' : StaInfo} (ready : s.Diverts cfg addr psta)
    (dz : s.staDzBitmap ⊆ s'.staDzBitmap) (sleep : psta'.sleep = psta.sleep)
    (aid : psta'.aid = psta.aid) : s'.Diverts cfg addr psta' := by
  rw [TxState.Diverts] at ready ⊢
  split
  next broadcast =>
    rw [if_pos broadcast] at ready
    intro none
    rw [none] at dz
    exact ready (Finset.subset_empty.mp dz)
  next unicast =>
    rw [if_neg unicast] at ready
    exact ⟨sleep.trans ready.1, aid ▸ rtwTimMapIsSet_mono dz ready.2⟩

theorem StaStep.calm {label : StaMove} {psta' : StaInfo} (step : StaStep cfg addr label psta psta')
    (calm : label = .mgmt ∨ ∃ clean, label = .park clean) :
    psta'.sleep = psta.sleep ∧ psta'.aid = psta.aid := by
  rcases calm with rfl | ⟨clean, rfl⟩
  · obtain ⟨servq, queue, len, rfl⟩ := step.of_mgmt
    exact ⟨rfl, rfl⟩
  · generalize kind : StaMove.park clean = label at step
    cases step with
    | park => exact ⟨rfl, rfl⟩
    | release kept rest f counted mdata eosp buffered passed same =>
      rw [same] at kind
      split at kind <;> cases kind
    | _ => cases kind

theorem TxState.Ready.moves (ready : s.Ready cfg addr) (moves : s.Moves cfg allowed s')
    (calm : ∀ label, allowed addr label → label = .mgmt ∨ ∃ clean, label = .park clean)
    (dz : s.staDzBitmap ⊆ s'.staDzBitmap) : s'.Ready cfg addr := by
  intro psta' found'
  have same := moves.map_eq (fun psta => (psta.sleep, psta.aid)) fun label psta psta' ok step =>
    Prod.ext (step.calm (calm label ok)).1 (step.calm (calm label ok)).2
  rw [found', map_some] at same
  obtain ⟨psta, found, view⟩ := map_eq_some_iff.mp same.symm
  obtain ⟨sleep, aid⟩ := Prod.mk.inj view
  exact (ready psta found).mono dz sleep.symm aid.symm

/-! ## One category -/

theorem StaInfo.parkAll_nil (psta : StaInfo) (addr : MacAddr) (q : HwQueue) :
    psta.parkAll addr q [] = psta.setServq q { psta.txservq q with staPending := [] } := by
  have zero : UInt32.ofNat 0 = 0 := rfl
  simp [parkAll, setServq, zero]

/-- For the broadcast station too, with nothing to count. -/
theorem StaInfo.bufferAt_eq (psta : StaInfo) (addr : MacAddr) (f : XmitFrame) :
    psta.bufferAt addr f = { psta with
      sleepQ := psta.sleepQ ++ [f]
      sleepqLen := psta.sleepqLen + 1
      sleepqAcLen := psta.sleepqAcLen + UInt32.ofNat
        (if addr = bcAddr then 0 else [f].countP fun f => psta.deliveryEnabled f.ac) } := by
  have zero : psta.sleepqAcLen + UInt32.ofNat 0 = psta.sleepqAcLen := UInt32.add_zero _
  rw [bufferAt]
  split
  · rw [zero]
    rfl
  · rw [countP_singleton, bufferUnicast]
    split
    · rfl
    · rw [zero]
      rfl

theorem StaInfo.parkAll_cons (psta : StaInfo) (addr : MacAddr) (q : HwQueue) (f : XmitFrame)
    (rest queue : List XmitFrame) :
    ((psta.bufferAt addr f.untrigger).setServq q ⟨queue, (psta.txservq q).qcnt - 1⟩).parkAll addr q
      rest = psta.parkAll addr q (f :: rest) := by
  have one : ∀ n : ℕ, UInt32.ofNat (n + 1) = 1 + UInt32.ofNat n := by
    intro n
    rw [Nat.add_comm, UInt32.ofNat_add]
    rfl
  have counts : ∀ p : XmitFrame → Bool, (if addr = bcAddr then 0 else [f.untrigger].countP p) +
      (if addr = bcAddr then 0 else rest.countP p) =
        if addr = bcAddr then 0 else ([f.untrigger] ++ rest).countP p := by
    intro p
    split
    · rfl
    · rw [countP_append]
  have left : (psta.txservq q).qcnt - 1 - rest.length =
      (psta.txservq q).qcnt - ↑(rest.length + 1) := by
    push_cast
    omega
  rw [bufferAt_eq]
  simp only [parkAll, setServq, deliveryEnabled, update_idem, update_self,
    append_assoc, singleton_append, length_cons, map_cons, UInt32.add_assoc,
    ← UInt32.ofNat_add, counts, one, left]
  rfl

theorem stations_divertTurn (cfg : ApConfig) (s : TxState) (addr : MacAddr) (psta : StaInfo)
    (q : HwQueue) (f : XmitFrame) (rest : List XmitFrame) :
    (((s.divert cfg addr psta f).setPending addr q rest).countBy addr q (-1)).stations =
      (s.modifySta addr fun psta => (psta.bufferAt addr f).setServq q
        ⟨rest, (psta.txservq q).qcnt - 1⟩).stations := by
  funext a
  simp only [TxState.countBy, TxState.setPending, TxState.modifyServq, TxState.modifySta,
    TxState.divert]
  by_cases here : a = addr
  · subst here
    cases s.stations a with
    | none => simp
    | some psta' =>
      simp [StaInfo.setServq, StaInfo.bufferAt_eq]
      rfl
  · simp [here]

theorem divert_grows (cfg : ApConfig) (s : TxState) (addr : MacAddr) (psta : StaInfo)
    (f : XmitFrame) :
    s.timBitmap ⊆ (s.divert cfg addr psta f).timBitmap ∧
      s.staDzBitmap ⊆ (s.divert cfg addr psta f).staDzBitmap ∧
      (addr = bcAddr → 0 ∈ (s.divert cfg addr psta f).timBitmap ∧
        0 ∈ (s.divert cfg addr psta f).staDzBitmap) := by
  simp only [TxState.divert]
  by_cases broadcast : addr = bcAddr
  · simp only [if_pos broadcast]
    refine ⟨subset_rtwTimMapSet _ _ _, subset_rtwTimMapSet _ _ _, fun _ => ?_⟩
    rw [rtwTimMapSet_eq (Nat.zero_le _), rtwTimMapSet_eq (Nat.zero_le _)]
    exact ⟨Finset.mem_insert_self _ _, Finset.mem_insert_self _ _⟩
  · simp only [if_neg broadcast]
    refine ⟨?_, Finset.Subset.refl _, fun same => absurd same broadcast⟩
    split
    · exact subset_rtwTimMapSet _ _ _
    · exact Finset.Subset.refl _

/-- The loop moves every frame, since the station diverts them all. -/
theorem divertLoop_parks {ac : Ac} {rest : List XmitFrame}
    (owned : ∀ f ∈ rest, f.OwnedBy addr ∧ f.ac = ac)
    (ready : rest ≠ [] → ∃ psta, s.stations addr = some psta ∧ psta.asoc = true ∧
      s.Diverts cfg addr psta) :
    ∃ tim dz, s.timBitmap ⊆ tim ∧ s.staDzBitmap ⊆ dz ∧
      (addr = bcAddr → rest ≠ [] → 0 ∈ tim ∧ 0 ∈ dz) ∧
      divertLoop (xmitframeEnqueueForSleepingSta cfg) (fun f => .ac f.ac) addr (.ac ac) s [] rest =
        { s.modifySta addr (·.parkAll addr (.ac ac) rest) with
          accnt := Function.update s.accnt (.ac ac) (s.accnt (.ac ac) - rest.length)
          timBitmap := tim
          staDzBitmap := dz } := by
  induction rest generalizing s with
  | nil =>
    refine ⟨s.timBitmap, s.staDzBitmap, Finset.Subset.refl _, Finset.Subset.refl _,
      fun _ some => absurd rfl some, ?_⟩
    simp only [StaInfo.parkAll_nil, length_nil, Nat.cast_zero, sub_zero,
      update_eq_self]
    rfl
  | cons f rest ih =>
    obtain ⟨psta, found, asoc, diverts⟩ := ready (cons_ne_nil f rest)
    obtain ⟨⟨own, same⟩, owned⟩ := forall_mem_cons.mp owned
    have own : f.untrigger.OwnedBy addr := own
    have parked : xmitframeEnqueueForSleepingSta cfg s f.untrigger = _ :=
      xmitframeEnqueueForSleepingSta_eq found own asoc rfl
    rw [if_pos diverts] at parked
    rw [divertLoop, parked, same]
    dsimp only
    have stations := stations_divertTurn cfg s addr psta (.ac ac) f.untrigger rest
    have grown := divert_grows cfg s addr psta f.untrigger
    set s₀ := s.divert cfg addr psta f.untrigger
    set s₁ := (s₀.setPending addr (.ac ac) rest).countBy addr (.ac ac) (-1)
    have found₁ : s₁.stations addr = some ((psta.bufferAt addr f.untrigger).setServq (.ac ac)
        ⟨rest, (psta.txservq (.ac ac)).qcnt - 1⟩) := by
      rw [stations, TxState.stations_modifySta, if_pos rfl, found, map_some]
    have asoc₁ : ((psta.bufferAt addr f.untrigger).setServq (.ac ac)
        ⟨rest, (psta.txservq (.ac ac)).qcnt - 1⟩).asoc = true := by
      rw [StaInfo.bufferAt_eq]
      exact asoc
    have diverts₁ : s₁.Diverts cfg addr ((psta.bufferAt addr f.untrigger).setServq (.ac ac)
        ⟨rest, (psta.txservq (.ac ac)).qcnt - 1⟩) := by
      rw [StaInfo.bufferAt_eq]
      exact diverts.mono grown.2.1 rfl rfl
    obtain ⟨tim, dz, timSub, dzSub, -, shape⟩ := ih owned fun _ => ⟨_, found₁, asoc₁, diverts₁⟩
    refine ⟨tim, dz, grown.1.trans timSub, grown.2.1.trans dzSub, fun broadcast _ => ?_, ?_⟩
    · obtain ⟨timBit, dzBit⟩ := grown.2.2 broadcast
      exact ⟨timSub timBit, dzSub dzBit⟩
    · refine shape.trans ?_
      have moved : (s₁.modifySta addr (·.parkAll addr (.ac ac) rest)).stations =
          (s.modifySta addr (·.parkAll addr (.ac ac) (f :: rest))).stations := by
        funext a
        rw [TxState.stations_modifySta, TxState.stations_modifySta, stations,
          TxState.stations_modifySta]
        split
        · rw [Option.map_map]
          congr 1
          funext psta
          exact psta.parkAll_cons addr (.ac ac) f rest rest
        · rfl
      have counted : Function.update s₁.accnt (.ac ac) (s₁.accnt (.ac ac) - rest.length) =
          Function.update s.accnt (.ac ac) (s.accnt (.ac ac) - ↑(f :: rest).length) := by
        have one : s₁.accnt = Function.update s.accnt (.ac ac) (s.accnt (.ac ac) + -1) := rfl
        rw [one, update_idem, update_self, length_cons]
        congr 1
        push_cast
        omega
      simp only [moved, counted]
      rfl

section

variable (sound : s.Sound cfg) (ready : s.Ready cfg addr)
include sound ready

theorem stopCategory_eq (ac : Ac) :
    ∃ tim dz, s.timBitmap ⊆ tim ∧ s.staDzBitmap ⊆ dz ∧
      (addr = bcAddr → s.pending addr (.ac ac) ≠ [] → 0 ∈ tim ∧ 0 ∈ dz) ∧
      stopCategory cfg addr s ac =
        { s.modifySta addr (·.parkAll addr (.ac ac) (s.pending addr (.ac ac))) with
          accnt := Function.update s.accnt (.ac ac)
            (s.accnt (.ac ac) - (s.pending addr (.ac ac)).length)
          staQueue := Function.update s.staQueue (.ac ac)
            ((s.staQueue (.ac ac)).filter (· ≠ addr))
          timBitmap := tim
          staDzBitmap := dz } := by
  have waiting : ∀ f ∈ s.pending addr (.ac ac), ∃ psta, s.stations addr = some psta ∧
      f ∈ (psta.txservq (.ac ac)).staPending := by
    intro f waits
    obtain ⟨psta, found⟩ := TxState.present_of_pending waits
    exact ⟨psta, found, TxState.pending_of_some found ▸ waits⟩
  have owned : ∀ f ∈ s.pending addr (.ac ac), f.OwnedBy addr ∧ f.ac = ac := by
    intro f waits
    obtain ⟨psta, found, waits⟩ := waiting f waits
    exact (sound addr psta found).pending ac f waits
  have kept : s.pending addr (.ac ac) ≠ [] → ∃ psta, s.stations addr = some psta ∧
      psta.asoc = true ∧ s.Diverts cfg addr psta := by
    intro some
    obtain ⟨f, waits⟩ := exists_mem_of_ne_nil _ some
    obtain ⟨psta, found, waits⟩ := waiting f waits
    exact ⟨psta, found, (sound addr psta found).asoc_of_pending waits, ready psta found⟩
  obtain ⟨tim, dz, timSub, dzSub, bits, shape⟩ := divertLoop_parks owned kept
  refine ⟨tim, dz, timSub, dzSub, bits, ?_⟩
  rw [stopCategory, shape]
  rfl

theorem stopCategory_sleepQ (ac : Ac) :
    (stopCategory cfg addr s ac).sleepQ addr =
      s.sleepQ addr ++ (s.pending addr (.ac ac)).map XmitFrame.untrigger := by
  obtain ⟨tim, dz, -, -, -, shape⟩ := stopCategory_eq sound ready ac
  rw [shape, TxState.sleepQ, TxState.stations_modifySta, if_pos rfl]
  cases found : s.stations addr with
  | none => rw [TxState.pending_of_none found, TxState.sleepQ, found]; rfl
  | some psta => rw [TxState.sleepQ_of_some found]; rfl

theorem stopCategory_moves (ac : Ac) (clean : Bool)
    (unmixed : clean = true → ∀ g ∈ s.sleepQ addr, g.ac ≠ ac)
    (park : allowed addr (.park clean)) : s.Moves cfg allowed (stopCategory cfg addr s ac) := by
  obtain ⟨tim, dz, -, -, -, shape⟩ := stopCategory_eq sound ready ac
  rw [shape]
  refine TxState.moves_modifySta fun psta found => ⟨.park clean, park, ?_⟩
  rw [TxState.sleepQ_of_some found] at unmixed
  rw [TxState.pending_of_some found]
  refine .park ac clean (fun unicast => ?_) unmixed
  have diverts := ready psta found
  rw [TxState.Diverts, if_neg unicast] at diverts
  exact diverts.1

theorem stopCategory_grows (ac : Ac) : s.Grows (stopCategory cfg addr s ac) := by
  have queue := stopCategory_sleepQ sound ready ac
  obtain ⟨tim, dz, timSub, dzSub, bits, shape⟩ := stopCategory_eq sound ready ac
  rw [shape] at queue ⊢
  refine ⟨rfl, timSub, dzSub, fun changed => ?_⟩
  by_cases broadcast : addr = bcAddr
  · subst broadcast
    refine bits rfl fun none => changed (queue.trans ?_)
    rw [none, map_nil, append_nil]
  · refine absurd ?_ changed
    rw [TxState.sleepQ, TxState.stations_modifySta, if_neg (Ne.symm broadcast)]
    rfl

/-! ## All categories -/

theorem stopCategory_ready (ac : Ac) {a : MacAddr} (ready' : s.Ready cfg a) :
    (stopCategory cfg addr s ac).Sound cfg ∧ (stopCategory cfg addr s ac).Ready cfg a := by
  have moves : s.Moves cfg (fun _ label => ∃ clean, label = .park clean)
      (stopCategory cfg addr s ac) :=
    stopCategory_moves sound ready ac false (nofun) ⟨false, rfl⟩
  exact ⟨sound.moves moves,
    ready'.moves moves (fun _ => .inr) (stopCategory_grows sound ready ac).dz⟩

/-- The invariant rule of the loop over the categories. -/
theorem stopCategories_invariant {motive : TxState → Prop} {cats : List Ac} (initial : motive s)
    (kept : ∀ s ac, s.Sound cfg → s.Ready cfg addr → motive s →
      motive (stopCategory cfg addr s ac)) :
    motive (cats.foldl (stopCategory cfg addr) s) := by
  induction cats generalizing s with
  | nil => exact initial
  | cons ac cats ih =>
    obtain ⟨sound₁, ready₁⟩ := stopCategory_ready sound ready ac ready
    exact ih sound₁ ready₁ (kept s ac sound ready initial)

end

theorem stopCategories_moves {cats : List Ac} (apart : cats.Nodup) (sound : s.Sound cfg)
    (ready : s.Ready cfg addr) (clean : Bool)
    (unmixed : clean = true → ∀ g ∈ s.sleepQ addr, g.ac ∉ cats)
    (park : allowed addr (.park clean)) :
    s.Moves cfg allowed (cats.foldl (stopCategory cfg addr) s) := by
  induction cats generalizing s with
  | nil => exact .refl _
  | cons ac cats ih =>
    obtain ⟨new, apart⟩ := nodup_cons.mp apart
    have moves : s.Moves cfg allowed (stopCategory cfg addr s ac) := by
      refine stopCategory_moves sound ready ac clean (fun cleanly g buffered same => ?_) park
      exact unmixed cleanly g buffered (same ▸ mem_cons_self)
    obtain ⟨sound₁, ready₁⟩ := stopCategory_ready sound ready ac ready
    refine moves.trans (ih apart sound₁ ready₁ fun cleanly g buffered => ?_)
    rw [stopCategory_sleepQ sound ready ac, List.mem_append, List.mem_map] at buffered
    rcases buffered with before | ⟨f, waits, rfl⟩
    · exact fun later => unmixed cleanly g before (List.mem_cons_of_mem ac later)
    · obtain ⟨psta, found⟩ := TxState.present_of_pending waits
      rw [TxState.pending_of_some found] at waits
      have category : f.untrigger.ac = ac := ((sound addr psta found).pending ac f waits).2
      rwa [category]

/-! ## The whole function -/

theorem TxState.MgmtOnly.grows (only : s.MgmtOnly cfg s') : s.Grows s' := by
  refine ⟨only.aids, only.tim, only.dz.ge, fun changed => absurd ?_ changed⟩
  exact only.moves.sleepQ_eq fun _ => id

/-- The first statements of `stop_sta_xmit`. -/
def TxState.doze (cfg : ApConfig) (s : TxState) (addr : MacAddr) (aid : ℕ) : TxState :=
  { s.modifySta addr fun psta => { psta with sleep := true } with
    staDzBitmap := rtwTimMapSet cfg s.staDzBitmap aid }

theorem doze_sleepQ (s : TxState) (addr : MacAddr) (aid : ℕ) (a : MacAddr) :
    (s.doze cfg addr aid).sleepQ a = s.sleepQ a := by
  rw [TxState.sleepQ, TxState.doze, TxState.stations_modifySta, TxState.sleepQ]
  split
  · rw [Option.map_map]
    rfl
  · rfl

theorem doze_sameQueues (s : TxState) (addr : MacAddr) (aid : ℕ) :
    s.SameQueues (s.doze cfg addr aid) := by
  have same : s.SameQueues (s.modifySta addr fun psta => { psta with sleep := true }) :=
    s.sameQueues_modifySta addr fun _ => rfl
  exact ⟨same.pending, same.qcnt, same.accnt, same.staQueue⟩

theorem doze_ready (sound : s.Sound cfg) (found : s.stations addr = some psta) :
    psta.aid ∈ (s.doze cfg addr psta.aid).staDzBitmap ∧
      (s.doze cfg addr psta.aid).Ready cfg addr ∧ (s.doze cfg addr psta.aid).Ready cfg bcAddr := by
  have aid := (sound addr psta found).aid_le
  have bit : psta.aid ∈ (s.doze cfg addr psta.aid).staDzBitmap := by
    rw [TxState.doze, rtwTimMapSet_eq aid]
    exact Finset.mem_insert_self _ _
  have group : (s.doze cfg addr psta.aid).staDzBitmap ≠ ∅ := Finset.ne_empty_of_mem bit
  refine ⟨bit, fun psta' found' => ?_, fun psta' _ => ?_⟩
  · rw [TxState.doze, TxState.stations_modifySta, if_pos rfl, found] at found'
    cases found'
    rw [TxState.Diverts]
    split
    · exact group
    · exact ⟨rfl, (rtwTimMapIsSet_iff aid).mpr bit⟩
  · rw [TxState.Diverts, if_pos rfl]
    exact group

theorem stopStaXmit_none (absent : s.stations addr = none) : stopStaXmit cfg s addr = s := by
  simp only [stopStaXmit, absent]

section

variable (sound : s.Sound cfg) (found : s.stations addr = some psta)
include sound found

theorem stopStaXmit_stages :
    ∃ s₁, s.Moves cfg (ownLabels addr) s₁ ∧ s.SameQueues s₁ ∧ s.Grows s₁ ∧
      s₁.sleepQ addr = s.sleepQ addr ∧ psta.aid ∈ s₁.staDzBitmap ∧
      s₁.Ready cfg addr ∧ s₁.Ready cfg bcAddr ∧
      stopStaXmit cfg s addr =
        (let s₂ := stopCategories cfg addr s₁
        if (s₂.stations bcAddr).isSome then stopCategories cfg bcAddr s₂ else s₂) := by
  obtain ⟨bit, ready, group⟩ := doze_ready sound found
  have only : (s.doze cfg addr psta.aid).MgmtOnly cfg
      (stopMgmt cfg addr (s.doze cfg addr psta.aid)) := stopMgmt_mgmtOnly _ addr
  have dozing : s.Moves cfg (ownLabels addr) (s.doze cfg addr psta.aid) :=
    TxState.moves_modifySta fun _ _ => ⟨.keep, .inr ⟨rfl, rfl⟩, .doze⟩
  have grows : s.Grows (s.doze cfg addr psta.aid) :=
    ⟨rfl, Finset.Subset.refl _, subset_rtwTimMapSet _ _ _,
      fun changed => absurd (doze_sleepQ s addr _ _) changed⟩
  refine ⟨stopMgmt cfg addr (s.doze cfg addr psta.aid),
    dozing.trans (only.moves.mono fun _ _ => .inl),
    (doze_sameQueues s addr _).trans only.sameQueues, grows.trans only.grows, ?_, only.dz ▸ bit,
    ready.moves only.moves (fun _ => .inl) only.dz.ge,
    group.moves only.moves (fun _ => .inl) only.dz.ge, ?_⟩
  · exact (only.moves.sleepQ_eq fun _ => id).trans (doze_sleepQ s addr _ _)
  · simp only [stopStaXmit, found]
    rfl

/-- The invariant rule of the function: what holds once the station dozes, and is kept by each
category of this station and of the broadcast station. -/
theorem stopStaXmit_invariant {motive : TxState → Prop}
    (initial : ∀ s₁, s.SameQueues s₁ → s.Grows s₁ → psta.aid ∈ s₁.staDzBitmap → motive s₁)
    (kept : ∀ s a ac, s.Sound cfg → s.Ready cfg a → motive s → motive (stopCategory cfg a s ac)) :
    motive (stopStaXmit cfg s addr) := by
  obtain ⟨s₁, moves, same, grows, -, bit, ready, group, shape⟩ := stopStaXmit_stages sound found
  have sound₁ := sound.moves moves
  rw [shape]
  have own : motive (stopCategories cfg addr s₁) ∧ (stopCategories cfg addr s₁).Sound cfg ∧
      (stopCategories cfg addr s₁).Ready cfg bcAddr :=
    stopCategories_invariant
      (motive := fun t => motive t ∧ t.Sound cfg ∧ t.Ready cfg bcAddr) sound₁ ready
      ⟨initial s₁ same grows bit, sound₁, group⟩ fun s ac sound ready ⟨holds, _, group⟩ =>
        ⟨kept s addr ac sound ready holds, stopCategory_ready sound ready ac group⟩
  dsimp only
  split
  · exact stopCategories_invariant own.2.1 own.2.2 own.1 fun s => kept s bcAddr
  · exact own.1

theorem stopStaXmit_bit : psta.aid ∈ (stopStaXmit cfg s addr).staDzBitmap :=
  stopStaXmit_invariant (motive := fun t => psta.aid ∈ t.staDzBitmap) sound found
    (fun _ _ _ => id) fun _ _ ac sound ready bit => (stopCategory_grows sound ready ac).dz bit

end

theorem stopStaXmit_grows (sound : s.Sound cfg) : s.Grows (stopStaXmit cfg s addr) := by
  cases found : s.stations addr with
  | none =>
    rw [stopStaXmit_none found]
    exact .refl s
  | some psta =>
    exact stopStaXmit_invariant sound found (fun _ _ grows _ => grows)
      fun _ _ ac sound ready grows => grows.trans (stopCategory_grows sound ready ac)

/-- The steps when a station is stopped; only its own queue can be known to be empty before. -/
def stopLabels (addr : MacAddr) (clean : Bool) (a : MacAddr) (label : StaMove) : Prop :=
  ownLabels addr a label ∨ (a = addr ∧ label = .park clean) ∨ (a = bcAddr ∧ label = .park false)

theorem stopStaXmit_moves (sound : s.Sound cfg) (clean : Bool)
    (empty : clean = true → s.sleepQ addr = []) :
    s.Moves cfg (stopLabels addr clean) (stopStaXmit cfg s addr) := by
  cases found : s.stations addr with
  | none =>
    rw [stopStaXmit_none found]
    exact .refl _
  | some psta =>
    obtain ⟨s₁, moves, -, -, queue, -, ready, group, shape⟩ := stopStaXmit_stages sound found
    have sound₁ := sound.moves moves
    have own : s₁.Moves cfg (stopLabels addr clean) (stopCategories cfg addr s₁) := by
      refine stopCategories_moves (by decide) sound₁ ready clean (fun cleanly g buffered => ?_)
        (.inr (.inl ⟨rfl, rfl⟩))
      rw [queue, empty cleanly] at buffered
      cases buffered
    have group₂ : (stopCategories cfg addr s₁).Ready cfg bcAddr :=
      (stopCategories_invariant (motive := fun t => t.Sound cfg ∧ t.Ready cfg bcAddr) sound₁ ready
        ⟨sound₁, group⟩ fun s ac sound ready ⟨_, group⟩ =>
          stopCategory_ready sound ready ac group).2
    have start : s.Moves cfg (stopLabels addr clean) s₁ := moves.mono fun _ _ => .inl
    rw [shape]
    dsimp only
    split
    · refine (start.trans own).trans ?_
      exact stopCategories_moves (by decide) (sound₁.moves own) group₂ false nofun
        (.inr (.inr ⟨rfl, rfl⟩))
    · exact start.trans own

end

end Rtl88x2bu.Tx
