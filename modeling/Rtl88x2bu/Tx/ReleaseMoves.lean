import Rtl88x2bu.Tx.Moves

/-!
# Releasing buffered frames

Waking up, delivery and polling as steps of the station whose frames are released.
-/

namespace Rtl88x2bu.Tx

open List Option
open Rx (MacAddr isMcast staAddr bcAddr)

/-! ## Releasing -/

/-- The bitmaps and the table of AIDs are as they were. -/
structure TxState.SameMaps (s s' : TxState) : Prop where
  dz : s'.staDzBitmap = s.staDzBitmap
  tim : s'.timBitmap = s.timBitmap
  aids : s'.staAid = s.staAid

theorem TxState.SameMaps.refl (s : TxState) : s.SameMaps s := ⟨rfl, rfl, rfl⟩

theorem TxState.SameMaps.trans {s s' s'' : TxState} (first : s.SameMaps s')
    (second : s'.SameMaps s'') : s.SameMaps s'' :=
  ⟨second.dz.trans first.dz, second.tim.trans first.tim, second.aids.trans first.aids⟩

section
variable {cfg : ApConfig} {allowed : MacAddr → StaMove → Prop} {s s' : TxState} {addr : MacAddr}
  {psta : StaInfo} {f : XmitFrame} {q : HwQueue}
variable (counted : StaInfo → Bool) {kept rest queue : List XmitFrame}

theorem classifyTo_sameMaps (queued : classifyTo s f q = some s') : s.SameMaps s' := by
  obtain ⟨psta, -, -, -, rfl⟩ := classifyTo_some queued
  simp only [TxState.enlist]
  split <;> exact ⟨rfl, rfl, rfl⟩

theorem classifyTo_isSome (found : s.stations addr = some psta) (owned : f.OwnedBy addr)
    (asoc : psta.asoc = true) : ∃ s', classifyTo s f q = some s' := by
  obtain ⟨lookup, noted⟩ := owned
  simp [classifyTo, TxState.rtwGetStainfo, lookup, found, noted, asoc]

/-- The frame of an associated station goes back to its transmit queue. -/
theorem releaseFrame_classified (left : List XmitFrame) (found : s.stations addr = some psta)
    (owned : f.OwnedBy addr) (asoc : psta.asoc = true) :
    ∃ mdata eosp, classifyTo (s.modifySta addr (·.unbuffer left (counted psta)))
      (f.release mdata eosp) (.ac f.ac) = some (releaseFrame addr counted s f left) := by
  obtain ⟨mdata, eosp, shape⟩ : ∃ mdata eosp, releaseFrame addr counted s f left =
      rtwHalXmitframeEnqueue (s.modifySta addr (·.unbuffer left (counted psta)))
        (f.release mdata eosp) := by
    simp only [releaseFrame, found]
    refine ⟨_, _, congrArg (rtwHalXmitframeEnqueue · _) (TxState.modifySta_congr ?_)⟩
    intro psta' found'
    cases found.symm.trans found'
    rfl
  have there : (s.modifySta addr (·.unbuffer left (counted psta))).stations addr =
      some (psta.unbuffer left (counted psta)) := by
    rw [TxState.stations_modifySta, if_pos rfl, found, map_some]
  have freed : (f.release mdata eosp).OwnedBy addr := owned
  obtain ⟨s', queued⟩ := classifyTo_isSome (q := .ac f.ac) there freed asoc
  refine ⟨mdata, eosp, ?_⟩
  rw [shape, rtwHalXmitframeEnqueue, rtwXmitClassifier]
  exact queued.trans (congrArg some (congrArg (Option.getD · _) queued).symm)

section

variable (sound : s.Sound cfg) (buffered : s.sleepQ addr = kept ++ f :: rest)
include sound buffered

/-- What releasing a buffered frame does to its station. -/
theorem releaseFrame_stations :
    ∃ psta mdata eosp, s.stations addr = some psta ∧ psta.sleepQ = kept ++ f :: rest ∧
      (releaseFrame addr counted s f (kept ++ rest)).stations = (s.modifySta addr fun psta' =>
        (psta'.unbuffer (kept ++ rest) (counted psta)).push (.ac f.ac)
          (f.release mdata eosp)).stations ∧
      s.SameMaps (releaseFrame addr counted s f (kept ++ rest)) := by
  cases found : s.stations addr with
  | none =>
    rw [TxState.sleepQ, found, map_none, getD_none] at buffered
    exact absurd buffered (by simp)
  | some psta =>
    rw [TxState.sleepQ_of_some found] at buffered
    have member : f ∈ psta.sleepQ := buffered ▸ mem_append_right _ mem_cons_self
    have owned := (sound addr psta found).buffered f member
    have asoc := (sound addr psta found).asoc_of_buffered member
    obtain ⟨mdata, eosp, queued⟩ :=
      releaseFrame_classified counted (kept ++ rest) found owned asoc
    obtain ⟨-, -, stations⟩ := classifyTo_stations queued
    refine ⟨psta, mdata, eosp, rfl, buffered, ?_, ?_⟩
    · rw [stations]
      have lookup : staAddr (f.release mdata eosp).attrib.ra = addr := owned.1
      rw [lookup]
      funext a
      simp only [TxState.stations_modifySta]
      split
      · rw [Option.map_map]; rfl
      · rfl
    · have same := classifyTo_sameMaps queued
      exact ⟨same.dz, same.tim, same.aids⟩

theorem releaseFrame_moves (passed : ∀ g ∈ kept, g.ac ≠ f.ac)
    (kind : ∀ psta, s.stations addr = some psta →
      allowed addr (if counted psta = psta.triggerEnabled f.ac then .keep else .uncounted)) :
    s.Moves cfg allowed (releaseFrame addr counted s f (kept ++ rest)) := by
  obtain ⟨psta, mdata, eosp, found, queue, stations, -⟩ :=
    releaseFrame_stations counted sound buffered
  rw [TxState.Moves, stations]
  refine TxState.moves_modifySta fun psta' found' => ⟨_, kind psta' found', ?_⟩
  cases found.symm.trans found'
  exact .release kept rest f _ mdata eosp queue passed rfl

theorem releaseFrame_sleepQ :
    (releaseFrame addr counted s f (kept ++ rest)).sleepQ addr = kept ++ rest := by
  obtain ⟨psta, mdata, eosp, found, -, stations, -⟩ := releaseFrame_stations counted sound buffered
  rw [TxState.sleepQ, stations, TxState.stations_modifySta, if_pos rfl, found]
  rfl

end

theorem wakeupLoop_moves {counted : XmitFrame → StaInfo → Bool} (sound : s.Sound cfg)
    (buffered : s.sleepQ addr = queue)
    (counts : ∀ f psta, psta.Sound cfg addr → counted f psta = psta.triggerEnabled f.ac)
    (keep : allowed addr .keep) :
    s.Moves cfg allowed (wakeupLoop addr counted s queue) ∧
      (wakeupLoop addr counted s queue).sleepQ addr = [] ∧
      s.SameMaps (wakeupLoop addr counted s queue) := by
  induction queue generalizing s with
  | nil => exact ⟨.refl _, buffered, .refl s⟩
  | cons f rest ih =>
    have buffered : s.sleepQ addr = [] ++ f :: rest := buffered
    have moves : s.Moves cfg allowed (releaseFrame addr (counted f) s f ([] ++ rest)) := by
      refine releaseFrame_moves (counted f) sound buffered (forall_mem_nil _) ?_
      intro psta found
      rw [if_pos (counts f psta (sound addr psta found))]
      exact keep
    have left := releaseFrame_sleepQ (counted f) sound buffered
    obtain ⟨_, _, _, _, _, _, maps⟩ := releaseFrame_stations (counted f) sound buffered
    obtain ⟨later, empty, same⟩ := ih (sound.moves moves) left
    exact ⟨moves.trans later, empty, maps.trans same⟩

theorem wakeupLoop_mgmtSleepQ (counted : XmitFrame → StaInfo → Bool) (sound : s.Sound cfg)
    (buffered : s.sleepQ addr = queue) :
    (wakeupLoop addr counted s queue).mgmtSleepQ addr = s.mgmtSleepQ addr := by
  induction queue generalizing s with
  | nil => rfl
  | cons f rest ih =>
    have buffered : s.sleepQ addr = [] ++ f :: rest := buffered
    obtain ⟨psta, _, _, found, _, stations, _⟩ :=
      releaseFrame_stations (counted f) sound buffered
    have moves : s.Moves cfg (fun _ _ => True) (releaseFrame addr (counted f) s f ([] ++ rest)) :=
      releaseFrame_moves (counted f) sound buffered (forall_mem_nil _) fun _ _ => trivial
    have left := releaseFrame_sleepQ (counted f) sound buffered
    refine (ih (sound.moves moves) left).trans ?_
    rw [TxState.mgmtSleepQ, TxState.mgmtSleepQ, stations, TxState.stations_modifySta, if_pos rfl,
      found]
    rfl

/-! ## Waking up -/

/-- The steps of an operation on one station: its own frames and management frames. -/
def ownLabels (addr a : MacAddr) (label : StaMove) : Prop :=
  label = .mgmt ∨ (a = addr ∧ label = .keep)

/-- The steps when a station wakes up, after which group addressed frames may be sent. -/
def wakeupLabels (addr a : MacAddr) (label : StaMove) : Prop :=
  label = .mgmt ∨ ((a = addr ∨ a = bcAddr) ∧ label = .keep)

theorem wakeupClear_eq (sound : s.Sound cfg) (found : s.stations addr = some psta)
    (sleepQ : s.sleepQ addr = []) (mgmtSleepQ : s.mgmtSleepQ addr = []) :
    wakeupClear cfg addr s = { s.modifySta addr fun psta => { psta with sleep := false } with
      timBitmap := s.timBitmap.erase psta.aid
      staDzBitmap := s.staDzBitmap.erase psta.aid } := by
  rw [TxState.sleepQ_of_some found] at sleepQ
  rw [TxState.mgmtSleepQ_of_some found] at mgmtSleepQ
  have sound := sound addr psta found
  have len : psta.sleepqLen = 0 := by rw [sound.sleepqLen, sleepQ]; rfl
  have mgmtLen : psta.mgmtSleepqLen = 0 := by rw [sound.mgmtSleepqLen, mgmtSleepQ]; rfl
  simp only [wakeupClear, found, len, mgmtLen, and_self, if_true, rtwTimMapClear_eq sound.aid_le]

/-- The group addressed frames are all released once nobody dozes. -/
theorem wakeupBmc_spec (sound : s.Sound cfg) (keep : allowed bcAddr .keep) :
    s.Moves cfg allowed (wakeupBmc cfg s) ∧ (wakeupBmc cfg s).staAid = s.staAid ∧
      (wakeupBmc cfg s = s ∧ ((s.stations bcAddr).isSome → s.staDzBitmap.erase 0 ≠ ∅) ∨
        (wakeupBmc cfg s).sleepQ bcAddr = [] ∧
          (wakeupBmc cfg s).staDzBitmap = s.staDzBitmap.erase 0 ∧
          (wakeupBmc cfg s).timBitmap = s.timBitmap.erase 0 ∧ s.staDzBitmap.erase 0 = ∅) := by
  rw [wakeupBmc]
  split
  next idle =>
    have plain : ∀ f psta, psta.Sound cfg bcAddr →
        false = StaInfo.triggerEnabled psta (XmitFrame.ac f) := by
      intro f psta sound
      rw [StaInfo.triggerEnabled, (sound.broadcast rfl).2.2]
      rfl
    obtain ⟨moves, empty, maps⟩ := wakeupLoop_moves sound rfl plain keep
    have present := (moves.isSome_eq bcAddr).trans idle.1
    obtain ⟨bmc, found⟩ := isSome_iff_exists.mp present
    have len : bmc.sleepqLen = 0 := by
      rw [(sound.moves moves bcAddr bmc found).sleepqLen, ← TxState.sleepQ_of_some found, empty]
      rfl
    dsimp only
    rw [if_pos (by rw [found, map_some, len])]
    refine ⟨moves, maps.aids, .inr ⟨empty, ?_, ?_, ?_⟩⟩
    · rw [← maps.dz]
      exact rtwTimMapClear_eq (Nat.zero_le _)
    · rw [← maps.tim]
      exact rtwTimMapClear_eq (Nat.zero_le _)
    · by_contra dozing
      exact idle.2 (decide_eq_true dozing)
  next busy =>
    refine ⟨.refl _, rfl, .inl ⟨rfl, fun present none => busy ⟨present, ?_⟩⟩⟩
    rw [rtwTimMapAnyoneBeSetExcludeAid0, none]
    decide

theorem wakeupStaToXmit_none (absent : s.stations addr = none) :
    wakeupStaToXmit cfg s addr = s := by
  have mgmt : s.mgmtSleepQ addr = [] := by rw [TxState.mgmtSleepQ, absent]; rfl
  have queue : s.sleepQ addr = [] := by rw [TxState.sleepQ, absent]; rfl
  simp only [wakeupStaToXmit, mgmt, wakeupMgmtLoop, queue, wakeupLoop, absent]
  rfl

theorem wakeupStaToXmit_own (sound : s.Sound cfg) (found : s.stations addr = some psta) :
    ∃ s₁, wakeupStaToXmit cfg s addr = wakeupBmc cfg s₁ ∧ s.Moves cfg (ownLabels addr) s₁ ∧
      s₁.sleepQ addr = [] ∧ s₁.staAid = s.staAid ∧
      s₁.staDzBitmap = s.staDzBitmap.erase psta.aid ∧
      s₁.timBitmap = s.timBitmap.erase psta.aid := by
  rw [wakeupStaToXmit]
  obtain ⟨first, tim, mgmtEmpty⟩ :
      s.MgmtOnly cfg (wakeupMgmtLoop addr s (s.mgmtSleepQ addr)) ∧ _ := wakeupMgmtLoop_mgmtOnly rfl
  set s₁ := wakeupMgmtLoop addr s (s.mgmtSleepQ addr)
  have moves₁ : s.Moves cfg (ownLabels addr) s₁ := first.moves.mono fun _ _ => .inl
  have maps₁ : s.SameMaps s₁ := ⟨first.dz, tim, first.aids⟩
  have sound₁ := sound.moves moves₁
  let counted : XmitFrame → StaInfo → Bool := fun f psta => psta.triggerEnabled f.ac
  obtain ⟨moves₂, empty, maps₂⟩ : s₁.Moves cfg (ownLabels addr)
      (wakeupLoop addr counted s₁ (s₁.sleepQ addr)) ∧ _ :=
    wakeupLoop_moves sound₁ rfl (fun _ _ _ => rfl) (.inr ⟨rfl, rfl⟩)
  have mgmtEmpty₂ := (wakeupLoop_mgmtSleepQ counted sound₁ rfl).trans mgmtEmpty
  set s₂ := wakeupLoop addr counted s₁ (s₁.sleepQ addr)
  have moves : s.Moves cfg (ownLabels addr) s₂ := moves₁.trans moves₂
  have maps := maps₁.trans maps₂
  have aid : (s₂.stations addr).map StaInfo.aid = some psta.aid := by
    rw [moves.aid_eq (by simp [ownLabels]), found, map_some]
  obtain ⟨psta₂, found₂, aid⟩ := map_eq_some_iff.mp aid
  have cleared := wakeupClear_eq (sound.moves moves) found₂ empty mgmtEmpty₂
  rw [aid, maps.dz, maps.tim] at cleared
  refine ⟨wakeupClear cfg addr s₂, if_pos (by rw [found₂]; rfl), ?_⟩
  rw [cleared]
  refine ⟨moves.trans (TxState.moves_modifySta fun psta' found' => ?_), ?_, maps.aids, rfl, rfl⟩
  · refine ⟨.keep, .inr ⟨rfl, rfl⟩, .wake ?_⟩
    rw [← TxState.sleepQ_of_some found', empty]
  · rw [TxState.sleepQ_of_some found₂] at empty
    rw [TxState.sleepQ, TxState.stations_modifySta, if_pos rfl, found₂]
    exact empty

/-- A station that wakes up has nothing buffered and its bits taken back; the second case is that of
nobody left to doze. -/
theorem wakeupStaToXmit_spec (sound : s.Sound cfg) (found : s.stations addr = some psta) :
    s.Moves cfg (wakeupLabels addr) (wakeupStaToXmit cfg s addr) ∧
      (wakeupStaToXmit cfg s addr).sleepQ addr = [] ∧
      (wakeupStaToXmit cfg s addr).staAid = s.staAid ∧
      ((wakeupStaToXmit cfg s addr).staDzBitmap = s.staDzBitmap.erase psta.aid ∧
          (wakeupStaToXmit cfg s addr).timBitmap = s.timBitmap.erase psta.aid ∧
          ((s.stations bcAddr).isSome → (s.staDzBitmap.erase psta.aid).erase 0 ≠ ∅) ∧
          (addr ≠ bcAddr →
            (wakeupStaToXmit cfg s addr).sleepQ bcAddr = s.sleepQ bcAddr) ∨
        (wakeupStaToXmit cfg s addr).sleepQ bcAddr = [] ∧
          (wakeupStaToXmit cfg s addr).staDzBitmap = (s.staDzBitmap.erase psta.aid).erase 0 ∧
          (wakeupStaToXmit cfg s addr).timBitmap = (s.timBitmap.erase psta.aid).erase 0 ∧
          (s.staDzBitmap.erase psta.aid).erase 0 = ∅) := by
  obtain ⟨s₁, shape, moves₁, empty, aids, dz, tim⟩ := wakeupStaToXmit_own sound found
  rw [shape]
  obtain ⟨moves₂, aids₂, result⟩ : s₁.Moves cfg (fun a label => a = bcAddr ∧ label = .keep) _ ∧ _ :=
    wakeupBmc_spec (sound.moves moves₁) ⟨rfl, rfl⟩
  refine ⟨?_, ?_, aids₂.trans aids, ?_⟩
  · refine (moves₁.mono ?_).trans (moves₂.mono ?_)
    · rintro a label (mgmt | ⟨same, keep⟩)
      · exact .inl mgmt
      · exact .inr ⟨.inl same, keep⟩
    · rintro a label ⟨same, keep⟩
      exact .inr ⟨.inr same, keep⟩
  · by_cases broadcast : addr = bcAddr
    · rcases result with ⟨same, -⟩ | ⟨none, -⟩
      · rw [same, empty]
      · rw [broadcast, none]
    · rw [moves₂.sleepQ_eq fun label other => absurd other.1 broadcast, empty]
  · rcases result with ⟨same, dozing⟩ | ⟨none, dz₂, tim₂, idle⟩
    · rw [moves₁.isSome_eq, dz] at dozing
      rw [same]
      refine .inl ⟨dz, tim, dozing, fun unicast => moves₁.sleepQ_eq ?_⟩
      rintro label (mgmt | ⟨same, -⟩)
      · exact mgmt
      · exact absurd same.symm unicast
    · exact .inr ⟨none, dz₂.trans (by rw [dz]), tim₂.trans (by rw [tim]), dz ▸ idle⟩

/-! ## Delivery and polling -/

theorem deliver_release (sound : s.Sound cfg) (buffered : s.sleepQ addr = kept ++ f :: rest)
    (found : s.stations addr = some psta) (enabled : psta.triggerEnabled f.ac = true)
    (passed : ∀ g ∈ kept, psta.triggerEnabled g.ac = false) :
    s.Moves cfg (ownLabels addr) (releaseFrame addr (fun _ => true) s f (kept ++ rest)) ∧
      s.SameMaps (releaseFrame addr (fun _ => true) s f (kept ++ rest)) ∧ 0 < psta.aid ∧
      ∀ psta', (releaseFrame addr (fun _ => true) s f (kept ++ rest)).stations addr = some psta' →
        psta'.uapsd = psta.uapsd := by
  obtain ⟨psta', mdata, eosp, found', queue, stations, maps⟩ :=
    releaseFrame_stations (fun _ => true) sound buffered
  cases found.symm.trans found'
  refine ⟨?_, maps, ?_, fun psta' found' => ?_⟩
  · refine releaseFrame_moves _ sound buffered (fun g member same => ?_) fun psta' found' => ?_
    · rw [← same, passed g member] at enabled
      cases enabled
    · cases found.symm.trans found'
      rw [if_pos enabled.symm]
      exact .inr ⟨rfl, rfl⟩
  · have sound := sound addr psta found
    have member : f ∈ psta.sleepQ := queue ▸ mem_append_right _ mem_cons_self
    refine sound.aid_pos (fun broadcast => ?_) (sound.asoc_of_buffered member)
    rw [StaInfo.triggerEnabled, (sound.broadcast broadcast).2.2] at enabled
    cases enabled
  · rw [stations, TxState.stations_modifySta, if_pos rfl, found] at found'
    cases found'
    rfl

/-- What `xmit_delivery_enabled_frames` can do. -/
structure TxState.Delivers (cfg : ApConfig) (addr : MacAddr) (s s' : TxState) : Prop where
  moves : s.Moves cfg (ownLabels addr) s'
  aids : s'.staAid = s.staAid
  dz : s'.staDzBitmap = s.staDzBitmap
  tim : 0 ∈ s.timBitmap → 0 ∈ s'.timBitmap

theorem deliverLoop_delivers (sound : s.Sound cfg) (buffered : s.sleepQ addr = kept ++ queue)
    (passed : ∀ psta, s.stations addr = some psta → ∀ g ∈ kept, psta.triggerEnabled g.ac = false) :
    s.Delivers cfg addr (deliverLoop cfg addr s kept queue) := by
  induction queue generalizing s kept with
  | nil => exact ⟨.refl _, rfl, rfl, id⟩
  | cons f rest ih =>
    rw [deliverLoop]
    split
    · exact ⟨.refl _, rfl, rfl, id⟩
    next psta found =>
      have passed := passed psta found
      split
      next legacy =>
        have legacy : psta.triggerEnabled f.ac = false := by simpa using legacy
        refine ih sound (by rw [buffered, append_assoc]; rfl) fun psta' found' => ?_
        cases found.symm.trans found'
        exact forall_mem_append.mpr ⟨passed, forall_mem_singleton.mpr legacy⟩
      next enabled =>
        obtain ⟨moves, maps, aid, uapsd⟩ :=
          deliver_release sound buffered found (by simpa using enabled) passed
        have left := releaseFrame_sleepQ (fun _ => true) sound buffered
        dsimp only
        set s₁ := releaseFrame addr (fun _ => true) s f (kept ++ rest)
        have passed₁ : ∀ psta', s₁.stations addr = some psta' →
            ∀ g ∈ kept, psta'.triggerEnabled g.ac = false := by
          intro psta' found' g member
          rw [StaInfo.triggerEnabled, uapsd psta' found']
          exact passed g member
        -- the two cases differ in the bitmap only
        have turn : ∀ tim, (0 ∈ s.timBitmap → 0 ∈ tim) →
            s.Delivers cfg addr (deliverLoop cfg addr { s₁ with timBitmap := tim } kept rest) := by
          intro tim bit
          have later := ih (s := { s₁ with timBitmap := tim }) (sound.moves moves) left passed₁
          exact ⟨moves.trans later.moves, later.aids.trans maps.aids, later.dz.trans maps.dz,
            later.tim ∘ bit⟩
        split
        · refine turn _ fun bit => ?_
          rw [maps.tim, rtwTimMapClear_eq (sound addr psta found).aid_le]
          exact Finset.mem_erase.mpr ⟨aid.ne, bit⟩
        · exact turn s₁.timBitmap fun bit => maps.tim ▸ bit

theorem xmitDeliveryEnabledFrames_delivers (sound : s.Sound cfg) :
    s.Delivers cfg addr (xmitDeliveryEnabledFrames cfg s addr) :=
  deliverLoop_delivers sound rfl fun _ _ => forall_mem_nil _

/-- The poll of a dozing station that is answered with a frame of a trigger enabled category. -/
def PollsUapsd (cfg : ApConfig) (s : TxState) (addr : MacAddr) (aid : ℕ) (priority : BitVec 8) :
    Prop :=
  ∃ psta f rest, s.stations addr = some psta ∧ psta.aid = aid ∧
    psta.deliveryEnabled (acOf priority) = false ∧ psta.sleep = true ∧
    rtwTimMapIsSet cfg s.staDzBitmap aid = true ∧ psta.sleepQ = f :: rest ∧
    psta.triggerEnabled f.ac = true

theorem recvPsPoll_moves {aid : ℕ} {priority : BitVec 8} (sound : s.Sound cfg)
    (keep : allowed addr .keep)
    (uncounted : PollsUapsd cfg s addr aid priority → allowed addr .uncounted) :
    s.Moves cfg allowed (recvPsPoll cfg s addr aid priority) ∧
      (recvPsPoll cfg s addr aid priority).staAid = s.staAid ∧
      (recvPsPoll cfg s addr aid priority).staDzBitmap = s.staDzBitmap := by
  have release {psta f rest} (found : s.stations addr = some psta) (named : ¬ psta.aid ≠ aid)
      (legacy : ¬ psta.deliveryEnabled (acOf priority) = true)
      (dozes : (psta.sleep && rtwTimMapIsSet cfg s.staDzBitmap psta.aid) = true)
      (queue : psta.sleepQ = f :: rest) :
      s.Moves cfg allowed (releaseFrame addr (fun _ => false) s f rest) ∧
        s.SameMaps (releaseFrame addr (fun _ => false) s f rest) := by
    have named : psta.aid = aid := not_not.mp named
    obtain ⟨sleep, isSet⟩ := Bool.and_eq_true_iff.mp dozes
    have buffered : s.sleepQ addr = [] ++ f :: rest := (TxState.sleepQ_of_some found).trans queue
    obtain ⟨_, _, _, _, _, _, maps⟩ := releaseFrame_stations (fun _ => false) sound buffered
    refine ⟨releaseFrame_moves _ sound buffered (forall_mem_nil _) fun psta' found' => ?_, maps⟩
    cases found.symm.trans found'
    cases enabled : psta.triggerEnabled f.ac with
    | false => exact keep
    | true =>
      exact uncounted ⟨psta, f, rest, found, named, by simpa using legacy, sleep, named ▸ isSet,
        queue, enabled⟩
  fun_cases recvPsPoll cfg s addr aid priority
  case case4 psta found named legacy dozes f rest queue _ _ =>
    obtain ⟨moves, maps⟩ := release found named legacy dozes queue
    exact ⟨moves, maps.aids, maps.dz⟩
  case case5 psta found named legacy dozes f rest queue _ _ =>
    obtain ⟨moves, maps⟩ := release found named legacy dozes queue
    exact ⟨moves, maps.aids, maps.dz⟩
  case case6 psta found _ _ _ empty _ _ =>
    refine ⟨TxState.moves_modifySta fun psta' found' => ?_, rfl, rfl⟩
    cases found.symm.trans found'
    exact ⟨.keep, keep, .reset empty⟩
  all_goals exact ⟨.refl _, rfl, rfl⟩

end

end Rtl88x2bu.Tx
