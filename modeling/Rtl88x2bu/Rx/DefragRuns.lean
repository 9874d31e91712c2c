import Rtl88x2bu.Rx.Defrag

/-!
# Runs of the defragmentation queues

Fragments of any stations arrive in any order while stations come and go and pairwise keys are
installed. Every MSDU is recorded with the fragments it was made from.
-/

namespace Rtl88x2bu.Rx

open List Function Option

variable {stations : StaTable} {m : Msdu}

/-- The station whose queue the MSDU was made in, its fragments, and the frame that is handed on. -/
structure Msdu where
  owner : MacAddr
  parts : List RecvFrame
  frame : RecvFrame
  deriving DecidableEq

def reassembly (stations : StaTable) (f : RecvFrame) : Option Msdu :=
  if !f.isFragment || isMcast f.attrib.ra || f.attrib.mfrag then none
  else
    match defragOwner stations f with
    | none => none
    | some (addr, psta) =>
      let parts := psta.defragQ ++ [{ f with keytrack := psta.keytrack }]
      (recvframeDefrag parts).frame.map fun frame => ⟨addr, parts, frame⟩

/-- What reaches the queues: a frame, handled under the keys of the moment; a pairwise key that
`set_stakey_hdl` installs; a station that `rtw_alloc_stainfo` sets up or `rtw_free_stainfo` takes
away, which empties its queue. -/
inductive DefragEvent
  | frame (sec : SecurityPriv) (f : RecvFrame)
  | setStakey (addr : MacAddr)
  | allocStainfo (addr : MacAddr)
  | freeStainfo (addr : MacAddr)

structure DefragState where
  stations : StaTable
  reassembled : List Msdu := []

def setStakeyHdl (stations : StaTable) (addr : MacAddr) : StaTable :=
  Function.update stations addr
    ((stations addr).map fun psta => { psta with keytrack := psta.keytrack + 1 })

def DefragState.step (cr : Crypto) (s : DefragState) : DefragEvent → DefragState
  | .frame sec f =>
    { stations := (recvframeChkDefrag cr sec s.stations f).stations
      reassembled := s.reassembled ++ (reassembly s.stations f).toList }
  | .setStakey addr => { s with stations := setStakeyHdl s.stations addr }
  | .allocStainfo addr => { s with stations := Function.update s.stations addr (some {}) }
  | .freeStainfo addr => { s with stations := Function.update s.stations addr none }

/-- The log is what `recvframe_chk_defrag` hands to the MIC check when a fragment arrives. -/
theorem queueFragment_frame (stations : StaTable) {f : RecvFrame} (fragment : f.isFragment = true) :
    (queueFragment stations f).frame = (reassembly stations f).map Msdu.frame := by
  unfold queueFragment reassembly
  cases group : isMcast f.attrib.ra with
  | true => simp [fragment]
  | false =>
    cases owner : defragOwner stations f with
    | none => simp [fragment]
    | some queue =>
      cases more : f.attrib.mfrag with
      | true =>
        simp only [fragment, more, Bool.not_true, Bool.false_eq_true, if_false, if_true,
          Bool.or_true, map_none]
        split_ifs <;> rfl
      | false => simp [fragment, more, comp_def]

/-! ## The invariant -/

/-- Queued fragments have MoreFrag set and, but for the broadcast station, come from the queue's
owner. -/
def QueuesCollect (stations : StaTable) : Prop :=
  ∀ addr psta, stations addr = some psta →
    ∀ p ∈ psta.defragQ, p.attrib.mfrag = true ∧ (addr ≠ bcAddr → p.attrib.ta = addr)

/-- MoreFrag is set on all but the last fragment and they come from the owner of the queue. -/
structure Msdu.Whole (m : Msdu) : Prop where
  joined : ∃ prframe rest loop, m.parts = prframe :: rest ∧ prframe.attrib.fragNum = 0 ∧
    Joined prframe rest loop
  more : ∃ earlier last, m.parts = earlier ++ [last] ∧ (∀ p ∈ earlier, p.attrib.mfrag = true) ∧
    last.attrib.mfrag = false
  sender : m.owner ≠ bcAddr → ∀ p ∈ m.parts, p.attrib.ta = m.owner

theorem QueuesCollect.update (collect : QueuesCollect stations) {addr : MacAddr}
    {entry : Option StaInfo}
    (queue : ∀ psta, entry = some psta → ∀ p ∈ psta.defragQ, p.attrib.mfrag = true ∧
      (addr ≠ bcAddr → p.attrib.ta = addr)) :
    QueuesCollect (Function.update stations addr entry) := by
  intro other psta found
  by_cases same : other = addr
  · subst same
    rw [update_self] at found
    exact queue psta found
  · rw [update_of_ne same] at found
    exact collect other psta found

theorem QueuesCollect.frame (collect : QueuesCollect stations) (cr : Crypto) (sec : SecurityPriv)
    (f : RecvFrame) : QueuesCollect (recvframeChkDefrag cr sec stations f).stations := by
  rw [recvframeChkDefrag_stations]
  rcases queueFragment_cases stations f with ⟨_, whole⟩ | ⟨_, dropped⟩ |
    ⟨addr, psta, dropped, kept, owner, more, queue, queued⟩ | ⟨addr, psta, owner, _, _, _, joined⟩
  · rw [whole]
    exact collect
  · rw [dropped]
    exact collect
  · -- the new queue is what was kept of the old one and the fragment itself
    obtain ⟨found, sender⟩ := defragOwner_some owner
    rw [queued]
    apply collect.update
    intro _ eq p member
    cases eq
    cases mem_append.mp member with
    | inl old =>
      apply collect addr psta found
      rw [queue]
      exact mem_append_right _ old
    | inr new =>
      cases mem_singleton.mp new
      exact ⟨more, sender⟩
  · -- a last fragment empties the queue whether or not the join succeeds
    rw [joined]
    apply collect.update
    intro _ eq p member
    cases eq
    cases member

theorem reassembly_whole (collect : QueuesCollect stations) {f : RecvFrame}
    (handed : reassembly stations f = some m) : m.Whole := by
  unfold reassembly at handed
  split_ifs at handed with other
  cases owner : defragOwner stations f with
  | none => simp [owner] at handed
  | some queue =>
    obtain ⟨addr, psta⟩ := queue
    simp only [owner] at handed
    obtain ⟨found, sender⟩ := defragOwner_some owner
    obtain ⟨frame, joins, rfl⟩ := map_eq_some_iff.mp handed
    constructor
    case joined =>
      rcases recvframeDefrag_cases (psta.defragQ ++ [{ f with keytrack := psta.keytrack }]) with
        dropped | ⟨prframe, rest, loop, parts, first, joined, _⟩
      · rw [dropped] at joins
        cases joins
      · exact ⟨prframe, rest, loop, parts, first, joined⟩
    case more =>
      -- all but the frame that has just arrived were in the queue
      refine ⟨psta.defragQ, _, rfl, ?_, ?_⟩
      · intro p member
        exact (collect addr psta found p member).1
      · simp only [Bool.or_eq_true, not_or] at other
        simpa using other.2
    case sender =>
      intro known p member
      cases mem_append.mp member with
      | inl old => exact (collect addr psta found p old).2 known
      | inr new =>
        cases mem_singleton.mp new
        exact sender known

theorem QueuesCollect.step {cr : Crypto} {s : DefragState} (collect : QueuesCollect s.stations)
    (e : DefragEvent) : QueuesCollect (s.step cr e).stations := by
  cases e with
  | frame sec f => exact collect.frame cr sec f
  | setStakey addr =>
    apply collect.update
    intro psta eq
    obtain ⟨old, found, rfl⟩ := map_eq_some_iff.mp eq
    exact collect addr old found
  | allocStainfo addr =>
    apply collect.update
    intro psta eq p member
    cases eq
    cases member
  | freeStainfo addr =>
    apply collect.update
    intro psta eq
    cases eq

def NoFragments (stations : StaTable) : Prop :=
  ∀ addr psta, stations addr = some psta → psta.defragQ = []

theorem reassembled_whole {cr : Crypto} {start : StaTable} (initial : NoFragments start)
    {s : DefragState}
    (reached : Run.Reachable (DefragState.step cr) (fun _ _ => True) { stations := start } s) :
    QueuesCollect s.stations ∧ ∀ m ∈ s.reassembled, m.Whole := by
  refine reached.invariant ?_ ?_
  · refine ⟨?_, by simp⟩
    intro addr psta found p member
    rw [initial addr psta found] at member
    cases member
  · rintro s e ⟨collect, whole⟩ _
    refine ⟨collect.step e, ?_⟩
    cases e with
    | frame sec f =>
      intro m member
      cases mem_append.mp member with
      | inl old => exact whole m old
      | inr new => exact reassembly_whole collect (mem_toList.mp new)
    | setStakey addr => exact whole
    | allocStainfo addr => exact whole
    | freeStainfo addr => exact whole

/-! ## Protection of the fragments of an MSDU -/

theorem Msdu.Whole.oneKeytrack (whole : m.Whole) :
    ∃ keytrack, ∀ p ∈ m.parts, p.keytrack = keytrack := by
  obtain ⟨prframe, rest, loop, parts, _, joined⟩ := whole.joined
  refine ⟨prframe.keytrack, ?_⟩
  intro p member
  rw [parts] at member
  cases mem_cons.mp member with
  | inl first => rw [first]
  | inr later => exact joined.keytrack p later

theorem Msdu.Whole.consecutive (whole : m.Whole) :
    Consecutive (fragmentPns m.parts) ∧
      ∀ first ∈ m.parts.head?, first.attrib.encrypt.hasPn = false →
        ∀ pn ∈ (fragmentPns m.parts).head?, pn = 1 := by
  obtain ⟨prframe, rest, loop, parts, _, joined⟩ := whole.joined
  have pns := joined.pns
  rw [parts]
  cases hasPn : prframe.attrib.encrypt.hasPn with
  | true =>
    -- the loop starts from the packet number of the first fragment
    have start : curPnAfter 0 prframe :: fragmentPns rest = fragmentPns (prframe :: rest) := by
      simp [curPnAfter, fragmentPns, hasPn]
    rw [start] at pns
    refine ⟨pns, ?_⟩
    intro first isFirst noPn
    cases isFirst
    rw [hasPn] at noPn
    cases noPn
  | false =>
    -- the loop starts from zero, so the next packet number is one
    have start : curPnAfter 0 prframe = 0 := by simp [curPnAfter, hasPn]
    have same : fragmentPns (prframe :: rest) = fragmentPns rest := by
      simp [fragmentPns, hasPn]
    rw [start] at pns
    rw [same]
    refine ⟨pns.tail, ?_⟩
    intro first _ _ pn isHead
    have next := isChain_cons.mp pns |>.1 pn isHead
    apply BitVec.eq_of_toNat_eq
    simpa using next

/-- In every run, the fragments of an MSDU arrived under one pairwise key installation, and those
that carry a packet number carry consecutive ones, from one on when the first fragment has none. -/
theorem reassembled_oneKey {cr : Crypto} {start : StaTable} (initial : NoFragments start)
    {s : DefragState}
    (reached : Run.Reachable (DefragState.step cr) (fun _ _ => True) { stations := start } s) :
    ∀ m ∈ s.reassembled,
      (∃ keytrack, ∀ p ∈ m.parts, p.keytrack = keytrack) ∧
      Consecutive (fragmentPns m.parts) ∧
      (∀ first ∈ m.parts.head?, first.attrib.encrypt.hasPn = false →
        ∀ pn ∈ (fragmentPns m.parts).head?, pn = 1) ∧
      ((∀ p ∈ m.parts, p.attrib.encrypt.hasPn = true) →
        Consecutive (m.parts.map RecvFrame.pn)) := by
  intro m member
  have whole := (reassembled_whole initial reached).2 m member
  refine ⟨whole.oneKeytrack, whole.consecutive.1, whole.consecutive.2, ?_⟩
  intro protectedParts
  -- no fragment is left out when all have a packet number
  have all : fragmentPns m.parts = m.parts.map RecvFrame.pn := by
    rw [fragmentPns, filter_eq_self.mpr protectedParts]
  rw [← all]
  exact whole.consecutive.1

def fragmentFrame (encrypt : SecurityType) (seqNum : BitVec 12) (priority : BitVec 8)
    (fragNum : BitVec 4) (mfrag : Bool) (pn : UInt8) : RecvFrame :=
  { attrib := { qos := true, priority, seqNum, fragNum, mfrag, encrypt
                privacy := encrypt ≠ .noPrivacy }
    rxData := [pn, 0, 0, 0, 0, 0, 0, 0]
    tailroom := 2000 }

def oneStation : StaTable := fun addr => if addr = Vector.replicate 6 0 then some {} else none

theorem oneStation_noFragments : NoFragments oneStation := by
  intro addr psta found
  unfold oneStation at found
  split_ifs at found
  cases found
  rfl

def fragmentRun (cr : Crypto) (fragments : List RecvFrame) : DefragState :=
  (fragments.map (DefragEvent.frame {})).foldl (DefragState.step cr) { stations := oneStation }

theorem fragmentRun_reachable (cr : Crypto) (fragments : List RecvFrame) :
    Run.Reachable (DefragState.step cr) (fun _ _ => True) { stations := oneStation }
      (fragmentRun cr fragments) := by
  apply Run.Reachable.append .start
  generalize ({ stations := oneStation } : DefragState) = s
  induction fragments generalizing s with
  | nil => trivial
  | cons f fragments ih => exact ⟨trivial, ih _⟩

def nullCrypto : Crypto where
  seccalctkipmic _ _ _ _ := []
  arcfour _ data := data
  tkipMix _ _ _ := []
  getcrc32 _ := []
  ccmpDecrypt _ _ _ := none
  gcmpDecrypt _ _ _ := none
  omac1Aes _ _ := none
  aesGmac _ _ _ := none

theorem reassembled_oneKey_ccmp :
    let s := fragmentRun nullCrypto
      [fragmentFrame .aes 1 0 0 true 5, fragmentFrame .aes 1 0 1 false 6]
    s.reassembled.length = 1 ∧ ∀ m ∈ s.reassembled, Consecutive (m.parts.map RecvFrame.pn) := by
  refine ⟨by decide, ?_⟩
  intro m member
  have allCcmp : ∀ m ∈ (fragmentRun nullCrypto [fragmentFrame .aes 1 0 0 true 5,
      fragmentFrame .aes 1 0 1 false 6]).reassembled,
      ∀ p ∈ m.parts, p.attrib.encrypt.hasPn = true := by decide
  exact (reassembled_oneKey oneStation_noFragments (fragmentRun_reachable _ _) m member).2.2.2
    (allCcmp m member)

/-- All are plaintext, or all were decrypted under one key with consecutive packet numbers. -/
def UniformProtection (parts : List RecvFrame) : Prop :=
  (∀ p ∈ parts, p.attrib.encrypt = .noPrivacy) ∨
    (∀ p ∈ parts, p.attrib.encrypt ≠ .noPrivacy) ∧
      (∃ keytrack, ∀ p ∈ parts, p.keytrack = keytrack) ∧ Consecutive (parts.map RecvFrame.pn)

theorem reassembled_mixed :
    ¬ ∀ (cr : Crypto) (start : StaTable), NoFragments start → ∀ s,
      Run.Reachable (DefragState.step cr) (fun _ _ => True) { stations := start } s →
      ∀ m ∈ s.reassembled, UniformProtection m.parts := by
  intro claim
  have uniform := claim nullCrypto oneStation oneStation_noFragments _ (fragmentRun_reachable _
    [fragmentFrame .noPrivacy 1 0 0 true 0, fragmentFrame .aes 1 0 1 false 1])
  have mixed : ∃ m ∈ (fragmentRun nullCrypto [fragmentFrame .noPrivacy 1 0 0 true 0,
      fragmentFrame .aes 1 0 1 false 1]).reassembled,
      (∃ p ∈ m.parts, p.attrib.encrypt = .noPrivacy) ∧
        ∃ p ∈ m.parts, p.attrib.encrypt ≠ .noPrivacy := by decide
  obtain ⟨m, member, ⟨plain, plainIn, isPlain⟩, ⟨sealed, sealedIn, isSealed⟩⟩ := mixed
  cases uniform m member with
  | inl allPlain => exact isSealed (allPlain sealed sealedIn)
  | inr allSealed => exact allSealed.1 plain plainIn isPlain

/-! ## Which fragments are joined -/

theorem Msdu.Whole.numbers (whole : m.Whole) :
    m.parts.map (fun p => p.attrib.fragNum.toNat) = List.range m.parts.length := by
  obtain ⟨prframe, rest, loop, parts, first, joined⟩ := whole.joined
  rw [parts, map_cons, joined.numbers, first, length_cons, range_succ_eq_map]
  simp [List.range'_eq_map_range, Nat.add_comm]

/-- In every run, the fragments of an MSDU are numbered from zero, MoreFrag is set on all but the
last of them, and in the queue of a station other than the broadcast one they were all sent by that
station. -/
theorem reassembled_inSequence {cr : Crypto} {start : StaTable} (initial : NoFragments start)
    {s : DefragState}
    (reached : Run.Reachable (DefragState.step cr) (fun _ _ => True) { stations := start } s) :
    ∀ m ∈ s.reassembled,
      m.parts.map (fun p => p.attrib.fragNum.toNat) = List.range m.parts.length ∧
      (∀ p ∈ m.parts.dropLast, p.attrib.mfrag = true) ∧
      (∀ p ∈ m.parts.getLast?, p.attrib.mfrag = false) ∧
      (m.owner ≠ bcAddr → ∀ p ∈ m.parts, p.attrib.ta = m.owner) := by
  intro m member
  have whole := (reassembled_whole initial reached).2 m member
  obtain ⟨earlier, last, parts, more, isLast⟩ := whole.more
  refine ⟨whole.numbers, ?_, ?_, whole.sender⟩
  · rw [parts, dropLast_concat]
    exact more
  · intro p lastIn
    rw [parts, List.getLast?_concat] at lastIn
    cases lastIn
    exact isLast

theorem reassembled_inSequence_three :
    let s := fragmentRun nullCrypto [fragmentFrame .noPrivacy 1 0 0 true 0,
      fragmentFrame .noPrivacy 1 0 1 true 0, fragmentFrame .noPrivacy 1 0 2 false 0]
    s.reassembled.length = 1 ∧ ∀ m ∈ s.reassembled,
      m.parts.map (fun p => p.attrib.fragNum.toNat) = List.range m.parts.length := by
  refine ⟨by decide, ?_⟩
  intro m member
  exact (reassembled_inSequence oneStation_noFragments (fragmentRun_reachable _ _) m member).1

theorem reassembled_strangers :
    ¬ ∀ (cr : Crypto) (start : StaTable), NoFragments start → ∀ s,
      Run.Reachable (DefragState.step cr) (fun _ _ => True) { stations := start } s →
      ∀ m ∈ s.reassembled, m.owner ≠ bcAddr →
        (∃ seqNum, ∀ p ∈ m.parts, p.attrib.seqNum = seqNum) ∧
        (∃ ta, ∀ p ∈ m.parts, p.attrib.ta = ta) ∧
        (∃ priority, ∀ p ∈ m.parts, p.attrib.priority = priority) ∧
        m.parts.map (fun p => p.attrib.fragNum.toNat) = List.range m.parts.length ∧
        (∀ p ∈ m.parts.dropLast, p.attrib.mfrag = true) ∧
        (∀ p ∈ m.parts.getLast?, p.attrib.mfrag = false) := by
  intro claim
  have same := claim nullCrypto oneStation oneStation_noFragments _ (fragmentRun_reachable _
    [fragmentFrame .noPrivacy 1 0 0 true 0, fragmentFrame .noPrivacy 2 5 1 false 0])
  have strangers : ∃ m ∈ (fragmentRun nullCrypto [fragmentFrame .noPrivacy 1 0 0 true 0,
      fragmentFrame .noPrivacy 2 5 1 false 0]).reassembled, m.owner ≠ bcAddr ∧
      ∃ p ∈ m.parts, ∃ q ∈ m.parts, p.attrib.seqNum ≠ q.attrib.seqNum ∧
        p.attrib.priority ≠ q.attrib.priority := by decide
  obtain ⟨m, member, known, p, pIn, q, qIn, seqNums, _⟩ := strangers
  obtain ⟨⟨seqNum, all⟩, _⟩ := same m member known
  exact seqNums ((all p pIn).trans (all q qIn).symm)

end Rtl88x2bu.Rx
