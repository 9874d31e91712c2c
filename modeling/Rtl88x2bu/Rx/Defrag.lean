import Rtl88x2bu.Lib.Run
import Rtl88x2bu.Rx.Decrypt

/-!
# Defragmentation

`recvframe_chk_defrag` collects the fragments of each station in one queue, whatever their TID and
sequence number. The frames that go back to the free queue are listed by slot, in the order they are
freed.
-/

namespace Rtl88x2bu.Rx

open List Option

variable (stations : StaTable) (f : RecvFrame)

variable (cr : Crypto) (sec : SecurityPriv)

/-! ## Joining a queue -/

/-- `cur_pn` after a fragment: its own packet number, if it has one. -/
def curPnAfter (curPn : BitVec 64) (f : RecvFrame) : BitVec 64 :=
  if f.attrib.encrypt.hasPn then f.pn else curPn

/-- The payload of the second and later fragments. The header offset is an octet in the source. -/
def fragmentPayload (pnextrframe : RecvFrame) : List UInt8 :=
  (recvframePull pnextrframe ((pnextrframe.attrib.hdrlen + pnextrframe.attrib.ivLen) % 256)).rxData

def appendPayload (prframe : RecvFrame) (payload : List UInt8) (icvLen : ℕ) : RecvFrame :=
  let prframe := recvframePullTail prframe prframe.attrib.icvLen
  let prframe := recvframePut prframe payload
  { prframe with attrib.icvLen := icvLen }

structure DefragLoop where
  prframe : RecvFrame
  curPn : BitVec 64
  curfragnum : ℕ

/-- The body of that loop; `none` is one of its four drops. -/
def defragBody (loop : DefragLoop) (pnextrframe : RecvFrame) : Option DefragLoop :=
  if pnextrframe.attrib.encrypt.hasPn ∧ pnextrframe.pn ≠ loop.curPn + 1 then none
  else if loop.prframe.keytrack ≠ pnextrframe.keytrack then none
  else if loop.curfragnum ≠ pnextrframe.attrib.fragNum.toNat then none
  else if loop.prframe.tailroom < (fragmentPayload pnextrframe).length then none
  else some {
    prframe := appendPayload loop.prframe (fragmentPayload pnextrframe) pnextrframe.attrib.icvLen
    curPn := curPnAfter loop.curPn pnextrframe
    curfragnum := loop.curfragnum + 1 }

structure Defragged where
  frame : Option RecvFrame
  freed : List ℕ

/-- `recvframe_defrag`, which is only called on a queue that holds the last fragment. -/
def recvframeDefrag : List RecvFrame → Defragged
  | [] => ⟨none, []⟩
  | prframe :: rest =>
    if prframe.attrib.fragNum ≠ 0 then ⟨none, prframe.slot :: rest.map RecvFrame.slot⟩
    else
      match rest.foldlM defragBody ⟨prframe, curPnAfter 0 prframe, 1⟩ with
      | none => ⟨none, prframe.slot :: rest.map RecvFrame.slot⟩
      | some loop => ⟨some loop.prframe, rest.map RecvFrame.slot⟩

/-! ## Collecting fragments -/

def RecvFrame.isFragment : Bool := f.attrib.mfrag || f.attrib.fragNum != 0

/-- The transmitter or, for a frame other than data from an unknown one, the broadcast station. -/
def defragOwner : Option (MacAddr × StaInfo) :=
  match rtwGetStainfo stations f.attrib.ta with
  | some psta => some (staAddr f.attrib.ta, psta)
  | none =>
    if getFrameType f.rxData = .data then none
    else (rtwGetStainfo stations bcAddr).map (bcAddr, ·)

def setDefragQ (addr : MacAddr) (psta : StaInfo) (q : List RecvFrame) : StaTable :=
  Function.update stations addr (some { psta with defragQ := q })

structure ChkDefrag where
  stations : StaTable
  frame : Option RecvFrame
  freed : List ℕ

def queueFragment : ChkDefrag :=
  if !f.isFragment then ⟨stations, some f, []⟩
  else if isMcast f.attrib.ra then ⟨stations, none, [f.slot]⟩
  else
    match defragOwner stations f with
    | none => ⟨stations, none, [f.slot]⟩
    | some (addr, psta) =>
      let f := { f with keytrack := psta.keytrack }
      if f.attrib.mfrag then
        -- a first fragment throws away what the queue still holds
        if f.attrib.fragNum = 0 then
          ⟨setDefragQ stations addr psta [f], none, psta.defragQ.map RecvFrame.slot⟩
        else ⟨setDefragQ stations addr psta (psta.defragQ ++ [f]), none, []⟩
      else
        let out := recvframeDefrag (psta.defragQ ++ [f])
        ⟨setDefragQ stations addr psta [], out.frame, out.freed⟩

def recvframeChkDefrag (stations : StaTable) (f : RecvFrame) : ChkDefrag :=
  let queued := queueFragment stations f
  match queued.frame with
  | none => queued
  | some prtnframe =>
    if !prtnframe.attrib.privacy then queued
    else
      match recvframeChkmic cr sec queued.stations prtnframe with
      | (.fail, _) => { queued with frame := none, freed := queued.freed ++ [prtnframe.slot] }
      | (_, prtnframe, _) => { queued with frame := some prtnframe }

/-! ## What a successful join says of its fragments -/

def RecvFrame.rebuffer (data : List UInt8) (room icvLen : ℕ) : RecvFrame :=
  { f with rxData := data, tailroom := room, attrib.icvLen := icvLen }

theorem appendPayload_rebuffer (payload : List UInt8) (icvLen : ℕ) :
    ∃ data room, appendPayload f payload icvLen = f.rebuffer data room icvLen := by
  simp only [appendPayload, recvframePut, recvframePullTail]
  split_ifs <;> exact ⟨_, _, rfl⟩

theorem defragBody_some {loop loop' : DefragLoop} {pnextrframe : RecvFrame}
    (joined : defragBody loop pnextrframe = some loop') :
    (pnextrframe.attrib.encrypt.hasPn = true → pnextrframe.pn = loop.curPn + 1) ∧
      pnextrframe.keytrack = loop.prframe.keytrack ∧
      pnextrframe.attrib.fragNum.toNat = loop.curfragnum ∧
      (∃ data room icvLen, loop'.prframe = loop.prframe.rebuffer data room icvLen) ∧
      loop'.curPn = curPnAfter loop.curPn pnextrframe ∧
      loop'.curfragnum = loop.curfragnum + 1 := by
  unfold defragBody at joined
  split_ifs at joined with skipped rekeyed misnumbered long
  cases joined
  obtain ⟨data, room, written⟩ := appendPayload_rebuffer loop.prframe
    (fragmentPayload pnextrframe) pnextrframe.attrib.icvLen
  refine ⟨?_, (not_not.mp rekeyed).symm, (not_not.mp misnumbered).symm,
    ⟨data, room, _, written⟩, rfl, rfl⟩
  intro hasPn
  by_contra differs
  exact skipped ⟨hasPn, differs⟩

def fragmentPns (parts : List RecvFrame) : List (BitVec 64) :=
  (parts.filter fun p => p.attrib.encrypt.hasPn).map RecvFrame.pn

def Consecutive (pns : List (BitVec 64)) : Prop := pns.IsChain fun a b => b.toNat = a.toNat + 1

structure Joined (prframe : RecvFrame) (rest : List RecvFrame) (loop : DefragLoop) : Prop where
  header : ∃ data room icvLen, loop.prframe = prframe.rebuffer data room icvLen
  keytrack : ∀ p ∈ rest, p.keytrack = prframe.keytrack
  numbers : rest.map (fun p => p.attrib.fragNum.toNat) = List.range' 1 rest.length
  curfragnum : loop.curfragnum = 1 + rest.length
  pns : Consecutive (curPnAfter 0 prframe :: fragmentPns rest)
  curPn : (curPnAfter 0 prframe :: fragmentPns rest).getLast? = some loop.curPn
  bound : loop.curPn.toNat < 2 ^ 48

theorem curPnAfter_lt {curPn : BitVec 64} (bound : curPn.toNat < 2 ^ 48) (f : RecvFrame) :
    (curPnAfter curPn f).toNat < 2 ^ 48 := by
  unfold curPnAfter
  split_ifs
  · exact ccmph2Pn_lt _
  · exact bound

theorem joined_start (prframe : RecvFrame) :
    Joined prframe [] ⟨prframe, curPnAfter 0 prframe, 1⟩ where
  header := ⟨_, _, _, rfl⟩
  keytrack := by simp
  numbers := rfl
  curfragnum := rfl
  pns := .singleton _
  curPn := rfl
  bound := curPnAfter_lt (by decide) prframe

theorem Joined.append {prframe pnextrframe : RecvFrame} {rest : List RecvFrame}
    {loop loop' : DefragLoop} (joined : Joined prframe rest loop)
    (passed : defragBody loop pnextrframe = some loop') :
    Joined prframe (rest ++ [pnextrframe]) loop' := by
  obtain ⟨pn, keytrack, fragNum, ⟨data, room, icvLen, written⟩, curPn, curfragnum⟩ :=
    defragBody_some passed
  obtain ⟨_, _, _, header⟩ := joined.header
  have fragments : fragmentPns (rest ++ [pnextrframe]) = fragmentPns rest ++
      (if pnextrframe.attrib.encrypt.hasPn then [pnextrframe.pn] else []) := by
    cases hasPn : pnextrframe.attrib.encrypt.hasPn <;> simp [fragmentPns, hasPn]
  constructor
  -- rewriting the buffer twice is rewriting it once
  case header => exact ⟨data, room, icvLen, by rw [written, header]; rfl⟩
  case keytrack =>
    intro p member
    cases mem_append.mp member with
    | inl earlier => exact joined.keytrack p earlier
    | inr last =>
      cases mem_singleton.mp last
      rw [keytrack, header]
      rfl
  case numbers =>
    rw [map_append, joined.numbers, length_append, List.range'_append_1.symm]
    simp [fragNum, joined.curfragnum]
  case curfragnum => rw [curfragnum, joined.curfragnum, length_append]; rfl
  case pns =>
    rw [fragments, Consecutive, ← cons_append]
    split_ifs with hasPn
    · apply isChain_append.mpr
      refine ⟨joined.pns, .singleton _, ?_⟩
      intro a isLast b isNew
      cases isNew
      rw [joined.curPn] at isLast
      cases isLast
      -- a packet number has 48 bits, so adding one does not wrap
      have bound := joined.bound
      rw [pn hasPn, BitVec.toNat_add, show BitVec.toNat (1 : BitVec 64) = 1 from rfl]
      omega
    · rw [append_nil]
      exact joined.pns
  case curPn =>
    -- a fragment without a packet number leaves `cur_pn` as it was
    rw [fragments, ← cons_append, curPn, curPnAfter.eq_def loop.curPn]
    split_ifs with hasPn
    · exact List.getLast?_concat
    · rw [append_nil]
      exact joined.curPn
  case bound =>
    rw [curPn]
    exact curPnAfter_lt joined.bound pnextrframe

theorem recvframeDefrag_cases (q : List RecvFrame) :
    recvframeDefrag q = ⟨none, q.map RecvFrame.slot⟩ ∨
      ∃ prframe rest loop, q = prframe :: rest ∧ prframe.attrib.fragNum = 0 ∧
        Joined prframe rest loop ∧
        recvframeDefrag q = ⟨some loop.prframe, rest.map RecvFrame.slot⟩ := by
  cases q with
  | nil => exact .inl rfl
  | cons prframe rest =>
    rw [recvframeDefrag]
    split_ifs with first
    · exact .inl rfl
    · cases finished : rest.foldlM defragBody ⟨prframe, curPnAfter 0 prframe, 1⟩ with
      | none => exact .inl rfl
      | some loop =>
        refine .inr ⟨prframe, rest, loop, rfl, not_not.mp first, ?_, rfl⟩
        refine Run.foldlM_invariant finished (joined_start prframe) ?_
        intro consumed s item s' holds passed
        exact holds.append passed

theorem defragOwner_some {stations : StaTable} {f : RecvFrame} {addr : MacAddr} {psta : StaInfo}
    (owner : defragOwner stations f = some (addr, psta)) :
    stations addr = some psta ∧ (addr ≠ bcAddr → f.attrib.ta = addr) := by
  unfold defragOwner at owner
  cases known : rtwGetStainfo stations f.attrib.ta with
  | some transmitter =>
    simp only [known, some.injEq, Prod.mk.injEq] at owner
    obtain ⟨rfl, rfl⟩ := owner
    exact ⟨known, eq_of_staAddr rfl⟩
  | none =>
    -- an unknown transmitter of anything but data
    simp only [known] at owner
    split_ifs at owner
    obtain ⟨broadcast, found, eq⟩ := map_eq_some_iff.mp owner
    cases eq
    rw [rtwGetStainfo, staAddr_bcAddr] at found
    exact ⟨found, fun other => absurd rfl other⟩

theorem queueFragment_cases :
    (f.isFragment = false ∧ queueFragment stations f = ⟨stations, some f, []⟩) ∨
    (f.isFragment = true ∧ queueFragment stations f = ⟨stations, none, [f.slot]⟩) ∨
    (∃ addr psta dropped kept, defragOwner stations f = some (addr, psta) ∧
      f.attrib.mfrag = true ∧ psta.defragQ = dropped ++ kept ∧
      queueFragment stations f = ⟨setDefragQ stations addr psta
        (kept ++ [{ f with keytrack := psta.keytrack }]), none, dropped.map RecvFrame.slot⟩) ∨
    (∃ addr psta, defragOwner stations f = some (addr, psta) ∧
      f.attrib.mfrag = false ∧ f.isFragment = true ∧ isMcast f.attrib.ra = false ∧
      queueFragment stations f = ⟨setDefragQ stations addr psta [],
        (recvframeDefrag (psta.defragQ ++ [{ f with keytrack := psta.keytrack }])).frame,
        (recvframeDefrag (psta.defragQ ++ [{ f with keytrack := psta.keytrack }])).freed⟩) := by
  unfold queueFragment
  split_ifs with whole group
  · exact .inl ⟨by simpa using whole, rfl⟩
  · exact .inr (.inl ⟨by simpa using whole, rfl⟩)
  · cases owner : defragOwner stations f with
    | none => exact .inr (.inl ⟨by simpa using whole, rfl⟩)
    | some queue =>
      obtain ⟨addr, psta⟩ := queue
      dsimp only
      split_ifs with more first
      -- a first fragment drops the whole queue, a later one keeps it whole
      · exact .inr (.inr (.inl ⟨addr, psta, psta.defragQ, [], rfl, more, by simp, rfl⟩))
      · exact .inr (.inr (.inl ⟨addr, psta, [], psta.defragQ, rfl, more, rfl, rfl⟩))
      · exact .inr (.inr (.inr ⟨addr, psta, rfl, by simpa using more, by simpa using whole,
          by simpa using group, rfl⟩))

theorem recvframeChkDefrag_stations (stations : StaTable) (f : RecvFrame) :
    (recvframeChkDefrag cr sec stations f).stations = (queueFragment stations f).stations := by
  -- the MIC check leaves the queues alone
  simp only [recvframeChkDefrag]
  cases (queueFragment stations f).frame with
  | none => rfl
  | some prtnframe =>
    dsimp only
    split_ifs
    · rfl
    · split <;> rfl

def ChkDefrag.slots (out : ChkDefrag) : List ℕ := (out.frame.map RecvFrame.slot).toList ++ out.freed

end Rtl88x2bu.Rx
