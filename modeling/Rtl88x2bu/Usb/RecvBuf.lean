import Rtl88x2bu.Basic
import Rtl88x2bu.Rx.Frame

/-!
# The bulk-in buffer

`recvbuf2recvframe` (`hal/rtl8822b/usb/rtl8822bu_recv.c`), with the bit positions of
`hal/halmac/halmac_rx_desc_nic.h`. Memory is a function from addresses to octets: the buffer starts
at address 0, and past the transferred octets lies whatever is there.
-/

namespace Rtl88x2bu.Usb

open List Option
open Rx

variable (desc : ℕ → UInt8)

def rxdescSize : ℕ := 24

def maxRecvbufSz : ℕ := 32768

/-! ## The descriptor -/

inductive RptType
  | normalRx
  | txReport1
  | txReport2
  | hisReport
  | c2hPacket
  deriving DecidableEq, Repr

structure RxDescAttrib extends RxPktAttrib where
  pktRptType : RptType := .normalRx
  crcErr : Bool := false
  icvErr : Bool := false
  drvinfoSz : ℕ := 0
  shiftSz : ℕ := 0
  deriving DecidableEq, Repr

def leDword (offset : ℕ) : BitVec 32 :=
  (desc (offset + 3)).toBitVec ++ (desc (offset + 2)).toBitVec ++ (desc (offset + 1)).toBitVec ++
    (desc offset).toBitVec

def securityType (field : BitVec 3) : SecurityType :=
  match field.toFin with
  | 0 => .noPrivacy
  | 1 => .wep40
  | 2 => .tkip
  | 3 => .tkipWtmic
  | 4 => .aes
  | 5 => .wep104
  | 6 => .sms4
  | 7 => .gcmp

/-- `rtl8822b_rxdesc2attribute`. Of a C2H packet only the length is read. -/
def rtl8822bRxdesc2attribute : RxDescAttrib :=
  let dword0 := leDword desc 0x00
  let dword1 := leDword desc 0x04
  let dword2 := leDword desc 0x08
  let pktLen := (dword0.extractLsb' 0 14).setWidth 16
  if dword2.getLsbD 28 then { pktLen, pktRptType := .c2hPacket }
  else
    { pktLen
      pktRptType := .normalRx
      crcErr := dword0.getLsbD 14
      icvErr := dword0.getLsbD 15
      drvinfoSz := (dword0.extractLsb' 16 4).toNat <<< 3
      encrypt := securityType (dword0.extractLsb' 20 3)
      qos := dword0.getLsbD 23
      shiftSz := (dword0.extractLsb' 24 2).toNat
      bdecrypted := !dword0.getLsbD 27
      priority := (dword1.extractLsb' 8 4).setWidth 8
      amsdu := dword1.getLsbD 13
      mfrag := dword1.getLsbD 27
      seqNum := dword2.extractLsb' 0 12
      fragNum := dword2.extractLsb' 12 4 }

def descAt (mem : ℕ → UInt8) (pbuf : ℕ) : RxDescAttrib :=
  rtl8822bRxdesc2attribute fun i => mem (pbuf + i)

def RxDescAttrib.pktOffset (a : RxDescAttrib) : ℕ :=
  rxdescSize + a.drvinfoSz + a.shiftSz + a.pktLen.toNat

def RxDescAttrib.hasError (a : RxDescAttrib) : Bool := a.crcErr || a.icvErr

/-! ## The walk -/

structure RecvbufConfig where
  mpMode : Bool := false
  -- the `WIFI_MONITOR_STATE` bit
  monitor : Bool := false
  -- `rtl8822b_rx_fcs_appended`
  fcsAppended : Bool := false

variable (cfg : RecvbufConfig)

structure RecvbufAnswers where
  recvframe : ℕ → Bool
  skb : ℕ → Bool

/-- What the walk does, with the frame of a turn known by the number of the turn. -/
inductive RecvbufEvent
  | allocRecvframe (turn : ℕ)
  | freeRecvframe (turn : ℕ)
  | queryRxDesc (pbuf : ℕ)
  | c2hHandler (pbuf transferLen : ℕ)
  | preRecvEntry (turn : ℕ) (attrib : RxDescAttrib) (pdata : ℕ)
  deriving DecidableEq, Repr

variable (events : List RecvbufEvent)

/-- The FCS is cut off by a subtraction of 16-bit numbers. -/
def stripFcs (a : RxDescAttrib) : RxDescAttrib :=
  if !cfg.monitor && cfg.fcsAppended then { a with pktLen := a.pktLen - 4 } else a

def proccessNormalRx (ans : RecvbufAnswers) (turn pbuf : ℕ) (a : RxDescAttrib) :
    Bool × List RecvbufEvent :=
  let a := stripFcs cfg a
  if ans.skb turn then
    (true, [.preRecvEntry turn a (pbuf + a.shiftSz + a.drvinfoSz + rxdescSize)])
  else (false, [.freeRecvframe turn])

/-- One turn of the loop, with the distance to the next unit unless the loop is left. -/
def recvbufTurn (mem : ℕ → UInt8) (ans : RecvbufAnswers) (turn pbuf transferLen : ℕ) :
    List RecvbufEvent × Option ℕ :=
  if !ans.recvframe turn then ([], none)
  else
    let a := descAt mem pbuf
    let opened := [.allocRecvframe turn, .queryRxDesc pbuf]
    if !cfg.mpMode && a.hasError then (opened ++ [.freeRecvframe turn], none)
    else if a.pktLen = 0 ∨ transferLen < a.pktOffset then
      (opened ++ [.freeRecvframe turn], none)
    else
      -- the source casts the rounded offset to `u16`
      let next := rnd8 a.pktOffset % 2 ^ 16
      match a.pktRptType with
      | .c2hPacket => (opened ++ [.freeRecvframe turn, .c2hHandler pbuf transferLen], some next)
      | .txReport1 | .txReport2 | .hisReport => (opened ++ [.freeRecvframe turn], some next)
      | .normalRx =>
        let (ok, events) := proccessNormalRx cfg ans turn pbuf a
        (opened ++ events, if ok then some next else none)

def recvbufLoop (cfg : RecvbufConfig) (mem : ℕ → UInt8) (ans : RecvbufAnswers) :
    (fuel turn pbuf transferLen : ℕ) → Option (List RecvbufEvent)
  | 0, _, _, _ => none
  | fuel + 1, turn, pbuf, transferLen =>
    match recvbufTurn cfg mem ans turn pbuf transferLen with
    | (events, none) => some events
    | (events, some next) =>
      if next < transferLen then
        (recvbufLoop cfg mem ans fuel (turn + 1) (pbuf + next) (transferLen - next)).map
          (events ++ ·)
      else some events

def recvbuf2recvframe (mem : ℕ → UInt8) (ans : RecvbufAnswers) (transferLen : ℕ) :
    Option (List RecvbufEvent) :=
  recvbufLoop cfg mem ans (transferLen + 1) 0 0 transferLen

/-! ## Reading a trace -/

def queried : List ℕ :=
  events.filterMap fun
    | .queryRxDesc pbuf => some pbuf
    | _ => none

def allocated : List ℕ :=
  events.filterMap fun
    | .allocRecvframe turn => some turn
    | _ => none

def freed : List ℕ :=
  events.filterMap fun
    | .freeRecvframe turn => some turn
    | _ => none

/-- The packets handed to `pre_recv_entry`: the turn, the attributes and where the packet starts. -/
def handed : List (ℕ × RxDescAttrib × ℕ) :=
  events.filterMap fun
    | .preRecvEntry turn a pdata => some (turn, a, pdata)
    | _ => none

def handedExtents : List Extent :=
  (handed events).map fun packet => ⟨packet.2.2, packet.2.1.pktLen.toNat⟩

section
variable (first rest : List RecvbufEvent)

@[simp]
theorem queried_append : queried (first ++ rest) = queried first ++ queried rest :=
  filterMap_append

@[simp]
theorem allocated_append : allocated (first ++ rest) = allocated first ++ allocated rest :=
  filterMap_append

@[simp]
theorem freed_append : freed (first ++ rest) = freed first ++ freed rest :=
  filterMap_append

@[simp]
theorem handed_append : handed (first ++ rest) = handed first ++ handed rest :=
  filterMap_append

@[simp]
theorem handedExtents_append :
    handedExtents (first ++ rest) = handedExtents first ++ handedExtents rest := by
  simp [handedExtents]

end

variable {cfg : RecvbufConfig} {a : RxDescAttrib} {mem : ℕ → UInt8} {turn pbuf left fuel : ℕ}

/-! ## One turn -/

theorem rtl8822bRxdesc2attribute_pktRptType : (rtl8822bRxdesc2attribute desc).pktRptType =
    .c2hPacket ∨ (rtl8822bRxdesc2attribute desc).pktRptType = .normalRx := by
  simp only [rtl8822bRxdesc2attribute]
  split_ifs
  · exact .inl rfl
  · exact .inr rfl

theorem rtl8822bRxdesc2attribute_pktOffset : rxdescSize ≤ (rtl8822bRxdesc2attribute desc).pktOffset
    ∧ (rtl8822bRxdesc2attribute desc).pktOffset < 2 ^ 15 := by
  -- a 14-bit length, 15 times 8 octets of driver information and 3 octets of shift at most
  have len := ((leDword desc 0).extractLsb' 0 14).isLt
  have info := ((leDword desc 0).extractLsb' 16 4).isLt
  have shift := ((leDword desc 0).extractLsb' 24 2).isLt
  simp only [rtl8822bRxdesc2attribute, RxDescAttrib.pktOffset, rxdescSize]
  split_ifs
  · simp only [BitVec.toNat_setWidth]
    omega
  · simp only [BitVec.toNat_setWidth, Nat.shiftLeft_eq]
    omega

def RxDescAttrib.unitSize (a : RxDescAttrib) : ℕ := rnd8 a.pktOffset

theorem RxDescAttrib.pktOffset_le_unitSize (a : RxDescAttrib) : a.pktOffset ≤ a.unitSize :=
  Align.le_roundUp 3 a.pktOffset

theorem descAt_unitSize (mem : ℕ → UInt8) (pbuf : ℕ) :
    rnd8 (descAt mem pbuf).pktOffset % 2 ^ 16 = (descAt mem pbuf).unitSize := by
  have small := (rtl8822bRxdesc2attribute_pktOffset fun i => mem (pbuf + i)).2
  have rounded := Align.roundUp_lt 3 (descAt mem pbuf).pktOffset
  apply Nat.mod_eq_of_lt
  simp only [descAt, rnd8] at *
  omega

/-- The walk ends at a unit: it has an error outside the test mode, or a length that cannot be. -/
def GivesUp (cfg : RecvbufConfig) (a : RxDescAttrib) (transferLen : ℕ) : Prop :=
  (cfg.mpMode = false ∧ a.hasError = true) ∨ a.pktLen = 0 ∨ transferLen < a.pktOffset

def packetAt (a : RxDescAttrib) (pbuf : ℕ) : ℕ := pbuf + a.shiftSz + a.drvinfoSz + rxdescSize

theorem recvbufTurn_cases (cfg : RecvbufConfig) (mem : ℕ → UInt8) (ans : RecvbufAnswers)
    (turn pbuf transferLen : ℕ) :
    let a := descAt mem pbuf
    let out := recvbufTurn cfg mem ans turn pbuf transferLen
    (ans.recvframe turn = false ∧ out = ([], none)) ∨
    ((GivesUp cfg a transferLen ∨ ans.skb turn = false ∧ a.pktRptType = .normalRx) ∧
      out = ([.allocRecvframe turn, .queryRxDesc pbuf, .freeRecvframe turn], none)) ∨
    (¬ GivesUp cfg a transferLen ∧ a.pktRptType = .c2hPacket ∧
      out = ([.allocRecvframe turn, .queryRxDesc pbuf, .freeRecvframe turn,
        .c2hHandler pbuf transferLen], some a.unitSize)) ∨
    (¬ GivesUp cfg a transferLen ∧ a.pktRptType = .normalRx ∧
      out = ([.allocRecvframe turn, .queryRxDesc pbuf,
        .preRecvEntry turn (stripFcs cfg a) (packetAt a pbuf)], some a.unitSize)) := by
  have size := descAt_unitSize mem pbuf
  have kind : (descAt mem pbuf).pktRptType = .c2hPacket ∨
      (descAt mem pbuf).pktRptType = .normalRx :=
    rtl8822bRxdesc2attribute_pktRptType fun i => mem (pbuf + i)
  simp only [recvbufTurn, size]
  by_cases available : ans.recvframe turn = true
  · by_cases error : cfg.mpMode = false ∧ (descAt mem pbuf).hasError = true
    · exact .inr (.inl ⟨.inl (.inl error), by simp [available, error]⟩)
    · have passes : (!cfg.mpMode && (descAt mem pbuf).hasError) = false := by
        rw [← Bool.not_eq_true]
        simpa using error
      by_cases bad : (descAt mem pbuf).pktLen = 0 ∨ transferLen < (descAt mem pbuf).pktOffset
      · refine .inr (.inl ⟨.inl (.inr bad), ?_⟩)
        simp only [available, passes, Bool.not_true, Bool.false_eq_true, if_false, if_pos bad]
        rfl
      · have goesOn : ¬ GivesUp cfg (descAt mem pbuf) transferLen :=
          fun gives => gives.elim error bad
        simp only [available, passes, Bool.not_true, Bool.false_eq_true, if_false, if_neg bad]
        rcases kind with c2h | normal
        · exact .inr (.inr (.inl ⟨goesOn, c2h, by simp [c2h]⟩))
        · have stripped : packetAt (stripFcs cfg (descAt mem pbuf)) pbuf =
              packetAt (descAt mem pbuf) pbuf := by
            simp only [stripFcs]
            split_ifs <;> rfl
          cases memory : ans.skb turn with
          | true =>
            refine .inr (.inr (.inr ⟨goesOn, normal, ?_⟩))
            simp only [normal, proccessNormalRx, memory, if_true, ← stripped]
            rfl
          | false =>
            refine .inr (.inl ⟨.inr ⟨rfl, normal⟩, ?_⟩)
            simp [normal, proccessNormalRx, memory]
  · have none : ans.recvframe turn = false := by simpa using available
    exact .inl ⟨none, by simp [none]⟩

/-! ## The walk is orderly -/

/-- Each frame that was allocated has been freed or handed on, once. -/
structure FramesSettled (events : List RecvbufEvent) : Prop where
  settled : (freed events ++ (handed events).map Prod.fst).Perm (allocated events)
  once : (allocated events).Nodup

theorem FramesSettled.append {first rest : List RecvbufEvent} (one : FramesSettled first)
    (other : FramesSettled rest)
    (apart : ∀ turn ∈ allocated first, turn ∉ allocated rest) : FramesSettled (first ++ rest) where
  settled := by
    simp only [freed_append, handed_append, allocated_append, map_append]
    refine List.Perm.trans ?_ (one.settled.append other.settled)
    -- what was freed later and what was handed on earlier change places
    simp only [append_assoc]
    refine List.Perm.append_left _ ?_
    rw [← append_assoc, ← append_assoc]
    exact perm_append_comm.append_right _
  once := by
    rw [allocated_append, nodup_append]
    exact ⟨one.once, other.once, fun a inFirst b inRest same => apart a inFirst (same ▸ inRest)⟩

structure RecvbufContained (events : List RecvbufEvent) (lo hi : ℕ) : Prop where
  reads : ∀ pbuf ∈ queried events, pbuf + rxdescSize ≤ hi
  inside : ∀ x ∈ handedExtents events, lo ≤ x.start ∧ x.start + x.len ≤ hi
  apart : (handedExtents events).Pairwise fun x y => x.start + x.len ≤ y.start

theorem RecvbufContained.append {first rest : List RecvbufEvent} {lo mid hi : ℕ}
    (ordered : lo ≤ mid)
    (within : mid ≤ hi) (one : RecvbufContained first lo mid)
    (other : RecvbufContained rest mid hi) : RecvbufContained (first ++ rest) lo hi where
  reads pbuf member := by
    rw [queried_append, mem_append] at member
    rcases member with early | late
    · exact (one.reads pbuf early).trans within
    · exact other.reads pbuf late
  inside x member := by
    rw [handedExtents_append, mem_append] at member
    rcases member with early | late
    · exact ⟨(one.inside x early).1, (one.inside x early).2.trans within⟩
    · exact ⟨ordered.trans (other.inside x late).1, (other.inside x late).2⟩
  apart := by
    rw [handedExtents_append, pairwise_append]
    refine ⟨one.apart, other.apart, ?_⟩
    intro x early y late
    exact (one.inside x early).2.trans (other.inside y late).1

def ShortForFcs (cfg : RecvbufConfig) (a : RxDescAttrib) : Prop :=
  cfg.monitor = false ∧ cfg.fcsAppended = true ∧ a.pktRptType = .normalRx ∧ a.pktLen.toNat < 4

/-- There is room for a descriptor wherever the walk looks for one, and no packet is too short for
its FCS. -/
inductive WellFramed (cfg : RecvbufConfig) (mem : ℕ → UInt8) : (pbuf left : ℕ) → Prop
  | unit {pbuf left : ℕ} (room : rxdescSize ≤ left)
      (packet : ¬ GivesUp cfg (descAt mem pbuf) left → ¬ ShortForFcs cfg (descAt mem pbuf))
      (rest : ¬ GivesUp cfg (descAt mem pbuf) left → (descAt mem pbuf).unitSize < left →
        WellFramed cfg mem (pbuf + (descAt mem pbuf).unitSize)
          (left - (descAt mem pbuf).unitSize)) :
      WellFramed cfg mem pbuf left

theorem stripFcs_pktLen (normal : a.pktRptType = .normalRx) (long : ¬ ShortForFcs cfg a) :
    (stripFcs cfg a).pktLen.toNat ≤ a.pktLen.toNat := by
  simp only [stripFcs]
  split_ifs with strips
  · have enough : ¬ a.pktLen.toNat < 4 := by
      intro short
      refine long ⟨?_, ?_, normal, short⟩ <;> simp_all
    have bound := a.pktLen.isLt
    have four : (4 : BitVec 16).toNat = 4 := rfl
    rw [BitVec.toNat_sub, four]
    omega
  · exact le_rfl

theorem descAt_unitSize_pos (mem : ℕ → UInt8) (pbuf : ℕ) :
    rxdescSize ≤ (descAt mem pbuf).unitSize :=
  (rtl8822bRxdesc2attribute_pktOffset fun i => mem (pbuf + i)).1.trans
    (RxDescAttrib.pktOffset_le_unitSize _)

theorem recvbufTurn_settled (cfg : RecvbufConfig) (mem : ℕ → UInt8) (ans : RecvbufAnswers)
    (turn pbuf left : ℕ) :
    FramesSettled (recvbufTurn cfg mem ans turn pbuf left).1 ∧
      ∀ t ∈ allocated (recvbufTurn cfg mem ans turn pbuf left).1, t = turn := by
  rcases recvbufTurn_cases cfg mem ans turn pbuf left with ⟨_, out⟩ | ⟨_, out⟩ | ⟨_, _, out⟩ |
    ⟨_, _, out⟩
  all_goals
    rw [out]
    refine ⟨⟨?_, ?_⟩, ?_⟩ <;> simp [freed, handed, allocated]

theorem recvbufTurn_next {ans : RecvbufAnswers} {next : ℕ}
    (goesOn : (recvbufTurn cfg mem ans turn pbuf left).2 = some next) :
    ¬ GivesUp cfg (descAt mem pbuf) left ∧ next = (descAt mem pbuf).unitSize := by
  rcases recvbufTurn_cases cfg mem ans turn pbuf left with ⟨_, out⟩ | ⟨_, out⟩ | ⟨fine, _, out⟩ |
    ⟨fine, _, out⟩
  · rw [out] at goesOn
    cases goesOn
  · rw [out] at goesOn
    cases goesOn
  · rw [out] at goesOn
    cases goesOn
    exact ⟨fine, rfl⟩
  · rw [out] at goesOn
    cases goesOn
    exact ⟨fine, rfl⟩

theorem recvbufLoop_settled (cfg : RecvbufConfig) (mem : ℕ → UInt8) (ans : RecvbufAnswers)
    (turn pbuf : ℕ) (enough : left < fuel) :
    ∃ events, recvbufLoop cfg mem ans fuel turn pbuf left = some events ∧
      FramesSettled events ∧ ∀ t ∈ allocated events, turn ≤ t := by
  induction fuel generalizing turn pbuf left with
  | zero => cases enough
  | succ fuel ih =>
    obtain ⟨settled, own⟩ := recvbufTurn_settled cfg mem ans turn pbuf left
    simp only [recvbufLoop]
    cases result : recvbufTurn cfg mem ans turn pbuf left with
    | mk events next =>
      rw [result] at settled own
      have least : ∀ t ∈ allocated events, turn ≤ t := fun t member => (own t member).ge
      cases next with
      | none => exact ⟨events, rfl, settled, least⟩
      | some next =>
        dsimp only
        split_ifs with more
        · -- a unit takes some of the octets, so the rest needs fewer turns
          have size := (recvbufTurn_next (by rw [result])).2 ▸ descAt_unitSize_pos mem pbuf
          have fewer : left - next < fuel := by
            simp only [rxdescSize] at size
            omega
          obtain ⟨rest, run, restSettled, later⟩ := ih (turn + 1) (pbuf + next) fewer
          refine ⟨events ++ rest, by rw [run]; rfl, settled.append restSettled ?_, ?_⟩
          · intro t early late
            have before := own t early
            have after := later t late
            omega
          · intro t member
            rw [allocated_append, mem_append] at member
            rcases member with early | late
            · exact least t early
            · exact Nat.le_of_succ_le (later t late)
        · exact ⟨events, rfl, settled, least⟩

theorem recvbufTurn_contained (ans : RecvbufAnswers) (turn hi : ℕ) (room : pbuf + rxdescSize ≤ hi)
    (packet : ¬ GivesUp cfg (descAt mem pbuf) left → ¬ ShortForFcs cfg (descAt mem pbuf) ∧
      pbuf + (descAt mem pbuf).pktOffset ≤ hi) :
    RecvbufContained (recvbufTurn cfg mem ans turn pbuf left).1 pbuf hi := by
  rcases recvbufTurn_cases cfg mem ans turn pbuf left with ⟨_, out⟩ | ⟨_, out⟩ | ⟨_, _, out⟩ |
    ⟨goesOn, normal, out⟩
  · rw [out]
    constructor <;> simp [queried, handedExtents, handed]
  · rw [out]
    constructor <;> simp [queried, handedExtents, handed, room]
  · rw [out]
    constructor <;> simp [queried, handedExtents, handed, room]
  · obtain ⟨long, fits⟩ := packet goesOn
    have stripped := stripFcs_pktLen normal long
    have extent : packetAt (descAt mem pbuf) pbuf + (stripFcs cfg (descAt mem pbuf)).pktLen.toNat ≤
        hi := by
      simp only [packetAt, RxDescAttrib.pktOffset] at *
      omega
    have start : pbuf ≤ packetAt (descAt mem pbuf) pbuf := by
      simp only [packetAt]
      omega
    rw [out]
    constructor <;> simp [queried, handedExtents, handed, room, start, extent]

theorem GivesUp.fits (goesOn : ¬ GivesUp cfg a left) : a.pktOffset ≤ left := by
  by_contra long
  exact goesOn (.inr (.inr (Nat.lt_of_not_le long)))

theorem recvbufLoop_contained {ans : RecvbufAnswers} {events : List RecvbufEvent}
    (framed : WellFramed cfg mem pbuf left)
    (run : recvbufLoop cfg mem ans fuel turn pbuf left = some events) :
    RecvbufContained events pbuf (pbuf + left) := by
  induction fuel generalizing turn pbuf left events with
  | zero => cases run
  | succ fuel ih =>
    obtain ⟨room, packet, rest⟩ := framed
    have whole := recvbufTurn_contained ans turn (pbuf + left) (Nat.add_le_add_left room pbuf)
      fun goesOn => ⟨packet goesOn, Nat.add_le_add_left (GivesUp.fits goesOn) pbuf⟩
    simp only [recvbufLoop] at run
    cases result : recvbufTurn cfg mem ans turn pbuf left with
    | mk first next =>
      rw [result] at run whole
      cases next with
      | none =>
        cases run
        exact whole
      | some next =>
        obtain ⟨goesOn, rfl⟩ := recvbufTurn_next (by rw [result])
        dsimp only at run
        split_ifs at run with more
        · obtain ⟨later, laterRun, rfl⟩ := map_eq_some_iff.mp run
          -- the unit ends before the next descriptor
          have own := recvbufTurn_contained ans turn (pbuf + (descAt mem pbuf).unitSize)
            (Nat.add_le_add_left (descAt_unitSize_pos mem pbuf) pbuf)
            fun goesOn => ⟨packet goesOn,
              Nat.add_le_add_left (RxDescAttrib.pktOffset_le_unitSize _) pbuf⟩
          rw [result] at own
          have others := ih (rest goesOn more) laterRun
          have end' : pbuf + (descAt mem pbuf).unitSize + (left - (descAt mem pbuf).unitSize) =
              pbuf + left := by omega
          rw [end'] at others
          exact own.append (Nat.le_add_right _ _) (Nat.add_le_add_left more.le pbuf) others
        · cases run
          exact whole

def allAvailable : RecvbufAnswers where
  recvframe _ := true
  skb _ := true

theorem stripFcs_short (nonempty : a.pktLen ≠ 0) (short : ShortForFcs cfg a) :
    maxRecvbufSz < (stripFcs cfg a).pktLen.toNat := by
  obtain ⟨monitor, appended, _, len⟩ := short
  have positive : 0 < a.pktLen.toNat := by
    apply Nat.pos_of_ne_zero
    intro zero
    exact nonempty (BitVec.eq_of_toNat_eq zero)
  have four : (4 : BitVec 16).toNat = 4 := rfl
  simp only [stripFcs, monitor, appended, Bool.not_false, Bool.and_self, if_true]
  rw [BitVec.toNat_sub, four, maxRecvbufSz]
  omega

theorem wellFramed_of_contained {events : List RecvbufEvent} (small : pbuf + left ≤ maxRecvbufSz)
    (run : recvbufLoop cfg mem allAvailable fuel turn pbuf left = some events)
    (reads : ∀ q ∈ queried events, q + rxdescSize ≤ pbuf + left)
    (inside : ∀ x ∈ handedExtents events, x.start + x.len ≤ pbuf + left) :
    WellFramed cfg mem pbuf left := by
  induction fuel generalizing turn pbuf left events with
  | zero => cases run
  | succ fuel ih =>
    simp only [recvbufLoop] at run
    set size := (descAt mem pbuf).unitSize
    -- the rest of the walk after a unit of which `first` is the trace
    have goOn (first) (run : (if size < left then
          (recvbufLoop cfg mem allAvailable fuel (turn + 1) (pbuf + size) (left - size)).map
            (first ++ ·)
        else some first) = some events) :
        (∃ rest, events = first ++ rest) ∧
          (size < left → WellFramed cfg mem (pbuf + size) (left - size)) := by
      split_ifs at run with more
      · obtain ⟨rest, restRun, rfl⟩ := map_eq_some_iff.mp run
        have same : pbuf + size + (left - size) = pbuf + left := by omega
        refine ⟨⟨rest, rfl⟩, fun _ => ih (by omega) restRun ?_ ?_⟩
        · intro q member
          rw [same]
          exact reads q (by simp [member])
        · intro x member
          rw [same]
          exact inside x (by simp [member])
      · cases run
        exact ⟨⟨[], by simp⟩, fun fits => absurd fits more⟩
    rcases recvbufTurn_cases cfg mem allAvailable turn pbuf left with ⟨unavailable, _⟩ |
      ⟨gives, out⟩ | ⟨_, c2h, out⟩ | ⟨goesOn, normal, out⟩
    · cases unavailable
    · rw [out] at run
      cases run
      have up : GivesUp cfg (descAt mem pbuf) left := gives.resolve_right fun no => by cases no.1
      have room := reads pbuf (by simp [queried])
      exact .unit (by omega) (fun goesOn => absurd up goesOn) fun goesOn => absurd up goesOn
    · rw [out] at run
      obtain ⟨⟨rest, rfl⟩, framed⟩ := goOn _ run
      have room := reads pbuf (by simp [queried])
      refine .unit (by omega) (fun _ short => ?_) fun _ => framed
      have normal := short.2.2.1
      rw [c2h] at normal
      cases normal
    · rw [out] at run
      obtain ⟨⟨rest, rfl⟩, framed⟩ := goOn _ run
      have room := reads pbuf (by simp [queried])
      refine .unit (by omega) (fun _ short => ?_) fun _ => framed
      have huge := stripFcs_short (fun empty => goesOn (.inr (.inl empty))) short
      have bounded := inside ⟨packetAt (descAt mem pbuf) pbuf, _⟩
        (by rw [handedExtents_append]; exact mem_append_left _ mem_cons_self)
      dsimp only at bounded
      omega

/-- The walk over a bulk-in buffer ends, reads descriptors and hands on packets inside the
transferred octets only, in order and apart from each other, and settles every frame once, whatever
can be allocated on the way, exactly when the buffer is well framed. -/
theorem recvbuf2recvframe_contained_iff (cfg : RecvbufConfig) (mem : ℕ → UInt8) {transferLen : ℕ}
    (bounded : transferLen ≤ maxRecvbufSz) :
    (∀ ans, ∃ events, recvbuf2recvframe cfg mem ans transferLen = some events ∧
      RecvbufContained events 0 transferLen ∧ FramesSettled events) ↔
      WellFramed cfg mem 0 transferLen := by
  constructor
  · intro contained
    obtain ⟨events, run, inside, _⟩ := contained allAvailable
    exact wellFramed_of_contained (by omega) run (by simpa using inside.reads)
      fun x member => by simpa using (inside.inside x member).2
  · intro framed ans
    obtain ⟨events, run, settled, _⟩ := recvbufLoop_settled cfg mem ans 0 0
      (Nat.lt_succ_self transferLen)
    have inside := recvbufLoop_contained framed run
    rw [Nat.zero_add] at inside
    exact ⟨events, run, inside, settled⟩

def memOf (octets : List UInt8) (i : ℕ) : UInt8 := octets.getD i 0

def plainUnit (len : UInt8) : List UInt8 := len :: List.replicate (23 + len.toNat) 0

theorem recvbuf2recvframe_contained_one :
    ∃ events, recvbuf2recvframe {} (memOf (plainUnit 8)) allAvailable 32 = some events ∧
      RecvbufContained events 0 32 ∧ FramesSettled events := by
  refine (recvbuf2recvframe_contained_iff {} (memOf (plainUnit 8)) (by decide)).mpr ?_ allAvailable
  refine .unit (by decide) (fun _ short => ?_) fun _ more => absurd more (by decide)
  cases short.2.1

theorem recvbuf2recvframe_strays :
    (¬ ∀ (cfg : RecvbufConfig) (mem : ℕ → UInt8) (ans : RecvbufAnswers) (transferLen : ℕ),
      rxdescSize ≤ transferLen → transferLen ≤ maxRecvbufSz →
      ∃ events, recvbuf2recvframe cfg mem ans transferLen = some events ∧
        RecvbufContained events 0 transferLen ∧ FramesSettled events) ∧
    (recvbuf2recvframe { fcsAppended := true } (memOf (plainUnit 2)) allAvailable 32).map
      handedExtents = some [⟨24, 65534⟩] := by
  refine ⟨?_, by decide +kernel⟩
  intro claimed
  obtain ⟨events, run, contained, _⟩ :=
    claimed {} (memOf (plainUnit 8)) allAvailable 40 (by decide) (by decide)
  have read : (recvbuf2recvframe {} (memOf (plainUnit 8)) allAvailable 40).map queried =
      some [0, 32] := by decide +kernel
  rw [run, map_some, some.injEq] at read
  -- the eight octets left over are taken for a descriptor
  have inside := contained.reads 32 (by rw [read]; decide)
  exact absurd inside (by decide)

end Rtl88x2bu.Usb
