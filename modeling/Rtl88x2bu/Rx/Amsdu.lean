import Rtl88x2bu.Rx.Llc

/-!
# Taking an A-MSDU apart

`amsdu_to_msdu` (`core/rtw_recv.c`). The check of a subframe's addresses is a parameter. Buffers for
the packets can be allocated, and `rtw_recv_indicatepkt_check` lets every packet pass without WAPI.
-/

namespace Rtl88x2bu.Rx

open List

/-! ## The function -/

structure MsduAct where
  indicate : Bool
  forward : Bool
  deriving DecidableEq, Repr

structure AmsduEnv where
  -- `amsdu_mode` is `RTW_AMSDU_MODE_NON_SPP`
  nonSpp : Bool
  dot11PrivacyAlgrthm : SecurityType
  -- `rtw_ap_rx_msdu_act_check` or `rtw_sta_rx_amsdu_act_check`
  actCheck : MacAddr → MacAddr → List UInt8 → LlcHdl → MsduAct

def ethHdrSize : ℕ := 14
def maxSubframeCount : ℕ := 64

structure Subframe where
  da : MacAddr
  sa : MacAddr
  msdu : List UInt8
  deriving DecidableEq, Repr

def subframeLength (body : List UInt8) (pdata : ℕ) : ℕ := (be16At body (pdata + 12)).toNat

def subframeAt (body : List UInt8) (pdata : ℕ) : Subframe where
  da := macAt body pdata
  sa := macAt body (pdata + 6)
  msdu := (body.drop (pdata + ethHdrSize)).take (subframeLength body pdata)

def Subframe.llcHdl (sub : Subframe) : LlcHdl :=
  recvLlcParse sub.msdu (BitVec.ofNat 16 sub.msdu.length)

def validateAmsduContent (env : AmsduEnv) (attrib : RxPktAttrib) (da sa : MacAddr) : Status :=
  if env.nonSpp ∧ env.dot11PrivacyAlgrthm ≠ .noPrivacy then
    if attrib.toFrDs = 2 ∧ da ≠ attrib.ra then .fail
    else if attrib.toFrDs = 1 ∧ sa ≠ attrib.ta then .fail
    else if da.toList = rfc1042Header then .fail
    else .success
  else .success

def allocMsduPkt (da sa : MacAddr) (msdu : List UInt8) (llcHdl : LlcHdl) : List UInt8 :=
  match llcHdl with
  | .remove => da.toList ++ (sa.toList ++ msdu.drop snapSize)
  | .keep => da.toList ++ (sa.toList ++ (putBe16 (BitVec.ofNat 16 msdu.length) ++ msdu))

def paddingLen (length : ℕ) : ℕ :=
  let padding := 4 - (length + ethHdrSize) % 4
  if padding = 4 then 0 else padding

structure AmsduLoop where
  pdata : ℕ := 0
  subframes : List (List UInt8) := []
  forwarded : List (List UInt8) := []
  -- not in the source: every access so far was inside the body
  inside : Bool := true

inductive Round
  | done (loop : AmsduLoop)
  | next (loop : AmsduLoop)

section

variable (env : AmsduEnv) (attrib : RxPktAttrib) (body : List UInt8)

def AmsduLoop.touch (loop : AmsduLoop) (base n : ℕ) : AmsduLoop :=
  { loop with inside := loop.inside && decide (n = 0 ∨ base + n ≤ body.length) }

def AmsduLoop.deliver (loop : AmsduLoop) (sub : Subframe) : AmsduLoop :=
  let act := env.actCheck sub.da sub.sa sub.msdu sub.llcHdl
  if !act.indicate && !act.forward then loop
  else
    let loop := loop.touch body (loop.pdata + ethHdrSize) sub.msdu.length
    let subPkt := allocMsduPkt sub.da sub.sa sub.msdu sub.llcHdl
    let loop := if act.forward then { loop with forwarded := loop.forwarded ++ [subPkt] } else loop
    if act.indicate then { loop with subframes := loop.subframes ++ [subPkt] } else loop

def AmsduLoop.moveToNext (loop : AmsduLoop) (length : ℕ) : Round :=
  if loop.subframes.length ≥ maxSubframeCount then .done loop
  else
    let loop := { loop with pdata := loop.pdata + ethHdrSize + length }
    if body.length - loop.pdata ≠ 0 then
      if body.length - loop.pdata < paddingLen length then .done loop
      else .next { loop with pdata := loop.pdata + paddingLen length }
    else .next loop

def amsduRound (loop : AmsduLoop) : Round :=
  let aLen := body.length - loop.pdata
  if aLen ≤ ethHdrSize then .done loop
  else
    let loop := loop.touch body (loop.pdata + 12) 2
    let length := subframeLength body loop.pdata
    if aLen < ethHdrSize + length then .done loop
    else
      let loop := loop.touch body loop.pdata 12
      let sub := subframeAt body loop.pdata
      if validateAmsduContent env attrib sub.da sub.sa = .fail then .done loop
      else
        -- `rtw_recv_llc_parse` looks at eight bytes
        let loop := loop.touch body (loop.pdata + ethHdrSize) (if length < 8 then 0 else 8)
        (loop.deliver env body sub).moveToNext body length

def amsduRounds : ℕ → AmsduLoop → Option AmsduLoop
  | 0, _ => none
  | fuel + 1, loop =>
    match amsduRound env attrib body loop with
    | .done loop => some loop
    | .next loop => amsduRounds fuel loop

end

def amsduBody (f : RecvFrame) : List UInt8 :=
  let f := recvframePull f f.attrib.hdrlen
  let f := if f.attrib.ivLen > 0 then recvframePull f f.attrib.ivLen else f
  let f := if f.attrib.encrypt ≠ .noPrivacy then recvframePullTail f f.attrib.icvLen else f
  f.rxData

def amsduToMsdu (env : AmsduEnv) (f : RecvFrame) : Option AmsduLoop :=
  amsduRounds env f.attrib (amsduBody f) ((amsduBody f).length + 1) {}

/-! ## The subframes of a body -/

/-- The subframes from an offset on: 14 bytes of header and more, the length in them, and padding to
a multiple of four. -/
def subframesFrom (body : List UInt8) (offset : ℕ) : List Subframe :=
  if body.length - offset ≤ ethHdrSize then []
  else if body.length - offset < ethHdrSize + subframeLength body offset then []
  else
    subframeAt body offset :: subframesFrom body
      (offset + ethHdrSize + subframeLength body offset + paddingLen (subframeLength body offset))
termination_by body.length - offset
decreasing_by
  simp only [ethHdrSize] at *
  omega

section Delivered

variable (env : AmsduEnv) (attrib : RxPktAttrib)

def Subframe.valid (sub : Subframe) : Bool :=
  validateAmsduContent env attrib sub.da sub.sa != .fail

def Subframe.indicated (sub : Subframe) : Bool :=
  (env.actCheck sub.da sub.sa sub.msdu sub.llcHdl).indicate

def Subframe.packet (sub : Subframe) : List UInt8 :=
  allocMsduPkt sub.da sub.sa sub.msdu sub.llcHdl

/-- The packets of the subframes that are indicated, up to the first that is refused. -/
def delivered (subs : List Subframe) : List (List UInt8) :=
  ((subs.takeWhile (Subframe.valid env attrib)).filter (Subframe.indicated env)).map Subframe.packet

def Subframe.packets (sub : Subframe) : List (List UInt8) :=
  if sub.indicated env then [sub.packet] else []

variable {env attrib}

theorem delivered_nil : delivered env attrib [] = [] := rfl

theorem delivered_cons_of_valid {sub : Subframe} (subs : List Subframe)
    (valid : validateAmsduContent env attrib sub.da sub.sa ≠ .fail) :
    delivered env attrib (sub :: subs) = sub.packets env ++ delivered env attrib subs := by
  have passes : sub.valid env attrib = true := bne_iff_ne.mpr valid
  rw [delivered, takeWhile_cons_of_pos passes, filter_cons, Subframe.packets]
  split <;> rfl

theorem delivered_cons_of_refused {sub : Subframe} (subs : List Subframe)
    (refused : validateAmsduContent env attrib sub.da sub.sa = .fail) :
    delivered env attrib (sub :: subs) = [] := by
  have fails : ¬ sub.valid env attrib = true := fun valid => bne_iff_ne.mp valid refused
  rw [delivered, takeWhile_cons_of_neg fails]
  rfl

end Delivered

theorem subframesFrom_of_short {body : List UInt8} {offset : ℕ}
    (short : body.length - offset ≤ ethHdrSize) : subframesFrom body offset = [] := by
  rw [subframesFrom, if_pos short]

/-! ## What a round does -/

section Rounds

variable {env : AmsduEnv} {attrib : RxPktAttrib} {body : List UInt8} {loop out : AmsduLoop}

/-- The packets in the end: those the loop has and those of the subframes to come, in an array of
64. -/
def AmsduLoop.aim (env : AmsduEnv) (attrib : RxPktAttrib) (body : List UInt8) (loop : AmsduLoop) :
    List (List UInt8) :=
  loop.subframes ++ (delivered env attrib (subframesFrom body loop.pdata)).take
    (maxSubframeCount - loop.subframes.length)

theorem touch_inside {base n : ℕ} (inside : loop.inside = true)
    (fits : n = 0 ∨ base + n ≤ body.length) : (loop.touch body base n).inside = true := by
  rw [AmsduLoop.touch, inside, decide_eq_true fits]
  rfl

theorem deliver_spec (sub : Subframe)
    (fits : loop.pdata + ethHdrSize + sub.msdu.length ≤ body.length) :
    (loop.deliver env body sub).pdata = loop.pdata ∧
    (loop.deliver env body sub).subframes = loop.subframes ++ sub.packets env ∧
    (loop.inside = true → (loop.deliver env body sub).inside = true) := by
  have touched (inside : loop.inside = true) := touch_inside inside (.inr fits)
  unfold AmsduLoop.deliver Subframe.packets Subframe.indicated
  cases act : env.actCheck sub.da sub.sa sub.msdu sub.llcHdl with
  | mk indicate forward =>
    cases indicate <;> cases forward
    · exact ⟨rfl, (append_nil _).symm, id⟩
    · exact ⟨rfl, (append_nil _).symm, touched⟩
    · exact ⟨rfl, rfl, touched⟩
    · exact ⟨rfl, rfl, touched⟩

theorem moveToNext_spec {length : ℕ} {goal : List (List UInt8)}
    (fits : loop.pdata + ethHdrSize + length ≤ body.length)
    (rest : goal = loop.subframes ++ (delivered env attrib (subframesFrom body
      (loop.pdata + ethHdrSize + length + paddingLen length))).take
        (maxSubframeCount - loop.subframes.length)) :
    (∀ out, loop.moveToNext body length = .done out →
      out.subframes = goal ∧ out.inside = loop.inside) ∧
    ∀ out, loop.moveToNext body length = .next out →
      out.subframes.length < maxSubframeCount ∧ out.aim env attrib body = goal ∧
        out.inside = loop.inside ∧ loop.pdata + ethHdrSize ≤ out.pdata := by
  have behind (offset : ℕ) (beyond : body.length ≤ offset) : subframesFrom body offset = [] :=
    subframesFrom_of_short (by omega)
  unfold AmsduLoop.moveToNext
  split
  · -- the array is full
    next full =>
    refine ⟨?_, nofun⟩
    rintro _ ⟨⟩
    rw [rest, Nat.sub_eq_zero_of_le full, take_zero, append_nil]
    exact ⟨rfl, rfl⟩
  next room =>
  dsimp only
  split
  · split
    · -- the padding is not there
      next cut =>
      refine ⟨?_, nofun⟩
      rintro _ ⟨⟩
      rw [rest, behind _ (by omega), delivered_nil, take_nil, append_nil]
      exact ⟨rfl, rfl⟩
    · refine ⟨nofun, ?_⟩
      rintro _ ⟨⟩
      exact ⟨Nat.not_le.mp room, rest.symm, rfl, by simp only; omega⟩
  · -- the body is exhausted
    next exhausted =>
    refine ⟨nofun, ?_⟩
    rintro _ ⟨⟩
    refine ⟨Nat.not_le.mp room, ?_, rfl, by simp only; omega⟩
    rw [rest, AmsduLoop.aim, behind _ (by simp only; omega), behind _ (by omega)]

theorem aim_cons {sub : Subframe} {subs : List Subframe} {taken : List (List UInt8)}
    (room : taken.length < maxSubframeCount)
    (valid : validateAmsduContent env attrib sub.da sub.sa ≠ .fail) :
    taken ++ (delivered env attrib (sub :: subs)).take (maxSubframeCount - taken.length) =
      taken ++ sub.packets env ++ (delivered env attrib subs).take
        (maxSubframeCount - (taken ++ sub.packets env).length) := by
  have one : (sub.packets env).length ≤ 1 := by
    unfold Subframe.packets
    split <;> simp
  rw [delivered_cons_of_valid subs valid, take_append,
    take_of_length_le (show _ ≤ maxSubframeCount - taken.length by omega),
    length_append, Nat.sub_add_eq, append_assoc]

def AmsduLoop.checked (body : List UInt8) (loop : AmsduLoop) : AmsduLoop :=
  (loop.touch body (loop.pdata + 12) 2).touch body loop.pdata 12

theorem checked_inside (long : loop.pdata + ethHdrSize ≤ body.length)
    (inside : loop.inside = true) : (loop.checked body).inside = true := by
  have size : ethHdrSize = 14 := rfl
  have length_read := touch_inside inside (.inr (show loop.pdata + 12 + 2 ≤ body.length by omega))
  exact touch_inside length_read (.inr (show loop.pdata + 12 ≤ body.length by omega))

def AmsduLoop.served (env : AmsduEnv) (body : List UInt8) (loop : AmsduLoop) : AmsduLoop :=
  ((loop.checked body).touch body (loop.pdata + ethHdrSize)
    (if subframeLength body loop.pdata < 8 then 0 else 8)).deliver env body
      (subframeAt body loop.pdata)

theorem served_spec
    (fits : loop.pdata + ethHdrSize + subframeLength body loop.pdata ≤ body.length) :
    (loop.served env body).pdata = loop.pdata ∧
    (loop.served env body).subframes =
      loop.subframes ++ (subframeAt body loop.pdata).packets env ∧
    (loop.inside = true → (loop.served env body).inside = true) := by
  have msdu_length : (subframeAt body loop.pdata).msdu.length = subframeLength body loop.pdata := by
    change (List.take _ _).length = _
    rw [length_take, length_drop]
    omega
  obtain ⟨pdata, subframes, inside⟩ := @deliver_spec env body
    ((loop.checked body).touch body (loop.pdata + ethHdrSize)
      (if subframeLength body loop.pdata < 8 then 0 else 8))
    (subframeAt body loop.pdata) (by rw [msdu_length]; exact fits)
  refine ⟨pdata, subframes, fun start => inside ?_⟩
  -- the LLC header is read only where there is one
  apply touch_inside (checked_inside (by omega) start)
  split <;> omega

theorem amsduRound_eq :
    amsduRound env attrib body loop =
      if body.length - loop.pdata ≤ ethHdrSize then .done loop
      else if body.length - loop.pdata < ethHdrSize + subframeLength body loop.pdata then
        .done (loop.touch body (loop.pdata + 12) 2)
      else if validateAmsduContent env attrib (subframeAt body loop.pdata).da
          (subframeAt body loop.pdata).sa = .fail then .done (loop.checked body)
      else (loop.served env body).moveToNext body (subframeLength body loop.pdata) :=
  rfl

theorem amsduRound_spec (room : loop.subframes.length < maxSubframeCount) :
    (∀ out, amsduRound env attrib body loop = .done out →
      out.subframes = loop.aim env attrib body ∧ (loop.inside = true → out.inside = true)) ∧
    ∀ out, amsduRound env attrib body loop = .next out →
      out.subframes.length < maxSubframeCount ∧
        out.aim env attrib body = loop.aim env attrib body ∧
        (loop.inside = true → out.inside = true) ∧
        body.length - out.pdata < body.length - loop.pdata := by
  have size : ethHdrSize = 14 := rfl
  rw [amsduRound_eq, AmsduLoop.aim, subframesFrom]
  split
  · -- no more than a header is left
    refine ⟨?_, nofun⟩
    rintro _ ⟨⟩
    rw [delivered_nil, take_nil, append_nil]
    exact ⟨rfl, id⟩
  next long =>
  split
  · -- the subframe is longer than what is left
    refine ⟨?_, nofun⟩
    rintro _ ⟨⟩
    rw [delivered_nil, take_nil, append_nil]
    exact ⟨rfl, fun start => touch_inside start (.inr (by omega))⟩
  next fits =>
  split
  next refused =>
    refine ⟨?_, nofun⟩
    rintro _ ⟨⟩
    rw [delivered_cons_of_refused _ refused, take_nil, append_nil]
    exact ⟨rfl, checked_inside (by omega)⟩
  next valid =>
  -- from here on the loop is known by what it has served
  obtain ⟨pdata, subframes, inside⟩ := @served_spec env body loop (by omega)
  obtain ⟨ends, goes_on⟩ := @moveToNext_spec env attrib body (loop.served env body)
    (subframeLength body loop.pdata) _ (by rw [pdata]; omega)
    (by rw [pdata, subframes, ← aim_cons room valid])
  constructor
  · intro out done
    obtain ⟨all, same⟩ := ends out done
    exact ⟨all, fun start => same.trans (inside start)⟩
  · intro out next
    obtain ⟨room', same_aim, same, later⟩ := goes_on out next
    rw [pdata] at later
    exact ⟨room', same_aim, fun start => same.trans (inside start), by omega⟩

theorem amsduRounds_spec {fuel : ℕ} (enough : body.length - loop.pdata < fuel)
    (room : loop.subframes.length < maxSubframeCount) (inside : loop.inside = true) :
    ∃ out, amsduRounds env attrib body fuel loop = some out ∧ out.inside = true ∧
      out.subframes = loop.aim env attrib body := by
  induction fuel generalizing loop with
  | zero => exact absurd enough (Nat.not_lt_zero _)
  | succ fuel ih =>
    obtain ⟨ends, goes_on⟩ := @amsduRound_spec env attrib body loop room
    rw [amsduRounds]
    cases round : amsduRound env attrib body loop with
    | done out => exact ⟨out, rfl, (ends out round).2 inside, (ends out round).1⟩
    | next out =>
      obtain ⟨room', same_aim, inside', later⟩ := goes_on out round
      obtain ⟨final, finished, all_inside, packets⟩ := ih (by omega) room' (inside' inside)
      exact ⟨final, finished, all_inside, packets.trans same_aim⟩

end Rounds

/-- For every body, `amsdu_to_msdu` returns, reads inside the body, and delivers the first 64 of the
packets that are indicated of the subframes before the first that is refused. -/
theorem amsdu_delivers_subframes (env : AmsduEnv) (f : RecvFrame) :
    ∃ out, amsduToMsdu env f = some out ∧ out.inside = true ∧
      out.subframes =
        (delivered env f.attrib (subframesFrom (amsduBody f) 0)).take maxSubframeCount :=
  amsduRounds_spec (Nat.lt_succ_self _) (by decide) rfl


def protectedStation : AmsduEnv :=
  { nonSpp := true, dot11PrivacyAlgrthm := .aes, actCheck := fun _ _ _ _ => ⟨true, false⟩ }

theorem whole_subframes_not_delivered :
    (subframeLength (List.replicate 14 0) 0 = 0 ∧
      (amsduToMsdu protectedStation { rxData := List.replicate 14 0 }).map AmsduLoop.subframes =
        some []) ∧
    (subframeAt (rfc1042Header ++ List.replicate 6 2 ++ [0, 1, 7]) 0).msdu = [7] ∧
      (amsduToMsdu protectedStation
        { rxData := rfc1042Header ++ List.replicate 6 2 ++ [0, 1, 7] }).map AmsduLoop.subframes =
        some [] := by
  decide +kernel

end Rtl88x2bu.Rx
