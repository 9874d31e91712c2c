import Rtl88x2bu.Rx.MgmtProtect

/-!
# Which management frames are authenticated

`validate_recv_mgnt_frame` takes the Protected bit of a frame at its word: a protected frame goes to
`decryptor` whatever its address, and `decryptor` passes what it has no cipher for.
-/

namespace Rtl88x2bu.Rx

/-- A group-addressed deauthentication, disassociation or robust action frame `f` that is dispatched
as `g`. -/
def GroupRobust (f g : RecvFrame) : Prop :=
  isMcast (getAddr1 f.rxData) = true ∧
    (isDeauthOrDisassoc f.rxData = true ∨
      getFrameSubType f.rxData = wifiAction ∧ categoryIsRobust (actionCategory g.rxData) = true ∧
        categoryIsGroupPrivacy (actionCategory g.rxData) = false)

inductive MgntEvent
  | frame (zmalloc : ℕ → Bool) (f : RecvFrame)
  | stations (table : StaTable)

/-- The state of the receive path and the IPNs that `rtw_bip_verify` has stored, in order. -/
structure MgntState where
  sec : SecurityPriv
  stations : StaTable
  ipns : List (BitVec 64) := []

def MgntState.step (cr : Crypto) (s : MgntState) : MgntEvent → MgntState
  | .frame zmalloc f =>
    let out := validateRecvMgntFrame cr zmalloc s.sec s.stations f
    { sec := out.sec
      stations := out.stations
      ipns := if out.sec.dot11wBIPrxpn = s.sec.dot11wBIPrxpn then s.ipns
        else s.ipns ++ [out.sec.dot11wBIPrxpn] }
  | .stations table => { s with stations := table }

structure IpnsBelow (s : MgntState) : Prop where
  installed : s.sec.binstallBIPkey = true
  below : ∀ old ∈ s.ipns, old ≤ s.sec.dot11wBIPrxpn

theorem validateRecvMgntFrame_sec (cr : Crypto) (zmalloc : ℕ → Bool) {sec : SecurityPriv}
    (installed : sec.binstallBIPkey = true) (stations : StaTable) (f : RecvFrame) :
    (validateRecvMgntFrame cr zmalloc sec stations f).sec = sec ∨
      ∃ ipn, sec.dot11wBIPrxpn < ipn ∧
        (validateRecvMgntFrame cr zmalloc sec stations f).sec = sec.setBipRxpn ipn := by
  have same : (validateRecvMgntFrame cr zmalloc sec stations f).sec =
      (validateMgmtProtect cr zmalloc sec stations (rtwGetStainfo stations (getAddr2 f.rxData))
        (attachPsta stations f)).sec := by
    simp only [validateRecvMgntFrame]
    split_ifs <;> rfl
  rw [same]
  rcases validateMgmtProtect_cases cr zmalloc installed stations
    (rtwGetStainfo stations (getAddr2 f.rxData)) (attachPsta stations f) with
    ⟨_, kept⟩ | ⟨_, _, out⟩ | ⟨_, _, ipn, _, newer, out⟩ | ⟨_, _, _, _, _, out⟩
  · exact .inl kept
  · exact .inl (by rw [out])
  · exact .inr ⟨ipn, newer, by rw [out]⟩
  · exact .inl (by rw [out])

theorem IpnsBelow.step {cr : Crypto} {s : MgntState} (inv : IpnsBelow s) (e : MgntEvent) :
    IpnsBelow (s.step cr e) := by
  cases e with
  | stations table => exact ⟨inv.installed, inv.below⟩
  | frame zmalloc f =>
    simp only [MgntState.step]
    cases validateRecvMgntFrame_sec cr zmalloc inv.installed s.stations f with
    | inl kept =>
      rw [kept, if_pos rfl]
      exact ⟨inv.installed, inv.below⟩
    | inr accepted =>
      -- the accepted IPN is the new maximum
      obtain ⟨ipn, newer, stored⟩ := accepted
      have rxpn : (s.sec.setBipRxpn ipn).dot11wBIPrxpn = ipn := rfl
      rw [stored, rxpn, if_neg (BitVec.ne_of_lt newer).symm]
      refine ⟨inv.installed, ?_⟩
      intro old member
      cases List.mem_append.mp member with
      | inl earlier =>
        exact Nat.le_of_lt (Nat.lt_of_le_of_lt (inv.below old earlier) newer)
      | inr last =>
        cases List.mem_singleton.mp last
        exact BitVec.le_refl ipn

theorem ipnsBelow_of_reachable {cr : Crypto} {start s : MgntState}
    (installed : start.sec.binstallBIPkey = true) (fresh : start.ipns = [])
    (reached : Run.Reachable (MgntState.step cr) (fun _ _ => True) start s) : IpnsBelow s := by
  refine reached.invariant ⟨installed, by simp [fresh]⟩ ?_
  intro s e inv _
  exact inv.step e

/-- In every run, a group-addressed robust frame that comes from an MFP station with its Protected
bit clear, other than as a last fragment, is dispatched only after BIP has accepted it with an IPN
above all that BIP accepted before. -/
theorem group_robust_bip {cr : Crypto} {start s : MgntState}
    (installed : start.sec.binstallBIPkey = true) (fresh : start.ipns = [])
    (reached : Run.Reachable (MgntState.step cr) (fun _ _ => True) start s)
    {zmalloc : ℕ → Bool} {f g : RecvFrame} (clear : f.attrib.privacy = false)
    (notLast : f.lastFragment = false) {psta : StaInfo}
    (transmitter : rtwGetStainfo s.stations (getAddr2 f.rxData) = some psta)
    (mfp : psta.mfp = true)
    (dispatched : (validateRecvMgntFrame cr zmalloc s.sec s.stations f).dispatched = some g)
    (robust : GroupRobust f g) :
    ∃ ipn, bipVerify cr zmalloc s.sec f = (.success, ipn) ∧ ∀ old ∈ s.ipns, old < ipn := by
  have inv := ipnsBelow_of_reachable installed fresh reached
  rcases validateRecvMgntFrame_dispatched inv.installed notLast dispatched with
    ⟨_, same, passed | ⟨_, ipn, accepted, newer⟩⟩ | ⟨privacy, _⟩
  · -- such a frame is not among those that pass without a check
    have bip : unprotectedCheck (some psta) f.rxData = .bip := by
      apply unprotectedCheck_group mfp robust.1
      rw [← same]
      simpa only [← same] using robust.2
    rw [transmitter, bip] at passed
    cases passed
  · refine ⟨ipn, accepted, ?_⟩
    intro old member
    exact Nat.lt_of_le_of_lt (inv.below old member) newer
  · rw [clear] at privacy
    cases privacy

def deauthFrame (privacy : Bool) (addr1 body : List UInt8) : RecvFrame :=
  let rxData := [0xc0, if privacy then 0x40 else 0, 0, 0] ++ addr1 ++ [2, 0, 0, 0, 0, 1] ++
    [2, 0, 0, 0, 0, 1] ++ [0, 0] ++ body
  { attrib := { privacy, pktLen := BitVec.ofNat 16 rxData.length }, rxData }

def mfpStation (privacy : SecurityType) : StaInfo :=
  { mfp := true, dot118021XPrivacy := privacy, dot118021xUncstKey := List.replicate 16 0 }

def mfpStations (psta : StaInfo) : StaTable := fun addr =>
  if addr = macAt [2, 0, 0, 0, 0, 1] 0 then some psta else none

def zeroKeys : SecurityPriv where
  binstallGrpkey := true
  dot118021XGrpKeyid := 1
  dot118021XGrpKey _ := List.replicate 16 0
  binstallBIPkey := true
  dot11wBIPKeyid := 4
  dot11wBIPKey _ := List.replicate 16 0

def broadcastAddr : List UInt8 := List.replicate 6 0xff

def bipFrame (ipn : UInt8) (mic : List UInt8) : RecvFrame :=
  deauthFrame false broadcastAddr ([3, 0, 76, 16, 4, 0, ipn, 0, 0, 0, 0, 0] ++ mic)

def ccmpGroupFrame : RecvFrame :=
  deauthFrame true broadcastAddr
    [1, 0, 0, 0x60, 0, 0, 0, 0, 12, 65, 32, 117, 145, 187, 153, 2, 180, 163]

def ccmpUnicastFrame : RecvFrame :=
  deauthFrame true [2, 0, 0, 0, 0, 2]
    [1, 0, 0, 0x20, 0, 0, 0, 0, 12, 65, 151, 81, 48, 193, 124, 235, 39, 20]

/-- What AES-CMAC and CCMP compute for the frames above under an all-zero key; everything else is
rejected. -/
def knownAnswers : Crypto where
  seccalctkipmic _ _ _ _ := []
  arcfour _ data := data
  tkipMix _ _ _ := []
  getcrc32 _ := []
  ccmpDecrypt key hdr data :=
    if key = List.replicate 16 0 ∧ (hdr ++ data = ccmpGroupFrame.rxData ∨
      hdr ++ data = ccmpUnicastFrame.rxData) then some [3, 0] else none
  gcmpDecrypt _ _ _ := none
  omac1Aes key data :=
    if key = List.replicate 16 0 then
      if data = bipAad 8 (bipFrame 5 (List.replicate 8 0)).rxData then
        some [99, 96, 25, 88, 79, 116, 5, 163, 94, 42, 172, 142, 171, 205, 172, 73]
      else if data = bipAad 8 (bipFrame 6 (List.replicate 8 0)).rxData then
        some [237, 235, 207, 16, 102, 94, 61, 16, 192, 36, 244, 59, 162, 194, 222, 161]
      else none
    else none
  aesGmac _ _ _ := none

def afterFirstBip : MgntState :=
  [MgntEvent.frame (fun _ => true) (bipFrame 5 [99, 96, 25, 88, 79, 116, 5, 163])].foldl
    (MgntState.step knownAnswers)
    { sec := zeroKeys, stations := mfpStations (mfpStation .aes) }

theorem group_robust_bip_second :
    afterFirstBip.ipns = [5] ∧
    ∃ ipn, bipVerify knownAnswers (fun _ => true) afterFirstBip.sec
      (bipFrame 6 [237, 235, 207, 16, 102, 94, 61, 16]) = (.success, ipn) ∧
      ∀ old ∈ afterFirstBip.ipns, old < ipn := by
  have reached : Run.Reachable (MgntState.step knownAnswers) (fun _ _ => True)
      { sec := zeroKeys, stations := mfpStations (mfpStation .aes) } afterFirstBip :=
    .append .start ⟨trivial, trivial⟩
  refine ⟨by decide, ?_⟩
  have transmitter : rtwGetStainfo afterFirstBip.stations
      (getAddr2 (bipFrame 6 [237, 235, 207, 16, 102, 94, 61, 16]).rxData) =
        some (mfpStation .aes) := rfl
  exact group_robust_bip rfl rfl reached
    (g := attachPsta (mfpStations (mfpStation .aes))
      (bipFrame 6 [237, 235, 207, 16, 102, 94, 61, 16]))
    rfl (by decide) transmitter rfl (by decide) ⟨by decide, .inl (by decide)⟩

theorem group_robust_unverified :
    ¬ ∀ (cr : Crypto) (start s : MgntState), start.sec.binstallBIPkey = true → start.ipns = [] →
      Run.Reachable (MgntState.step cr) (fun _ _ => True) start s →
      ∀ zmalloc f g psta, rtwGetStainfo s.stations (getAddr2 f.rxData) = some psta →
        psta.mfp = true →
        (validateRecvMgntFrame cr zmalloc s.sec s.stations f).dispatched = some g →
        GroupRobust f g →
        ∃ ipn, bipVerify cr zmalloc s.sec f = (.success, ipn) ∧ ∀ old ∈ s.ipns, old < ipn := by
  intro claim
  have passed : ∃ g, (validateRecvMgntFrame knownAnswers (fun _ => true) zeroKeys
      (mfpStations (mfpStation .aes)) ccmpGroupFrame).dispatched = some g :=
    Option.isSome_iff_exists.mp (by decide)
  obtain ⟨g, dispatched⟩ := passed
  obtain ⟨ipn, accepted, _⟩ := claim knownAnswers
    { sec := zeroKeys, stations := mfpStations (mfpStation .aes) } _ rfl rfl .start
    (fun _ => true) ccmpGroupFrame g (mfpStation .aes) rfl rfl dispatched
    ⟨by decide, .inl (by decide)⟩
  have rejected : (bipVerify knownAnswers (fun _ => true) zeroKeys ccmpGroupFrame).1 ≠
      .success := by
    decide
  exact rejected (congrArg Prod.fst accepted)

section
variable {sec : SecurityPriv} {stations : StaTable} {f : RecvFrame} {psta : StaInfo}
  (known : rtwGetStainfo stations f.attrib.ta = some psta) (unicast : isMcast f.attrib.ra = false)
include known unicast

end

end Rtl88x2bu.Rx
