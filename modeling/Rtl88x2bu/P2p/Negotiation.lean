import Rtl88x2bu.P2p.Attrs
import Rtl88x2bu.P2p.Channels

/-!
# Group owner negotiation requests

`process_p2p_group_negotation_req` (`core/rtw_p2p.c`) handles the GO intent and the channel list
when it reaches the element that has them, the intent first. The password id of the WPS element and
the WFD elements are left out: what is done with them touches none of the fields here.
-/

namespace Rtl88x2bu.P2p

open List Option
open Tape Tlv Walk
open Ie (wlanEidVendorSpecific ieLenAt ieNext rtwGetP2pAttr)

/-! ## The model -/

inductive P2pRole
  | disable
  | device
  | client
  | go
deriving DecidableEq

inductive P2pState
  | gonegoIng
  | gonegoFail
  | txInforNoready
  | other (state : ℕ)
deriving DecidableEq

inductive P2pStatus
  | success
  | failInfoUnavailable
  | failIncompatibleParam
  | failNoCommonCh
  | failBothGointent15
deriving DecidableEq

structure WifidirectInfo where
  role : P2pRole
  p2pState : P2pState
  operatingChannel : Byte
  intent : Byte
  peerIntent : Byte
  peerCh : Byte
  p2pPeerInterfaceAddr : List Byte
  deviceAddr : List Byte
  negoSsid : List Byte
  goDeviceAddr : List Byte
  groupSsid : List Byte
  uiGotWpsInfo : ℕ

variable (info : WifidirectInfo)

/-- What the function depends on besides: the channels of `channel_set`, whether the driver is built
with `CONFIG_CONCURRENT_MODE`, another interface is linked and `full_ch_in_p2p_handshake` is set,
and the bytes of the stack behind `ch_content`. -/
structure NegoEnv where
  channelSet : List Byte
  concurrentMode : Bool
  miLinked : Bool
  fullChInP2pHandshake : Bool
  stack : ℕ → Byte

variable (env : NegoEnv)

/-- `rtw_get_p2p_attr_content` with a buffer of `size` bytes: what is copied to it. -/
def rtwGetP2pAttrContent (ie : ℕ → Byte) (ielen : ℕ) (target : Byte) (size : ℕ) :
    Option (List Byte) :=
  match rtwGetP2pAttr ie ielen target (ielen + 1) with
  | .found p =>
    let attrLen := (le16 ie (p + 1) + 3) % 65536
    if attrLen = 0 then none else some (window ie (p + 3) (min size (attrLen - 3)))
  | _ => none

def attrGoIntent : Byte := 0x04
def attrListenCh : Byte := 0x06
def attrIntendedIfAddr : Byte := 0x09
def attrChList : Byte := 0x0B
def attrOperatingCh : Byte := 0x11

structure NegoRun where
  info : WifidirectInfo
  result : P2pStatus
  stopped : Bool

variable (r : NegoRun)

variable (content : List Byte) (info : WifidirectInfo)

def NegoRun.start : NegoRun :=
  { info := info, result := .success, stopped := false }

@[simp] theorem NegoRun.start_info : (NegoRun.start info).info = info := rfl

def NegoRun.refused (stopped : Bool) : NegoRun :=
  { info := { info with p2pState := .gonegoFail }, result := .failIncompatibleParam
    stopped := stopped }

def roleFor (intent content : Byte) : P2pRole :=
  if intent = content >>> 1 then
    if intent = 15 then .device else if content &&& 1 ≠ 0 then .client else .go
  else if intent > content >>> 1 then .go
  else .client

def handleIntent (content : Byte) : NegoRun :=
  let role := roleFor r.info.intent content
  { r with
    info := { r.info with
      peerIntent := content
      role := role
      goDeviceAddr := if role = .go then r.info.deviceAddr else r.info.goDeviceAddr
      groupSsid :=
        if role = .go then r.info.negoSsid ++ r.info.groupSsid.drop r.info.negoSsid.length
        else r.info.groupSsid }
    result :=
      if r.info.intent = content >>> 1 ∧ r.info.intent = 15 then .failBothGointent15 else r.result }

def chContent (content : List Byte) : ℕ → Byte :=
  fun i => if i < chListSize then content.getD i 0 else env.stack (i - chListSize)

/-- The peer's channels; `none` for a scan that leaves `ch_content` or `peer_ch_list` or does not
end. -/
def peerChannels : Option (List Byte) :=
  match rtwP2pGetPeerChList (chContent env content) chListSize content.length (fun _ => 0)
      (chListSize + 1) with
  | some s => if s.inside && s.fits then some (window s.peerChList 0 s.chNo) else none
  | none => none

def negoFail : NegoRun :=
  { info := { r.info with p2pState := .gonegoFail }, result := .failNoCommonCh, stopped := true }

/-- The channel list of an element that has the operating channel `peerOperatingCh`. -/
def handleChList (peerOperatingCh : Byte) (r : NegoRun) (content : List Byte) : Option NegoRun :=
  (peerChannels env content).map fun peer =>
    let inclusioned := rtwP2pChInclusion env.channelSet peer
    if inclusioned = [] then negoFail r
    else if r.info.role = .go ∧ r.info.operatingChannel ∉ inclusioned then
      if env.concurrentMode && env.miLinked && !env.fullChInP2pHandshake then negoFail r
      else
        { r with
          info := { r.info with
            operatingChannel :=
              if peerOperatingCh ∈ inclusioned then peerOperatingCh else inclusioned.headD 0 } }
    else r

def handleListenCh : NegoRun :=
  if content.length = 5 then { r with info := { r.info with peerCh := content.getD 4 0 } } else r

def handleIfAddr : NegoRun :=
  { r with
    info := { r.info with
      p2pPeerInterfaceAddr := if content.length = 6 then content else List.replicate 6 0 } }

/-- The body of the loop for the P2P element `ie`, up to the channel list. -/
def negoAttrs (ie : ℕ → Byte) (ielen : ℕ) (r : NegoRun) : NegoRun :=
  let content := rtwGetP2pAttrContent ie ielen
  let r := { r with info := { r.info with p2pState := .gonegoIng } }
  let r := (content attrGoIntent 1).elim r fun bytes => handleIntent r (bytes.headD 0)
  let r := (content attrListenCh 5).elim r (handleListenCh r)
  (content attrIntendedIfAddr 6).elim r (handleIfAddr r)

def negoElem (ie : ℕ → Byte) (ielen : ℕ) (r : NegoRun) : Option NegoRun :=
  let content := rtwGetP2pAttrContent ie ielen
  let r := negoAttrs ie ielen r
  let peerOperatingCh := (content attrOperatingCh 5).elim 0 (·.getD 4 0)
  (content attrChList chListSize).elim (some r) (handleChList env peerOperatingCh r)

def negoLoop (env : NegoEnv) (ies : ℕ → Byte) (iesLen : ℕ) : ℕ → ℕ → NegoRun → Option NegoRun
  | 0, _, _ => none
  | fuel + 1, off, r =>
    match rtwGetP2pIe (fun i => ies (off + i)) (iesLen - off) (iesLen + 1) with
    | .found p => do
      let ielen := ieLenAt ies (off + p) + 2
      let r ← negoElem env (fun i => ies (off + p + i)) ielen r
      if r.stopped then some r else negoLoop env ies iesLen fuel (off + p + ielen) r
    | .missing => some r
    | .endless => none

def wpsIeAt (buf : ℕ → Byte) (p : ℕ) : Bool :=
  buf p == wlanEidVendorSpecific && window buf (p + 2) 4 == [0x00, 0x50, 0xf2, 0x04]

def rtwGetWpsIe (inIe : ℕ → Byte) (inLen fuel : ℕ) : Outcome :=
  search (p2pMore inLen) (wpsIeAt inIe) (ieNext inIe) fuel 0

def hasWpsIe (ies : ℕ → Byte) (iesLen : ℕ) : Bool :=
  match rtwGetWpsIe ies iesLen (iesLen + 1) with
  | .found _ => true
  | _ => false

def publicActionIeOffset : ℕ := 8

/-- `process_p2p_group_negotation_req`; `none` for undefined behaviour. -/
def processP2pGroupNegotationReq (pframe : ℕ → Byte) (len : ℕ) : Option NegoRun :=
  let ies := fun i => pframe (publicActionIeOffset + i)
  let iesLen := len - publicActionIeOffset
  if !hasWpsIe ies iesLen then some (.refused info true)
  else do
    let r : NegoRun ←
      match rtwGetP2pIe ies iesLen (iesLen + 1) with
      | .found _ => negoLoop env ies iesLen (iesLen + 1) 0 (.start info)
      | _ => some (.refused info false)
    if r.info.uiGotWpsInfo = 0 then
      some { info := { r.info with p2pState := .txInforNoready }, result := .failInfoUnavailable
             stopped := r.stopped }
    else some r

/-! ## The elements that are handled -/

def p2pIes (ies : ℕ → Byte) (iesLen : ℕ) : ℕ → ℕ → List ℕ
  | 0, _ => []
  | fuel + 1, off =>
    match rtwGetP2pIe (fun i => ies (off + i)) (iesLen - off) (iesLen + 1) with
    | .found p => (off + p) :: p2pIes ies iesLen fuel (off + p + (ieLenAt ies (off + p) + 2))
    | _ => []

section

variable (own : Byte) (ies : ℕ → Byte) (before : P2pRole × P2pStatus)

def contentAt (o : ℕ) (target : Byte) (size : ℕ) : Option (List Byte) :=
  rtwGetP2pAttrContent (fun i => ies (o + i)) (ieLenAt ies o + 2) target size

def negoFold (env : NegoEnv) (ies : ℕ → Byte) : List ℕ → NegoRun → Option NegoRun
  | [], r => some r
  | o :: os, r =>
    (negoElem env (fun i => ies (o + i)) (ieLenAt ies o + 2) r).bind fun r =>
      if r.stopped then some r else negoFold env ies os r

/-- The role and the result after the intent of an element, if it has one. -/
def intentAfter (o : ℕ) : P2pRole × P2pStatus :=
  (contentAt ies o attrGoIntent 1).elim before fun bytes =>
    (roleFor own (bytes.headD 0),
      if own = bytes.headD 0 >>> 1 ∧ own = 15 then .failBothGointent15 else before.2)

def intentsAfter (os : List ℕ) : P2pRole × P2pStatus :=
  os.foldl (intentAfter own ies) before

theorem intentsAfter_append (os os' : List ℕ) :
    intentsAfter own ies before (os ++ os') =
      intentsAfter own ies (intentsAfter own ies before os) os' :=
  foldl_append

end

section Fold

variable {env : NegoEnv} {ies : ℕ → Byte} {r r' : NegoRun}
variable {o : ℕ} {content : List Byte} {front : List ℕ}

/-- What the elements at `os` change if their channel lists are not looked at. -/
structure AfterIntents (ies : ℕ → Byte) (os : List ℕ) (r r' : NegoRun) : Prop where
  decided : (r'.info.role, r'.result) =
    intentsAfter r.info.intent ies (r.info.role, r.result) os
  operatingChannel : r'.info.operatingChannel = r.info.operatingChannel
  intent : r'.info.intent = r.info.intent
  uiGotWpsInfo : r'.info.uiGotWpsInfo = r.info.uiGotWpsInfo
  stopped : r'.stopped = r.stopped

theorem AfterIntents.append {os os' : List ℕ} {r'' : NegoRun} (first : AfterIntents ies os r r')
    (second : AfterIntents ies os' r' r'') : AfterIntents ies (os ++ os') r r'' where
  decided := by
    rw [intentsAfter_append, ← first.decided, second.decided, first.intent]
  operatingChannel := second.operatingChannel.trans first.operatingChannel
  intent := second.intent.trans first.intent
  uiGotWpsInfo := second.uiGotWpsInfo.trans first.uiGotWpsInfo
  stopped := second.stopped.trans first.stopped

theorem handleListenCh_after (content : List Byte) :
    AfterIntents ies [] r (handleListenCh r content) := by
  rw [handleListenCh]
  split <;> exact ⟨rfl, rfl, rfl, rfl, rfl⟩

theorem handleIfAddr_after (content : List Byte) : AfterIntents ies [] r (handleIfAddr r content) :=
  ⟨rfl, rfl, rfl, rfl, rfl⟩

theorem elim_after (found : Option (List Byte)) {handle : List Byte → NegoRun}
    (after : ∀ content, AfterIntents ies [] r (handle content)) :
    AfterIntents ies [] r (found.elim r handle) := by
  cases found with
  | none => exact ⟨rfl, rfl, rfl, rfl, rfl⟩
  | some content => exact after content

theorem negoAttrs_spec (ies : ℕ → Byte) (o : ℕ) (r : NegoRun) :
    AfterIntents ies [o] r (negoAttrs (fun i => ies (o + i)) (ieLenAt ies o + 2) r) := by
  rw [negoAttrs]
  rw [← append_nil [o]]
  apply AfterIntents.append _ (elim_after _ handleIfAddr_after)
  rw [← append_nil [o]]
  apply AfterIntents.append _ (elim_after _ handleListenCh_after)
  -- what is left is the intent
  have one (before : P2pRole × P2pStatus) :
      intentsAfter r.info.intent ies before [o] = intentAfter r.info.intent ies before o := rfl
  cases found : rtwGetP2pAttrContent (fun i => ies (o + i)) (ieLenAt ies o + 2) attrGoIntent 1 with
  | none =>
    have none_ : contentAt ies o attrGoIntent 1 = none := found
    exact ⟨by rw [one, intentAfter, none_]; rfl, rfl, rfl, rfl, rfl⟩
  | some bytes =>
    have some_ : contentAt ies o attrGoIntent 1 = some bytes := found
    exact ⟨by rw [one, intentAfter, some_]; rfl, rfl, rfl, rfl, rfl⟩

section

variable (env r)

theorem negoElem_quiet (quiet : contentAt ies o attrChList chListSize = none) : ∃ r', negoElem env
    (fun i => ies (o + i)) (ieLenAt ies o + 2) r = some r' ∧ AfterIntents ies [o] r r' := by
  refine ⟨_, ?_, negoAttrs_spec ies o r⟩
  rw [contentAt] at quiet
  simp only [negoElem, quiet, elim_none]

theorem negoElem_listed (listed : contentAt ies o attrChList chListSize = some content) : ∃ r₁
    peerOperatingCh, AfterIntents ies [o] r r₁ ∧ negoElem env (fun i => ies (o + i))
    (ieLenAt ies o + 2) r = handleChList env peerOperatingCh r₁ content := by
  refine ⟨_, (contentAt ies o attrOperatingCh 5).elim 0 (·.getD 4 0), negoAttrs_spec ies o r, ?_⟩
  rw [contentAt] at listed
  simp only [negoElem, contentAt, listed, elim_some]

end

theorem negoFold_quiet (env : NegoEnv)
    (quiet : ∀ o ∈ front, contentAt ies o attrChList chListSize = none)
    (running : r.stopped = false) :
    ∃ r', AfterIntents ies front r r' ∧
      ∀ rest, negoFold env ies (front ++ rest) r = negoFold env ies rest r' := by
  induction front generalizing r with
  | nil => exact ⟨r, ⟨rfl, rfl, rfl, rfl, rfl⟩, fun _ => rfl⟩
  | cons o front ih =>
    obtain ⟨here, later⟩ := forall_mem_cons.mp quiet
    obtain ⟨r₁, elem, first⟩ := negoElem_quiet env r here
    have running₁ : r₁.stopped = false := first.stopped.trans running
    obtain ⟨r', rest, fold⟩ := ih later running₁
    refine ⟨r', first.append rest, fun os => ?_⟩
    rw [cons_append, negoFold, elem, bind_some, running₁]
    exact fold os

/-- What the channel list changes if it does not end the negotiation. -/
structure AfterList (inclusioned : List Byte) (r r' : NegoRun) : Prop where
  common : inclusioned ≠ []
  role : r'.info.role = r.info.role
  intent : r'.info.intent = r.info.intent
  uiGotWpsInfo : r'.info.uiGotWpsInfo = r.info.uiGotWpsInfo
  result : r'.result = r.result
  stopped : r'.stopped = r.stopped
  owner : r.info.role = .go → r'.info.operatingChannel ∈ inclusioned
  other : r.info.role ≠ .go → r'.info.operatingChannel = r.info.operatingChannel

theorem handleChList_cases (peerOperatingCh : Byte) (r : NegoRun) {peer : List Byte}
    (peers : peerChannels env content = some peer) :
    ∃ r', handleChList env peerOperatingCh r content = some r' ∧
      ((r' = negoFail r ∧
          (rtwP2pChInclusion env.channelSet peer = [] ∨ r.info.role = .go)) ∨
        AfterList (rtwP2pChInclusion env.channelSet peer) r r') := by
  rw [handleChList, peers, map_some]
  refine ⟨_, rfl, ?_⟩
  dsimp only
  split_ifs with none_ change linked peers
  · exact .inl ⟨rfl, .inl none_⟩
  · exact .inl ⟨rfl, .inr change.1⟩
  · exact .inr ⟨none_, rfl, rfl, rfl, rfl, rfl, fun _ => peers, fun other => absurd change.1 other⟩
  · -- the first common channel
    obtain ⟨first, rest, cons⟩ := exists_cons_of_ne_nil none_
    have member : (rtwP2pChInclusion env.channelSet peer).headD 0 ∈
        rtwP2pChInclusion env.channelSet peer := by
      rw [cons]
      exact mem_cons_self
    exact .inr ⟨none_, rfl, rfl, rfl, rfl, rfl, fun _ => member, fun other => absurd change.1 other⟩
  · have kept (owner : r.info.role = .go) :
        r.info.operatingChannel ∈ rtwP2pChInclusion env.channelSet peer := by
      by_contra absent
      exact change ⟨owner, absent⟩
    exact .inr ⟨none_, rfl, rfl, rfl, rfl, rfl, kept, fun _ => rfl⟩

section

variable (listed : contentAt ies o attrChList chListSize = some content)
  (quietFront : ∀ o ∈ front, contentAt ies o attrChList chListSize = none)
include listed quietFront

theorem negoFold_listed {back : List ℕ} {peer : List Byte}
    (quietBack : ∀ o ∈ back, contentAt ies o attrChList chListSize = none)
    (peers : peerChannels env content = some peer) (running : r.stopped = false) :
    let inclusioned := rtwP2pChInclusion env.channelSet peer
    let before := intentsAfter r.info.intent ies (r.info.role, r.result) (front ++ [o])
    ∃ r', negoFold env ies (front ++ o :: back) r = some r' ∧
      r'.info.uiGotWpsInfo = r.info.uiGotWpsInfo ∧
      ((r'.result = .failNoCommonCh ∧ (inclusioned = [] ∨ before.1 = .go)) ∨
        (inclusioned ≠ [] ∧
          (r'.info.role, r'.result) =
            intentsAfter r.info.intent ies (r.info.role, r.result) (front ++ o :: back) ∧
          (before.1 = .go → r'.info.operatingChannel ∈ inclusioned) ∧
          (before.1 ≠ .go → r'.info.operatingChannel = r.info.operatingChannel))) := by
  intro inclusioned before
  obtain ⟨r₁, first, fold⟩ := negoFold_quiet env quietFront running
  obtain ⟨r₂, peerOperatingCh, own, elem⟩ := negoElem_listed env r₁ listed
  obtain ⟨r₃, list, cases_⟩ := handleChList_cases peerOperatingCh r₂ peers
  have second := first.append own
  have role : before.1 = r₂.info.role := (congrArg Prod.fst second.decided).symm
  rw [fold, negoFold, elem, list, bind_some, role]
  rcases cases_ with ⟨rfl, why⟩ | after
  · exact ⟨negoFail r₂, if_pos rfl, second.uiGotWpsInfo, .inl ⟨rfl, why⟩⟩
  · have running₃ : r₃.stopped = false := after.stopped.trans (second.stopped.trans running)
    obtain ⟨r', rest, fold⟩ := negoFold_quiet env quietBack running₃
    have fold' := fold []
    rw [append_nil] at fold'
    have decided : (r'.info.role, r'.result) =
        intentsAfter r.info.intent ies (r.info.role, r.result) (front ++ o :: back) := by
      rw [rest.decided, after.role, after.result, after.intent, second.intent, second.decided,
        ← intentsAfter_append, append_assoc, singleton_append]
    rw [running₃, if_neg Bool.false_ne_true, fold']
    refine ⟨r', rfl, ?_, .inr ⟨after.common, decided, ?_, ?_⟩⟩
    · rw [rest.uiGotWpsInfo, after.uiGotWpsInfo, second.uiGotWpsInfo]
    · rw [rest.operatingChannel]
      exact after.owner
    · intro other
      rw [rest.operatingChannel, after.other other, second.operatingChannel]

theorem negoFold_undefined {back : List ℕ} (peers : peerChannels env content = none)
    (running : r.stopped = false) : negoFold env ies (front ++ o :: back) r = none := by
  obtain ⟨r₁, -, fold⟩ := negoFold_quiet env quietFront running
  obtain ⟨r₂, peerOperatingCh, -, elem⟩ := negoElem_listed env r₁ listed
  rw [fold, negoFold, elem, handleChList, peers]
  rfl

end

end Fold

/-! ## The elements of a request -/

section Elements

variable {env : NegoEnv} {ies : ℕ → Byte} {iesLen fuel off : ℕ} {es : List Elem}

theorem rtwGetP2pAttrContent_p2pIe {ie : ℕ → Byte} {as : List Attr} (target : Byte) (size : ℕ)
    (holds : Holds ie 0 (p2pIe as)) :
    rtwGetP2pAttrContent ie (p2pIe as).length target size =
      (as.find? (·.id == target)).map (·.data.take size) := by
  have total := length_p2pIe as
  have few := length_le_encodeAttrs as
  rcases first_attr target as with absent | ⟨front, a, back, rfl, absent, here⟩
  · rw [rtwGetP2pAttrContent, rtwGetP2pAttr_missing holds absent (by omega),
      List.find?_eq_none.mpr (by simpa using absent)]
    rfl
  · rw [length_append] at few
    rw [rtwGetP2pAttrContent, rtwGetP2pAttr_found holds absent here (by omega)]
    have attr : Holds ie (6 + (encodeAttrs front).length) a.encode := by
      have attrs := (holds_p2pIe.mp holds).2.2
      rw [encodeAttrs_append, holds_append, holds_encodeAttrs_cons, Nat.zero_add] at attrs
      exact attrs.2.1
    have data : Holds ie (6 + (encodeAttrs front).length + 3) a.data := attr.2.2.2
    have first : (front ++ a :: back).find? (·.id == target) = some a := by
      rw [List.find?_append, List.find?_eq_none.mpr (by simpa using absent), List.find?_cons_of_pos
        (by simpa using here)]
      rfl
    simp only [attrLen_eq attr, first, map_some]
    rw [if_neg (Nat.succ_ne_zero _), Nat.add_sub_cancel]
    rw [← take_append_drop size a.data, holds_append] at data
    rw [data.1.window_eq (by rw [length_take])]

theorem contentAt_elem {e : Elem} {o : ℕ} (attrs : Elem → List Attr) (target : Byte) (size : ℕ)
    (holds : Holds ies o e.encode) (hit : p2pIeAt ies o = true)
    (p2p : isP2p e = true → e.body = p2pOui ++ encodeAttrs (attrs e)) :
    (contentAt ies o target size).toList.Sublist
      ((([e].filter isP2p).flatMap attrs).filter (·.id == target) |>.map (·.data.take size)) := by
  have length : ieLenAt ies o + 2 = e.encode.length := by
    rw [ieLenAt, (holds_encode.mp holds).2.1, e.toNat_length, length_encode]
  by_cases long : 4 ≤ e.body.length
  · have found := isP2p_of_p2pIeAt holds hit long
    have text := encode_eq_p2pIe (id_of_isP2p found) (p2p found)
    rw [text] at holds length
    rw [contentAt, length, rtwGetP2pAttrContent_p2pIe target size (holds_shift.mpr holds),
      filter_singleton, found, ← List.head?_filter]
    simp only [cond_true, flatMap_singleton]
    cases (attrs e).filter (·.id == target) with
    | nil => exact List.Sublist.slnil
    | cons a as => exact (nil_sublist _).cons_cons _
  · -- the element is too short for an attribute
    rw [length_encode] at length
    rw [contentAt, rtwGetP2pAttrContent, rtwGetP2pAttr_short (by omega)]
    exact nil_sublist _

theorem rtwGetP2pIe_elems (holds : Holds ies off (encodeAll es))
    (end_ : off + (encodeAll es).length = iesLen) :
    rtwGetP2pIe (fun i => ies (off + i)) (iesLen - off) (iesLen + 1) = .missing ∨
      ∃ front e back, es = front ++ e :: back ∧
        rtwGetP2pIe (fun i => ies (off + i)) (iesLen - off) (iesLen + 1) =
          .found (encodeAll front).length ∧
        p2pIeAt ies (off + (encodeAll front).length) = true := by
  have few := length_le_encodeAll es
  have enough : es.length < iesLen + 1 := by omega
  have left : 0 + (encodeAll es).length = iesLen - off := by omega
  have seen : Holds (fun i => ies (off + i)) 0 (encodeAll es) := holds_shift.mpr holds
  rcases p2pSearch_elems seen left enough with ⟨missing, -⟩ | ⟨front, e, back, rfl, -, found, hit⟩
  · exact .inl missing
  · rw [Nat.zero_add] at found hit
    refine .inr ⟨front, e, back, rfl, found, ?_⟩
    rw [← hit, p2pIeAt, p2pIeAt, window, window]
    simp only [Nat.add_assoc]

theorem negoLoop_elems (env : NegoEnv) (attrs : Elem → List Attr) (target : Byte) (size : ℕ)
    (r : NegoRun) (holds : Holds ies off (encodeAll es))
    (end_ : off + (encodeAll es).length = iesLen)
    (p2p : ∀ e ∈ es, isP2p e = true → e.body = p2pOui ++ encodeAttrs (attrs e))
    (enough : es.length < fuel) :
    negoLoop env ies iesLen fuel off r = negoFold env ies (p2pIes ies iesLen fuel off) r ∧
      ((p2pIes ies iesLen fuel off).filterMap (contentAt ies · target size)).Sublist
        ((((es.filter isP2p).flatMap attrs).filter (·.id == target)).map (·.data.take size)) := by
  induction fuel generalizing off es r with
  | zero => exact absurd enough (Nat.not_lt_zero _)
  | succ fuel ih =>
    rw [negoLoop, p2pIes]
    rcases rtwGetP2pIe_elems holds end_ with missing | ⟨front, e, back, rfl, found, hit⟩
    · rw [missing]
      exact ⟨rfl, nil_sublist _⟩
    · rw [encodeAll_append, holds_append, holds_encodeAll_cons] at holds
      obtain ⟨-, own, later⟩ := holds
      have length : ieLenAt ies (off + (encodeAll front).length) = e.body.length := by
        rw [ieLenAt, (holds_encode.mp own).2.1, e.toNat_length]
      simp only [encodeAll_append, encodeAll_cons, length_append, length_encode] at end_
      rw [length_append, length_cons] at enough
      have rest (r : NegoRun) := ih r later (by omega)
        (fun e member => p2p e (mem_append_right _ (mem_cons_of_mem _ member))) (by omega)
      simp only [found, length]
      constructor
      · simp only [negoFold, length, bind_eq_bind, (rest _).1]
      · have here := contentAt_elem attrs target size own hit
          (p2p e (mem_append_right _ mem_cons_self))
        rw [← singleton_append, filterMap_append, ← singleton_append (l := back),
          filter_append, filter_append, flatMap_append, flatMap_append,
          filter_append, filter_append, map_append, map_append]
        exact ((here.append (rest r).2)).trans (sublist_append_right _ _)

end Elements

/-! ## The channel list -/

def WellFormedList : Prop :=
  ∃ country entries, country.length = 3 ∧ content = channelListContent country entries

section ChannelList

variable {env : NegoEnv} {content data country : List Byte} {entries : List Elem}

theorem holds_chContent (env : NegoEnv) (short : content.length ≤ chListSize) :
    Holds (chContent env content) 0 content := by
  rw [holds_iff]
  intro i c there
  obtain ⟨inside, rfl⟩ := List.getElem?_eq_some_iff.mp there
  rw [chContent, Nat.zero_add, if_pos (by omega), getD_eq_getElem _ _ inside]

theorem peerChannels_wellFormed (env : NegoEnv) (three : country.length = 3)
    (short : (channelListContent country entries).length ≤ chListSize) :
    peerChannels env (channelListContent country entries) = some (channelsOf entries) := by
  have few := length_le_encodeAll entries
  have enough : entries.length < chListSize + 1 := by
    rw [channelListContent, length_append] at short
    omega
  obtain ⟨s, run, inside, fits, channels⟩ :=
    scan_entries _ (fun _ => 0) three (holds_chContent env short) short short enough
  simp only [peerChannels, run, inside, fits, Bool.and_self, if_true, channels]

theorem wellFormed_of_peerChannels {peer : List Byte} (full : content.length = chListSize)
    (peers : peerChannels env content = some peer) : WellFormedList content := by
  simp only [peerChannels] at peers
  split at peers
  next s run =>
    split at peers
    next good =>
      rw [Bool.and_eq_true] at good
      rw [← full] at run
      exact wellFormed_of_scan (holds_chContent env full.le) full.le run good.1
    · exact nomatch peers
  · exact nomatch peers

theorem peerChannels_take (env : NegoEnv) (three : country.length = 3)
    (list : data = channelListContent country entries) :
    (WellFormedList (data.take chListSize) ∧
        ∃ peer, peerChannels env (data.take chListSize) = some peer ∧ peer ⊆ channelsOf entries) ∨
      (¬ WellFormedList (data.take chListSize) ∧
        peerChannels env (data.take chListSize) = none) := by
  have short : (data.take chListSize).length ≤ chListSize := length_take_le ..
  by_cases good : WellFormedList (data.take chListSize)
  · left
    refine ⟨good, ?_⟩
    obtain ⟨country', entries', three', cut⟩ := good
    rw [cut] at short ⊢
    refine ⟨_, peerChannels_wellFormed env three' short, ?_⟩
    have front : country' ++ encodeAll entries' <+: country ++ encodeAll entries := by
      rw [← channelListContent, ← cut, list]
      exact take_prefix ..
    obtain ⟨rest, text⟩ := front
    rw [append_assoc] at text
    have texts := (append_inj text (three'.trans three.symm)).2
    obtain ⟨more, rfl⟩ := prefix_of_encodeAll_prefix ⟨rest, texts⟩
    rw [channelsOf, channelsOf, flatMap_append]
    exact subset_append_left ..
  · right
    refine ⟨good, ?_⟩
    cases peers : peerChannels env (data.take chListSize) with
    | none => rfl
    | some peer =>
      -- a list that is not cut is well-formed
      rcases le_total data.length chListSize with fits | long
      · rw [take_of_length_le fits] at good
        exact absurd ⟨country, entries, three, list⟩ good
      · exact absurd (wellFormed_of_peerChannels (length_take_of_le long) peers) good

end ChannelList

/-! ## The channel of the owner -/

def Common (entries : List Elem) (ch : Byte) : Prop :=
  ch ∈ env.channelSet ∧ ch ∈ channelsOf entries

/-- What is expected of a request whose channel list has these entries. -/
def ChannelAgreed (entries : List Elem) (r : NegoRun) : Prop :=
  r.result = .success → r.info.role = .go → Common env entries r.info.operatingChannel

/-- The channel list is in an element at which the local side is already to be the owner, or it has
no common channel. -/
def ListInTime (ies : ℕ → Byte) (os : List ℕ) : Prop :=
  ∃ front o back content peer, os = front ++ o :: back ∧
    contentAt ies o attrChList chListSize = some content ∧ peerChannels env content = some peer ∧
    (rtwP2pChInclusion env.channelSet peer = [] ∨
      (intentsAfter info.intent ies (info.role, .success) (front ++ [o])).1 = .go)

/-- What is asked of a request that leaves the operating channel as it was. -/
def Kept (ies : ℕ → Byte) (os : List ℕ) (entries : List Elem) : Prop :=
  info.uiGotWpsInfo = 0 ∨
    intentsAfter info.intent ies (info.role, .success) os ≠ (.go, .success) ∨
    Common env entries info.operatingChannel

def negoEnd : NegoRun :=
  if r.info.uiGotWpsInfo = 0 then
    { info := { r.info with p2pState := .txInforNoready }, result := .failInfoUnavailable
      stopped := r.stopped }
  else r

section Agreed

variable {env : NegoEnv} {info : WifidirectInfo} {ies : ℕ → Byte} {iesLen : ℕ} {os : List ℕ}
  {entries : List Elem} {r : NegoRun}

theorem agreed_negoEnd :
    ChannelAgreed env entries (negoEnd r) ↔
      r.info.uiGotWpsInfo = 0 ∨ ChannelAgreed env entries r := by
  rw [negoEnd]
  split
  next none_ => exact iff_of_true nofun (.inl none_)
  next some_ => exact (or_iff_right some_).symm

theorem agreed_of_decided (ui : r.info.uiGotWpsInfo = info.uiGotWpsInfo)
    (decided : (r.info.role, r.result) = intentsAfter info.intent ies (info.role, .success) os)
    (kept : r.info.operatingChannel = info.operatingChannel) :
    ChannelAgreed env entries (negoEnd r) ↔ Kept env info ies os entries := by
  rw [agreed_negoEnd, ui, Kept, ChannelAgreed, kept, ← decided, ← imp_iff_not_or, Prod.mk.injEq,
    and_imp]
  exact or_congr_right imp.swap

theorem mem_of_inclusion {peer : List Byte} {ch : Byte} (known : peer ⊆ channelsOf entries)
    (member : ch ∈ rtwP2pChInclusion env.channelSet peer) : Common env entries ch := by
  have common := (chInclusion_sublist env.channelSet peer 0).subset member
  rw [mem_filter, decide_eq_true_eq] at common
  exact ⟨common.2, known common.1⟩

section Contents

variable {data country : List Byte} (three : country.length = 3)
  (list : data = channelListContent country entries)
include three list

theorem agreed_listed (env : NegoEnv) (info : WifidirectInfo)
    (contents : os.filterMap (contentAt ies · attrChList chListSize) = [data.take chListSize])
    {front back : List ℕ} {o : ℕ} {content peer : List Byte} (split : os = front ++ o :: back)
    (listed : contentAt ies o attrChList chListSize = some content)
    (peers : peerChannels env content = some peer) :
    ∃ r, negoFold env ies os (.start info) = some r ∧
      (ChannelAgreed env entries (negoEnd r) ↔ Kept env info ies os entries ∨
        (rtwP2pChInclusion env.channelSet peer = [] ∨
          (intentsAfter info.intent ies (info.role, .success) (front ++ [o])).1 = .go)) := by
  subst split
  rw [filterMap_append,
    filterMap_cons_some (f := (contentAt ies · attrChList chListSize)) listed,
    append_eq_singleton_iff] at contents
  rcases contents with ⟨front_nil, cons⟩ | ⟨-, cons⟩
  · obtain ⟨rfl, back_nil⟩ := List.cons.inj cons
    have known : peer ⊆ channelsOf entries := by
      rcases peerChannels_take env three list with ⟨-, peer', peers', known⟩ | ⟨-, none_⟩
      · rw [← Option.some.inj (peers'.symm.trans peers)]
        exact known
      · exact nomatch peers.symm.trans none_
    obtain ⟨r, fold, ui, cases_⟩ := negoFold_listed (r := .start info) listed
      (filterMap_eq_nil_iff.mp front_nil) (filterMap_eq_nil_iff.mp back_nil) peers rfl
    refine ⟨r, fold, ?_⟩
    rcases cases_ with ⟨fails, why⟩ | ⟨common, decided, owner, other⟩
    · have agreed : ChannelAgreed env entries r := by
        intro success
        exact nomatch success.symm.trans fails
      exact iff_of_true (agreed_negoEnd.mpr (.inr agreed)) (.inr why)
    · by_cases go : (intentsAfter info.intent ies (info.role, .success) (front ++ [o])).1 = .go
      · have agreed : ChannelAgreed env entries r := fun _ _ => mem_of_inclusion known (owner go)
        exact iff_of_true (agreed_negoEnd.mpr (.inr agreed)) (.inr (.inr go))
      · rw [agreed_of_decided ui decided (other go), NegoRun.start_info,
          or_iff_left (not_or.mpr ⟨common, go⟩)]
  · exact nomatch cons

theorem agreed_fold (env : NegoEnv) (info : WifidirectInfo)
    (contents : (os.filterMap (contentAt ies · attrChList chListSize)).Sublist
      [data.take chListSize]) :
    (∃ r, negoFold env ies os (.start info) = some r ∧ ChannelAgreed env entries (negoEnd r)) ↔
      (∀ o ∈ os, ∀ content ∈ contentAt ies o attrChList chListSize, WellFormedList content) ∧
      (Kept env info ies os entries ∨ ListInTime env info ies os) := by
  rcases sublist_singleton.mp contents with none_ | one
  · have quiet := filterMap_eq_nil_iff.mp none_
    obtain ⟨r, after, fold⟩ := negoFold_quiet env (r := .start info) quiet rfl
    have run := fold []
    rw [append_nil] at run
    have late : ¬ ListInTime env info ies os := by
      rintro ⟨front, o, back, content, peer, rfl, listed, -⟩
      exact nomatch listed.symm.trans (quiet o (mem_append_right _ mem_cons_self))
    have vacuous : ∀ o ∈ os, ∀ content ∈ contentAt ies o attrChList chListSize,
        WellFormedList content := by
      intro o member content listed
      exact nomatch listed.symm.trans (quiet o member)
    have agreed : ChannelAgreed env entries (negoEnd r) ↔ Kept env info ies os entries :=
      agreed_of_decided after.uiGotWpsInfo after.decided after.operatingChannel
    simp only [run, negoFold, some.injEq, exists_eq_left', agreed, late, or_false]
    exact (and_iff_right vacuous).symm
  · obtain ⟨front, o, back, split, quiet, listed, -⟩ := filterMap_eq_cons_iff.mp one
    rcases peerChannels_take env three list with ⟨good, peer, peers, -⟩ | ⟨bad, none_⟩
    · have wellFormed : ∀ o ∈ os, ∀ content ∈ contentAt ies o attrChList chListSize,
          WellFormedList content := by
        intro o member content found
        have content_mem : content ∈ os.filterMap (contentAt ies · attrChList chListSize) :=
          mem_filterMap.mpr ⟨o, member, found⟩
        rw [one, mem_singleton] at content_mem
        exact content_mem ▸ good
      obtain ⟨r, fold, agreed⟩ := agreed_listed three list env info one split listed peers
      rw [and_iff_right wellFormed]
      constructor
      · rintro ⟨r', fold', agreed'⟩
        obtain rfl := Option.some.inj (fold.symm.trans fold')
        rcases agreed.mp agreed' with kept | time
        · exact .inl kept
        · exact .inr ⟨front, o, back, _, peer, split, listed, peers, time⟩
      · rintro (kept | ⟨front', o', back', content', peer', split', listed', peers', time⟩)
        · exact ⟨r, fold, agreed.mpr (.inl kept)⟩
        · -- the element that is named there does as well
          obtain ⟨r', fold', agreed'⟩ :=
            agreed_listed three list env info one split' listed' peers'
          exact ⟨r', fold', agreed'.mpr (.inr time)⟩
    · apply iff_of_false
      · rintro ⟨r, fold, -⟩
        rw [split, negoFold_undefined listed quiet none_ rfl] at fold
        exact nomatch fold
      · rintro ⟨wellFormed, -⟩
        have member : o ∈ os := split ▸ mem_append_right _ mem_cons_self
        exact bad (wellFormed o member _ listed)

end Contents

section Frame

variable (env : NegoEnv) (info : WifidirectInfo) {pframe : ℕ → Byte}
  (ies_eq : ies = fun i => pframe (publicActionIeOffset + i))
include ies_eq

theorem process_noWps (noWps : hasWpsIe ies iesLen = false) :
    processP2pGroupNegotationReq env info pframe (publicActionIeOffset + iesLen) =
      some (.refused info true) := by
  simp only [processP2pGroupNegotationReq, Nat.add_sub_cancel_left, ← ies_eq, noWps, Bool.not_false,
    if_true]

theorem process_missing (wps : hasWpsIe ies iesLen = true)
    (missing : rtwGetP2pIe ies iesLen (iesLen + 1) = .missing) :
    processP2pGroupNegotationReq env info pframe (publicActionIeOffset + iesLen) =
      some (negoEnd (.refused info false)) := by
  simp only [processP2pGroupNegotationReq, Nat.add_sub_cancel_left, ← ies_eq, wps, Bool.not_true,
    Bool.false_eq_true, if_false, missing, bind_eq_bind, bind_some, ← apply_ite some]
  rfl

theorem process_found {p : ℕ} (wps : hasWpsIe ies iesLen = true)
    (found : rtwGetP2pIe ies iesLen (iesLen + 1) = .found p) :
    processP2pGroupNegotationReq env info pframe (publicActionIeOffset + iesLen) =
      (negoLoop env ies iesLen (iesLen + 1) 0 (.start info)).map negoEnd := by
  simp only [processP2pGroupNegotationReq, Nat.add_sub_cancel_left, ← ies_eq, wps, Bool.not_true,
    Bool.false_eq_true, if_false, found, bind_eq_bind, ← apply_ite some]
  exact map_eq_bind.symm

end Frame

end Agreed

/-- A request is a header of eight bytes and elements, those of P2P with attributes, of which one is
a channel list. Its operating channel is as it should be exactly in these cases: there is no WPS
element; or no entry of a channel list is cut to fit in `ch_content`, and the loop comes to no P2P
element, the user has not given the WPS information, the intents do not make the local side the
owner, the operating channel was good from the start, or the list is handled after the intent. -/
theorem owner_channel_agreed_iff (env : NegoEnv) (info : WifidirectInfo) (pframe : ℕ → Byte)
    (els : List Elem) (attrs : Elem → List Attr) (list : Attr) (country : List Byte)
    (entries : List Elem) (holds : Holds pframe publicActionIeOffset (encodeAll els))
    (p2p : ∀ e ∈ els, isP2p e = true → e.body = p2pOui ++ encodeAttrs (attrs e))
    (one : ((els.filter isP2p).flatMap attrs).filter (·.id == attrChList) = [list])
    (three : country.length = 3) (good : list.data = channelListContent country entries) :
    let ies := fun i => pframe (publicActionIeOffset + i)
    let iesLen := (encodeAll els).length
    let os := p2pIes ies iesLen (iesLen + 1) 0
    (∃ r, processP2pGroupNegotationReq env info pframe (publicActionIeOffset + iesLen) = some r ∧
        ChannelAgreed env entries r) ↔
      hasWpsIe ies iesLen = false ∨
      ((∀ o ∈ os, ∀ content ∈ contentAt ies o attrChList chListSize, WellFormedList content) ∧
        (os = [] ∨ Kept env info ies os entries ∨ ListInTime env info ies os)) := by
  intro ies iesLen os
  cases wps : hasWpsIe ies iesLen with
  | false =>
    have agreed := process_noWps env info rfl wps
    exact iff_of_true ⟨_, agreed, nofun⟩ (.inl rfl)
  | true =>
    have text : Holds ies 0 (encodeAll els) := holds_shift.mpr holds
    have few : els.length < iesLen + 1 := Nat.lt_succ_of_le (length_le_encodeAll els)
    obtain ⟨loop, contents⟩ := negoLoop_elems env attrs attrChList chListSize
      (.start info) text (Nat.zero_add iesLen) p2p few
    rw [one] at contents
    rw [Bool.true_eq_false, false_or]
    have search := rtwGetP2pIe_elems text (Nat.zero_add iesLen)
    rcases search with missing | ⟨front, e, back, -, found, -⟩
    · have empty : os = [] := by simp only [os, p2pIes, missing]
      simp only [Nat.zero_add, Nat.sub_zero] at missing
      have agreed : ChannelAgreed env entries (negoEnd (.refused info false)) :=
        agreed_negoEnd.mpr (.inr nofun)
      rw [empty]
      exact iff_of_true ⟨_, process_missing env info rfl wps missing, agreed⟩ ⟨nofun, .inl rfl⟩
    · have some_ : os ≠ [] := by
        simp only [os, p2pIes, found]
        exact cons_ne_nil _ _
      simp only [Nat.zero_add, Nat.sub_zero] at found
      rw [process_found env info rfl wps found, loop, or_iff_right some_,
        ← agreed_fold three good env info contents]
      simp only [map_eq_some_iff, exists_exists_and_eq_and]

def wpsElem : Elem := ⟨0xdd, [0x00, 0x50, 0xf2, 0x04], by decide⟩

def threeChannels : List Elem := [⟨81, [1, 6, 11], by decide⟩]

def listAttr : Attr := ⟨attrChList, [0x58, 0x58, 0x04, 81, 3, 1, 6, 11], by decide⟩

def lowIntent : Attr := ⟨attrGoIntent, [0], by decide⟩

def fourChannels : NegoEnv :=
  { channelSet := [1, 6, 11, 36], concurrentMode := false, miLinked := false
    fullChInP2pHandshake := true, stack := fun _ => 0 }

def deviceOn36 : WifidirectInfo :=
  { role := .device, p2pState := .other 0, operatingChannel := 36, intent := 7, peerIntent := 0
    peerCh := 0, p2pPeerInterfaceAddr := [], deviceAddr := [], negoSsid := []
    goDeviceAddr := [], groupSsid := [], uiGotWpsInfo := 1 }

def requestOf (els : List Elem) : ℕ → Byte :=
  image 0 (List.replicate 8 0 ++ encodeAll els)

theorem intent_before_list_agreed :
    let els := [wpsElem, ⟨0xdd, p2pOui ++ encodeAttrs [listAttr, lowIntent], by decide⟩]
    ∃ r, processP2pGroupNegotationReq fourChannels deviceOn36 (requestOf els)
        (8 + (encodeAll els).length) = some r ∧ ChannelAgreed fourChannels threeChannels r := by
  intro els
  have holds : Holds (requestOf els) publicActionIeOffset (encodeAll els) :=
    (holds_append.mp (holds_image (List.replicate 8 0 ++ encodeAll els))).2
  apply (owner_channel_agreed_iff fourChannels deviceOn36 (requestOf els) els
    (fun _ => [listAttr, lowIntent]) listAttr [0x58, 0x58, 0x04] threeChannels holds (by decide)
    (by decide) rfl rfl).mpr
  right
  -- the loop comes to the element at offset 6
  have os : p2pIes (fun i => requestOf els (publicActionIeOffset + i)) (encodeAll els).length
      ((encodeAll els).length + 1) 0 = [6] := by decide +kernel
  have content : contentAt (fun i => requestOf els (publicActionIeOffset + i)) 6 attrChList
      chListSize = some listAttr.data := by decide +kernel
  rw [os]
  constructor
  · intro o member content' found
    rw [mem_singleton.mp member, content] at found
    exact ⟨[0x58, 0x58, 0x04], threeChannels, rfl, (Option.some.inj found).symm⟩
  · refine .inr (.inr ⟨[], 6, [], listAttr.data, [1, 6, 11], rfl, content, ?_, .inr ?_⟩)
    · decide +kernel
    · decide +kernel

theorem list_before_intent :
    let els := [wpsElem, ⟨0xdd, p2pOui ++ encodeAttrs [listAttr], by decide⟩,
      ⟨0xdd, p2pOui ++ encodeAttrs [lowIntent], by decide⟩]
    ∃ r, processP2pGroupNegotationReq fourChannels deviceOn36 (requestOf els)
        (8 + (encodeAll els).length) = some r ∧
      r.result = .success ∧ r.info.role = .go ∧ r.info.operatingChannel = 36 ∧
      36 ∉ channelsOf threeChannels :=
  ⟨_, rfl, by decide +kernel, by decide +kernel, by decide +kernel, by decide +kernel⟩

end Rtl88x2bu.P2p
