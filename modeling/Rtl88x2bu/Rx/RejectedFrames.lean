import Rtl88x2bu.Rx.RecvCustody

/-!
# Replay state and rejected frames

Header validation writes the duplicate and packet number caches before `decryptor` and the TKIP MIC
check have seen the frame, and nothing takes the entries back.
-/

namespace Rtl88x2bu.Rx

/-- The caches of every station and the packet number of every group key. -/
@[ext]
structure ReplayState where
  recvpriv : MacAddr → Option StaRecvPriv
  ivSeq : BitVec 2 → BitVec 64

def replayCaches (stations : StaTable) (addr : MacAddr) : Option StaRecvPriv :=
  (stations addr).map StaInfo.recvpriv

def RecvPath.replayState (s : RecvPath) : ReplayState := ⟨replayCaches s.stations, s.sec.ivSeq⟩

/-- The second state differs from the first in its queues and counters only. -/
structure SparesReplay (s s' : RecvPath) : Prop where
  mode : s'.mode = s.mode
  sec : s'.sec = s.sec
  caches : replayCaches s'.stations = replayCaches s.stations

variable {s s' s'' : RecvPath}
variable (cr : Crypto) {stations : StaTable} {psta : StaInfo} {f : RecvFrame}
variable (ans : Answers)

theorem SparesReplay.trans (first : SparesReplay s s') (second : SparesReplay s' s'') :
    SparesReplay s s'' where
  mode := second.mode.trans first.mode
  sec := second.sec.trans first.sec
  caches := second.caches.trans first.caches

theorem SparesReplay.replayState (spares : SparesReplay s s') : s'.replayState = s.replayState := by
  rw [RecvPath.replayState, spares.caches, spares.sec, RecvPath.replayState]

theorem SparesReplay.countDrop (spares : SparesReplay s s') : SparesReplay s s'.countDrop :=
  ⟨spares.mode, spares.sec, spares.caches⟩

theorem sparesReplay_foldl {Item : Type} {op : RecvPath → Item → RecvPath}
    (spares : ∀ s x, SparesReplay s (op s x)) (xs : List Item) (s : RecvPath) :
    SparesReplay s (xs.foldl op s) := by
  induction xs generalizing s with
  | nil => exact ⟨rfl, rfl, rfl⟩
  | cons x rest ih => exact (spares s x).trans (ih (op s x))

theorem replayCaches_unlink (stations : StaTable) (slot : ℕ) :
    replayCaches (fun addr => (stations addr).map (StaInfo.unlink slot)) =
      replayCaches stations := by
  funext addr
  simp only [replayCaches, Option.map_map]
  rfl

theorem replayCaches_update (stations : StaTable) (addr : MacAddr) (entry : StaInfo) :
    replayCaches (Function.update stations addr (some entry)) =
      Function.update (replayCaches stations) addr (some entry.recvpriv) := by
  funext other
  by_cases same : other = addr
  · subst same
    simp [replayCaches]
  · simp [replayCaches, same]

theorem replayCaches_rewrite {addr : MacAddr} {entry : StaInfo}
    (known : stations addr = some psta) (same : entry.recvpriv = psta.recvpriv) :
    replayCaches (Function.update stations addr (some entry)) = replayCaches stations := by
  rw [replayCaches_update, same, Function.update_eq_self_iff]
  simp [replayCaches, known]

theorem sparesReplay_free (s : RecvPath) (slot : ℕ) : SparesReplay s (s.rtwFreeRecvframe slot) :=
  ⟨rfl, rfl, replayCaches_unlink s.stations slot⟩

theorem sparesReplay_recvProcessMpdu (s : RecvPath) (f : RecvFrame) :
    SparesReplay s (s.recvProcessMpdu ans f) := by
  simp only [RecvPath.recvProcessMpdu]
  split_ifs
  · exact sparesReplay_free s f.slot
  · exact (sparesReplay_free s f.slot).countDrop

theorem sparesReplay_afterReorder {ref : ReorderRef} (known : s.stations ref.sta = some psta)
    (out : Handling) : SparesReplay s (s.afterReorder ref psta out) :=
  ⟨rfl, rfl, replayCaches_rewrite known rfl⟩

theorem sparesReplay_indicate (s : RecvPath) (orig f : RecvFrame) :
    SparesReplay s (s.indicate ans orig f) := by
  simp only [RecvPath.indicate]
  split
  · exact sparesReplay_recvProcessMpdu ans s f
  next ref psta found =>
    have reordered := sparesReplay_afterReorder (stations_of_lookup found)
    split
    · exact ((reordered _).trans (sparesReplay_free _ orig.slot)).countDrop
    · exact (reordered _).trans (sparesReplay_foldl (sparesReplay_recvProcessMpdu ans) _ _)
    · exact (reordered _).trans (sparesReplay_recvProcessMpdu ans _ f)

theorem sparesReplay_chkDefrag (cr : Crypto) (s : RecvPath) (f : RecvFrame) :
    SparesReplay s { s with stations := (recvframeChkDefrag cr s.sec s.stations f).stations } := by
  refine ⟨rfl, rfl, ?_⟩
  dsimp only
  rw [recvframeChkDefrag_stations]
  -- only a defragmentation queue is ever written
  rcases queueFragment_cases s.stations f with ⟨_, out⟩ | ⟨_, out⟩ |
    ⟨addr, psta, _, _, owner, _, _, out⟩ | ⟨addr, psta, owner, _, _, _, out⟩
  · rw [out]
  · rw [out]
  · rw [out]
    exact replayCaches_rewrite (defragOwner_some owner).1 rfl
  · rw [out]
    exact replayCaches_rewrite (defragOwner_some owner).1 rfl

theorem sparesReplay_posthandle (s : RecvPath) (f : RecvFrame) :
    SparesReplay s (recvFuncPosthandle cr ans s f) := by
  simp only [recvFuncPosthandle]
  split
  · exact (sparesReplay_free s f.slot).countDrop
  next g _ =>
    have defragged := (sparesReplay_chkDefrag cr s g).trans
      (sparesReplay_foldl sparesReplay_free (recvframeChkDefrag cr s.sec s.stations g).freed _)
    split
    · exact defragged.countDrop
    next prframe _ =>
      split_ifs
      · exact defragged.trans (sparesReplay_indicate ans _ g prframe)
      · exact (defragged.trans (sparesReplay_free _ prframe.slot)).countDrop

theorem sparesReplay_dequeueSwdec (dequeued : s.dequeueSwdec = some (f, s')) :
    SparesReplay s s' := by
  simp only [RecvPath.dequeueSwdec] at dequeued
  split at dequeued
  · cases dequeued
  · cases dequeued
    exact ⟨rfl, rfl, rfl⟩

theorem sparesReplay_drainSwdec (fuel : ℕ) (s : RecvPath) :
    SparesReplay s (drainSwdec cr ans fuel s) := by
  induction fuel generalizing s with
  | zero => exact ⟨rfl, rfl, rfl⟩
  | succ fuel ih =>
    simp only [drainSwdec]
    split
    · exact ⟨rfl, rfl, rfl⟩
    next f rest dequeued =>
      exact ((sparesReplay_dequeueSwdec dequeued).trans
        (sparesReplay_posthandle cr ans rest f)).trans
        (ih _)

theorem sparesReplay_drainIfKeyed (s : RecvPath) : SparesReplay s (drainIfKeyed cr ans s) := by
  simp only [drainIfKeyed]
  split_ifs
  · exact sparesReplay_drainSwdec cr ans _ s
  · exact ⟨rfl, rfl, rfl⟩

theorem sparesReplay_pendForKey (s : RecvPath) (f : RecvFrame) :
    SparesReplay s (pendForKey cr ans s f) := by
  have queued : SparesReplay s (s.enqueueSwdec f) :=
    ⟨rfl, rfl, replayCaches_unlink s.stations f.slot⟩
  simp only [pendForKey]
  split_ifs
  · split
    · exact queued
    next first rest dequeued =>
      exact (queued.trans (sparesReplay_dequeueSwdec dequeued)).trans
        (sparesReplay_posthandle cr ans rest first)
  · exact queued

/-- The caches once a frame has passed them. `encrypt` is the cipher of the RX descriptor. -/
def StaRecvPriv.remember (sta : StaRecvPriv) (encrypt : SecurityType) (tid : Fin 16)
    (g : RecvFrame) : StaRecvPriv :=
  let sta := sta.setRxseq (g.rxSeqSlot tid) g.seqCtrl
  if !isMcast g.attrib.ra && encrypt = .aes && validPnChk g.pn (ccmph2Pn (sta.iv tid)) then
    { sta with
      lastTid := g.attrib.priority
      iv := Function.update sta.iv tid g.ccmpHeader }
  else sta

/-- The packet numbers of the group keys once a frame has passed them. Only a station keeps them. -/
def rememberIvSeq (ivSeq : BitVec 2 → BitVec 64) (station : Bool) (encrypt : SecurityType)
    (g : RecvFrame) : BitVec 2 → BitVec 64 :=
  if isMcast g.attrib.ra && station && encrypt = .aes then Function.update ivSeq g.keyId g.pn
  else ivSeq

def ReplayState.remember (before : ReplayState) (station : Bool) (encrypt : SecurityType)
    (addr : MacAddr) (tid : Fin 16) (g : RecvFrame) : ReplayState where
  recvpriv := Function.update before.recvpriv addr
    ((before.recvpriv addr).map (StaRecvPriv.remember · encrypt tid g))
  ivSeq := rememberIvSeq before.ivSeq station encrypt g

/-- `f` has become `g`, new to its station, whose caches know it now. -/
def Remembers (s : RecvPath) (f : RecvFrame) (s' : RecvPath) (g : RecvFrame) : Prop :=
  ∃ addr psta tid, g.psta = some addr ∧ s.stations addr = some psta ∧ g.tid = some tid ∧
    psta.recvpriv.rxseq (g.rxSeqSlot tid) ≠ g.seqCtrl ∧
    s'.replayState = s.replayState.remember s.mode.station f.attrib.encrypt addr tid g

theorem checkCipher_frame (mode : AdapterMode) (sec : SecurityPriv) (psta : StaInfo)
    (f : RecvFrame) : ∃ encrypt, (checkCipher mode sec psta f).2 = f.setCipher encrypt := by
  simp only [checkCipher, noteCipher]
  split_ifs <;> exact ⟨_, rfl⟩

theorem notePreorderCtrl_frame (addr : MacAddr) (f : RecvFrame) :
    ∃ ctrl, notePreorderCtrl addr f = { f with preorderCtrl := ctrl } := by
  simp only [notePreorderCtrl]
  split_ifs <;> exact ⟨_, rfl⟩

theorem kernelRecvUcastPnDecache_remember {tid : Fin 16} (sta : StaRecvPriv)
    (station : f.psta.isSome = true) (valid : f.tid = some tid)
    (unicast : isMcast f.attrib.ra = false) :
    kernelRecvUcastPnDecache (sta.setRxseq (f.rxSeqSlot tid) f.seqCtrl) f =
      (.success, sta.remember f.attrib.encrypt tid f) := by
  simp only [kernelRecvUcastPnDecache, StaRecvPriv.remember, Option.isNone_eq_false_iff.mpr station,
    valid, unicast, Bool.false_eq_true, if_false]
  by_cases aes : f.attrib.encrypt = .aes
  · simp only [aes, ne_eq, not_true_eq_false, if_false, Bool.not_false, decide_true, Bool.true_and]
    split_ifs <;> rfl
  · simp [aes]

theorem kernelRecvBcastPnDecache_remember {station : Bool} {ivSeq ivSeq' : BitVec 2 → BitVec 64}
    (group : isMcast f.attrib.ra = true)
    (passed : kernelRecvBcastPnDecache station ivSeq f = (.success, ivSeq')) :
    ivSeq' = rememberIvSeq ivSeq station f.attrib.encrypt f := by
  simp only [kernelRecvBcastPnDecache] at passed
  simp only [rememberIvSeq, group, Bool.true_and]
  split_ifs at passed with other apMode replayed
  · cases passed
    simp [other]
  · cases passed
    have isAp : station = false := by simpa using apMode
    simp [isAp]
  · cases passed
  · cases passed
    have isStation : station = true := by simpa using apMode
    have aes : f.attrib.encrypt = .aes := by simpa using other
    simp [isStation, aes]

theorem validateStaData_success {mode : AdapterMode} {sec : SecurityPriv} {addr : MacAddr}
    (passed : (validateStaData mode sec stations addr psta f).status = .success) :
    let out := validateStaData mode sec stations addr psta f
    ∃ tid ctrl encrypt, f.tid = some tid ∧
      psta.recvpriv.rxseq (f.rxSeqSlot tid) ≠ f.seqCtrl ∧
      out.frame = { f with preorderCtrl := ctrl }.setCipher encrypt ∧
      out.stations =
        setRecvpriv stations addr psta (psta.recvpriv.remember f.attrib.encrypt tid f) ∧
      out.sec = { sec with
        ivSeq := rememberIvSeq sec.ivSeq mode.station f.attrib.encrypt f } := by
  cases decached : kernelRecvDecache psta.recvpriv f with
  | mk status recvpriv =>
    simp only [validateStaData, decached] at passed ⊢
    cases status with
    | fail => cases passed
    | handled => cases passed
    | success =>
      obtain ⟨station, tid, valid, new, rfl⟩ := kernelRecvDecache_success decached
      refine ⟨tid, ?_⟩
      cases group : isMcast f.attrib.ra with
      | false =>
        obtain ⟨ctrl, noted⟩ := notePreorderCtrl_frame addr f
        obtain ⟨encrypt, ciphered⟩ := checkCipher_frame mode sec psta
          { f with preorderCtrl := ctrl }
        have pn : kernelRecvUcastPnDecache (psta.recvpriv.setRxseq (f.rxSeqSlot tid) f.seqCtrl)
            { f with preorderCtrl := ctrl } =
              (.success, psta.recvpriv.remember f.attrib.encrypt tid f) :=
          kernelRecvUcastPnDecache_remember psta.recvpriv station valid group
        simp only [noted, pn, ciphered, Bool.false_eq_true, if_false]
        exact ⟨ctrl, encrypt, valid, new.symm, rfl, trivial, by simp [rememberIvSeq, group]⟩
      | true =>
        obtain ⟨encrypt, ciphered⟩ := checkCipher_frame mode sec psta f
        -- the caches of the station keep no packet number of a group frame
        have remembered : psta.recvpriv.remember f.attrib.encrypt tid f =
            psta.recvpriv.setRxseq (f.rxSeqSlot tid) f.seqCtrl := by
          simp [StaRecvPriv.remember, group]
        simp only [group, if_true] at passed ⊢
        cases pn : kernelRecvBcastPnDecache mode.station sec.ivSeq f with
        | mk status ivSeq =>
          rw [pn] at passed
          cases status with
          | fail => cases passed
          | handled => cases passed
          | success =>
            rw [remembered, ← kernelRecvBcastPnDecache_remember group pn]
            exact ⟨f.preorderCtrl, encrypt, valid, new.symm, ciphered, rfl, rfl⟩

theorem validateRecvDataFrame_success {mode : AdapterMode}
    {otherHdr : RecvFrame → Status × Option MacAddr} {sec : SecurityPriv}
    (passed : (validateRecvDataFrame mode otherHdr sec stations f).status = .success) :
    let h := (validateDataHdr mode otherHdr stations (noteAmsdu f)).frame
    ∃ addr psta, stations addr = some psta ∧
      validateRecvDataFrame mode otherHdr sec stations f =
        validateStaData mode sec stations addr psta (noteStation addr h) := by
  simp only [validateRecvDataFrame] at passed ⊢
  by_cases checked : (validateDataHdr mode otherHdr stations (noteAmsdu f)).status = .success
  · rw [if_neg (not_not.mpr checked)] at passed ⊢
    cases found : (validateDataHdr mode otherHdr stations (noteAmsdu f)).psta with
    | none => simp [found] at passed
    | some addr =>
      cases known : stations addr with
      | none => simp [found, known] at passed
      | some psta =>
        simp only [found, known] at passed ⊢
        split_ifs at passed ⊢
        exact ⟨addr, psta, known, rfl⟩
  · rw [if_pos checked] at passed
    exact absurd passed checked

theorem recvDataFrame_success {ans : Answers} {g : RecvFrame}
    (passed : s.recvDataFrame ans f = (.success, s', g)) : Remembers s f s' g := by
  simp only [RecvPath.recvDataFrame, Prod.mk.injEq] at passed
  obtain ⟨status, rfl, rfl⟩ := passed
  obtain ⟨addr, psta, known, eq⟩ := validateRecvDataFrame_success status
  rw [eq] at status ⊢
  obtain ⟨tid, ctrl, encrypt, valid, new, frame, stations, sec⟩ := validateStaData_success status
  rw [if_neg (by rw [status]; decide), frame]
  refine ⟨addr, psta, tid, rfl, known, valid, new, ?_⟩
  -- the cipher of the descriptor has come through the header check
  have encrypted : (validateDataHdr s.mode ans.otherHdr s.stations
      (noteAmsdu
        { f with attrib.qos := getFrameSubType f.rxData &&& 0x80 != 0 })).frame.attrib.encrypt =
        f.attrib.encrypt := by
    obtain ⟨ra, ta, dst, written⟩ := validateDataHdr_frame s.mode s.stations
      (noteAmsdu { f with attrib.qos := getFrameSubType f.rxData &&& 0x80 != 0 }) ans.otherHdr
    rw [written]
    rfl
  ext1
  · simp only [RecvPath.replayState, stations, setRecvpriv, replayCaches_update,
      ReplayState.remember]
    have before : replayCaches s.stations addr = some psta.recvpriv := by simp [replayCaches, known]
    rw [before]
    exact congrArg (fun encrypt => Function.update (replayCaches s.stations) addr
      (some (psta.recvpriv.remember encrypt tid _))) encrypted
  · simp only [RecvPath.replayState, sec, ReplayState.remember]
    exact congrArg (fun encrypt => rememberIvSeq s.sec.ivSeq s.mode.station encrypt _) encrypted

theorem recvFuncPrehandle_success {cr : Crypto} {ans : Answers} {g : RecvFrame}
    (passed : recvFuncPrehandle cr ans s f = (s', some g)) : Remembers s f s' g := by
  simp only [recvFuncPrehandle] at passed
  by_cases mp : s.mode.mpMode = true
  · simp [mp] at passed
  rw [if_neg mp] at passed
  cases result : s.validateRecvFrame cr ans f with
  | mk status rest =>
    obtain ⟨t, h⟩ := rest
    rw [result] at passed
    cases status with
    | fail => cases passed
    | handled => cases passed
    | success =>
      cases passed
      -- management, control and reserved frames end with `_FAIL`
      simp only [RecvPath.validateRecvFrame] at result
      split_ifs at result
      · cases result
      · -- parsing the header leaves the cipher of the descriptor
        have data (passed : s.recvDataFrame ans f.parse = (.success, s', g)) :
            Remembers s f.parse s' g := recvDataFrame_success passed
        split at result <;> first | cases result | exact data result

/-- A frame that header validation passes, and so every frame that `decryptor` or the TKIP MIC check
can reject, is remembered whatever becomes of it. Its sequence control, which differs from the one
remembered before, takes the place of that one; its packet number is stored if it is a unicast frame
marked as CCMP whose number advances, or a group frame marked as CCMP at a station. Every other
entry is as it was. -/
theorem validated_frame_remembered {cr : Crypto} {ans : Answers} {f g : RecvFrame}
    (on : s.mode.monitor = false)
    (validated : recvFuncPrehandle cr ans (drainIfKeyed cr ans s) f = (s', some g)) :
    ∃ addr sta tid, g.psta = some addr ∧ s.replayState.recvpriv addr = some sta ∧
      g.tid = some tid ∧ sta.rxseq (g.rxSeqSlot tid) ≠ g.seqCtrl ∧
      (recvFunc cr ans s f).replayState =
        s.replayState.remember s.mode.station f.attrib.encrypt addr tid g := by
  have drained := sparesReplay_drainIfKeyed cr ans s
  obtain ⟨addr, psta, tid, station, known, valid, new, remembered⟩ :=
    recvFuncPrehandle_success validated
  refine ⟨addr, psta.recvpriv, tid, station, ?_, valid, new, ?_⟩
  · rw [← drained.replayState]
    simp [RecvPath.replayState, replayCaches, known]
  · have after : (recvFunc cr ans s f).replayState = s'.replayState := by
      simp only [recvFunc, on, Bool.false_eq_true, if_false, validated]
      split_ifs
      · exact (sparesReplay_pendForKey cr ans s' g).replayState
      · exact (sparesReplay_posthandle cr ans s' g).replayState
    rw [after, remembered, drained.replayState, drained.mode]

def FailsDecryption (cr : Crypto) (s : RecvPath) (g : RecvFrame) : Prop :=
  decryptor cr s.sec s.stations g = none ∨
    ∃ h prtnframe, decryptor cr s.sec s.stations g = some h ∧
      (queueFragment s.stations h).frame = some prtnframe ∧ prtnframe.attrib.privacy = true ∧
      (recvframeChkmic cr s.sec (queueFragment s.stations h).stations prtnframe).1 = .fail

def keyed : RecvPath := associated { dot11AuthAlgrthm := .ieee8021X, dot11PrivacyAlgrthm := .aes }

def forged : RecvFrame :=
  { apData 0x42 0x50 0 with
    attrib.encrypt := .aes
    rxData := (apData 0x42 0x50 0).rxData.set 26 5 }

def forgedChecked : RecvPath × Option RecvFrame :=
  recvFuncPrehandle nullCrypto accept (drainIfKeyed nullCrypto accept keyed) forged

theorem validated_frame_remembered_forged :
    ∃ s' g, recvFuncPrehandle nullCrypto accept (drainIfKeyed nullCrypto accept keyed) forged =
        (s', some g) ∧
      ∃ addr sta tid, g.psta = some addr ∧ keyed.replayState.recvpriv addr = some sta ∧
        g.tid = some tid ∧ sta.rxseq (g.rxSeqSlot tid) ≠ g.seqCtrl ∧
        (recvFunc nullCrypto accept keyed forged).replayState =
          keyed.replayState.remember true .aes addr tid g := by
  obtain ⟨g, passed⟩ : ∃ g, forgedChecked.2 = some g :=
    Option.isSome_iff_exists.mp (by decide +kernel)
  exact ⟨forgedChecked.1, g, Prod.ext rfl passed,
    validated_frame_remembered rfl (Prod.ext rfl passed)⟩

theorem rejected_frame_remembered :
    ¬ ∀ (cr : Crypto) (ans : Answers) (s s' : RecvPath) (f g : RecvFrame),
      s.mode.monitor = false →
      recvFuncPrehandle cr ans (drainIfKeyed cr ans s) f = (s', some g) →
      s'.waitsForKey g = false → FailsDecryption cr s' g →
      (recvFunc cr ans s f).replayState = s.replayState := by
  intro claimed
  have fate : forgedChecked.2.map (fun g => (forgedChecked.1.waitsForKey g,
      decryptor nullCrypto forgedChecked.1.sec forgedChecked.1.stations g)) =
        some (false, none) := by
    decide +kernel
  obtain ⟨g, passed, outcome⟩ := Option.map_eq_some_iff.mp fate
  have unchanged := claimed nullCrypto accept keyed forgedChecked.1 forged g rfl
    (Prod.ext rfl passed) (Prod.mk.inj outcome).1 (.inl (Prod.mk.inj outcome).2)
  -- the sequence control of TID 0 and the remembered IV have changed
  have seqCtrls : ((recvFunc nullCrypto accept keyed forged).replayState.recvpriv apAddr).map
      (fun sta => (sta.tidRxseq 0, sta.iv 0)) = some (0x50, 5) := by
    decide +kernel
  rw [unchanged] at seqCtrls
  revert seqCtrls
  decide +kernel

/-! ## Frames that wait for the key -/

/-- A station, not monitoring, that has its pairwise key. -/
def RecvPath.Keyed (s : RecvPath) : Prop :=
  s.mode.monitor = false ∧ s.mode.station = true ∧ s.sec.busetkipkey = true

theorem validateRecvDataFrame_key (mode : AdapterMode)
    (otherHdr : RecvFrame → Status × Option MacAddr) (sec : SecurityPriv) (stations : StaTable)
    (f : RecvFrame) :
    (validateRecvDataFrame mode otherHdr sec stations f).sec.busetkipkey = sec.busetkipkey := by
  unfold validateRecvDataFrame validateStaData
  dsimp only
  repeat' split
  all_goals rfl

theorem recvDataFrame_swdec (s : RecvPath) (f : RecvFrame) :
    (s.recvDataFrame ans f).2.1.ucSwdecPendingQueue = s.ucSwdecPendingQueue ∧
      (s.recvDataFrame ans f).2.1.sec.busetkipkey = s.sec.busetkipkey := by
  simp only [RecvPath.recvDataFrame]
  split_ifs <;> exact ⟨rfl, validateRecvDataFrame_key ..⟩

theorem prehandle_swdec (s : RecvPath) (f : RecvFrame) :
    let out := recvFuncPrehandle cr ans s f
    out.1.ucSwdecPendingQueue.Sublist s.ucSwdecPendingQueue ∧
      (out.2.isSome → out.1.sec.busetkipkey = s.sec.busetkipkey) := by
  simp only [recvFuncPrehandle]
  split_ifs
  · simp only [RecvPath.mpRecvFrame]
    split_ifs
    · exact ⟨(rtwFreeRecvframe_swdec _ f.slot).trans (rtwFreeRecvframe_swdec s f.slot), by simp⟩
    · exact ⟨rtwFreeRecvframe_swdec s f.slot, by simp⟩
  · simp only [RecvPath.validateRecvFrame]
    split_ifs
    · exact ⟨rtwFreeRecvframe_swdec s f.slot, by simp⟩
    · cases getFrameType f.parse.rxData with
      | mgt =>
        refine ⟨(rtwFreeRecvframe_swdec _ _).trans ?_, by simp⟩
        exact foldl_swdec rtwFreeRecvframe_swdec _ { s with sec := _, stations := _ }
      | ctrl =>
        refine ⟨(rtwFreeRecvframe_swdec _ _).trans ?_, by simp⟩
        simp only [RecvPath.recvCtrlFrame]
        split <;> exact .refl _
      | reserved => exact ⟨rtwFreeRecvframe_swdec s f.slot, by simp⟩
      | data =>
        obtain ⟨queue, key⟩ := recvDataFrame_swdec ans s f.parse
        dsimp only
        generalize s.recvDataFrame ans f.parse = out at queue key ⊢
        obtain ⟨status, s', g⟩ := out
        cases status with
        | success => exact ⟨queue ▸ .refl _, fun _ => key⟩
        | _ => exact ⟨queue ▸ rtwFreeRecvframe_swdec s' g.slot, by simp⟩

theorem recvFunc_keyed {s : RecvPath} (keyed : s.Keyed) (f : RecvFrame) :
    (recvFunc cr ans s f).ucSwdecPendingQueue = [] := by
  obtain ⟨monitor, station, key⟩ := keyed
  have drained : (drainIfKeyed cr ans s).ucSwdecPendingQueue = [] := by
    rw [drainIfKeyed, station, key]
    exact drainSwdec_empty cr ans le_rfl
  obtain ⟨queue, same⟩ := prehandle_swdec cr ans (drainIfKeyed cr ans s) f
  rw [(sparesReplay_drainIfKeyed cr ans s).sec, key] at same
  rw [drained, List.sublist_nil] at queue
  rw [recvFunc, if_neg (by simp [monitor])]
  generalize recvFuncPrehandle cr ans (drainIfKeyed cr ans s) f = out at queue same ⊢
  obtain ⟨s', _ | g⟩ := out
  · exact queue
  · have ready : s'.waitsForKey g = false := by
      have set : s'.sec.busetkipkey = true := same rfl
      simp [RecvPath.waitsForKey, set]
    have behind := posthandle_swdec cr ans s' g
    rw [show s'.ucSwdecPendingQueue = [] from queue, List.sublist_nil] at behind
    simpa only [ready, Bool.false_eq_true, if_false] using behind

theorem recvTimeout_swdec (s : RecvPath) (ref : ReorderRef) (cannotRun : Bool) :
    (s.recvTimeout ans ref cannotRun).ucSwdecPendingQueue.Sublist s.ucSwdecPendingQueue := by
  unfold RecvPath.recvTimeout
  split
  · exact .refl _
  · exact foldl_swdec (recvProcessMpdu_swdec ans) _ (s.afterReorder ref _ _)

theorem step_mpdu_keyed {s : RecvPath} (keyed : s.Keyed) (f : RecvFrame) :
    (s.step cr (.mpdu ans f)).ucSwdecPendingQueue = [] ∨
      s.freeRecvQueue = [] ∧ s.step cr (.mpdu ans f) = s := by
  cases queue : s.freeRecvQueue with
  | nil => simp [RecvPath.step, RecvPath.rtwAllocRecvframe, queue]
  | cons slot rest =>
    simp only [RecvPath.step, RecvPath.rtwAllocRecvframe, queue]
    exact .inl (recvFunc_keyed cr ans (by exact keyed) _)

/-- Once the pairwise key is installed and another MPDU has come in, no frame waits for the key any
more, whatever else happens while the key stays. -/
theorem no_frame_waits_for_key {s t : RecvPath} (keyed : s.Keyed) (free : s.freeRecvQueue ≠ [])
    (f : RecvFrame)
    (reached : Run.Reachable (RecvPath.step cr) (fun u _ => u.Keyed) (s.step cr (.mpdu ans f)) t) :
    t.ucSwdecPendingQueue = [] := by
  refine reached.invariant ((step_mpdu_keyed cr ans keyed f).resolve_right (free ·.1)) ?_
  intro u e empty keyed
  cases e with
  | mpdu ans f =>
    rcases step_mpdu_keyed cr ans keyed f with done | ⟨-, same⟩
    · exact done
    · rwa [same]
  | reorderTimeout ans ref cannotRun =>
    have behind := recvTimeout_swdec ans u ref cannotRun
    rwa [empty, List.sublist_nil] at behind
  | configure mode sec => exact empty
  | stations table => exact empty

def keySet : RecvPath :=
  { associated { busetkipkey := true } with ucSwdecPendingQueue := [forged] }

theorem no_frame_waits_for_key_one :
    (keySet.step nullCrypto (.mpdu accept forged)).ucSwdecPendingQueue = [] := by
  have keyed : keySet.Keyed := ⟨rfl, rfl, rfl⟩
  exact no_frame_waits_for_key nullCrypto accept keyed (by decide) forged .start

end Rtl88x2bu.Rx
