import Rtl88x2bu.Bridge.Forwarding

/-!
# Frames with and without an 802.1Q header

`nat25_handle_frame` takes the 802.1Q header out of a frame and puts it back. On two frames that
agree in their bytes, what comes between takes the same way as long as it stays inside.
-/

namespace Rtl88x2bu.Bridge

open Rx (MacAddr)
open Tape

/-! ## The moves -/

/-- One step of the loops: two bytes are copied. -/
def move16 (data : ℕ → Byte) (dst src : ℕ) : ℕ → Byte :=
  paste data dst (window data src 2)

/-- The loop that moves the addresses over the header, from the back, and `skb_pull`. -/
def pullVlan (data : ℕ → Byte) : ℕ → Byte :=
  fun i => (List.range 6).foldl (fun d k => move16 d (14 - k * 2) (10 - k * 2)) data (i + 4)

/-- `skb_push`, with what was in front of the frame, and the loop that moves the addresses back. -/
def pushVlan (front data : ℕ → Byte) (vlanHdr : List Byte) : ℕ → Byte :=
  let pushed := fun i => if i < 4 then front i else data (i - 4)
  let moved := (List.range 6).foldl (fun d k => move16 d (k * 2) (4 + k * 2)) pushed
  paste (paste moved 12 (htons ethP8021Q)) 14 vlanHdr

/-- `stripVlan` is what the loop leaves. -/
theorem pullVlan_eq (skb : SkBuff) : pullVlan skb.data = (stripVlan skb).data := by
  funext i
  change pullVlan skb.data i = if i < 12 then skb.data i else skb.data (i + 4)
  rcases Nat.lt_or_ge i 12 with below | above
  · interval_cases i <;> rfl
  · rw [if_neg (not_lt.mpr above), pullVlan]
    simp only [List.range, List.range.loop, List.foldl_cons, List.foldl_nil, move16]
    repeat rw [paste_of_le (by rw [length_window]; omega)]

/-- `restoreVlan` is what the loop leaves. -/
theorem pushVlan_eq (front : ℕ → Byte) (skb : SkBuff) {vlanHdr : List Byte}
    (length : vlanHdr.length = 2) :
    pushVlan front skb.data vlanHdr = (restoreVlan skb vlanHdr).data := by
  obtain ⟨v, w, rfl⟩ := List.length_eq_two.mp length
  funext i
  change pushVlan front skb.data [v, w] i =
    paste (fun i => if i < 12 then skb.data i else skb.data (i - 4)) 12
      (htons ethP8021Q ++ [v, w]) i
  rcases Nat.lt_or_ge i 16 with below | above
  · interval_cases i <;> rfl
  · rw [paste_of_le (by simp [htons]; omega), if_neg (by omega), pushVlan]
    simp only [List.range, List.range.loop, List.foldl_cons, List.foldl_nil, move16]
    rw [paste_of_le (by simp; omega), paste_of_le (by simp [htons]; omega)]
    repeat rw [paste_of_le (by rw [length_window]; omega)]
    rw [if_neg (by omega)]

/-! ## Agreeing frames -/

/-- The frames are the same; what lies behind them may differ. -/
structure Agree (a b : SkBuff) : Prop where
  len : a.len = b.len
  data : ∀ i < b.len, a.data i = b.data i

section Agree

variable {a b : SkBuff} {base : ℕ}

theorem Agree.refl (a : SkBuff) : Agree a a := ⟨rfl, fun _ _ => rfl⟩

section

variable (agree : Agree a b)
include agree

theorem Agree.touch (base n : ℕ) : Agree (a.touch base n) (b.touch base n) :=
  ⟨agree.len, agree.data⟩

theorem Agree.paste (base : ℕ) (bytes : List Byte) {i : ℕ} (below : i < b.len) :
    Tape.paste a.data base bytes i = Tape.paste b.data base bytes i := by
  rw [Tape.paste, Tape.paste, agree.data i below]

theorem Agree.store (base : ℕ) (bytes : List Byte) :
    Agree (a.store base bytes) (b.store base bytes) :=
  ⟨agree.len, fun _ below => agree.paste base bytes below⟩

theorem Agree.window {n : ℕ} (inside : n = 0 ∨ base + n ≤ b.len) :
    window a.data base n = window b.data base n := by
  apply window_congr
  intro i _ below
  exact agree.data i (by omega)

theorem Agree.memmove (dst : ℕ) {src n : ℕ} (inside : n = 0 ∨ src + n ≤ b.len) :
    Agree (a.memmove dst src n) (b.memmove dst src n) := by
  rw [SkBuff.memmove, SkBuff.memmove, agree.window inside]
  exact (agree.touch src n).store dst _

theorem Agree.trim (n : ℕ) : Agree (a.trim n) (b.trim n) :=
  ⟨congrArg (· - n) agree.len,
    fun i below => agree.data i (Nat.lt_of_lt_of_le below (Nat.sub_le _ _))⟩

theorem Agree.be16 (inside : base + 2 ≤ b.len) : be16 a.data base = be16 b.data base := by
  rw [Rtl88x2bu.be16, Rtl88x2bu.be16, agree.data base (by omega), agree.data (base + 1) (by omega)]

theorem Agree.addrAt {k : ℕ} (inside : base + k ≤ b.len) :
    addrAt k a.data base = addrAt k b.data base := by
  apply Vector.ext
  intro i bound
  simp only [Bridge.addrAt, Vector.getElem_ofFn]
  exact agree.data _ (by omega)

end

end Agree

/-! ## The handlers -/

/-- What was made of a frame that agrees with `b` is what was made of `b`, which was accessed
inside. -/
structure Coupled (b : SkBuff) (x y : Handled) : Prop where
  before : b.inside = true
  ret : x.ret = y.ret
  priv : x.priv = y.priv
  skb : Agree x.skb y.skb

/-- What is made of the two is the same if `y` stays inside. -/
def Tracks (b : SkBuff) (x y : Handled) : Prop :=
  y.skb.inside = true → Coupled b x y

theorem Tracks.mono {b : SkBuff} {x y : Handled} (b' : SkBuff)
    (earlier : b'.inside = true → b.inside = true) (tracks : Tracks b' x y) : Tracks b x y :=
  fun inside =>
    let ⟨before, ret, priv, skb⟩ := tracks inside
    ⟨earlier before, ret, priv, skb⟩

theorem Tracks.touch {b : SkBuff} {x y : Handled} (base n : ℕ)
    (tracks : Tracks (b.touch base n) x y) : Tracks b x y :=
  tracks.mono _ fun before => ((touch_inside b base n).mp before).1

/-- Two branches are taken alike if the condition was read inside. -/
theorem Tracks.ite {b : SkBuff} {P Q : Prop} [Decidable P] [Decidable Q] {x x' y y' : Handled}
    (read : b.inside = true → (P ↔ Q)) (pos : Tracks b x y) (neg : Tracks b x' y') :
    Tracks b (if P then x else x') (if Q then y else y') := by
  intro inside
  by_cases cond : Q
  · rw [if_pos cond] at inside ⊢
    have coupled := pos inside
    rwa [if_pos ((read coupled.before).mpr cond)]
  · rw [if_neg cond] at inside ⊢
    have coupled := neg inside
    rwa [if_neg fun holds => cond ((read coupled.before).mp holds)]

section Handlers

variable {env : Env} {priv : Adapter} {a b : SkBuff}

theorem Agree.keeps (agree : Agree a b) (ret : Option ℤ) (priv : Adapter) :
    Tracks b ⟨ret, priv, a⟩ ⟨ret, priv, b⟩ :=
  fun inside => ⟨inside, rfl, rfl, agree⟩

theorem Agree.stores (agree : Agree a b) {base : ℕ} {bytes : List Byte} (ret : Option ℤ)
    (priv : Adapter) : Tracks b ⟨ret, priv, a.store base bytes⟩ ⟨ret, priv, b.store base bytes⟩ :=
  fun inside => ⟨inside_of_store inside, rfl, rfl, agree.store base bytes⟩

/-! ### IPv4 and ARP -/

theorem dbLookup_agree (env : Env) (priv : Adapter) (agree : Agree a b) (addr : NetworkAddr) :
    (dbNetworkLookupAndReplace env priv a addr).1 = (dbNetworkLookupAndReplace env priv b addr).1 ∧
    Agree (dbNetworkLookupAndReplace env priv a addr).2.1
      (dbNetworkLookupAndReplace env priv b addr).2.1 ∧
    (dbNetworkLookupAndReplace env priv a addr).2.2 =
      (dbNetworkLookupAndReplace env priv b addr).2.2 := by
  rw [dbNetworkLookupAndReplace, dbNetworkLookupAndReplace]
  cases priv.find addr with
  | none => exact ⟨rfl, agree, rfl⟩
  | some db =>
    dsimp only
    split
    · exact ⟨rfl, agree, rfl⟩
    · exact ⟨rfl, agree.store 0 _, rfl⟩

theorem inside_of_dbLookup {addr : NetworkAddr}
    (inside : (dbNetworkLookupAndReplace env priv b addr).2.1.inside = true) : b.inside = true := by
  revert inside
  rw [dbNetworkLookupAndReplace]
  cases priv.find addr with
  | none => exact id
  | some db =>
    dsimp only
    split
    · exact id
    · exact inside_of_store

theorem ipUnknown_tracks (agree : Agree a b) : Tracks b (ipUnknown priv a) (ipUnknown priv b) := by
  refine .touch 33 1 (.ite (fun before => ?_) ?_ ?_)
  · exact iff_of_eq (congrArg (· = (0xff : Byte)) (agree.data 33 (inside_of_touch before).2))
  all_goals exact (agree.touch 33 1).stores _ _

theorem logIpAddrs_agree (agree : Agree a b) : Agree (logIpAddrs env a) (logIpAddrs env b) := by
  rw [logIpAddrs, logIpAddrs]
  split
  · exact (agree.touch 26 4).touch 30 4
  · exact agree

theorem inside_of_logIpAddrs (inside : (logIpAddrs env b).inside = true) : b.inside = true := by
  rw [logIpAddrs] at inside
  split at inside
  · exact (inside_of_touch (inside_of_touch inside).1).1
  · exact inside

theorem ipLookup_eq (skb : SkBuff) :
    ipLookup env priv skb =
      let skb := (logIpAddrs env skb).touch 30 4
      let looked := dbNetworkLookupAndReplace env priv skb (.ipv4 (ipAt skb.data 30))
      if looked.2.2 then ⟨some 0, looked.1, looked.2.1⟩ else ipUnknown looked.1 looked.2.1 := by
  rw [ipLookup]
  dsimp only
  generalize dbNetworkLookupAndReplace env priv ((logIpAddrs env skb).touch 30 4)
    (.ipv4 (ipAt ((logIpAddrs env skb).touch 30 4).data 30)) = looked
  obtain ⟨priv', skb', found⟩ := looked
  cases found <;> rfl

section

variable (agree : Agree a b)
include agree

theorem ipLookup_tracks : Tracks b (ipLookup env priv a) (ipLookup env priv b) := by
  rw [ipLookup_eq, ipLookup_eq]
  dsimp only
  obtain ⟨A, A_eq⟩ : ∃ A, (logIpAddrs env a).touch 30 4 = A := ⟨_, rfl⟩
  obtain ⟨B, B_eq⟩ : ∃ B, (logIpAddrs env b).touch 30 4 = B := ⟨_, rfl⟩
  have agree' : Agree A B := by
    rw [← A_eq, ← B_eq]
    exact (logIpAddrs_agree agree).touch 30 4
  have same (before : B.inside = true) : ipAt A.data 30 = ipAt B.data 30 := by
    rw [← B_eq] at before
    apply agree'.addrAt
    rw [← B_eq]
    exact (inside_of_touch before).2
  rw [A_eq, B_eq]
  obtain ⟨priv_eq, skb_agree, found_eq⟩ := dbLookup_agree env priv agree' (.ipv4 (ipAt B.data 30))
  apply Tracks.mono B
  · intro before
    rw [← B_eq] at before
    exact inside_of_logIpAddrs (inside_of_touch before).1
  refine .ite (fun before => by rw [same before, found_eq]) ?_ ?_
  · intro inside
    have before := inside_of_dbLookup inside
    rw [same before]
    exact ⟨before, rfl, priv_eq, skb_agree⟩
  · intro inside
    have before := inside_of_dbLookup (ipUnknown_tracks (Agree.refl _) inside).before
    rw [same before, priv_eq]
    obtain ⟨-, ret, priv, skb⟩ := ipUnknown_tracks skb_agree inside
    exact ⟨before, ret, priv, skb⟩

theorem handleIp_tracks :
    Tracks b (handleIp env priv a .lookup) (handleIp env priv b .lookup) := by
  refine .touch 14 1 (.ite (fun before => ?_) ((agree.touch 14 1).keeps _ _)
    (ipLookup_tracks (agree.touch 14 1)))
  have byte : (a.touch 14 1).data 14 = (b.touch 14 1).data 14 :=
    agree.data 14 (inside_of_touch before).2
  rw [byte, (agree.touch 14 1).len]

theorem arpLookup_tracks : Tracks b (arpLookup env priv a) (arpLookup env priv b) := by
  intro inside
  rw [arpLookup] at inside
  rw [arpLookup, arpLookup]
  dsimp only at inside ⊢
  -- backwards through the accesses, as the frame is written at the end
  obtain ⟨looked, dest⟩ := inside_of_touch (inside_of_store inside)
  obtain ⟨lengths, target⟩ := inside_of_touch (inside_of_dbLookup looked)
  obtain ⟨hardware, protocol⟩ := inside_of_touch lengths
  obtain ⟨before, first⟩ := inside_of_touch hardware
  have hln : a.data 18 = b.data 18 := agree.data 18 first
  have pln : a.data 19 = b.data 19 := agree.data 19 protocol
  simp only [touch_data, hln, pln]
  have agree' := ((agree.touch 18 1).touch 19 1).touch
    (22 + (b.data 18).toNat + ((b.data 18).toNat + (b.data 19).toNat)) 4
  have address : ipAt a.data (22 + (b.data 18).toNat + ((b.data 18).toNat + (b.data 19).toNat)) =
      ipAt b.data (22 + (b.data 18).toNat + ((b.data 18).toNat + (b.data 19).toNat)) :=
    agree.addrAt target
  rw [address]
  obtain ⟨priv_eq, skb_agree, -⟩ := dbLookup_agree env priv agree'
    (.ipv4 (ipAt b.data (22 + (b.data 18).toNat + ((b.data 18).toNat + (b.data 19).toNat))))
  have mac := skb_agree.addrAt dest
  rw [macAt, macAt, mac]
  exact ⟨before, rfl, priv_eq, (skb_agree.touch 0 6).store _ _⟩

theorem handleArp_tracks :
    Tracks b (handleArp env priv a .lookup) (handleArp env priv b .lookup) := by
  refine .touch 16 2 (.ite (fun before => ?_) ((agree.touch 16 2).keeps _ _)
    (arpLookup_tracks (agree.touch 16 2)))
  have field : be16 (a.touch 16 2).data 16 = be16 (b.touch 16 2).data 16 :=
    agree.be16 (inside_of_touch before).2
  rw [field]

theorem handleIpv6_tracks :
    Tracks b (handleIpv6 env priv a .lookup) (handleIpv6 env priv b .lookup) := by
  refine .ite (fun _ => by rw [agree.len]) (agree.keeps _ _) fun inside => ?_
  obtain ⟨before, target⟩ := inside_of_touch (inside_of_dbLookup inside)
  have address : ipv6At (a.touch 38 16).data 38 = ipv6At (b.touch 38 16).data 38 :=
    agree.addrAt target
  obtain ⟨priv_eq, skb_agree, -⟩ := dbLookup_agree env priv (agree.touch 38 16)
    (.ipv6 (ipv6At (b.touch 38 16).data 38))
  dsimp only
  rw [address]
  exact ⟨before, rfl, priv_eq, skb_agree⟩

end

/-! ### PPPoE -/

/-- On agreeing frames the search reads the same lengths. -/
theorem findPppoeTagLoop_agree (type fuel : ℕ) {cur : ℕ} (agree : Agree a b)
    (inside : (findPppoeTagLoop type fuel b cur).1.inside = true) :
    b.inside = true ∧ (findPppoeTagLoop type fuel a cur).2 = (findPppoeTagLoop type fuel b cur).2 ∧
      Agree (findPppoeTagLoop type fuel a cur).1 (findPppoeTagLoop type fuel b cur).1 := by
  induction fuel generalizing a b cur with
  | zero => exact ⟨inside, rfl, agree⟩
  | succ fuel ih =>
    by_cases more : cur < be16 b.data 18
    swap
    · rw [findPppoeTagLoop_stop more] at inside
      obtain ⟨before, length⟩ := inside_of_touch inside
      have length_eq := agree.be16 length
      rw [findPppoeTagLoop_stop more, findPppoeTagLoop_stop (by rw [length_eq]; exact more)]
      exact ⟨before, rfl, agree.touch 18 2⟩
    -- what the accesses of this round say, whether it is the last or not
    have round (touched : ((b.touch 18 2).touch (tagsAt + cur) 4).inside = true) :
        b.inside = true ∧ be16 a.data 18 = be16 b.data 18 ∧
          be16 a.data (tagsAt + cur) = be16 b.data (tagsAt + cur) ∧
          tagNext a.data cur = tagNext b.data cur := by
      obtain ⟨length, tag⟩ := inside_of_touch touched
      obtain ⟨before, length⟩ := inside_of_touch length
      rw [touch_len] at tag
      refine ⟨before, agree.be16 length, agree.be16 (by omega), ?_⟩
      rw [tagNext, tagNext, agree.be16 (show tagsAt + cur + 2 + 2 ≤ b.len by omega)]
    have agree' := (agree.touch 18 2).touch (tagsAt + cur) 4
    by_cases hit : be16 b.data (tagsAt + cur) = type
    · rw [findPppoeTagLoop_hit more hit] at inside
      obtain ⟨before, length_eq, type_eq, -⟩ := round inside
      rw [findPppoeTagLoop_hit more hit, findPppoeTagLoop_hit (by rw [length_eq]; exact more)
        (by rw [type_eq]; exact hit)]
      exact ⟨before, rfl, agree'⟩
    · rw [findPppoeTagLoop_next more hit] at inside
      obtain ⟨touched, result, found⟩ := ih agree' inside
      obtain ⟨before, length_eq, type_eq, next_eq⟩ := round touched
      rw [findPppoeTagLoop_next more hit, findPppoeTagLoop_next (by rw [length_eq]; exact more)
        (by rw [type_eq]; exact hit), next_eq]
      exact ⟨before, result, found⟩

theorem skbPullAndMerge_agree (agree : Agree a b) (src n : ℕ) :
    (skbPullAndMerge a src n).2 = (skbPullAndMerge b src n).2 ∧
      Agree (skbPullAndMerge a src n).1 (skbPullAndMerge b src n).1 := by
  rw [skbPullAndMerge, skbPullAndMerge, agree.len]
  split
  · exact ⟨rfl, agree⟩
  · exact ⟨rfl, (agree.memmove src (by omega)).trim n⟩

theorem addToLength_agree (agree : Agree a b) (n : ℤ) (inside : (addToLength b n).inside = true) :
    b.inside = true ∧ Agree (addToLength a n) (addToLength b n) := by
  obtain ⟨before, length⟩ := inside_of_touch (inside_of_store inside)
  rw [addToLength, addToLength, agree.be16 length]
  exact ⟨before, (agree.touch 18 2).store 18 _⟩

theorem cutRelayTag_eq (skb : SkBuff) (tag tagLen : ℕ) :
    cutRelayTag priv skb tag tagLen =
      let skb := skb.touch (tag + tagHdrLen + magicCodeLen) 6
      let skb := skb.store 0 (macAt skb.data (tag + tagHdrLen + magicCodeLen)).toList
      let offset := if tagLen > magicCodeLen + rtlRelayTagLen then tagHdrLen else 0
      let gone := tagHdrLen + magicCodeLen + rtlRelayTagLen - offset
      let merged := skbPullAndMerge skb (tag + offset) gone
      if merged.2 then
        let skb := addToLength merged.1 (-(gone : ℕ))
        if offset > 0 then
          ⟨some 0, priv, skb.store (tag + 2) (htons (tagLen - magicCodeLen - rtlRelayTagLen))⟩
        else ⟨some 0, priv, skb⟩
      else ⟨some (-1), priv, merged.1⟩ := by
  rw [cutRelayTag]
  dsimp only
  generalize skbPullAndMerge _ _ _ = merged
  obtain ⟨skb', done⟩ := merged
  cases done <;> rfl

section

variable (agree : Agree a b)
include agree

theorem cutRelayTag_tracks {tag tagLen : ℕ} :
    Tracks b (cutRelayTag priv a tag tagLen) (cutRelayTag priv b tag tagLen) := by
  rw [cutRelayTag_eq, cutRelayTag_eq]
  dsimp only
  generalize (if tagLen > magicCodeLen + rtlRelayTagLen then tagHdrLen else 0) = offset at *
  obtain ⟨gone, gone_eq⟩ : ∃ gone, tagHdrLen + magicCodeLen + rtlRelayTagLen - offset = gone :=
    ⟨_, rfl⟩
  rw [gone_eq]
  generalize at_eq : tag + tagHdrLen + magicCodeLen = pos at *
  obtain ⟨B, B_eq⟩ : ∃ B, (b.touch pos 6).store 0 (macAt (b.touch pos 6).data pos).toList = B :=
    ⟨_, rfl⟩
  rw [B_eq]
  have first (before : B.inside = true) : b.inside = true ∧
      macAt (a.touch pos 6).data pos = macAt (b.touch pos 6).data pos := by
    rw [← B_eq] at before
    obtain ⟨before, address⟩ := inside_of_touch (inside_of_store before)
    exact ⟨before, agree.addrAt address⟩
  have replaced (before : B.inside = true) :
      Agree ((a.touch pos 6).store 0 (macAt (a.touch pos 6).data pos).toList) B := by
    rw [(first before).2, ← B_eq]
    exact (agree.touch pos 6).store 0 _
  generalize (a.touch pos 6).store 0 (macAt (a.touch pos 6).data pos).toList = A at *
  refine .mono B (fun before => (first before).1) (.ite (fun before => ?_) ?_ fun inside => ?_)
  · rw [(skbPullAndMerge_agree (replaced before) (tag + offset) gone).1]
  · refine .ite (fun _ => Iff.rfl) (fun inside => ?_) fun inside => ?_
    · have merged := addToLength_agree (Agree.refl _) _ (inside_of_store inside)
      have before := inside_of_skbPullAndMerge merged.1
      have agree' := (skbPullAndMerge_agree (replaced before) (tag + offset) gone).2
      have lengths := addToLength_agree agree' _ (inside_of_store inside)
      exact ⟨before, rfl, rfl, lengths.2.store _ _⟩
    · have merged := addToLength_agree (Agree.refl _) _ inside
      have before := inside_of_skbPullAndMerge merged.1
      have agree' := (skbPullAndMerge_agree (replaced before) (tag + offset) gone).2
      exact ⟨before, rfl, rfl, (addToLength_agree agree' _ inside).2⟩
  · have before := inside_of_skbPullAndMerge inside
    exact ⟨before, rfl, rfl, (skbPullAndMerge_agree (replaced before) (tag + offset) gone).2⟩

theorem takeRelayTag_tracks {cur : ℕ} :
    Tracks b (takeRelayTag priv a cur) (takeRelayTag priv b cur) := by
  apply Tracks.touch (tagsAt + cur) 4
  have agree' := agree.touch (tagsAt + cur) 4
  have fields (before : (b.touch (tagsAt + cur) 4).inside = true) :
      be16 a.data (tagsAt + cur) = be16 b.data (tagsAt + cur) ∧
        be16 a.data (tagsAt + cur + 2) = be16 b.data (tagsAt + cur + 2) := by
    have long := (inside_of_touch before).2
    exact ⟨agree.be16 (by omega), agree.be16 (by omega)⟩
  rw [takeRelayTag, takeRelayTag]
  dsimp only [touch_data]
  refine .ite (fun before => by rw [(fields before).1, (fields before).2]) (agree'.keeps _ _)
    (.touch (tagsAt + cur + tagHdrLen) 2 (.ite (fun before => ?_) ((agree'.touch _ 2).keeps _ _)
      fun inside => ?_))
  · have magic : be16 a.data (tagsAt + cur + tagHdrLen) =
        be16 b.data (tagsAt + cur + tagHdrLen) := agree.be16 (inside_of_touch before).2
    rw [magic]
  · have coupled := cutRelayTag_tracks (agree'.touch _ 2) inside
    rw [(fields (inside_of_touch coupled.before).1).2]
    exact coupled

theorem lookupRelayTag_tracks : Tracks b (lookupRelayTag priv a) (lookupRelayTag priv b) := by
  intro inside
  have walked : (findPppoeTag b pttRelaySid).1.inside = true := by
    rw [lookupRelayTag] at inside
    split at inside
    next skb missing =>
      rw [missing]
      exact inside
    next skb cur found =>
      rw [found]
      exact (takeRelayTag_tracks (Agree.refl _) inside).before
  obtain ⟨before, result, frames⟩ := findPppoeTagLoop_agree pttRelaySid 65536 agree walked
  change (findPppoeTag a pttRelaySid).2 = (findPppoeTag b pttRelaySid).2 at result
  change Agree (findPppoeTag a pttRelaySid).1 (findPppoeTag b pttRelaySid).1 at frames
  rw [lookupRelayTag] at inside
  rw [lookupRelayTag, lookupRelayTag]
  generalize findPppoeTag a pttRelaySid = x at *
  generalize findPppoeTag b pttRelaySid = y at *
  obtain ⟨a', found⟩ := x
  obtain ⟨b', _⟩ := y
  cases result
  cases found with
  | none => exact ⟨before, rfl, rfl, frames⟩
  | some cur =>
    obtain ⟨-, ret, priv, skb⟩ := takeRelayTag_tracks frames inside
    exact ⟨before, ret, priv, skb⟩

theorem pppoeLookup_tracks : Tracks b (pppoeLookup env priv a) (pppoeLookup env priv b) := by
  have agree' := agree.touch 15 1
  have agree'' := agree'.touch 16 2
  refine .touch 15 1 (.ite (fun before => ?_) ?_ (.touch 16 2 (.ite (fun before => ?_)
    (fun inside => ?_) (agree''.keeps _ _))))
  · have code : (a.touch 15 1).data 15 = (b.touch 15 1).data 15 :=
      agree.data 15 (inside_of_touch before).2
    rw [code]
  · exact .ite (fun _ => Iff.rfl) (lookupRelayTag_tracks agree')
      (.ite (fun _ => Iff.rfl) (agree'.keeps _ _) (agree'.stores _ _))
  · have sid : be16 ((a.touch 15 1).touch 16 2).data 16 =
        be16 ((b.touch 15 1).touch 16 2).data 16 := agree.be16 (inside_of_touch before).2
    rw [sid]
  · obtain ⟨source, sid⟩ := inside_of_touch (inside_of_dbLookup inside)
    obtain ⟨before, mac⟩ := inside_of_touch source
    have sid_eq : sidAt a.data = sidAt b.data := agree.addrAt sid
    have mac_eq : macAt a.data 6 = macAt b.data 6 := agree.addrAt mac
    obtain ⟨priv_eq, skb_agree, -⟩ := dbLookup_agree env priv ((agree''.touch 6 6).touch 16 2)
      (.pppoe (sidAt b.data) (macAt b.data 6))
    dsimp only [touch_data]
    rw [sid_eq, mac_eq]
    exact ⟨before, rfl, priv_eq, skb_agree⟩

/-! ### All protocols -/

/-- On agreeing frames a lookup that stays inside does the same. -/
theorem nat25DbHandle_tracks :
    Tracks b (nat25DbHandle env priv a .lookup) (nat25DbHandle env priv b .lookup) := by
  apply Tracks.touch (2 * ethAlen) 2
  have agree' := agree.touch (2 * ethAlen) 2
  have same (before : (b.touch (2 * ethAlen) 2).inside = true) :
      be16 (a.touch (2 * ethAlen) 2).data (2 * ethAlen) =
        be16 (b.touch (2 * ethAlen) 2).data (2 * ethAlen) :=
    agree.be16 (inside_of_touch before).2
  -- one protocol after the other
  refine .ite (fun before => by rw [same before]) (handleIp_tracks agree') ?_
  refine .ite (fun before => by rw [same before]) (handleArp_tracks agree') ?_
  refine .ite (fun before => by rw [same before]) (pppoeLookup_tracks agree') ?_
  refine .ite (fun before => by rw [same before]) (agree'.keeps _ _) ?_
  refine .ite (fun before => by rw [same before]) (agree'.keeps _ _) ?_
  exact .ite (fun before => by rw [same before]) (handleIpv6_tracks agree') (agree'.keeps _ _)

theorem lookupFrame_tracks (long : b.inside = true → 14 ≤ b.len) :
    Tracks b (lookupFrame env priv a) (lookupFrame env priv b) := by
  have protocol (before : b.inside = true) : be16 a.data 12 = be16 b.data 12 :=
    agree.be16 (long before)
  have field (pos : ℕ) (before : (b.touch pos 4).inside = true) :
      ipAt (a.touch pos 4).data pos = ipAt (b.touch pos 4).data pos :=
    agree.addrAt (inside_of_touch before).2
  have handled (pos : ℕ) := @nat25DbHandle_tracks env priv _ _ (agree.touch pos 4)
  refine .ite (fun _ => Iff.rfl) ?_ ?_
  · refine .ite (fun before => by rw [protocol before]) ?_ (nat25DbHandle_tracks agree)
    exact .touch (ethHlen + 16) 4 (.ite (fun before => by rw [field _ before])
      ((agree.touch _ 4).stores _ _) (handled _))
  refine .ite (fun before => by rw [protocol before]) ?_
    (.ite (fun before => by rw [protocol before]) ?_ (agree.keeps _ _))
  · exact .touch (ethHlen + 16) 4 (.ite (fun before => by rw [field _ before]) (handled _)
      ((agree.touch _ 4).keeps _ _))
  · exact .touch (ethHlen + 24) 4 (.ite (fun before => by rw [field _ before]) (handled _)
      ((agree.touch _ 4).keeps _ _))

end

end Handlers

/-! ## Tagged frames -/

/-- `g` is `f` with an 802.1Q header of value `v` between the addresses and the protocol. -/
structure Tagged (v : List Byte) (f g : SkBuff) : Prop where
  len : g.len = f.len + 4
  addrs : ∀ i < 12, i < f.len → g.data i = f.data i
  tag : window g.data 12 4 = htons ethP8021Q ++ v
  rest : ∀ i < f.len, 12 ≤ i → g.data (i + 4) = f.data i

section Tagged

variable {v : List Byte} {f g : SkBuff}

theorem Tagged.vlanHdrOf (tagged : Tagged v f g) : vlanHdrOf g = some v := by
  obtain ⟨proto, value⟩ := List.append_inj
    ((window_add g.data 12 2 2).symm.trans tagged.tag) (length_window _ _ _)
  have bytes : [g.data 12, g.data 13] = [0x81, 0x00] := proto
  simp only [List.cons.injEq] at bytes
  rw [Bridge.vlanHdrOf, if_pos]
  · rw [← value]
  · rw [be16, bytes.1, bytes.2.1]
    rfl

theorem Tagged.stripVlan (tagged : Tagged v f g) : Agree (Bridge.stripVlan g) f := by
  refine ⟨?_, fun i below => ?_⟩
  · change g.len - 4 = f.len
    rw [tagged.len, Nat.add_sub_cancel]
  · change (if i < 12 then g.data i else g.data (i + 4)) = f.data i
    split
    next early => exact tagged.addrs i early below
    next late => exact tagged.rest i below (not_lt.mp late)

theorem tagged_restoreVlan {a b : SkBuff} (agree : Agree a b) (length : v.length = 2) :
    Tagged v b (restoreVlan a v) := by
  have header : (htons ethP8021Q ++ v).length = 4 := by
    rw [List.length_append, length]
    rfl
  refine ⟨congrArg (· + 4) agree.len, fun i early below => ?_, ?_, fun i below late => ?_⟩
  · simp only [restoreVlan, touch_data]
    rw [paste_of_lt early, if_pos early]
    exact agree.data i below
  · change window (paste _ 12 _) 12 4 = _
    exact (holds_paste _ _ _).window_eq header.symm
  · simp only [restoreVlan, touch_data]
    rw [paste_of_le (by omega), if_neg (by omega), Nat.add_sub_cancel]
    exact agree.data i below

theorem Tagged.length_value (tagged : Tagged v f g) : v.length = 2 := by
  have lengths := congrArg List.length tagged.tag
  rw [length_window, List.length_append] at lengths
  change 4 = 2 + v.length at lengths
  omega

theorem Tagged.touch (tagged : Tagged v f g) (base n : ℕ) :
    Tagged v (f.touch base n) (g.touch base n) :=
  ⟨tagged.len, tagged.addrs, tagged.tag, tagged.rest⟩

end Tagged

theorem nat25HandleFrame_unicast (env : Env) (priv : Adapter) {skb : SkBuff}
    (unicast : skb.data 0 &&& 1 = 0) {hdr : Option (List Byte)}
    (found : vlanHdrOf ((skb.touch 0 1).touch 12 2) = hdr) :
    nat25HandleFrame env priv skb =
      { lookupFrame env priv (stripVlan? ((skb.touch 0 1).touch 12 2) hdr) with
        skb := restoreVlan?
          (lookupFrame env priv (stripVlan? ((skb.touch 0 1).touch 12 2) hdr)).skb hdr } := by
  subst found
  exact if_pos unicast

/-- VLAN transparency: the header of a frame is carried past the lookup unchanged, and has no part
in it. -/
theorem nat25_handle_frame_tagged (env : Env) (priv : Adapter) {v : List Byte} {f g : SkBuff}
    (tagged : Tagged v f g) (unicast : f.data 0 &&& 1 = 0) (untagged : be16 f.data 12 ≠ ethP8021Q)
    (inside : (nat25HandleFrame env priv f).skb.inside = true) :
    (nat25HandleFrame env priv g).ret = (nat25HandleFrame env priv f).ret ∧
      (nat25HandleFrame env priv g).priv = (nat25HandleFrame env priv f).priv ∧
      Tagged v (nat25HandleFrame env priv f).skb (nat25HandleFrame env priv g).skb := by
  have absent : vlanHdrOf ((f.touch 0 1).touch 12 2) = none := if_neg untagged
  have plain : nat25HandleFrame env priv f = lookupFrame env priv ((f.touch 0 1).touch 12 2) := by
    rw [nat25HandleFrame_unicast env priv unicast absent]
    rfl
  rw [plain] at inside ⊢
  have long (before : ((f.touch 0 1).touch 12 2).inside = true) : 14 ≤ f.len :=
    (inside_of_touch before).2
  have header : 14 ≤ f.len := long (lookupFrame_tracks (Agree.refl _) long inside).before
  have tagged' := (tagged.touch 0 1).touch 12 2
  have coupled := lookupFrame_tracks tagged'.stripVlan long inside
  have wrapped := nat25HandleFrame_unicast env priv
    ((congrArg (· &&& 1) (tagged.addrs 0 (by decide) (by omega))).trans unicast) tagged'.vlanHdrOf
  rw [wrapped]
  exact ⟨coupled.ret, coupled.priv, tagged_restoreVlan coupled.skb tagged.length_value⟩

theorem nat25_handle_frame_tagged_five :
    (nat25HandleFrame littleHost twoAddresses.priv (restoreVlan toSecond [0, 5])).ret =
        (nat25HandleFrame littleHost twoAddresses.priv toSecond).ret ∧
      (nat25HandleFrame littleHost twoAddresses.priv (restoreVlan toSecond [0, 5])).priv =
        (nat25HandleFrame littleHost twoAddresses.priv toSecond).priv ∧
      Tagged [0, 5] (nat25HandleFrame littleHost twoAddresses.priv toSecond).skb
        (nat25HandleFrame littleHost twoAddresses.priv (restoreVlan toSecond [0, 5])).skb :=
  nat25_handle_frame_tagged littleHost twoAddresses.priv
    (tagged_restoreVlan (Agree.refl toSecond) rfl)
    (by decide +kernel) (by decide +kernel) (by decide +kernel)

end Rtl88x2bu.Bridge
