import Rtl88x2bu.Bridge.Tags

/-!
# Which bytes `nat25_db_handle` touches

For each protocol branch the exact condition on the frame under which no access leaves it.
-/

namespace Rtl88x2bu.Bridge

open Tape

section Conditions

variable (env : Env) (data : ℕ → Byte) (len : ℕ)

/-- The header length is read in any case, the addresses only if it is not found too large. -/
def IpContained (method : Nat25Method) : Prop :=
  15 ≤ len ∧ ((data 14).toNat % 16 * 4 < len →
    match method with
    | .check => True
    | .insert => 30 ≤ len ∧ (env.logInfo = true → ipAt data 26 ≠ nullIp → 34 ≤ len)
    | .lookup => 34 ≤ len)

/-- The hardware and protocol lengths are taken as they are. -/
def ArpContained (method : Nat25Method) : Prop :=
  18 ≤ len ∧ (be16 data 16 = 0x0800 →
    match method with
    | .check => True
    | .insert => 28 ≤ len ∧ 26 + (data 18).toNat ≤ len
    | .lookup => 28 + ((data 18).toNat + (data 19).toNat) ≤ len ∧
        26 + (data 18).toNat + ((data 18).toNat + (data 19).toNat) ≤ len)

/-- The relay tag behind an old tag of `old` bytes. A little-endian host copies more than the tag
has. -/
def AddContained (old length len tailroom : ℕ) : Prop :=
  match env.order with
  | .little => tailroom < 256 * (8 + old) + 4
  | .big => tailroom < 8 + old + 4 ∨ length = 0 ∨ tagsAt + length ≤ len

/-- The length field, less `n`. -/
def shrunk (length n : ℕ) : ℕ :=
  (((length : ℤ) - n) % 65536).toNat

/-- The walk stays inside, and so does what is done with the tag it finds. -/
def InsertTagContained (tailroom : ℕ) : Prop :=
  TagWalkInside data len ∧
  ((∀ cur, ¬ RelayTagAt data cur) → AddContained env 0 (be16 data 18) len tailroom) ∧
  ∀ cur, RelayTagAt data cur → be16 data (tagsAt + cur + 2) ≤ 28 →
    tagsAt + cur + 4 + be16 data (tagsAt + cur + 2) ≤ len ∧
    AddContained env (be16 data (tagsAt + cur + 2))
      (shrunk (be16 data 18) (4 + be16 data (tagsAt + cur + 2)))
      (len - (4 + be16 data (tagsAt + cur + 2)))
      (tailroom + (4 + be16 data (tagsAt + cur + 2)))

/-- As far as a relay tag is looked at, it is inside. -/
def LookupTagContained : Prop :=
  TagWalkInside data len ∧
  ∀ cur, RelayTagAt data cur → 8 ≤ be16 data (tagsAt + cur + 2) →
    tagsAt + cur + 6 ≤ len ∧
      (be16 data (tagsAt + cur + 4) = magicCode → tagsAt + cur + 12 ≤ len)

/-- Only discovery frames are looked into. -/
def PppoeContained (addTag : Bool) (tailroom : ℕ) (method : Nat25Method) : Prop :=
  match method with
  | .check => 18 ≤ len
  | .insert => 18 ≤ len ∧ (be16 data 16 = 0 → (data 15 = padiCode ∨ data 15 = padrCode) →
      addTag = true → InsertTagContained env data len tailroom)
  | .lookup => 16 ≤ len ∧
      ((data 15 = padoCode ∨ data 15 = padsCode) → addTag = true → LookupTagContained data len) ∧
      (¬ (data 15 = padoCode ∨ data 15 = padsCode) → 18 ≤ len)

/-- The options are read in pairs of bytes, the checksum by the payload length in the host's order.
-/
def NdContained : Prop :=
  ∀ start tag, ndOptions (data icmpAt) = some (start, tag) → icmpAt + start ≤ len →
    (∀ p, OptVisited data tag len (icmpAt + start) p → p < len → p + 2 ≤ len) ∧
    ((∃ p, OptVisited data tag len (icmpAt + start) p ∧ optHit data tag len p = true) →
      native16 env.order data 18 = 0 ∨ icmpAt + native16 env.order data 18 ≤ len)

/-- The fixed header is checked, so only neighbour discovery can leave the frame. -/
def Ipv6Contained (method : Nat25Method) : Prop :=
  method = .insert → 58 < len → ipv6At data 22 ≠ Vector.replicate 16 0 → data 20 = 58 →
    NdContained env data len

end Conditions

/-- The condition for all protocols. -/
def Contained (env : Env) (priv : Adapter) (skb : SkBuff) (method : Nat25Method) : Prop :=
  if be16 skb.data 12 = ethPIp then IpContained env skb.data skb.len method
  else if be16 skb.data 12 = ethPArp then ArpContained skb.data skb.len method
  else if be16 skb.data 12 = ethPPppDisc ∨ be16 skb.data 12 = ethPPppSes then
    PppoeContained env skb.data skb.len priv.ethBrExtInfo.addPPPoETag skb.tailroom method
  else if be16 skb.data 12 = ethPIpv6 then Ipv6Contained env skb.data skb.len method
  else True

variable {env : Env} {priv : Adapter} {skb : SkBuff}

/-! ## Accesses that are always inside -/

theorem logIpAddrs_inside :
    (logIpAddrs env skb).inside = true ↔
      skb.inside = true ∧ (env.logInfo = true → 34 ≤ skb.len) := by
  rw [logIpAddrs]
  split
  · simp only [touch_inside, touch_len]
    grind
  · grind

theorem logIpAddrs_same (env : Env) (skb : SkBuff) : SameFrame skb (logIpAddrs env skb) := by
  rw [logIpAddrs]
  split
  · exact ⟨rfl, rfl, rfl⟩
  · exact SameFrame.refl skb

variable (env priv skb) in
/-- A lookup writes only the destination. -/
theorem lookupAndReplace_skb (addr : NetworkAddr) (frame : 14 ≤ skb.len) :
    (dbNetworkLookupAndReplace env priv skb addr).2.1.len = skb.len ∧
    ((dbNetworkLookupAndReplace env priv skb addr).2.1.inside = true ↔ skb.inside = true) ∧
    ((dbNetworkLookupAndReplace env priv skb addr).2.2 = false →
      (dbNetworkLookupAndReplace env priv skb addr).2.1 = skb) := by
  unfold dbNetworkLookupAndReplace
  cases priv.find addr with
  | none => exact ⟨rfl, Iff.rfl, fun _ => rfl⟩
  | some db =>
    simp only
    split
    · exact ⟨rfl, Iff.rfl, fun _ => rfl⟩
    · refine ⟨rfl, ?_, fun found => by cases found⟩
      apply store_inside_of_le
      rw [Vector.length_toList]
      omega

/-! ## IPv4 and ARP -/

section

variable (frame : 14 ≤ skb.len)
include frame

theorem ipInsert_inside :
    (ipInsert env priv skb).skb.inside = true ↔
      skb.inside = true ∧ 30 ≤ skb.len ∧
        (env.logInfo = true → ipAt skb.data 26 ≠ nullIp → 34 ≤ skb.len) := by
  have same := logIpAddrs_same env (skb.touch 26 4)
  simp only [ipInsert]
  split
  next zero =>
    replace zero : ipAt skb.data 26 = nullIp := zero
    simp only [touch_inside]
    grind
  next set =>
    replace set : ipAt skb.data 26 ≠ nullIp := set
    rw [touch_inside_of_le (by rw [same.len, touch_len]; omega), logIpAddrs_inside, touch_inside,
      touch_len]
    grind

theorem ipUnknown_inside :
    (ipUnknown priv skb).skb.inside = true ↔ skb.inside = true ∧ 34 ≤ skb.len := by
  have stored : ∀ mac : Rx.MacAddr, ((skb.touch 33 1).store 0 mac.toList).inside = true ↔
      skb.inside = true ∧ 34 ≤ skb.len := by
    intro mac
    rw [store_inside_of_le (by rw [Vector.length_toList, touch_len]; omega), touch_inside]
    exact and_congr_right fun _ => by omega
  simp only [ipUnknown]
  split <;> exact stored _

theorem ipLookup_inside :
    (ipLookup env priv skb).skb.inside = true ↔ skb.inside = true ∧ 34 ≤ skb.len := by
  have same := logIpAddrs_same env skb
  have opened : ((logIpAddrs env skb).touch 30 4).inside = true ↔
      skb.inside = true ∧ 34 ≤ skb.len := by
    rw [touch_inside, logIpAddrs_inside, same.len, and_assoc]
    exact and_congr_right fun _ => ⟨fun both => by omega, fun fits => ⟨fun _ => fits, by omega⟩⟩
  obtain ⟨len, inside, missed⟩ := lookupAndReplace_skb env priv _
    (.ipv4 (ipAt ((logIpAddrs env skb).touch 30 4).data 30))
    (by rw [touch_len, same.len]; omega : 14 ≤ ((logIpAddrs env skb).touch 30 4).len)
  simp only [ipLookup]
  rcases found : dbNetworkLookupAndReplace env priv ((logIpAddrs env skb).touch 30 4)
    (.ipv4 (ipAt ((logIpAddrs env skb).touch 30 4).data 30)) with ⟨priv', skb', hit⟩
  rw [found] at len inside missed
  cases hit with
  | true => exact inside.trans opened
  | false =>
    have unchanged : skb' = (logIpAddrs env skb).touch 30 4 := missed rfl
    subst unchanged
    have unknown : (ipUnknown priv' ((logIpAddrs env skb).touch 30 4)).skb.inside = true ↔ _ :=
      ipUnknown_inside (by rw [touch_len, same.len]; exact frame)
    rw [opened, touch_len, same.len, and_assoc, and_self] at unknown
    exact unknown

theorem handleIp_inside (method : Nat25Method) :
    (handleIp env priv skb method).skb.inside = true ↔
      skb.inside = true ∧ IpContained env skb.data skb.len method := by
  have ihl : ((skb.data 14).toNat % 16) <<< 2 = (skb.data 14).toNat % 16 * 4 :=
    Nat.shiftLeft_eq _ 2
  have first : (skb.touch 14 1).inside = true ↔ skb.inside = true ∧ 15 ≤ skb.len := by simp
  unfold IpContained
  rw [← and_assoc, ← first]
  simp only [handleIp]
  split
  next refused =>
    replace refused : ethHlen + skb.len ≤ ethHlen + ((skb.data 14).toNat % 16) <<< 2 := refused
    exact (and_iff_left fun long => by omega).symm
  next goesOn =>
    replace goesOn : ¬ ethHlen + skb.len ≤ ethHlen + ((skb.data 14).toNat % 16) <<< 2 := goesOn
    rw [forall_prop_of_true (show (skb.data 14).toNat % 16 * 4 < skb.len by omega)]
    cases method with
    | check => exact (and_iff_left trivial).symm
    | insert => exact ipInsert_inside frame
    | lookup => exact ipLookup_inside frame

theorem arpInsert_inside :
    (arpInsert env priv skb).skb.inside = true ↔
      skb.inside = true ∧ 28 ≤ skb.len ∧ 26 + (skb.data 18).toNat ≤ skb.len := by
  have kept : paste skb.data 22 priv.macAddr.toList 18 = skb.data 18 := paste_of_lt (by decide)
  simp only [arpInsert, touch_data, store_data, kept]
  rw [touch_inside_of_le (by simp only [touch_len, store_len]; omega), touch_inside, touch_inside,
    store_inside, Vector.length_toList]
  simp only [touch_len, store_len, and_assoc]
  exact and_congr_right fun _ => by omega

theorem arpLookup_inside :
    (arpLookup env priv skb).skb.inside = true ↔
      skb.inside = true ∧ 28 + ((skb.data 18).toNat + (skb.data 19).toNat) ≤ skb.len ∧
        26 + (skb.data 18).toNat + ((skb.data 18).toNat + (skb.data 19).toNat) ≤ skb.len := by
  simp only [arpLookup, touch_data]
  set target := 22 + (skb.data 18).toNat + ((skb.data 18).toNat + (skb.data 19).toNat) with defn
  set opened := ((skb.touch 18 1).touch 19 1).touch target 4 with opens
  obtain ⟨len, inside, -⟩ := lookupAndReplace_skb env priv _ (.ipv4 (ipAt skb.data target))
    (by simp only [opens, touch_len]; exact frame : 14 ≤ opened.len)
  have same : opened.len = skb.len := rfl
  rw [store_inside, Vector.length_toList, touch_len, len, same,
    touch_inside_of_le (by rw [len, same]; omega), inside, opens, touch_inside, touch_inside,
    touch_inside]
  simp only [touch_len, and_assoc]
  exact and_congr_right fun _ => by omega

theorem handleArp_inside (method : Nat25Method) :
    (handleArp env priv skb method).skb.inside = true ↔
      skb.inside = true ∧ ArpContained skb.data skb.len method := by
  have first : (skb.touch 16 2).inside = true ↔ skb.inside = true ∧ 18 ≤ skb.len := by simp
  unfold ArpContained
  rw [← and_assoc, ← first]
  simp only [handleArp]
  split
  next other => exact (and_iff_left fun ip => absurd ip other).symm
  next ip =>
    rw [forall_prop_of_true (show be16 skb.data 16 = 0x0800 from not_not.mp ip)]
    cases method with
    | check => exact (and_iff_left trivial).symm
    | insert => exact arpInsert_inside frame
    | lookup => exact arpLookup_inside frame

end

/-! ## PPPoE -/

theorem addToLength_inside (n : ℤ) (header : tagsAt ≤ skb.len) :
    (addToLength skb n).inside = true ↔ skb.inside = true := by
  unfold tagsAt at header
  rw [addToLength, store_inside_of_le (by rw [length_htons, touch_len]; omega),
    touch_inside_of_le (by omega)]

@[simp] theorem addToLength_len (n : ℤ) : (addToLength skb n).len = skb.len := rfl
@[simp] theorem addToLength_tailroom (n : ℤ) : (addToLength skb n).tailroom = skb.tailroom := rfl

theorem be16_addToLength (n : ℤ) :
    be16 (addToLength skb n).data 18 = ((be16 skb.data 18 + n) % 65536).toNat := by
  have small : ((be16 skb.data 18 + n) % 65536).toNat < 65536 := by omega
  exact be16_paste_htons small _ _

/-- The tag is copied by the length that is read in it. -/
theorem addPppoeTag_inside (tag : List Byte) (header : tagsAt ≤ skb.len) :
    (addPppoeTag env skb tag).1.inside = true ↔ skb.inside = true ∧
      (skb.tailroom < native16 env.order (paste env.stack 0 tag) 2 + tagHdrLen ∨
        (be16 skb.data 18 = 0 ∨ tagsAt + be16 skb.data 18 ≤ skb.len) ∧
          native16 env.order (paste env.stack 0 tag) 2 + tagHdrLen ≤ tagBufLen) := by
  simp only [addPppoeTag]
  set dataLen := native16 env.order (paste env.stack 0 tag) 2 + tagHdrLen
  have field : 18 + 2 ≤ skb.len := header
  split
  next full => simp [full]
  next room =>
    have longer : tagsAt ≤ skb.len + dataLen := header.trans (Nat.le_add_right _ _)
    simp only [Bool.and_eq_true, decide_eq_true_iff, room, false_or]
    rw [store_inside, length_window, addToLength_inside _ longer, memmove_inside,
      touch_inside_of_le (by rw [put_len]; omega)]
    simp only [touch_len, put_len, touch_data, put_data, put_inside, addToLength, store_len,
      memmove_len]
    constructor
    · rintro ⟨⟨⟨kept, -, fits⟩, -⟩, small⟩
      exact ⟨kept, by omega, small⟩
    · rintro ⟨kept, fits, small⟩
      exact ⟨⟨⟨kept, by omega, by omega⟩, by omega⟩, small⟩

/-- The length of the new tag as a number of the host. -/
theorem native16_relayTag (client : Rx.MacAddr) {old : List Byte} (short : old.length ≤ 28) :
    native16 env.order (paste env.stack 0 (relayTag client old)) 2 =
      match env.order with
      | .little => 256 * (8 + old.length)
      | .big => 8 + old.length := by
  have length : magicCodeLen + rtlRelayTagLen + old.length = 8 + old.length := rfl
  have holds : Tape.Holds (paste env.stack 0 (relayTag client old)) 2 (htons (8 + old.length)) := by
    have whole := holds_paste env.stack 0 (relayTag client old)
    rw [relayTag, length, List.append_assoc, List.append_assoc, List.append_assoc] at whole
    have behind := (holds_append.mp whole).2
    exact (holds_append.mp behind).1
  cases env.order with
  | big =>
    have small : 8 + old.length < 65536 := by omega
    exact be16_eq_of_holds small holds
  | little =>
    obtain ⟨high, low, -⟩ := holds
    simp only [native16, high, low, UInt8.toNat_ofNat']
    omega

theorem addRelayTag_skb {old : List Byte} :
    (addRelayTag env priv skb old).skb =
      (addPppoeTag env (skb.touch 6 6) (relayTag (macAt skb.data 6) old)).1 := by
  simp only [addRelayTag, touch_data]
  split <;> simp_all only

theorem addRelayTag_inside {old : List Byte} (short : old.length ≤ 28) (header : tagsAt ≤ skb.len) :
    (addRelayTag env priv skb old).skb.inside = true ↔ skb.inside = true ∧
      AddContained env old.length (be16 skb.data 18) skb.len skb.tailroom := by
  have field : 20 ≤ skb.len := header
  have added : (addPppoeTag env (skb.touch 6 6) (relayTag (macAt skb.data 6) old)).1.inside = true ↔
      _ := addPppoeTag_inside _ header
  rw [addRelayTag_skb, added, touch_inside_of_le (by omega), native16_relayTag _ short]
  apply and_congr_right
  intro _
  simp only [touch_tailroom, touch_data, touch_len, AddContained, tagHdrLen, tagBufLen]
  cases env.order <;> simp only <;> omega

theorem skbPullAndMerge_eq {src n : ℕ} (fits : src + n ≤ skb.len) :
    skbPullAndMerge skb src n =
      ((skb.memmove src (src + n) (skb.len - (src + n))).trim n, true) := by
  have goesOn : ¬ (src + n > skb.len ∨ skb.len < n) := by omega
  exact if_neg goesOn

theorem skbPullAndMerge_inside {src n : ℕ} (fits : src + n ≤ skb.len) :
    ((skb.memmove src (src + n) (skb.len - (src + n))).trim n).inside = true ↔
      skb.inside = true := by
  rw [trim_inside, memmove_inside]
  exact and_iff_left ⟨by omega, by omega⟩

/-! No access makes up for an earlier one. -/

theorem addToLength_mono {n : ℤ} (inside : (addToLength skb n).inside = true) : skb.inside = true :=
  (inside_of_touch (inside_of_store inside)).1

theorem addPppoeTag_mono {tag : List Byte} (inside : (addPppoeTag env skb tag).1.inside = true) :
    skb.inside = true := by
  simp only [addPppoeTag] at inside
  split at inside
  · exact inside
  · simp only [Bool.and_eq_true, store_inside] at inside
    have moved := addToLength_mono inside.1.1
    rw [memmove_inside, touch_inside, put_inside] at moved
    exact moved.1.1

theorem addRelayTag_mono {old : List Byte}
    (inside : (addRelayTag env priv skb old).skb.inside = true) : skb.inside = true := by
  rw [addRelayTag_skb] at inside
  exact (inside_of_touch (addPppoeTag_mono inside)).1

theorem replaceRelayTag_eq {cur old : ℕ} (length : be16 skb.data (tagsAt + cur + 2) = old)
    (short : old ≤ 28) :
    replaceRelayTag env priv skb cur =
      match skbPullAndMerge ((skb.touch (tagsAt + cur + 2) 2).touch (tagsAt + cur + tagHdrLen) old)
          (tagsAt + cur) (tagHdrLen + old) with
      | (merged, false) => ⟨some (-1), priv, merged⟩
      | (merged, true) => addRelayTag env priv (addToLength merged (-(tagHdrLen + old : ℕ)))
          (window skb.data (tagsAt + cur + tagHdrLen) old) := by
  subst length
  have goesOn : ¬ be16 skb.data (tagsAt + cur + 2) + tagHdrLen + magicCodeLen + rtlRelayTagLen >
      tagBufLen := by
    unfold tagHdrLen magicCodeLen rtlRelayTagLen ethAlen tagBufLen
    omega
  exact if_neg goesOn

theorem replaceRelayTag_inside {cur : ℕ} (header : tagsAt + cur + 4 ≤ skb.len) :
    (replaceRelayTag env priv skb cur).skb.inside = true ↔ skb.inside = true ∧
      (be16 skb.data (tagsAt + cur + 2) ≤ 28 →
        tagsAt + cur + 4 + be16 skb.data (tagsAt + cur + 2) ≤ skb.len ∧
        AddContained env (be16 skb.data (tagsAt + cur + 2))
          (shrunk (be16 skb.data 18) (4 + be16 skb.data (tagsAt + cur + 2)))
          (skb.len - (4 + be16 skb.data (tagsAt + cur + 2)))
          (skb.tailroom + (4 + be16 skb.data (tagsAt + cur + 2)))) := by
  set old := be16 skb.data (tagsAt + cur + 2) with defn
  have length : ((skb.touch (tagsAt + cur + 2) 2).inside = true ↔ skb.inside = true) :=
    touch_inside_of_le (by omega)
  by_cases long : old + tagHdrLen + magicCodeLen + rtlRelayTagLen > tagBufLen
  · have returns : (replaceRelayTag env priv skb cur).skb = skb.touch (tagsAt + cur + 2) 2 :=
      congrArg Handled.skb (if_pos long)
    have tooLong : ¬ old ≤ 28 := by
      unfold tagHdrLen magicCodeLen rtlRelayTagLen ethAlen tagBufLen at long
      omega
    rw [returns, length]
    simp only [tooLong, false_imp_iff, and_true]
  have short : old ≤ 28 := by
    unfold tagHdrLen magicCodeLen rtlRelayTagLen ethAlen tagBufLen at long
    omega
  set copied := (skb.touch (tagsAt + cur + 2) 2).touch (tagsAt + cur + tagHdrLen) old with copies
  rw [replaceRelayTag_eq defn.symm short, ← copies]
  by_cases fits : tagsAt + cur + (tagHdrLen + old) ≤ copied.len
  · have whole : tagsAt + cur + 4 + old ≤ skb.len := by
      have sum : tagsAt + cur + (4 + old) ≤ skb.len := fits
      omega
    have start : tagsAt = 20 := rfl
    have head : tagHdrLen = 4 := rfl
    have reads : copied.inside = true ↔ skb.inside = true := by
      rw [copies, touch_inside_of_le (by rw [touch_len, head]; omega), length]
    set merged := (copied.memmove (tagsAt + cur) (tagsAt + cur + (tagHdrLen + old))
      (copied.len - (tagsAt + cur + (tagHdrLen + old)))).trim (tagHdrLen + old) with merges
    have cut : skbPullAndMerge copied (tagsAt + cur) (tagHdrLen + old) = (merged, true) :=
      skbPullAndMerge_eq fits
    have mergedLen : merged.len = skb.len - (4 + old) := rfl
    have field : be16 merged.data 18 = be16 skb.data 18 := be16_paste_of_le (.inl (by omega))
    have added : (addRelayTag env priv (addToLength merged (-(tagHdrLen + old : ℕ)))
        (window skb.data (tagsAt + cur + tagHdrLen) old)).skb.inside = true ↔ _ :=
      addRelayTag_inside (by rw [length_window]; exact short)
        (by rw [addToLength_len, mergedLen]; omega)
    rw [cut, added, addToLength_inside _ (by omega), skbPullAndMerge_inside fits, reads,
      length_window, be16_addToLength, field]
    apply and_congr_right
    intro _
    simp only [short, whole, true_imp_iff, true_and]
    exact Iff.rfl
  · have refuses : skbPullAndMerge copied (tagsAt + cur) (tagHdrLen + old) = (copied, false) :=
      if_pos (.inl (not_le.mp fits))
    have outside : ¬ tagsAt + cur + 4 + old ≤ skb.len := by
      have sum : ¬ tagsAt + cur + (4 + old) ≤ skb.len := fits
      omega
    rw [refuses]
    simp only [short, outside, true_imp_iff, false_and, and_false, iff_false, copies]
    rw [touch_inside]
    rintro ⟨-, nothing | inside⟩
    · omega
    · exact outside inside

theorem replaceRelayTag_mono {cur : ℕ}
    (inside : (replaceRelayTag env priv skb cur).skb.inside = true) : skb.inside = true := by
  simp only [replaceRelayTag] at inside
  split at inside
  · exact (inside_of_touch inside).1
  · split at inside
    next pulls =>
      have before := inside_of_skbPullAndMerge ((congrArg (·.1.inside) pulls).trans inside)
      exact (inside_of_touch ((touch_inside _ _ _).mp before).1).1
    next pulls =>
      have merged := addToLength_mono (addRelayTag_mono inside)
      have before := inside_of_skbPullAndMerge ((congrArg (·.1.inside) pulls).trans merged)
      exact (inside_of_touch ((touch_inside _ _ _).mp before).1).1

/-- The walk through the tags, and what follows it. -/
theorem inside_after_search {read result : SkBuff} {walk rest : Prop}
    (reads : read.inside = true ↔ skb.inside = true ∧ walk)
    (mono : result.inside = true → read.inside = true)
    (after : walk → (result.inside = true ↔ read.inside = true ∧ rest)) :
    result.inside = true ↔ skb.inside = true ∧ walk ∧ rest := by
  rw [← and_assoc, ← reads]
  constructor
  · intro inside
    exact (after (reads.mp (mono inside)).2).mp inside
  · intro both
    exact (after (reads.mp both.1).2).mpr both

theorem insertRelayTag_inside :
    (insertRelayTag env priv skb).skb.inside = true ↔ skb.inside = true ∧
      InsertTagContained env skb.data skb.len skb.tailroom := by
  obtain ⟨skb', found, finds, same, reads, tagAt⟩ := findPppoeTag_spec skb
  unfold insertRelayTag
  rw [← same.data] at tagAt
  rw [← same.data, ← same.len] at reads
  rw [finds, ← same.data, ← same.len, ← same.tailroom]
  cases found with
  | none =>
    have absent : ∀ cur, ¬ RelayTagAt skb'.data cur := fun cur there => by
      cases (tagAt cur).mpr there
    refine inside_after_search reads addRelayTag_mono fun walk => ?_
    rw [addRelayTag_inside (by simp) walk.1]
    apply and_congr_right
    intro _
    constructor
    · intro adds
      exact ⟨fun _ => adds, fun cur there => absurd there (absent cur)⟩
    · exact fun all => all.1 absent
  | some cur =>
    have there := (tagAt cur).mp rfl
    refine inside_after_search reads replaceRelayTag_mono fun walk => ?_
    rw [replaceRelayTag_inside (walk.2 cur there.1 there.2.1)]
    apply and_congr_right
    intro _
    constructor
    · intro replaces
      refine ⟨fun absent => absurd there (absent cur), fun cur' too => ?_⟩
      cases (tagAt cur').mpr too
      exact replaces
    · exact fun all => all.2 cur there

theorem cutRelayTag_inside {tag tagLen : ℕ} (start : 20 ≤ tag) (frame : 14 ≤ skb.len) :
    (cutRelayTag priv skb tag tagLen).skb.inside = true ↔
      skb.inside = true ∧ tag + 12 ≤ skb.len := by
  set offset := if tagLen > magicCodeLen + rtlRelayTagLen then tagHdrLen else 0 with offsetIs
  set gone := tagHdrLen + magicCodeLen + rtlRelayTagLen - offset with goneIs
  have sizes : offset + gone = 12 ∧ (offset = 0 ∨ offset = 4) := by
    rw [goneIs, offsetIs]
    split
    · exact ⟨rfl, .inr rfl⟩
    · exact ⟨rfl, .inl rfl⟩
  set found := (skb.touch (tag + tagHdrLen + magicCodeLen) 6).store 0
    (macAt skb.data (tag + tagHdrLen + magicCodeLen)).toList with founds
  have reads : found.inside = true ↔ skb.inside = true ∧ tag + 12 ≤ skb.len := by
    rw [founds, store_inside_of_le, touch_inside]
    · apply and_congr_right
      intro _
      unfold tagHdrLen magicCodeLen
      omega
    · rw [Vector.length_toList, touch_len]
      omega
  have calls : cutRelayTag priv skb tag tagLen =
      match skbPullAndMerge found (tag + offset) gone with
      | (merged, false) => ⟨some (-1), priv, merged⟩
      | (merged, true) =>
        if offset > 0 then
          ⟨some 0, priv, (addToLength merged (-(gone : ℕ))).store (tag + 2)
            (htons (tagLen - magicCodeLen - rtlRelayTagLen))⟩
        else ⟨some 0, priv, addToLength merged (-(gone : ℕ))⟩ := rfl
  rw [calls, ← reads]
  by_cases fits : tag + offset + gone ≤ found.len
  swap
  · have refuses : skbPullAndMerge found (tag + offset) gone = (found, false) :=
      if_pos (.inl (not_le.mp fits))
    rw [refuses]
  have whole : tag + 12 ≤ skb.len := by
    have sum : tag + offset + gone ≤ skb.len := fits
    omega
  rw [skbPullAndMerge_eq fits]
  set merged := (found.memmove (tag + offset) (tag + offset + gone)
    (found.len - (tag + offset + gone))).trim gone with merges
  have mergedLen : merged.len = skb.len - gone := rfl
  have counted : (addToLength merged (-(gone : ℕ))).inside = true ↔ found.inside = true := by
    rw [addToLength_inside _ (by unfold tagsAt; omega), merges, skbPullAndMerge_inside fits]
  simp only
  split
  · rw [store_inside_of_le (by rw [length_htons, addToLength_len]; omega), counted]
  · exact counted

theorem takeRelayTag_eq {cur : ℕ} (type : be16 skb.data (tagsAt + cur) = pttRelaySid)
    (long : 8 ≤ be16 skb.data (tagsAt + cur + 2))
    (magic : be16 skb.data (tagsAt + cur + 4) = magicCode) :
    takeRelayTag priv skb cur = cutRelayTag priv
      ((skb.touch (tagsAt + cur) 4).touch (tagsAt + cur + 4) 2) (tagsAt + cur)
      (be16 skb.data (tagsAt + cur + 2)) := by
  have goesOn : ¬ (be16 skb.data (tagsAt + cur) ≠ pttRelaySid ∨
      be16 skb.data (tagsAt + cur + 2) < magicCodeLen + rtlRelayTagLen) := by
    rintro (other | short)
    · exact other type
    · exact absurd long (not_le.mpr short)
  exact (if_neg goesOn).trans (if_neg (not_not.mpr magic))

theorem takeRelayTag_inside {cur : ℕ} (header : tagsAt + cur + 4 ≤ skb.len)
    (type : be16 skb.data (tagsAt + cur) = pttRelaySid) :
    (takeRelayTag priv skb cur).skb.inside = true ↔ skb.inside = true ∧
      (8 ≤ be16 skb.data (tagsAt + cur + 2) →
        tagsAt + cur + 6 ≤ skb.len ∧
          (be16 skb.data (tagsAt + cur + 4) = magicCode → tagsAt + cur + 12 ≤ skb.len)) := by
  set tag := tagsAt + cur with tagIs
  have start : 20 ≤ tag := Nat.le_add_right 20 cur
  have first : ((skb.touch tag 4).inside = true ↔ skb.inside = true) := touch_inside_of_le header
  by_cases long : 8 ≤ be16 skb.data (tag + 2)
  swap
  · have refuses : be16 skb.data tag ≠ pttRelaySid ∨
        be16 skb.data (tag + 2) < magicCodeLen + rtlRelayTagLen := .inr (not_le.mp long)
    have returns : takeRelayTag priv skb cur = ⟨some (-1), priv, skb.touch tag 4⟩ := if_pos refuses
    rw [returns, first]
    simp only [long, false_imp_iff, and_true]
  have goesOn : ¬ (be16 skb.data tag ≠ pttRelaySid ∨
      be16 skb.data (tag + 2) < magicCodeLen + rtlRelayTagLen) := by
    rintro (other | short)
    · exact other type
    · exact absurd long (not_le.mpr short)
  have second : ((skb.touch tag 4).touch (tag + 4) 2).inside = true ↔
      skb.inside = true ∧ tag + 6 ≤ skb.len := by
    rw [touch_inside, first, touch_len]
    exact and_congr_right fun _ => by omega
  by_cases magic : be16 skb.data (tag + 4) = magicCode
  swap
  · have returns : takeRelayTag priv skb cur =
        ⟨some (-1), priv, (skb.touch tag 4).touch (tag + 4) 2⟩ :=
          (if_neg goesOn).trans (if_pos magic)
    rw [returns, second]
    simp only [long, magic, true_imp_iff, false_imp_iff, and_true]
  have returns : takeRelayTag priv skb cur = cutRelayTag priv
      ((skb.touch tag 4).touch (tag + 4) 2) tag (be16 skb.data (tag + 2)) :=
    takeRelayTag_eq type long magic
  rw [returns, cutRelayTag_inside start (by simp only [touch_len]; omega), second]
  simp only [long, magic, true_imp_iff, touch_len, and_assoc]

theorem takeRelayTag_mono {cur : ℕ} (frame : 14 ≤ skb.len)
    (inside : (takeRelayTag priv skb cur).skb.inside = true) : skb.inside = true := by
  have start : 20 ≤ tagsAt + cur := Nat.le_add_right 20 cur
  simp only [takeRelayTag] at inside
  split at inside
  · exact (inside_of_touch inside).1
  · split at inside
    · exact (inside_of_touch (inside_of_touch inside).1).1
    · rw [cutRelayTag_inside start (by rw [touch_len, touch_len]; exact frame)] at inside
      exact (inside_of_touch (inside_of_touch inside.1).1).1

theorem lookupRelayTag_inside (frame : 14 ≤ skb.len) :
    (lookupRelayTag priv skb).skb.inside = true ↔ skb.inside = true ∧
      LookupTagContained skb.data skb.len := by
  obtain ⟨skb', found, finds, same, reads, tagAt⟩ := findPppoeTag_spec skb
  unfold lookupRelayTag
  rw [← same.len] at frame
  rw [← same.data] at tagAt
  rw [← same.data, ← same.len] at reads
  rw [finds, ← same.data, ← same.len]
  cases found with
  | none =>
    have absent : ∀ cur, ¬ RelayTagAt skb'.data cur := fun cur there => by
      cases (tagAt cur).mpr there
    refine inside_after_search reads id fun _ => ?_
    exact (and_iff_left fun cur there => absurd there (absent cur)).symm
  | some cur =>
    have there := (tagAt cur).mp rfl
    refine inside_after_search reads (takeRelayTag_mono frame) fun walk => ?_
    rw [takeRelayTag_inside (walk.2 cur there.1 there.2.1) there.2.2]
    apply and_congr_right
    intro _
    constructor
    · intro takes cur' too
      cases (tagAt cur').mpr too
      exact takes
    · exact fun all => all cur there

/-! ### PPPoE -/

theorem pppoeDiscovery_inside :
    (pppoeDiscovery env priv skb).skb.inside = true ↔ (skb.inside = true ∧ 16 ≤ skb.len) ∧
      ((skb.data 15 = padiCode ∨ skb.data 15 = padrCode) →
        priv.ethBrExtInfo.addPPPoETag = true →
          InsertTagContained env skb.data skb.len skb.tailroom) := by
  have code : (skb.touch 15 1).inside = true ↔ skb.inside = true ∧ 16 ≤ skb.len := by simp
  by_cases isRequest : skb.data 15 = padiCode ∨ skb.data 15 = padrCode
  swap
  · have refuses : pppoeDiscovery env priv skb = ⟨some (-1), priv, skb.touch 15 1⟩ :=
      if_neg isRequest
    rw [refuses, code]
    simp only [isRequest, false_imp_iff, and_true]
  by_cases addTag : priv.ethBrExtInfo.addPPPoETag = true
  · have calls : pppoeDiscovery env priv skb = insertRelayTag env priv (skb.touch 15 1) :=
      (if_pos isRequest).trans (if_pos addTag)
    rw [calls, insertRelayTag_inside, code]
    simp only [isRequest, addTag, true_imp_iff, touch_data, touch_len, touch_tailroom]
  · have returns : (pppoeDiscovery env priv skb).skb = (skb.touch 15 1).touch 6 6 := by
      simp only [pppoeDiscovery, addTag, Bool.false_eq_true, if_false]
      split
      · split
        · rfl
        · rfl
      · rename_i other
        exact absurd isRequest other
    rw [returns, touch_inside, code, touch_len]
    simp only [addTag, Bool.false_eq_true, false_imp_iff, imp_true_iff, and_true]
    exact and_iff_left_of_imp fun reads => .inr (by omega)

theorem pppoeSession_inside :
    (pppoeSession env priv skb).skb.inside = true ↔ skb.inside = true ∧ 18 ≤ skb.len := by
  have returns : (pppoeSession env priv skb).skb = ((skb.touch 0 6).touch 16 2).touch 6 6 := by
    simp only [pppoeSession]
    split <;> rfl
  simp only [returns, touch_inside, touch_len]
  grind

theorem pppoeInsert_inside :
    (pppoeInsert env priv skb).skb.inside = true ↔ skb.inside = true ∧
      PppoeContained env skb.data skb.len priv.ethBrExtInfo.addPPPoETag skb.tailroom .insert := by
  have sid : (skb.touch 16 2).inside = true ↔ skb.inside = true ∧ 18 ≤ skb.len := by simp
  by_cases discovery : be16 skb.data 16 = 0
  · have calls : pppoeInsert env priv skb = pppoeDiscovery env priv (skb.touch 16 2) :=
      if_pos discovery
    have code : (skb.inside = true ∧ 18 ≤ skb.len) ∧ 16 ≤ skb.len ↔
        skb.inside = true ∧ 18 ≤ skb.len := and_iff_left_of_imp fun reads => by omega
    rw [calls, pppoeDiscovery_inside, sid, touch_len, code]
    simp only [PppoeContained, discovery, true_imp_iff, and_assoc, touch_data, touch_tailroom]
  · have calls : pppoeInsert env priv skb = pppoeSession env priv (skb.touch 16 2) :=
      if_neg discovery
    rw [calls, pppoeSession_inside, sid]
    simp only [PppoeContained, discovery, false_imp_iff, and_true, touch_len, and_self_right]

theorem pppoeLookup_inside (frame : 14 ≤ skb.len) :
    (pppoeLookup env priv skb).skb.inside = true ↔ skb.inside = true ∧
      PppoeContained env skb.data skb.len priv.ethBrExtInfo.addPPPoETag skb.tailroom .lookup := by
  have code : (skb.touch 15 1).inside = true ↔ skb.inside = true ∧ 16 ≤ skb.len := by simp
  by_cases isOffer : skb.data 15 = padoCode ∨ skb.data 15 = padsCode
  · simp only [PppoeContained, isOffer, true_imp_iff, not_true_eq_false, false_imp_iff, and_true]
    by_cases addTag : priv.ethBrExtInfo.addPPPoETag = true
    · have calls : pppoeLookup env priv skb = lookupRelayTag priv (skb.touch 15 1) :=
        (if_pos isOffer).trans (if_pos addTag)
      rw [calls, lookupRelayTag_inside (by rw [touch_len]; exact frame), code, touch_data,
        touch_len, and_assoc]
      simp only [addTag, true_imp_iff]
    · simp only [addTag, Bool.false_eq_true, false_imp_iff, and_true]
      rw [← code]
      simp only [pppoeLookup, addTag, Bool.false_eq_true, if_false]
      split
      · split
        · exact Iff.rfl
        · exact store_inside_of_le (by rw [Vector.length_toList, touch_len]; omega)
      · rename_i other
        exact absurd isOffer other
  · have sid : ((skb.touch 15 1).touch 16 2).inside = true ↔ skb.inside = true ∧ 18 ≤ skb.len := by
      rw [touch_inside, code, touch_len, and_assoc]
      exact and_congr_right fun _ => by omega
    simp only [PppoeContained, isOffer, false_imp_iff, not_false_eq_true, true_imp_iff, true_and]
    rw [show 16 ≤ skb.len ∧ 18 ≤ skb.len ↔ 18 ≤ skb.len by omega, ← sid]
    simp only [pppoeLookup]
    split
    · rename_i offer
      exact absurd offer isOffer
    · split
      · set read := (((skb.touch 15 1).touch 16 2).touch 6 6).touch 16 2 with reads
        have again : read.inside = true ↔ ((skb.touch 15 1).touch 16 2).inside = true := by
          rw [reads, touch_inside, touch_inside, sid]
          simp only [touch_len, and_assoc]
          exact and_congr_right fun _ => by omega
        have kept : (dbNetworkLookupAndReplace env priv read
            (.pppoe (sidAt read.data) (macAt read.data 6))).2.1.inside = true ↔ _ :=
          (lookupAndReplace_skb env priv read _ frame).2.1
        exact kept.trans again
      · exact Iff.rfl

theorem handlePppoe_inside (frame : 14 ≤ skb.len) (method : Nat25Method) :
    (handlePppoe env priv skb method).skb.inside = true ↔ skb.inside = true ∧
      PppoeContained env skb.data skb.len priv.ethBrExtInfo.addPPPoETag skb.tailroom method := by
  cases method with
  | check =>
    have returns : (handlePppoe env priv skb .check).skb = skb.touch 16 2 := by
      simp only [handlePppoe]
      split <;> rfl
    rw [returns, touch_inside]
    exact and_congr_right fun _ => by simp only [PppoeContained]; omega
  | insert => exact pppoeInsert_inside
  | lookup => exact pppoeLookup_inside frame

/-! ### IPv6 -/

theorem updateIcmpCksum_inside (frame : 58 ≤ skb.len) :
    (updateIcmpCksum env skb).inside = true ↔ skb.inside = true ∧
      (native16 env.order skb.data 18 = 0 ∨ icmpAt + native16 env.order skb.data 18 ≤ skb.len) := by
  have field : native16 env.order (skb.store (icmpAt + 2) [0, 0]).data 18 =
      native16 env.order skb.data 18 := native16_paste_of_le (.inl (by decide))
  have message : icmpAt = 54 := rfl
  simp only [updateIcmpCksum]
  rw [store_inside_of_le (by simp only [length_htons, touch_len, store_len]; omega), touch_inside,
    touch_inside_of_le (by simp only [touch_len, store_len]; omega),
    touch_inside_of_le (by simp only [touch_len, store_len]; omega),
    touch_inside_of_le (by simp only [store_len]; omega),
    store_inside_of_le (by simp only [List.length_cons, List.length_nil]; omega)]
  simp only [csumPartialLen, touch_data, touch_len, store_len]
  rw [field]

theorem ipv6Rewrite_inside (frame : 58 < skb.len) :
    (ipv6Rewrite env priv skb).skb.inside = true ↔ skb.inside = true ∧
      NdContained env skb.data skb.len := by
  have message : icmpAt = 54 := rfl
  have type : (skb.touch icmpAt 1).inside = true ↔ skb.inside = true :=
    touch_inside_of_le (by omega)
  cases options : ndOptions (skb.data icmpAt) with
  | none =>
    have calls : updateNdLinkLayerAddr skb (skb.len - ethHlen - ipv6HdrLen) priv.macAddr =
        (skb.touch icmpAt 1, some false) := by
      simp only [updateNdLinkLayerAddr, touch_data, options]
    simp only [ipv6Rewrite, calls]
    rw [type]
    refine (and_iff_left fun start tag found => ?_).symm
    rw [options] at found
    cases found
  | some option =>
    obtain ⟨start, tag⟩ := option
    have unfolds : NdContained env skb.data skb.len ↔ (icmpAt + start ≤ skb.len →
        (∀ p, OptVisited skb.data tag skb.len (icmpAt + start) p → p < skb.len → p + 2 ≤ skb.len) ∧
        ((∃ p, OptVisited skb.data tag skb.len (icmpAt + start) p ∧
            optHit skb.data tag skb.len p = true) →
          native16 env.order skb.data 18 = 0 ∨
            icmpAt + native16 env.order skb.data 18 ≤ skb.len)) := by
      constructor
      · exact fun all => all start tag options
      · intro this start' tag' found
        rw [options] at found
        cases found
        exact this
    have length : skb.len - ethHlen - ipv6HdrLen = skb.len - 54 := by
      unfold ethHlen ipv6HdrLen
      omega
    rw [unfolds, ipv6Rewrite, length]
    simp only [updateNdLinkLayerAddr, touch_data, options]
    by_cases long : icmpAt + start ≤ skb.len
    swap
    · have short : ¬ skb.len - 54 ≥ start := by omega
      simp only [short, if_false, long, false_imp_iff, and_true]
      exact type
    have enough : skb.len - 54 ≥ start := by omega
    obtain ⟨skb', found, finds, same, reads, hits⟩ := scanTlv_spec tag (skb.touch icmpAt 1)
      (icmpAt + start) (skb.len - 54 - start) (by rw [touch_len]; omega)
    simp only [touch_data, touch_len, type] at reads hits
    simp only [enough, if_true, long, true_imp_iff, finds]
    rw [← and_assoc, ← reads]
    cases found with
    | found mac =>
      obtain ⟨p, rfl, visited, hit⟩ := (hits mac).mp rfl
      have behind : icmpAt + start ≤ p := visited.le fun p => Nat.le_add_right p _
      have option : skb.data p = tag ∧ skb.data (p + 1) = 1 ∧ p + 8 ≤ skb.len := by
        simpa [optHit] using hit
      have fits : p + 2 + priv.macAddr.toList.length ≤ skb'.len := by
        rw [Vector.length_toList, same.len, touch_len]
        omega
      have field : native16 env.order (skb'.store (p + 2) priv.macAddr.toList).data 18 =
          native16 env.order skb.data 18 := by
        rw [store_data, native16_paste_of_le (.inl (by omega)), same.data, touch_data]
      simp only
      rw [updateIcmpCksum_inside (by rw [store_len, same.len, touch_len]; omega),
        store_inside_of_le fits, field, store_len, same.len, touch_len]
      apply and_congr_right
      intro _
      exact ⟨fun within _ => within, fun within => within ⟨p, visited, hit⟩⟩
    | missing =>
      refine (and_iff_left fun hit => ?_).symm
      obtain ⟨p, visited, hit⟩ := hit
      cases (hits (p + 2)).mpr ⟨p, rfl, visited, hit⟩
    | endless =>
      refine (and_iff_left fun hit => ?_).symm
      obtain ⟨p, visited, hit⟩ := hit
      cases (hits (p + 2)).mpr ⟨p, rfl, visited, hit⟩

theorem ipv6Insert_inside (frame : 54 < skb.len) :
    (ipv6Insert env priv skb).skb.inside = true ↔ skb.inside = true ∧
      Ipv6Contained env skb.data skb.len .insert := by
  have source : ((skb.touch 22 16).inside = true ↔ skb.inside = true) :=
    touch_inside_of_le (by omega)
  by_cases null : ipv6At skb.data 22 = Vector.replicate 16 0
  · have returns : ipv6Insert env priv skb = ⟨some 0, priv, skb.touch 22 16⟩ := by
      simp only [ipv6Insert, touch_data, null, if_true]
    rw [returns, source]
    exact (and_iff_left fun _ _ some => absurd null some).symm
  set read := ((skb.touch 22 16).touch 6 6).touch 20 1 with reads
  set inserted := dbNetworkInsert env.malloc priv (macAt skb.data 6)
      (.ipv6 (ipv6At skb.data 22)) with inserts
  have kept : read.inside = true ↔ skb.inside = true := by
    rw [reads, touch_inside_of_le (by simp only [touch_len]; omega),
      touch_inside_of_le (by rw [touch_len]; omega), source]
  by_cases message : skb.data 20 = 58 ∧ skb.len > ethHlen + ipv6HdrLen + 4
  · have calls : ipv6Insert env priv skb = ipv6Rewrite env inserted read := by
      simp only [ipv6Insert, touch_data, touch_len, null, message, if_true, if_false, and_self]
      rfl
    have long : 58 < read.len := message.2
    rw [calls, ipv6Rewrite_inside long, kept]
    apply and_congr_right
    intro _
    exact ⟨fun contained _ _ _ _ => contained, fun all => all rfl message.2 null message.1⟩
  · have returns : ipv6Insert env priv skb = ⟨some 0, inserted, read⟩ := by
      simp only [ipv6Insert, touch_data, touch_len, null, message, if_false]
      rfl
    rw [returns, kept]
    exact (and_iff_left fun _ long _ next => absurd ⟨next, long⟩ message).symm

theorem handleIpv6_inside (method : Nat25Method) :
    (handleIpv6 env priv skb method).skb.inside = true ↔ skb.inside = true ∧
      Ipv6Contained env skb.data skb.len method := by
  by_cases short : ipv6HdrLen ≥ skb.len - ethHlen
  · have returns : handleIpv6 env priv skb method = ⟨some (-1), priv, skb⟩ := if_pos short
    rw [returns]
    refine (and_iff_left fun _ long => ?_).symm
    unfold ipv6HdrLen ethHlen at short
    omega
  have frame : 54 < skb.len := by
    unfold ipv6HdrLen ethHlen at short
    omega
  cases method with
  | check =>
    have returns : (handleIpv6 env priv skb .check).skb = skb.touch 0 1 := by
      simp only [handleIpv6, short, if_false]
      split <;> rfl
    rw [returns, touch_inside_of_le (by omega)]
    exact (and_iff_left fun other => by cases other).symm
  | insert =>
    have calls : handleIpv6 env priv skb .insert = ipv6Insert env priv skb := if_neg short
    rw [calls]
    exact ipv6Insert_inside frame
  | lookup =>
    have calls : (handleIpv6 env priv skb .lookup).skb =
        (dbNetworkLookupAndReplace env priv (skb.touch 38 16) (.ipv6 (ipv6At skb.data 38))).2.1 :=
      congrArg Handled.skb (if_neg short)
    obtain ⟨-, kept, -⟩ := lookupAndReplace_skb env priv (skb.touch 38 16)
      (.ipv6 (ipv6At skb.data 38)) (by rw [touch_len]; omega)
    rw [calls, kept, touch_inside_of_le (by omega)]
    exact (and_iff_left fun other => by cases other).symm

/-! ## All protocols -/

theorem handleOther_skb (method : Nat25Method) : (handleOther priv skb method).skb = skb := by
  cases method with
  | check => rfl
  | insert => rfl
  | lookup => rfl

/-- `nat25_db_handle` stays inside a frame exactly if the frame meets the condition of its protocol.
None of the branches checks it as a whole. -/
theorem nat25_contained_iff (env : Env) (priv : Adapter) (skb : SkBuff) (method : Nat25Method)
    (fresh : skb.inside = true) (frame : 14 ≤ skb.len) :
    (nat25DbHandle env priv skb method).skb.inside = true ↔ Contained env priv skb method := by
  set read := skb.touch (2 * ethAlen) 2 with reads
  have kept : read.inside = true := (touch_inside_of_le (by unfold ethAlen; omega)).mpr fresh
  have size : 14 ≤ read.len := frame
  have protocols : nat25DbHandle env priv skb method =
      if be16 skb.data 12 = ethPIp then handleIp env priv read method
      else if be16 skb.data 12 = ethPArp then handleArp env priv read method
      else if be16 skb.data 12 = ethPPppDisc ∨ be16 skb.data 12 = ethPPppSes then
        handlePppoe env priv read method
      else if be16 skb.data 12 = 0x888e then handleOther priv read method
      else if be16 skb.data 12 = 0xe2ae ∨ be16 skb.data 12 = 0xe2af then
        handleOther priv read method
      else if be16 skb.data 12 = ethPIpv6 then handleIpv6 env priv read method
      else ⟨some (-1), priv, read⟩ := rfl
  rw [protocols]
  unfold Contained
  by_cases ip : be16 skb.data 12 = ethPIp
  · rw [if_pos ip, if_pos ip]
    exact (handleIp_inside size method).trans (and_iff_right kept)
  rw [if_neg ip, if_neg ip]
  by_cases arp : be16 skb.data 12 = ethPArp
  · rw [if_pos arp, if_pos arp]
    exact (handleArp_inside size method).trans (and_iff_right kept)
  rw [if_neg arp, if_neg arp]
  by_cases pppoe : be16 skb.data 12 = ethPPppDisc ∨ be16 skb.data 12 = ethPPppSes
  · rw [if_pos pppoe, if_pos pppoe]
    exact (handlePppoe_inside size method).trans (and_iff_right kept)
  rw [if_neg pppoe, if_neg pppoe]
  by_cases ipv6 : be16 skb.data 12 = ethPIpv6
  · have eap : be16 skb.data 12 ≠ 0x888e := by rw [ipv6]; decide
    have media : ¬ (be16 skb.data 12 = 0xe2ae ∨ be16 skb.data 12 = 0xe2af) := by rw [ipv6]; decide
    rw [if_neg eap, if_neg media, if_pos ipv6, if_pos ipv6]
    exact (handleIpv6_inside method).trans (and_iff_right kept)
  -- what is left does not look into the frame
  rw [if_neg ipv6, if_neg ipv6]
  refine iff_of_true ?_ trivial
  split_ifs
  · rw [handleOther_skb]
    exact kept
  · rw [handleOther_skb]
    exact kept
  · exact kept

def bridgeStation : Adapter :=
  { macAddr := #v[2, 0, 0, 0, 0, 9] }

def arpRequest (hln : Byte) : SkBuff :=
  .ofBytes
    ([0xff, 0xff, 0xff, 0xff, 0xff, 0xff, 2, 0, 0, 0, 0, 1, 0x08, 0x06,
      0, 1, 0x08, 0x00, hln, 4, 0, 1] ++ List.replicate 20 0) 0

def neighbourSolicitation : SkBuff :=
  .ofBytes
    ([0x33, 0x33, 0xff, 0, 0, 1, 2, 0, 0, 0, 0, 1, 0x86, 0xdd,
      0x60, 0, 0, 0, 0, 32, 58, 255] ++ List.replicate 15 0 ++ [1] ++ List.replicate 16 0 ++
      [135, 0, 0, 0] ++ List.replicate 20 0 ++ [1, 1, 2, 0, 0, 0, 0, 1]) 0

theorem nat25_contained_arp :
    Contained littleHost bridgeStation (arpRequest 6) .insert ∧
    (nat25DbHandle littleHost bridgeStation (arpRequest 6) .insert).skb.inside = true := by
  have contained : Contained littleHost bridgeStation (arpRequest 6) .insert := by
    have protocol : be16 (arpRequest 6).data 12 = ethPArp := by decide
    have other : be16 (arpRequest 6).data 12 ≠ ethPIp := by decide
    rw [Contained, if_neg other, if_pos protocol]
    exact ⟨by decide, fun _ => by decide⟩
  exact ⟨contained, (nat25_contained_iff littleHost bridgeStation (arpRequest 6) .insert rfl
    (by decide)).mpr contained⟩

theorem frames_not_contained :
    (nat25DbHandle littleHost bridgeStation
      (.ofBytes (List.replicate 12 0 ++ [0x08, 0x00]) 0) .check).skb.inside = false ∧
    (nat25DbHandle littleHost bridgeStation (arpRequest 255) .insert).skb.inside = false ∧
    (nat25DbHandle littleHost bridgeStation neighbourSolicitation .insert).skb.inside = false := by
  decide +kernel

end Rtl88x2bu.Bridge
