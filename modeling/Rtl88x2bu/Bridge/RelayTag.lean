import Rtl88x2bu.Bridge.Contained

/-!
# The relay tag of PPPoE discovery

With `addPPPoETag` a client's address travels in a Relay-Session-Id tag: `nat25_db_handle` puts it
into PADI and PADR and takes it out of the PADO and PADS that echo it.
-/

namespace Rtl88x2bu.Bridge

open List hiding Vector
open Rx (MacAddr bcAddr nullAddr)
open Tape Walk

variable (client : MacAddr) (own : List Byte)

/-! ## Discovery frames -/

/-- A tag of a discovery frame. -/
structure Tag where
  type : UInt16
  value : List Byte
  deriving DecidableEq

variable (tags : List Tag)

/-- Type, length and value. -/
def Tag.encode (t : Tag) : List Byte :=
  htons t.type.toNat ++ htons t.value.length ++ t.value

def encodeTags : List Byte :=
  tags.flatMap Tag.encode

def Tag.IsRelay (t : Tag) : Prop :=
  t.type.toNat = pttRelaySid

instance (t : Tag) : Decidable t.IsRelay :=
  inferInstanceAs (Decidable (_ = _))

/-- A PPPoE discovery frame. -/
structure Discovery where
  da : MacAddr
  sa : MacAddr
  code : Byte
  sid : Vector Byte 2
  payload : List Byte

/-- The bytes before the length field. -/
def Discovery.header (d : Discovery) : List Byte :=
  d.da.toList ++ (d.sa.toList ++ (htons ethPPppDisc ++ ([0x11, d.code] ++ d.sid.toList)))

/-- The buffer has the frame. -/
structure Carries (skb : SkBuff) (d : Discovery) : Prop where
  header : Holds skb.data 0 d.header
  length : be16 skb.data 18 = d.payload.length
  payload : Holds skb.data tagsAt d.payload
  fits : tagsAt + d.payload.length ≤ skb.len

/-- The frame `skb` was handled: it left as `d`, and no access was outside it. -/
structure Handled.Sends (h : Handled) (skb : SkBuff) (d : Discovery) : Prop where
  ret : h.ret = some 0
  inside : h.skb.inside = true ↔ skb.inside = true
  carries : Carries h.skb d

section Fields

variable {skb skb' : SkBuff} {d : Discovery}

theorem Handled.Sends.of_reads {h : Handled} (sends : h.Sends skb' d)
    (reads : skb'.inside = true ↔ skb.inside = true) : h.Sends skb d :=
  ⟨sends.ret, sends.inside.trans reads, sends.carries⟩

theorem Discovery.length_header (d : Discovery) : d.header.length = 18 := by
  simp [Discovery.header]

theorem Discovery.header_paste {data : ℕ → Byte} (holds : Holds data 0 d.header) {start : ℕ}
    (behind : 18 ≤ start) (patch : List Byte) : Holds (paste data start patch) 0 d.header :=
  holds.paste (.inl (by rw [Discovery.length_header]; omega))

section

variable (carries : Carries skb d)
include carries

theorem Carries.same (same : SameFrame skb skb') : Carries skb' d := by
  obtain ⟨header, length, payload, fits⟩ := carries
  rw [← same.data] at header length payload
  rw [← same.len] at fits
  exact ⟨header, length, payload, fits⟩

theorem Carries.short : d.payload.length < 65536 := by
  rw [← carries.length]
  exact be16_lt _ _

theorem Carries.source : macAt skb.data 6 = d.sa := by
  have behind := (holds_append.mp carries.header).2
  rw [Vector.length_toList] at behind
  exact addrAt_eq_of_holds (holds_append.mp behind).1

theorem Carries.fixed :
    Holds skb.data 12 (htons ethPPppDisc ++ ([0x11, d.code] ++ d.sid.toList)) := by
  have behind := (holds_append.mp (holds_append.mp carries.header).2).2
  simpa only [Vector.length_toList] using behind

theorem Carries.protocol : be16 skb.data 12 = ethPPppDisc :=
  be16_eq_of_holds (by decide) (holds_append.mp carries.fixed).1

theorem Carries.handled (env : Env) (priv : Adapter) (method : Nat25Method) :
    nat25DbHandle env priv skb method =
      handlePppoe env priv (skb.touch (2 * ethAlen) 2) method := by
  have other {protocol : ℕ} (other : ethPPppDisc ≠ protocol) : be16 skb.data 12 ≠ protocol :=
    carries.protocol.trans_ne other
  exact (if_neg (other (by decide))).trans ((if_neg (other (by decide))).trans
    (if_pos (.inl carries.protocol)))

theorem Carries.code : skb.data 15 = d.code :=
  (holds_append.mp (holds_append.mp carries.fixed).2).1.2.1

theorem Carries.sid (none : d.sid = #v[0, 0]) : be16 skb.data 16 = 0 := by
  have session := (holds_append.mp (holds_append.mp carries.fixed).2).2
  rw [none] at session
  obtain ⟨high, low, -⟩ := session
  have first : skb.data 16 = 0 := high
  have second : skb.data 17 = 0 := low
  rw [be16, first, second]
  rfl

end

end Fields

/-! ## The search along the tags -/

section Search

variable {data : ℕ → Byte} {tags before after : List Tag} {t : Tag} {cur q : ℕ}

theorem length_encode (t : Tag) : t.encode.length = 4 + t.value.length := by
  simp [Tag.encode]
  omega

theorem encodeTags_append (before after : List Tag) :
    encodeTags (before ++ after) = encodeTags before ++ encodeTags after :=
  flatMap_append

theorem encodeTags_cons (t : Tag) (after : List Tag) :
    encodeTags (t :: after) = t.encode ++ encodeTags after :=
  flatMap_cons

section

variable (holds : Holds data (tagsAt + cur) t.encode) (short : t.value.length < 65536)
include holds short

theorem tag_fields :
    be16 data (tagsAt + cur) = t.type.toNat ∧ be16 data (tagsAt + cur + 2) = t.value.length := by
  obtain ⟨header, -⟩ := holds_append.mp holds
  obtain ⟨type, length⟩ := holds_append.mp header
  exact ⟨be16_eq_of_holds t.type.toNat_lt type, be16_eq_of_holds short length⟩

theorem tagNext_eq : tagNext data cur = cur + t.encode.length := by
  rw [tagNext, (tag_fields holds short).2, length_encode, tagHdrLen, Nat.add_assoc]

end

/-- The search only comes to the starts of tags, and not past a relay tag. -/
theorem tag_of_visits (holds : Holds data (tagsAt + cur) (encodeTags tags))
    (ends : cur + (encodeTags tags).length = be16 data 18)
    (visits : Visits (tagMore data) (tagHit data pttRelaySid) (tagNext data) cur q)
    (more : q < be16 data 18) :
    ∃ before t after, tags = before ++ t :: after ∧ q = cur + (encodeTags before).length ∧
      ∀ s ∈ before, ¬ s.IsRelay := by
  induction tags generalizing cur with
  | nil =>
    have done : cur = be16 data 18 := ends
    rcases visits.eq_or_next with rfl | ⟨reads, -⟩
    · omega
    · have less : cur < be16 data 18 := by simpa [tagMore] using reads
      omega
  | cons t tags ih =>
    rcases visits.eq_or_next with rfl | ⟨-, misses, later⟩
    · exact ⟨[], t, tags, rfl, rfl, by simp⟩
    rw [encodeTags_cons] at holds ends
    rw [length_append] at ends
    obtain ⟨here, rest⟩ := holds_append.mp holds
    have field := be16_lt data 18
    have short : t.value.length < 65536 := by
      rw [length_encode] at ends
      omega
    rw [tagNext_eq here short] at later
    rw [Nat.add_assoc] at rest
    obtain ⟨before, s, after, split, place, clean⟩ := ih rest (by omega) later
    have other : ¬ t.IsRelay := by
      intro relay
      rw [tagHit, (tag_fields here short).1, decide_eq_false_iff_not] at misses
      exact misses relay
    refine ⟨t :: before, s, after, by rw [split, cons_append], ?_, ?_⟩
    · rw [encodeTags_cons, length_append, place, Nat.add_assoc]
    · intro r member
      rcases mem_cons.mp member with rfl | later
      · exact other
      · exact clean r later

/-- It comes to every tag without a relay tag before it. -/
theorem visits_of_tags (holds : Holds data (tagsAt + cur) (encodeTags (before ++ t :: after)))
    (ends : cur + (encodeTags (before ++ t :: after)).length = be16 data 18)
    (clean : ∀ s ∈ before, ¬ s.IsRelay) :
    Visits (tagMore data) (tagHit data pttRelaySid) (tagNext data) cur
      (cur + (encodeTags before).length) := by
  induction before generalizing cur with
  | nil => exact .here cur
  | cons s before ih =>
    rw [cons_append, encodeTags_cons] at holds ends
    rw [length_append] at ends
    obtain ⟨here, rest⟩ := holds_append.mp holds
    have field := be16_lt data 18
    have size := length_encode s
    have short : s.value.length < 65536 := by omega
    rw [Nat.add_assoc] at rest
    have reads : tagMore data cur = true := by
      rw [tagMore, decide_eq_true_iff]
      omega
    have misses : tagHit data pttRelaySid cur = false := by
      rw [tagHit, (tag_fields here short).1, decide_eq_false_iff_not]
      exact clean s mem_cons_self
    refine .there reads misses ?_
    rw [tagNext_eq here short, encodeTags_cons, length_append, ← Nat.add_assoc]
    exact ih rest (by omega) fun r member => clean r (mem_cons_of_mem s member)

end Search

/-- The first relay tag is found. -/
theorem findPppoeTag_tags {skb : SkBuff} {d : Discovery} {tags : List Tag} (carries : Carries skb d)
    (parses : d.payload = encodeTags tags) :
    ∃ skb' found, findPppoeTag skb pttRelaySid = (skb', found) ∧ SameFrame skb skb' ∧
      (skb'.inside = true ↔ skb.inside = true) ∧
      (∀ before t after, tags = before ++ t :: after → t.IsRelay → (∀ s ∈ before, ¬ s.IsRelay) →
        found = some (encodeTags before).length) ∧
      ((∀ t ∈ tags, ¬ t.IsRelay) → found = none) := by
  obtain ⟨skb', found, finds, same, reads, tagAt⟩ := findPppoeTag_spec skb
  have holds : Holds skb.data (tagsAt + 0) (encodeTags tags) := by
    rw [← parses]
    exact carries.payload
  have ends : 0 + (encodeTags tags).length = be16 skb.data 18 := by
    rw [carries.length, parses, Nat.zero_add]
  have fits := carries.fits
  rw [parses] at fits
  have field := be16_lt skb.data 18
  have walk : TagWalkInside skb.data skb.len := by
    refine ⟨by omega, fun cur visited more => ?_⟩
    obtain ⟨before, t, after, split, place, -⟩ := tag_of_visits holds ends visited more
    rw [split, encodeTags_append, encodeTags_cons, length_append, length_append,
      length_encode] at fits
    omega
  refine ⟨skb', found, finds, same, reads.trans (and_iff_left walk), ?_, ?_⟩
  · rintro before t after split relay clean
    rw [split] at holds ends
    have visits := visits_of_tags holds ends clean
    rw [encodeTags_append, encodeTags_cons] at holds ends
    rw [length_append, length_append, length_encode] at ends
    have here := (holds_append.mp (holds_append.mp holds).2).1
    rw [Nat.add_zero] at here
    rw [Nat.zero_add] at visits
    exact (tagAt _).mpr ⟨visits, by omega, (tag_fields here (by omega)).1.trans relay⟩
  · intro clean
    cases found with
    | none => rfl
    | some cur =>
      obtain ⟨visited, more, hit⟩ := (tagAt cur).mp rfl
      obtain ⟨before, t, after, split, place, -⟩ := tag_of_visits holds ends visited more
      rw [split, encodeTags_append, encodeTags_cons] at holds ends
      rw [length_append, length_append, length_encode] at ends
      have here := (holds_append.mp (holds_append.mp holds).2).1
      rw [Nat.add_zero, ← Nat.zero_add (encodeTags before).length, ← place] at here
      have relay : t.IsRelay := (tag_fields here (by omega)).1.symm.trans hit
      exact absurd relay (clean t (by rw [split]; simp))

/-! ## The operations on a frame -/

section Operations

variable {env : Env} {priv : Adapter} {skb : SkBuff} {d : Discovery} {front gone back : List Byte}

/-- Bytes are cut out of the payload. -/
theorem Carries.cut (carries : Carries skb d) (split : d.payload = front ++ (gone ++ back)) :
    ∃ skb', skbPullAndMerge skb (tagsAt + front.length) gone.length = (skb', true) ∧
      skb'.tailroom = skb.tailroom + gone.length ∧
      ((addToLength skb' (-(gone.length : ℕ))).inside = true ↔ skb.inside = true) ∧
      Carries (addToLength skb' (-(gone.length : ℕ))) { d with payload := front ++ back } := by
  obtain ⟨header, length, payload, fits⟩ := carries
  have field := be16_lt skb.data 18
  have start : tagsAt = 20 := rfl
  rw [split] at length payload fits
  simp only [length_append] at length fits
  have room : tagsAt + front.length + gone.length ≤ skb.len := by omega
  obtain ⟨kept, later⟩ := holds_append.mp payload
  obtain ⟨-, moved⟩ := holds_append.mp later
  refine ⟨_, skbPullAndMerge_eq room, rfl, ?_, ?_, ?_, ?_, ?_⟩
  · rw [addToLength_inside _ (by rw [trim_len, memmove_len]; omega), skbPullAndMerge_inside room]
  · exact Discovery.header_paste (Discovery.header_paste header (by omega) _) le_rfl _
  · rw [be16_addToLength, trim_data, memmove_data, be16_paste_of_le (.inl (by omega)), length,
      length_append]
    omega
  · refine Holds.paste (holds_append.mpr ⟨Holds.paste kept (.inl le_rfl), ?_⟩)
      (.inr (by simp [start]))
    exact moved.move (by omega) _
  · rw [addToLength_len, trim_len, memmove_len, length_append]
    omega

/-- Bytes of the payload are overwritten. -/
theorem Carries.patch (carries : Carries skb d) (split : d.payload = front ++ (gone ++ back))
    (new : List Byte) (fits : new.length = gone.length) :
    ((skb.store (tagsAt + front.length) new).inside = true ↔ skb.inside = true) ∧
      Carries (skb.store (tagsAt + front.length) new)
        { d with payload := front ++ (new ++ back) } := by
  obtain ⟨header, length, payload, inFrame⟩ := carries
  have start : tagsAt = 20 := rfl
  rw [split] at length payload inFrame
  simp only [length_append] at length inFrame
  obtain ⟨kept, later⟩ := holds_append.mp payload
  obtain ⟨-, behind⟩ := holds_append.mp later
  refine ⟨store_inside_of_le (by omega), Discovery.header_paste header (by omega) _, ?_, ?_, ?_⟩
  · rw [store_data, be16_paste_of_le (.inl (by omega)), length]
    simp only [length_append]
    omega
  · refine holds_append.mpr ⟨Holds.paste kept (.inl le_rfl), holds_append.mpr ⟨?_, ?_⟩⟩
    · exact holds_paste _ _ _
    · rw [fits]
      exact Holds.paste behind (.inr (by omega))
  · rw [store_len]
    simp only [length_append]
    omega

/-- The destination is overwritten. -/
theorem Carries.redirect (carries : Carries skb d) (mac : MacAddr) :
    ((skb.store 0 mac.toList).inside = true ↔ skb.inside = true) ∧
      Carries (skb.store 0 mac.toList) { d with da := mac } := by
  obtain ⟨header, length, payload, fits⟩ := carries
  have start : tagsAt = 20 := rfl
  obtain ⟨-, rest⟩ := holds_append.mp header
  rw [Vector.length_toList] at rest
  have size : mac.toList.length = 6 := Vector.length_toList
  refine ⟨store_inside_of_le (by omega), ?_, ?_, ?_, fits⟩
  · refine holds_append.mpr ⟨holds_paste _ _ _, ?_⟩
    rw [size]
    exact Holds.paste rest (.inr (by omega))
  · rw [store_data, be16_paste_of_le (.inr (by omega)), length]
  · exact Holds.paste payload (.inr (by omega))

theorem length_relayTag (old : List Byte) : (relayTag client old).length = 12 + old.length := by
  simp only [relayTag, length_append, length_htons, Vector.length_toList]

variable (skb) in
theorem addPppoeTag_eq {tag : List Byte}
    (reads : native16 env.order (paste env.stack 0 tag) 2 + tagHdrLen = tag.length)
    (room : tag.length ≤ skb.tailroom) :
    ∃ skb', addPppoeTag env skb tag = (skb', true) ∧ skb'.len = skb.len + tag.length ∧
      skb'.data = paste
        (paste (paste skb.data (tagsAt + tag.length) (window skb.data tagsAt (be16 skb.data 18))) 18
          (htons ((be16 (paste skb.data (tagsAt + tag.length)
            (window skb.data tagsAt (be16 skb.data 18))) 18 + (tag.length : ℤ)) % 65536).toNat))
        tagsAt tag := by
  have copied : window (paste env.stack 0 tag) 0 tag.length = tag :=
    (holds_paste _ _ _).window_eq rfl
  simp only [addPppoeTag, reads]
  rw [if_neg (not_lt.mpr room)]
  refine ⟨_, rfl, rfl, ?_⟩
  simp only [store_data, addToLength, touch_data, memmove_data, put_data, copied]

variable (priv) in
/-- A relay tag goes in front of the tags. -/
theorem Carries.relay {old : List Byte} (big : env.order = .big) (carries : Carries skb d)
    (short : old.length ≤ 28) (room : 12 + old.length ≤ skb.tailroom)
    (size : 12 + old.length + d.payload.length < 65536) :
    (addRelayTag env priv skb old).Sends skb
      { d with payload := relayTag d.sa old ++ d.payload } := by
  have start : tagsAt = 20 := rfl
  have tagLen := length_relayTag d.sa old
  have source := carries.source
  obtain ⟨header, length, payload, fits⟩ := carries
  have inside : (addRelayTag env priv skb old).skb.inside = true ↔ skb.inside = true := by
    rw [addRelayTag_inside short (by omega)]
    refine and_iff_left ?_
    simp only [AddContained, big, length]
    exact .inr (.inr fits)
  have reads : native16 env.order (paste env.stack 0 (relayTag d.sa old)) 2 + tagHdrLen =
      (relayTag d.sa old).length := by
    rw [native16_relayTag d.sa short, big, tagLen]
    simp only [tagHdrLen]
    omega
  obtain ⟨skb', adds, len, data⟩ := addPppoeTag_eq (skb.touch 6 6) reads
    (by rw [touch_tailroom, tagLen]; exact room)
  have returns : addRelayTag env priv skb old = ⟨some 0, priv, skb'⟩ := by
    simp only [addRelayTag, touch_data]
    rw [source, adds]
  rw [touch_data, length] at data
  rw [touch_len] at len
  refine ⟨by rw [returns], inside, ?_⟩
  rw [returns]
  refine ⟨?_, ?_, ?_, ?_⟩
  · rw [data]
    refine Discovery.header_paste (Discovery.header_paste ?_ le_rfl _) (by omega) _
    exact Discovery.header_paste header (by omega) _
  · rw [data, be16_paste_of_le (.inl (by omega)), be16_paste_htons (by omega),
      be16_paste_of_le (.inl (by omega)), length, length_append]
    omega
  · rw [data]
    refine holds_append.mpr ⟨holds_paste _ _ _, ?_⟩
    refine Holds.paste (Holds.paste ?_ (.inr (by simp [start]))) (.inr le_rfl)
    exact payload.move le_rfl _
  · rw [len, length_append]
    omega

end Operations

/-! ## A client's frame -/

/-- The relay tags of a frame. -/
def relayTags : List Tag :=
  tags.filter fun t => t.IsRelay

/-- The tags that stay where they are. -/
def otherTags : List Tag :=
  tags.filter fun t => ¬ t.IsRelay

/-- The tag that the driver writes for a client. -/
def relayed : Tag :=
  ⟨0x0110, htons magicCode ++ client.toList ++ own⟩

/-- What the client's own relay tag has. -/
def ownBytes : List Byte :=
  (relayTags tags).flatMap Tag.value

theorem encode_relayed : (relayed client own).encode = relayTag client own := by
  have length : (htons magicCode ++ client.toList ++ own).length =
      magicCodeLen + rtlRelayTagLen + own.length := by
    simp only [length_append, length_htons, Vector.length_toList]
    rfl
  have type : (relayed client own).type.toNat = pttRelaySid := rfl
  rw [Tag.encode, type, relayed, relayTag, length]
  simp only [append_assoc]

theorem isRelay_relayed : (relayed client own).IsRelay :=
  rfl

section Insert

variable {env : Env} {priv : Adapter} {skb : SkBuff} {d : Discovery} {tags before after : List Tag}
  {t : Tag}

variable (priv) in
/-- The client's own relay tag is replaced. -/
theorem Carries.replace (big : env.order = .big) (carries : Carries skb d)
    (parses : d.payload = encodeTags (before ++ t :: after)) (short : t.value.length ≤ 28)
    (room : 40 ≤ skb.tailroom) (size : d.payload.length + 8 < 65536) :
    (replaceRelayTag env priv skb (encodeTags before).length).Sends skb
      { d with payload := encodeTags (relayed d.sa t.value :: (before ++ after)) } := by
  rw [encodeTags_append, encodeTags_cons] at parses
  set cur := (encodeTags before).length with curIs
  have total : d.payload.length = cur + (4 + t.value.length + (encodeTags after).length) := by
    rw [parses, length_append, length_append, length_encode]
  have fits := carries.fits
  have holds := carries.payload
  rw [parses] at holds
  have here := (holds_append.mp (holds_append.mp holds).2).1
  obtain ⟨-, length⟩ := tag_fields here (by omega)
  have value : Holds skb.data (tagsAt + cur + tagHdrLen) t.value := (holds_append.mp here).2
  set copied := (skb.touch (tagsAt + cur + 2) 2).touch (tagsAt + cur + tagHdrLen) t.value.length
    with copies
  have same : SameFrame skb copied := ⟨rfl, rfl, rfl⟩
  have head : tagHdrLen = 4 := rfl
  have reads : copied.inside = true ↔ skb.inside = true := by
    rw [copies, touch_inside_of_le (by rw [touch_len]; omega), touch_inside_of_le (by omega)]
  obtain ⟨merged, cuts, tailroom, kept, rest⟩ := (carries.same same).cut parses
  rw [length_encode] at cuts tailroom kept rest
  have sends := rest.relay priv big short
    (by rw [addToLength_tailroom, tailroom, copies, touch_tailroom, touch_tailroom]; omega)
    (by rw [length_append]; omega)
  rw [replaceRelayTag_eq length short, value.window_eq rfl, ← copies, head, cuts]
  rw [encodeTags_cons, encode_relayed, encodeTags_append]
  exact sends.of_reads (kept.trans reads)

theorem relayTags_eq_nil (none : relayTags tags = []) :
    (∀ s ∈ tags, ¬ s.IsRelay) ∧ otherTags tags = tags := by
  have clean : ∀ s ∈ tags, ¬ s.IsRelay := fun s member => by
    simpa using filter_eq_nil_iff.mp none s member
  exact ⟨clean, filter_eq_self.mpr fun s member => by simpa using clean s member⟩

theorem relayTags_eq_singleton (only : relayTags tags = [t]) :
    ∃ before after, tags = before ++ t :: after ∧ t.IsRelay ∧ (∀ s ∈ before, ¬ s.IsRelay) ∧
      otherTags tags = before ++ after := by
  obtain ⟨before, after, rfl, clean, relay, rest⟩ := filter_eq_cons_iff.mp only
  have isRelay : t.IsRelay := by simpa using relay
  have first : ∀ s ∈ before, ¬ s.IsRelay := fun s member => by simpa using clean s member
  have second : ∀ s ∈ after, ¬ s.IsRelay := fun s member => by
    simpa using filter_eq_nil_iff.mp rest s member
  refine ⟨before, after, rfl, isRelay, first, ?_⟩
  rw [otherTags, filter_append, filter_cons_of_neg (by simpa using isRelay),
    filter_eq_self.mpr fun s member => by simpa using first s member,
    filter_eq_self.mpr fun s member => by simpa using second s member]

variable (priv) in
/-- A client's frame leaves with the relay tag in front of the other tags. -/
theorem Carries.insert (big : env.order = .big) (carries : Carries skb d)
    (parses : d.payload = encodeTags tags) (single : (relayTags tags).length ≤ 1)
    (short : (ownBytes tags).length ≤ 28) (room : 40 ≤ skb.tailroom)
    (size : (encodeTags (relayed d.sa (ownBytes tags) :: otherTags tags)).length < 65536) :
    (insertRelayTag env priv skb).Sends skb
      { d with payload := encodeTags (relayed d.sa (ownBytes tags) :: otherTags tags) } := by
  obtain ⟨skb', found, finds, same, reads, hits, misses⟩ := findPppoeTag_tags carries parses
  have there := carries.same same
  rw [encodeTags_cons, length_append, encode_relayed, length_relayTag] at size
  unfold insertRelayTag
  rw [finds]
  cases relays : relayTags tags with
  | nil =>
    obtain ⟨clean, others⟩ := relayTags_eq_nil relays
    have own : ownBytes tags = [] := by rw [ownBytes, relays]; rfl
    rw [own, others, ← parses] at size
    rw [misses clean, own, others, encodeTags_cons, encode_relayed, ← parses]
    rw [own] at short
    exact (there.relay priv big short (by rw [same.tailroom, length_nil]; omega) size).of_reads
      reads
  | cons t more =>
    cases more with
    | cons second more =>
      rw [relays, length_cons, length_cons] at single
      omega
    | nil =>
      obtain ⟨before, after, split, relay, clean, others⟩ := relayTags_eq_singleton relays
      have own : ownBytes tags = t.value := by rw [ownBytes, relays]; simp
      rw [own] at short size
      rw [hits before t after split relay clean, own, others]
      rw [split] at parses
      have total : d.payload.length + 8 < 65536 := by
        rw [others, encodeTags_append, length_append] at size
        rw [parses, encodeTags_append, encodeTags_cons, length_append, length_append,
          length_encode]
        omega
      exact (there.replace priv big parses short (by rw [same.tailroom]; exact room)
        total).of_reads reads

end Insert

/-! ## A frame that comes back -/

/-- What is left of a relay tag. A client's own tag without bytes is not told from none. -/
def restored : List Tag :=
  if own = [] then [] else [⟨0x0110, own⟩]

section Lookup

variable {priv : Adapter} {skb : SkBuff} {d : Discovery} {before after : List Tag}
  {client : MacAddr} {own : List Byte}

section

variable (parses : d.payload = encodeTags (before ++ relayed client own :: after))
include parses

theorem payload_split :
    d.payload = encodeTags before ++ (htons pttRelaySid ++ (htons (8 + own.length) ++
      (htons magicCode ++ (client.toList ++ (own ++ encodeTags after))))) := by
  rw [parses, encodeTags_append, encodeTags_cons, encode_relayed, relayTag]
  simp only [append_assoc]
  rfl

theorem Carries.redirected (carries : Carries skb d) :
    Carries ((skb.touch (tagsAt + (encodeTags before).length + tagHdrLen + magicCodeLen) 6).store 0
      (macAt skb.data (tagsAt + (encodeTags before).length + tagHdrLen + magicCodeLen)).toList)
      { d with da := client } := by
  have holds := carries.payload
  rw [payload_split parses] at holds
  have address : Holds skb.data (tagsAt + (encodeTags before).length + tagHdrLen + magicCodeLen)
      client.toList :=
    (holds_append.mp (holds_append.mp (holds_append.mp (holds_append.mp
      (holds_append.mp holds).2).2).2).2).1
  rw [macAt, addrAt_eq_of_holds address]
  exact ((carries.same (SameFrame.touch skb _ 6)).redirect client).2

end

/-! Without bytes of the client the whole tag goes, otherwise only the address. -/

variable (priv) in
theorem Carries.cutAll (carries : Carries skb d)
    (parses : d.payload = encodeTags (before ++ relayed client [] :: after)) :
    (cutRelayTag priv skb (tagsAt + (encodeTags before).length) 8).ret = some 0 ∧
      Carries (cutRelayTag priv skb (tagsAt + (encodeTags before).length) 8).skb
        { d with da := client, payload := encodeTags (before ++ after) } := by
  have redirected := carries.redirected parses
  set tag := tagsAt + (encodeTags before).length
  set found := (skb.touch (tag + tagHdrLen + magicCodeLen) 6).store 0
    (macAt skb.data (tag + tagHdrLen + magicCodeLen)).toList
  have split : ({ d with da := client } : Discovery).payload =
      encodeTags before ++ (relayTag client [] ++ encodeTags after) := by
    rw [← encode_relayed, ← encodeTags_cons, ← encodeTags_append]
    exact parses
  obtain ⟨merged, cuts, -, -, result⟩ := redirected.cut split
  rw [length_relayTag, length_nil] at cuts result
  have pulled : skbPullAndMerge found (tag + 0)
      (tagHdrLen + magicCodeLen + rtlRelayTagLen - 0) = (merged, true) := cuts
  have offset : (if 8 > magicCodeLen + rtlRelayTagLen then tagHdrLen else 0) = 0 := rfl
  have calls : cutRelayTag priv skb tag 8 =
      ⟨some 0, priv, addToLength merged (-(12 : ℕ))⟩ := by
    simp only [cutRelayTag, offset, touch_data]
    rw [pulled]
    rfl
  rw [calls]
  rw [← encodeTags_append] at result
  exact ⟨rfl, result⟩

variable (priv) in
theorem Carries.cutAddress (carries : Carries skb d)
    (parses : d.payload = encodeTags (before ++ relayed client own :: after))
    (nonempty : own ≠ []) :
    (cutRelayTag priv skb (tagsAt + (encodeTags before).length) (8 + own.length)).ret = some 0 ∧
      Carries (cutRelayTag priv skb (tagsAt + (encodeTags before).length) (8 + own.length)).skb
        { d with da := client, payload := encodeTags (before ++ ⟨0x0110, own⟩ :: after) } := by
  have redirected := carries.redirected parses
  set tag := tagsAt + (encodeTags before).length
  set found := (skb.touch (tag + tagHdrLen + magicCodeLen) 6).store 0
    (macAt skb.data (tag + tagHdrLen + magicCodeLen)).toList
  have split : ({ d with da := client } : Discovery).payload =
      (encodeTags before ++ (htons pttRelaySid ++ htons (8 + own.length))) ++
        ((htons magicCode ++ client.toList) ++ (own ++ encodeTags after)) := by
    refine (payload_split parses).trans ?_
    simp only [append_assoc]
  obtain ⟨merged, cuts, -, -, result⟩ := redirected.cut split
  have front : tagsAt + (encodeTags before ++ (htons pttRelaySid ++
      htons (8 + own.length))).length = tag + 4 := by
    simp only [length_append, length_htons]
    omega
  have gone : (htons magicCode ++ client.toList).length = 8 := by
    simp only [length_append, length_htons, Vector.length_toList]
  rw [front, gone] at cuts
  rw [gone] at result
  have positive : 0 < own.length := length_pos_iff.mpr nonempty
  have pulled : skbPullAndMerge found (tag + 4)
      (tagHdrLen + magicCodeLen + rtlRelayTagLen - 4) = (merged, true) := cuts
  have calls : cutRelayTag priv skb tag (8 + own.length) =
      ⟨some 0, priv, (addToLength merged (-(8 : ℕ))).store (tag + 2) (htons own.length)⟩ := by
    have offset : (if 8 + own.length > magicCodeLen + rtlRelayTagLen then tagHdrLen else 0) = 4 :=
      if_pos (by unfold magicCodeLen rtlRelayTagLen ethAlen; omega)
    have rest : 8 + own.length - magicCodeLen - rtlRelayTagLen = own.length := by
      unfold magicCodeLen rtlRelayTagLen ethAlen
      omega
    simp only [cutRelayTag, offset, rest, touch_data]
    rw [pulled]
    rfl
  rw [calls]
  -- the tag still has the length that it had with the address
  have patched := result.patch
    (by simp only [append_assoc] :
      _ = (encodeTags before ++ htons pttRelaySid) ++ (htons (8 + own.length) ++
        (own ++ encodeTags after)))
    (htons own.length) rfl
  have field : tagsAt + (encodeTags before ++ htons pttRelaySid).length = tag + 2 := by
    simp only [length_append, length_htons]
    omega
  rw [field] at patched
  refine ⟨rfl, ?_⟩
  have bytes : encodeTags (before ++ ⟨0x0110, own⟩ :: after) =
      (encodeTags before ++ htons pttRelaySid) ++
        (htons own.length ++ (own ++ encodeTags after)) := by
    rw [encodeTags_append, encodeTags_cons, Tag.encode]
    simp only [append_assoc]
    rfl
  rw [bytes]
  exact patched.2

variable (priv) in
theorem Carries.take (carries : Carries skb d)
    (parses : d.payload = encodeTags (before ++ relayed client own :: after)) :
    (takeRelayTag priv skb (encodeTags before).length).Sends skb
      { d with da := client, payload := encodeTags (before ++ (restored own ++ after)) } := by
  set cur := (encodeTags before).length
  have split := payload_split parses
  have fits := carries.fits
  have small := carries.short
  rw [split] at fits small
  simp only [length_append, length_htons, Vector.length_toList] at fits small
  have holds := carries.payload
  rw [split] at holds
  obtain ⟨type, rest⟩ := holds_append.mp (holds_append.mp holds).2
  obtain ⟨length, rest⟩ := holds_append.mp rest
  have type' : be16 skb.data (tagsAt + cur) = pttRelaySid := be16_eq_of_holds (by decide) type
  have length' : be16 skb.data (tagsAt + cur + 2) = 8 + own.length :=
    be16_eq_of_holds (by omega) length
  have magic : be16 skb.data (tagsAt + cur + 4) = magicCode :=
    be16_eq_of_holds (by decide) (holds_append.mp rest).1
  have read : SameFrame skb ((skb.touch (tagsAt + cur) 4).touch (tagsAt + cur + 4) 2) :=
    ⟨rfl, rfl, rfl⟩
  have inside : (takeRelayTag priv skb cur).skb.inside = true ↔ skb.inside = true := by
    rw [takeRelayTag_inside (by omega) type']
    exact and_iff_left fun _ => ⟨by omega, fun _ => by omega⟩
  rw [takeRelayTag_eq type' (by omega) magic, length'] at inside ⊢
  by_cases none : own = []
  · subst none
    obtain ⟨ret, result⟩ := (carries.same read).cutAll priv parses
    exact ⟨ret, inside, result⟩
  · obtain ⟨ret, result⟩ := (carries.same read).cutAddress priv parses none
    rw [restored, if_neg none, singleton_append]
    exact ⟨ret, inside, result⟩

variable (priv) in
/-- A frame that comes back goes to the client, without the address. -/
theorem Carries.lookup (carries : Carries skb d)
    (parses : d.payload = encodeTags (before ++ relayed client own :: after))
    (clean : ∀ s ∈ before, ¬ s.IsRelay) :
    (lookupRelayTag priv skb).Sends skb
      { d with da := client, payload := encodeTags (before ++ (restored own ++ after)) } := by
  obtain ⟨skb', found, finds, same, reads, hits, -⟩ := findPppoeTag_tags carries parses
  have there := hits before (relayed client own) after rfl (isRelay_relayed client own) clean
  rw [lookupRelayTag, finds, there]
  exact ((carries.same same).take priv parses).of_reads reads

end Lookup

/-! ## A little-endian host -/

section Little

variable {env : Env} {priv : Adapter} {skb : SkBuff}

/-- The length of the new tag is read in the wrong order there: either there is too little room, or
more is copied than `tag_buf` has. -/
theorem addRelayTag_little {old : List Byte} (little : env.order = .little)
    (short : old.length ≤ 28) :
    ¬ ((addRelayTag env priv skb old).ret = some 0 ∧
      (addRelayTag env priv skb old).skb.inside = true) := by
  have reads : native16 env.order (paste env.stack 0 (relayTag (macAt skb.data 6) old)) 2 = _ :=
    native16_relayTag _ short
  rw [little] at reads
  simp only [addRelayTag, addPppoeTag, touch_data, little, reads]
  by_cases full : (skb.touch 6 6).tailroom < 256 * (8 + old.length) + tagHdrLen
  · rw [if_pos full]
    rintro ⟨refused, -⟩
    cases refused
  · rw [if_neg full]
    rintro ⟨-, inside⟩
    have fits := (Bool.and_eq_true_iff.mp inside).2
    rw [decide_eq_true_iff, tagHdrLen, tagBufLen] at fits
    omega

theorem insertRelayTag_little (little : env.order = .little) :
    ¬ ((insertRelayTag env priv skb).ret = some 0 ∧
      (insertRelayTag env priv skb).skb.inside = true) := by
  obtain ⟨skb', found, finds, -⟩ := findPppoeTag_spec skb
  unfold insertRelayTag
  rw [finds]
  cases found with
  | none => exact addRelayTag_little little (Nat.zero_le 28)
  | some cur =>
    simp only
    by_cases short : be16 skb'.data (tagsAt + cur + 2) ≤ 28
    · rw [replaceRelayTag_eq rfl short]
      split
      · rintro ⟨refused, -⟩
        cases refused
      · exact addRelayTag_little little (by rw [length_window]; exact short)
    · have long : be16 skb'.data (tagsAt + cur + 2) + tagHdrLen + magicCodeLen + rtlRelayTagLen >
          tagBufLen := by
        unfold tagHdrLen magicCodeLen rtlRelayTagLen ethAlen tagBufLen
        omega
      have refuses : (replaceRelayTag env priv skb' cur).ret = some (-1) :=
        congrArg Handled.ret (if_pos long)
      rintro ⟨accepted, -⟩
      rw [refuses] at accepted
      cases accepted

end Little

/-! ## The round trip -/

/-- A well-formed PADI or PADR with at most one relay tag of its own. -/
structure Request (d : Discovery) (tags : List Tag) : Prop where
  code : d.code = padiCode ∨ d.code = padrCode
  sid : d.sid = #v[0, 0]
  payload : d.payload = encodeTags tags
  single : (relayTags tags).length ≤ 1
  short : (ownBytes tags).length ≤ 28

/-- What comes back with the relay tag goes to the client, with the tags that it would have without
the relay. -/
def RoundTrip (env : Env) (priv : Adapter) (skb : SkBuff) (d : Discovery) (tags : List Tag) :
    Prop :=
  ((nat25DbHandle env priv skb .insert).ret = some 0 ∧
    (nat25DbHandle env priv skb .insert).skb.inside = true ∧
    Carries (nat25DbHandle env priv skb .insert).skb
      { d with payload := encodeTags (relayed d.sa (ownBytes tags) :: otherTags tags) }) ∧
  ∀ (priv' : Adapter) (skb' : SkBuff) (reply : Discovery) (before after : List Tag),
    priv'.ethBrExtInfo.addPPPoETag = true → skb'.inside = true →
    (reply.code = padoCode ∨ reply.code = padsCode) →
    reply.payload = encodeTags (before ++ relayed d.sa (ownBytes tags) :: after) →
    (∀ s ∈ before, ¬ s.IsRelay) → Carries skb' reply →
    (nat25DbHandle env priv' skb' .lookup).ret = some 0 ∧
      (nat25DbHandle env priv' skb' .lookup).skb.inside = true ∧
      Carries (nat25DbHandle env priv' skb' .lookup).skb
        { reply with da := d.sa, payload := encodeTags (before ++ (relayTags tags ++ after)) }

section RoundTrip

variable {env : Env} {priv : Adapter} {skb : SkBuff} {d : Discovery} {tags : List Tag}

section

variable (enabled : priv.ethBrExtInfo.addPPPoETag = true) (carries : Carries skb d)
include enabled carries

theorem nat25DbHandle_insert (request : Request d tags) (env : Env) :
    ∃ read, SameFrame skb read ∧ (read.inside = true ↔ skb.inside = true) ∧
      nat25DbHandle env priv skb .insert = insertRelayTag env priv read := by
  have frame : 20 ≤ skb.len := (Nat.le_add_right tagsAt _).trans carries.fits
  have code : skb.data 15 = padiCode ∨ skb.data 15 = padrCode := by
    rw [carries.code]
    exact request.code
  refine ⟨((skb.touch (2 * ethAlen) 2).touch 16 2).touch 15 1, ⟨rfl, rfl, rfl⟩, ?_, ?_⟩
  · rw [touch_inside_of_le (by simp only [touch_len]; omega),
      touch_inside_of_le (by rw [touch_len]; omega), touch_inside_of_le (by unfold ethAlen; omega)]
  · have discovery : pppoeInsert env priv (skb.touch (2 * ethAlen) 2) =
        pppoeDiscovery env priv ((skb.touch (2 * ethAlen) 2).touch 16 2) :=
      if_pos (carries.sid request.sid)
    rw [carries.handled, handlePppoe, discovery]
    exact (if_pos code).trans (if_pos enabled)

theorem nat25DbHandle_lookup (reply : d.code = padoCode ∨ d.code = padsCode) (env : Env) :
    ∃ read, SameFrame skb read ∧ (read.inside = true ↔ skb.inside = true) ∧
      nat25DbHandle env priv skb .lookup = lookupRelayTag priv read := by
  have frame : 20 ≤ skb.len := (Nat.le_add_right tagsAt _).trans carries.fits
  have code : skb.data 15 = padoCode ∨ skb.data 15 = padsCode := by
    rw [carries.code]
    exact reply
  refine ⟨(skb.touch (2 * ethAlen) 2).touch 15 1, ⟨rfl, rfl, rfl⟩, ?_, ?_⟩
  · rw [touch_inside_of_le (by rw [touch_len]; omega),
      touch_inside_of_le (by unfold ethAlen; omega)]
  · rw [carries.handled]
    exact (if_pos code).trans (if_pos enabled)

end

/-- A buffer that has the frame. -/
def Discovery.toSkb (d : Discovery) (tailroom : ℕ) : SkBuff :=
  .ofBytes (d.header ++ (htons d.payload.length ++ d.payload)) tailroom

theorem carries_toSkb (d : Discovery) (short : d.payload.length < 65536) (tailroom : ℕ) :
    Carries (d.toSkb tailroom) d := by
  have whole : Holds (d.toSkb tailroom).data 0
      (d.header ++ (htons d.payload.length ++ d.payload)) :=
    holds_image _
  obtain ⟨header, rest⟩ := holds_append.mp whole
  rw [Discovery.length_header] at rest
  obtain ⟨length, payload⟩ := holds_append.mp rest
  refine ⟨header, be16_eq_of_holds short length, payload, ?_⟩
  simp only [Discovery.toSkb, SkBuff.ofBytes, length_append, Discovery.length_header,
    length_htons, tagsAt]
  omega

theorem restored_ownBytes (single : (relayTags tags).length ≤ 1)
    (nonempty : ∀ t ∈ relayTags tags, t.value ≠ []) :
    restored (ownBytes tags) = relayTags tags := by
  cases relays : relayTags tags with
  | nil => rw [ownBytes, relays]; rfl
  | cons t more =>
    have alone : more = [] := by
      rw [relays, length_cons] at single
      exact length_eq_zero_iff.mp (by omega)
    subst alone
    have own : ownBytes tags = t.value := by rw [ownBytes, relays]; simp
    have some_ : t.value ≠ [] := nonempty t (by rw [relays]; exact mem_singleton_self t)
    have isRelay : t.type.toNat = pttRelaySid := by
      obtain ⟨-, -, -, relay, -⟩ := relayTags_eq_singleton relays
      exact relay
    have type : t.type = 0x0110 := UInt16.toNat_inj.mp isRelay
    rw [own, restored, if_neg some_, ← type]

/-- An empty relay tag of the client does not come back. -/
theorem not_roundTrip_of_empty {t : Tag} (relays : relayTags tags = [t]) (empty : t.value = []) :
    ¬ RoundTrip env priv skb d tags := by
  rintro ⟨-, back⟩
  have own : ownBytes tags = [] := by rw [ownBytes, relays, flatMap_singleton, empty]
  set reply : Discovery := ⟨nullAddr, nullAddr, padoCode, #v[0, 0],
    encodeTags ([] ++ relayed d.sa [] :: [])⟩ with replyIs
  have size : reply.payload.length < 65536 := by
    simp only [replyIs, nil_append, encodeTags_cons, encode_relayed, length_append,
      length_relayTag, length_nil]
    decide
  have carries := carries_toSkb reply size 0
  have parses : reply.payload = encodeTags ([] ++ relayed d.sa [] :: []) := rfl
  have clean : ∀ s ∈ ([] : List Tag), ¬ s.IsRelay := nofun
  set priv' : Adapter := { macAddr := nullAddr, ethBrExtInfo := { addPPPoETag := true } }
  have enabled : priv'.ethBrExtInfo.addPPPoETag = true := rfl
  obtain ⟨read, same, -, calls⟩ := nat25DbHandle_lookup enabled carries (.inl rfl) env
  obtain ⟨-, -, cut⟩ := (carries.same same).lookup priv' parses clean
  obtain ⟨-, -, kept⟩ := back priv' (reply.toSkb 0) reply [] [] enabled rfl (.inl rfl)
    (by rw [own]) clean carries
  rw [calls] at kept
  have different : (encodeTags ([] ++ (restored [] ++ []))).length =
      (encodeTags ([] ++ (relayTags tags ++ []))).length := cut.length.symm.trans kept.length
  have nothing : (encodeTags ([] ++ (restored [] ++ []))).length = 0 := rfl
  have header : (encodeTags ([] ++ (relayTags tags ++ []))).length = 4 := by
    rw [nil_append, append_nil, relays, encodeTags_cons, length_append, length_encode,
      empty]
    rfl
  omega

end RoundTrip

/-- The round trip works for a well-formed PADI or PADR exactly on a big-endian host, for a client
that does not send an empty Relay-Session-Id tag, as long as the length field can take the new tag.
-/
theorem relay_round_trip_iff (env : Env) (priv : Adapter) (skb : SkBuff) (d : Discovery)
    (tags : List Tag) (enabled : priv.ethBrExtInfo.addPPPoETag = true) (fresh : skb.inside = true)
    (carries : Carries skb d) (request : Request d tags) (room : 40 ≤ skb.tailroom) :
    RoundTrip env priv skb d tags ↔
      env.order = .big ∧ (∀ t ∈ relayTags tags, t.value ≠ []) ∧
        (encodeTags (relayed d.sa (ownBytes tags) :: otherTags tags)).length < 65536 := by
  obtain ⟨read, same, reads, calls⟩ := nat25DbHandle_insert enabled carries request env
  constructor
  · intro trip
    obtain ⟨⟨ret, inside, result⟩, -⟩ := id trip
    refine ⟨?_, fun t member empty => ?_, result.short⟩
    · cases order : env.order with
      | big => rfl
      | little =>
        rw [calls] at ret inside
        exact absurd ⟨ret, inside⟩ (insertRelayTag_little order)
    · have alone : relayTags tags = [t] := by
        obtain ⟨s, single⟩ := length_eq_one_iff.mp
          (le_antisymm request.single (length_pos_of_mem member))
        rw [single] at member ⊢
        rw [mem_singleton.mp member]
      exact not_roundTrip_of_empty alone empty trip
  · rintro ⟨big, nonempty, size⟩
    refine ⟨?_, ?_⟩
    · obtain ⟨ret, inside, result⟩ := (carries.same same).insert priv big request.payload
        request.single request.short (by rw [same.tailroom]; exact room) size
      rw [calls]
      exact ⟨ret, inside.mpr (reads.mpr fresh), result⟩
    · intro priv' skb' reply before after enabled' fresh' code parses clean carries'
      obtain ⟨read', same', reads', calls'⟩ := nat25DbHandle_lookup enabled' carries' code env
      obtain ⟨ret, inside, result⟩ := (carries'.same same').lookup priv' parses clean
      rw [restored_ownBytes request.single nonempty] at result
      rw [calls']
      exact ⟨ret, inside.mpr (reads'.mpr fresh'), result⟩

def padiTags : List Tag :=
  [⟨0x0101, []⟩, ⟨0x0110, [1, 2, 3]⟩]

def padi : Discovery :=
  ⟨bcAddr, Rx.macAt [2, 0, 0, 0, 0, 1] 0, padiCode, #v[0, 0], encodeTags padiTags⟩

def relayStation : Adapter :=
  { bridgeStation with ethBrExtInfo := { addPPPoETag := true } }

theorem relay_round_trip_padi :
    RoundTrip { littleHost with order := .big } relayStation (padi.toSkb 40) padi padiTags := by
  have request : Request padi padiTags := ⟨.inl rfl, rfl, rfl, by decide, by decide⟩
  exact (relay_round_trip_iff _ relayStation (padi.toSkb 40) padi padiTags rfl rfl
    (carries_toSkb padi (by decide) 40) request le_rfl).mpr ⟨rfl, by decide, by decide⟩

theorem padi_not_relayed :
    (nat25DbHandle littleHost relayStation (padi.toSkb 40) .insert).ret = some (-1) ∧
    (nat25DbHandle littleHost relayStation (padi.toSkb 4096) .insert).skb.inside = false := by
  decide +kernel

end Rtl88x2bu.Bridge
