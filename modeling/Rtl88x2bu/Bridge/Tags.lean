import Rtl88x2bu.Lib.Walk
import Rtl88x2bu.Bridge.Nat25

/-!
# The searches through a frame

`__nat25_find_pppoe_tag` and `scan_tlv`, by the positions that they come to.
-/

namespace Rtl88x2bu.Bridge

open Walk

/-- Only the record of accesses may differ. -/
structure SameFrame (skb skb' : SkBuff) : Prop where
  data : skb'.data = skb.data
  len : skb'.len = skb.len
  tailroom : skb'.tailroom = skb.tailroom

theorem SameFrame.refl (skb : SkBuff) : SameFrame skb skb := ⟨rfl, rfl, rfl⟩

theorem SameFrame.touch (skb : SkBuff) (base n : ℕ) : SameFrame skb (skb.touch base n) :=
  ⟨rfl, rfl, rfl⟩

theorem SameFrame.trans {skb skb' skb'' : SkBuff} (first : SameFrame skb skb')
    (second : SameFrame skb' skb'') : SameFrame skb skb'' :=
  ⟨second.data.trans first.data, second.len.trans first.len,
    second.tailroom.trans first.tailroom⟩

/-- No access makes up for an earlier one. -/
theorem inside_of_skbPullAndMerge {skb : SkBuff} {src n : ℕ}
    (inside : (skbPullAndMerge skb src n).1.inside = true) : skb.inside = true := by
  rw [skbPullAndMerge] at inside
  split at inside
  · exact inside
  · exact ((memmove_inside skb _ src _).mp inside).1

section Tags

variable (data : ℕ → Byte) (type len : ℕ)

/-- There is a tag at offset `cur`, by the length field. -/
def tagMore (cur : ℕ) : Bool :=
  decide (cur < be16 data 18)

/-- It is the tag that is looked for. -/
def tagHit (cur : ℕ) : Bool :=
  decide (be16 data (tagsAt + cur) = type)

/-- The offset of the next tag. -/
def tagNext (cur : ℕ) : ℕ :=
  cur + tagHdrLen + be16 data (tagsAt + cur + 2)

/-- The reads of a round: the length field, and the header of the tag if there is one. -/
def tagOk (cur : ℕ) : Bool :=
  decide (18 + 2 ≤ len) && (!tagMore data cur || decide (tagsAt + cur + 4 ≤ len))

/-- The search for the relay tag comes to offset `cur`. -/
def TagVisited (cur : ℕ) : Prop :=
  Visits (tagMore data) (tagHit data pttRelaySid) (tagNext data) 0 cur

/-- It ends there. -/
def RelayTagAt (cur : ℕ) : Prop :=
  TagVisited data cur ∧ cur < be16 data 18 ∧ be16 data (tagsAt + cur) = pttRelaySid

/-- Whatever the search reads is in the frame. -/
def TagWalkInside : Prop :=
  tagsAt ≤ len ∧ ∀ cur, TagVisited data cur → cur < be16 data 18 → tagsAt + cur + 4 ≤ len

end Tags

def found? : Outcome → Option ℕ
  | .found p => some p
  | .missing => none
  | .endless => none

section Rounds

variable {type fuel cur : ℕ} {skb : SkBuff}

theorem findPppoeTagLoop_stop (done : ¬ cur < be16 skb.data 18) :
    findPppoeTagLoop type (fuel + 1) skb cur = (skb.touch 18 2, none) :=
  if_neg done

theorem findPppoeTagLoop_hit (more : cur < be16 skb.data 18)
    (hit : be16 skb.data (tagsAt + cur) = type) :
    findPppoeTagLoop type (fuel + 1) skb cur =
      ((skb.touch 18 2).touch (tagsAt + cur) 4, some cur) :=
  (if_pos more).trans (if_pos hit)

theorem findPppoeTagLoop_next (more : cur < be16 skb.data 18)
    (misses : be16 skb.data (tagsAt + cur) ≠ type) :
    findPppoeTagLoop type (fuel + 1) skb cur =
      findPppoeTagLoop type fuel ((skb.touch 18 2).touch (tagsAt + cur) 4) (tagNext skb.data cur) :=
  (if_pos more).trans (if_neg misses)

end Rounds

/-- The loop is a search along the tags. -/
theorem findPppoeTagLoop_spec (type fuel : ℕ) (skb : SkBuff) (cur : ℕ) :
    SameFrame skb (findPppoeTagLoop type fuel skb cur).1 ∧
    ((findPppoeTagLoop type fuel skb cur).1.inside = true ↔
      skb.inside = true ∧
        checked (tagMore skb.data) (tagHit skb.data type) (tagOk skb.data skb.len)
          (tagNext skb.data) fuel cur = true) ∧
    (findPppoeTagLoop type fuel skb cur).2 =
      found? (search (tagMore skb.data) (tagHit skb.data type) (tagNext skb.data) fuel cur) := by
  induction fuel generalizing skb cur with
  | zero => exact ⟨SameFrame.refl skb, by simp [findPppoeTagLoop, checked], rfl⟩
  | succ fuel ih =>
    have header := (SameFrame.touch skb 18 2).trans (SameFrame.touch _ (tagsAt + cur) 4)
    by_cases more : cur < be16 skb.data 18
    swap
    · rw [findPppoeTagLoop_stop more]
      refine ⟨SameFrame.touch skb 18 2, ?_, ?_⟩
      · simp [checked, tagOk, tagMore, more]
      · simp [search, tagMore, more, found?]
    by_cases hit : be16 skb.data (tagsAt + cur) = type
    · rw [findPppoeTagLoop_hit more hit]
      refine ⟨header, ?_, ?_⟩
      · simp [checked, tagOk, tagMore, tagHit, more, hit, and_assoc]
      · simp [search, tagMore, tagHit, more, hit, found?]
    · rw [findPppoeTagLoop_next more hit]
      obtain ⟨same, inside, result⟩ := ih ((skb.touch 18 2).touch (tagsAt + cur) 4)
        (tagNext skb.data cur)
      refine ⟨header.trans same, ?_, ?_⟩
      · rw [inside]
        simp [checked, tagMore, tagHit, tagOk, more, hit, and_assoc]
      · rw [result]
        simp [search, tagMore, tagHit, more, hit]

theorem tagMore_bounded (data : ℕ → Byte) (cur : ℕ) (more : tagMore data cur = true) :
    cur < 65535 := by
  have small := be16_lt data 18
  have inside : cur < be16 data 18 := by simpa [tagMore] using more
  omega

theorem tagNext_forward (data : ℕ → Byte) (cur : ℕ) : cur ≤ tagNext data cur := by
  unfold tagNext
  omega

/-- What `__nat25_find_pppoe_tag` finds, and when it stays inside. -/
theorem findPppoeTag_spec (skb : SkBuff) :
    ∃ skb' found, findPppoeTag skb pttRelaySid = (skb', found) ∧ SameFrame skb skb' ∧
      (skb'.inside = true ↔ skb.inside = true ∧ TagWalkInside skb.data skb.len) ∧
      ∀ cur, found = some cur ↔ RelayTagAt skb.data cur := by
  obtain ⟨same, inside, result⟩ := findPppoeTagLoop_spec pttRelaySid 65536 skb 0
  have rounds : 65535 - 0 < 65536 := by decide
  have forward : ∀ p, tagMore skb.data p = true → tagHit skb.data pttRelaySid p = false →
      p ≤ tagNext skb.data p := fun p _ _ => tagNext_forward skb.data p
  have finds := fun q => search_eq_found_iff (q := q) (tagMore_bounded skb.data) forward rounds
  have reads := checked_iff (tagMore_bounded skb.data) forward rounds (tagOk skb.data skb.len)
  refine ⟨(findPppoeTag skb pttRelaySid).1, (findPppoeTag skb pttRelaySid).2, rfl, same, ?_,
    fun cur => ?_⟩
  · rw [findPppoeTag, inside, reads]
    apply and_congr_right
    intro _
    constructor
    · intro all
      have first := all 0 (.here 0)
      refine ⟨?_, fun cur visited more => ?_⟩
      · simp only [tagOk, Bool.and_eq_true, decide_eq_true_iff] at first
        exact first.1
      · have there := all cur visited
        simp only [tagOk, tagMore, more, decide_true, Bool.not_true, Bool.false_or,
          Bool.and_eq_true, decide_eq_true_iff] at there
        exact there.2
    · rintro ⟨header, tags⟩ cur visited
      by_cases more : cur < be16 skb.data 18
      · have there := tags cur visited more
        unfold tagsAt at header
        simp [tagOk, tagMore, more, header, there]
      · unfold tagsAt at header
        simp [tagOk, tagMore, more, header]
  · rw [findPppoeTag, result]
    have hits : found? (search (tagMore skb.data) (tagHit skb.data pttRelaySid) (tagNext skb.data)
        65536 0) = some cur ↔ search (tagMore skb.data) (tagHit skb.data pttRelaySid)
        (tagNext skb.data) 65536 0 = .found cur := by
      cases search (tagMore skb.data) (tagHit skb.data pttRelaySid) (tagNext skb.data) 65536 0 with
      | found p => simp [found?]
      | missing => simp [found?]
      | endless => simp [found?]
    rw [hits, finds cur, tagMore, tagHit, decide_eq_true_iff, decide_eq_true_iff]
    rfl

section Options

variable (data : ℕ → Byte) (tag : Byte) (len : ℕ)

/-- There are bytes left at `p`. -/
def optMore (p : ℕ) : Bool :=
  decide (p < len)

/-- An address option, whole and of eight bytes. -/
def optHit (p : ℕ) : Bool :=
  decide (data p = tag ∧ data (p + 1) = 1 ∧ p + 8 ≤ len)

/-- The length of an option counts groups of eight bytes. -/
def optNext (p : ℕ) : ℕ :=
  p + (data (p + 1)).toNat * 8

/-- Type and length are in the frame. -/
def optOk (p : ℕ) : Bool :=
  !optMore len p || decide (p + 2 ≤ len)

/-- The scan from `start` comes to `p`. -/
def OptVisited (start p : ℕ) : Prop :=
  Visits (optMore len) (optHit data tag len) (optNext data) start p

end Options

def scanned : Outcome → Scan
  | .found p => .found (p + 2)
  | .missing => .missing
  | .endless => .endless

section Rounds

variable {tag : Byte} {fuel p left : ℕ} {skb : SkBuff}

theorem scanTlvLoop_stop (done : ¬ left > 0) :
    scanTlvLoop tag 1 (fuel + 1) skb p left = (skb, .missing) :=
  if_neg done

theorem scanTlvLoop_hit (more : left > 0)
    (hit : skb.data p = tag ∧ skb.data (p + 1) = 1 ∧ left ≥ 8) :
    scanTlvLoop tag 1 (fuel + 1) skb p left = ((skb.touch p 1).touch (p + 1) 1, .found (p + 2)) :=
  (if_pos more).trans (if_pos hit)

theorem scanTlvLoop_next (more : left > 0)
    (misses : ¬ (skb.data p = tag ∧ skb.data (p + 1) = 1 ∧ left ≥ 8)) :
    scanTlvLoop tag 1 (fuel + 1) skb p left =
      scanTlvLoop tag 1 fuel ((skb.touch p 1).touch (p + 1) 1) (optNext skb.data p)
        (left - (skb.data (p + 1)).toNat * 8) :=
  (if_pos more).trans (if_neg misses)

end Rounds

/-- The loop is a search along the options. -/
theorem scanTlvLoop_spec (tag : Byte) (fuel : ℕ) (skb : SkBuff) (p left : ℕ)
    (ends : left = skb.len - p) :
    SameFrame skb (scanTlvLoop tag 1 fuel skb p left).1 ∧
    ((scanTlvLoop tag 1 fuel skb p left).1.inside = true ↔
      skb.inside = true ∧
        checked (optMore skb.len) (optHit skb.data tag skb.len) (optOk skb.len) (optNext skb.data)
          fuel p = true) ∧
    (scanTlvLoop tag 1 fuel skb p left).2 =
      scanned (search (optMore skb.len) (optHit skb.data tag skb.len)
        (optNext skb.data) fuel p) := by
  induction fuel generalizing skb p left with
  | zero => exact ⟨SameFrame.refl skb, by simp [scanTlvLoop, checked], rfl⟩
  | succ fuel ih =>
    have header := (SameFrame.touch skb p 1).trans (SameFrame.touch _ (p + 1) 1)
    have twoBytes : ((skb.touch p 1).touch (p + 1) 1).inside = true ↔
        skb.inside = true ∧ p + 2 ≤ skb.len := by
      simp only [touch_inside, touch_len]
      grind
    by_cases more : p < skb.len
    swap
    · rw [scanTlvLoop_stop (by omega)]
      refine ⟨SameFrame.refl skb, ?_, ?_⟩
      · simp [checked, optOk, optMore, more]
      · simp [search, optMore, more, scanned]
    have long : left ≥ 8 ↔ p + 8 ≤ skb.len := by omega
    by_cases hit : skb.data p = tag ∧ skb.data (p + 1) = 1 ∧ left ≥ 8
    · rw [scanTlvLoop_hit (by omega) hit]
      rw [long] at hit
      refine ⟨header, ?_, ?_⟩
      · rw [twoBytes]
        simp [checked, optOk, optMore, optHit, more, hit]
      · simp [search, optMore, optHit, more, hit, scanned]
    · rw [scanTlvLoop_next (by omega) hit]
      rw [long] at hit
      obtain ⟨same, reads, result⟩ := ih ((skb.touch p 1).touch (p + 1) 1) (optNext skb.data p)
        (left - (skb.data (p + 1)).toNat * 8) (by simp only [touch_len, optNext]; omega)
      refine ⟨header.trans same, ?_, ?_⟩
      · rw [reads, twoBytes]
        simp [checked, optOk, optMore, optHit, more, hit, and_assoc]
      · rw [result]
        simp [search, optMore, optHit, more, hit]

/-- What `scan_tlv` finds, and when it stays inside. -/
theorem scanTlv_spec (tag : Byte) (skb : SkBuff) (start : ℕ) (left : ℕ)
    (ends : left = skb.len - start) :
    ∃ skb' found, scanTlv skb start left tag 1 = (skb', found) ∧ SameFrame skb skb' ∧
      (skb'.inside = true ↔ skb.inside = true ∧
        ∀ p, OptVisited skb.data tag skb.len start p → p < skb.len → p + 2 ≤ skb.len) ∧
      ∀ mac, found = .found mac ↔
        ∃ p, mac = p + 2 ∧ OptVisited skb.data tag skb.len start p ∧
          optHit skb.data tag skb.len p = true := by
  obtain ⟨same, inside, result⟩ := scanTlvLoop_spec tag (left + 1) skb start left ends
  have bounded : ∀ p, optMore skb.len p = true → p < skb.len := fun p more => by
    simpa [optMore] using more
  have forward : ∀ p, optMore skb.len p = true → optHit skb.data tag skb.len p = false →
      p ≤ optNext skb.data p := fun p _ _ => Nat.le_add_right p _
  have rounds : skb.len - start < left + 1 := by omega
  have finds := fun q => search_eq_found_iff (q := q) bounded forward rounds
  have reads := checked_iff bounded forward rounds (optOk skb.len)
  refine ⟨(scanTlv skb start left tag 1).1, (scanTlv skb start left tag 1).2, rfl, same, ?_,
    fun mac => ?_⟩
  · rw [scanTlv, inside, reads]
    apply and_congr_right
    intro _
    refine forall₂_congr fun p _ => ?_
    by_cases more : p < skb.len
    · simp [optOk, optMore, more]
    · simp [optOk, optMore, more]
  · rw [scanTlv, result]
    constructor
    · intro hits
      cases outcome : search (optMore skb.len) (optHit skb.data tag skb.len) (optNext skb.data)
          (left + 1) start with
      | found p =>
        rw [outcome] at hits
        cases hits
        have there := (finds p).mp outcome
        exact ⟨p, rfl, there.1, there.2.2⟩
      | missing => rw [outcome] at hits; cases hits
      | endless => rw [outcome] at hits; cases hits
    · rintro ⟨p, rfl, visited, hit⟩
      have within : p < skb.len := by
        have long : skb.data p = tag ∧ skb.data (p + 1) = 1 ∧ p + 8 ≤ skb.len := by
          simpa [optHit] using hit
        omega
      rw [(finds p).mpr ⟨visited, by simp [optMore, within], hit⟩]
      rfl

end Rtl88x2bu.Bridge
