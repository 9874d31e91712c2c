import Rtl88x2bu.Lib.Tlv
import Rtl88x2bu.Ie.Search

/-!
# Removing elements

`rtw_ies_remove_ie` (`rust/rtw_ieee80211.rs`). The search of `rtw_get_ie_ex` compares the vendor's
bytes without looking at the length of the element, so that a short element is compared with what
follows it.
-/

namespace Rtl88x2bu.Ie

open List
open Tape Walk Tlv

/-- What `rtw_ies_remove_ie` leaves: the memory from `ies` on, `*ies_len` and the return value. -/
structure Removed where
  ies : ℕ → Byte
  iesLen : ℕ
  ret : Status

/-- The loop over the matches; `none` if a search or the loop does not end. The lengths are `u32`.
-/
def removeLoop (q : ExQuery) (rounds : ℕ) : ℕ → Removed → ℕ → ℕ → Option Removed
  | 0, _, _, _ => none
  | fuel + 1, out, start, searchLen =>
    match (rtwGetIeEx (fun i => out.ies (start + i)) searchLen q rounds).1 with
    | .found p =>
      let targetIe := start + p
      let targetIelen := ieLenAt out.ies targetIe + 2
      let remainIes := targetIe + targetIelen
      let remainLen := (searchLen + 2 ^ 32 - (p + targetIelen)) % 2 ^ 32
      removeLoop q rounds fuel
        { ies := paste out.ies targetIe (window out.ies remainIes remainLen)
          iesLen := (out.iesLen + 2 ^ 32 - targetIelen) % 2 ^ 32
          ret := .success }
        targetIe remainLen
    | .missing => some out
    | .endless => none

section

variable (ies : ℕ → Byte) (iesLen offset : ℕ) (eid : Byte) (oui : Option (List Byte))

def rtwIesRemoveIe (rounds : ℕ) : Option Removed :=
  let out : Removed := ⟨ies, iesLen, .fail⟩
  if iesLen ≤ offset then some out
  else removeLoop ⟨eid, oui, false, true⟩ rounds rounds out offset (iesLen - offset)

/-- The elements that the filter is meant for. -/
def elemMatches (e : Elem) : Bool :=
  e.id == eid && oui.all (List.isPrefixOf · e.body)

/-- The elements that the search takes: the vendor's bytes may be those of the elements behind. -/
def elemTaken (e : Elem) (behind : List Elem) : Bool :=
  e.id == eid && oui.all (List.isPrefixOf · (e.body ++ encodeAll behind))

def leftOver (eid : Byte) (oui : Option (List Byte)) : List Elem → List Elem
  | [] => []
  | e :: es => if elemTaken eid oui e es then leftOver eid oui es else e :: leftOver eid oui es

theorem leftOver_sublist (es : List Elem) : (leftOver eid oui es).Sublist es := by
  induction es with
  | nil => exact .slnil
  | cons e es ih =>
    rw [leftOver]
    split_ifs
    · exact ih.cons e
    · exact ih.cons_cons e

end

/-- The comparison with the vendor's bytes ends before the list does. -/
def OuiInside (eid : Byte) (oui : Option (List Byte)) : List Elem → Prop
  | [] => True
  | e :: es => (e.id = eid → ∀ bytes ∈ oui, bytes.length ≤ (e.body ++ encodeAll es).length) ∧
      OuiInside eid oui es

/-- The search takes no element for the bytes of those behind it. -/
def NoneMisread (eid : Byte) (oui : Option (List Byte)) : List Elem → Prop
  | [] => True
  | e :: es => (elemTaken eid oui e es = true → elemMatches eid oui e = true) ∧
      NoneMisread eid oui es

section Search

variable {mem : ℕ → Byte} {eid : Byte} {oui : Option (List Byte)} {e : Elem} {es : List Elem}
  {inLen p : ℕ}

theorem elemTaken_of_elemMatches (hits : elemMatches eid oui e = true) :
    elemTaken eid oui e es = true := by
  rw [elemMatches, Bool.and_eq_true] at hits
  rw [elemTaken, hits.1, Bool.true_and]
  cases oui with
  | none => rfl
  | some bytes =>
    have vendor : bytes <+: e.body := isPrefixOf_iff_prefix.mp hits.2
    exact isPrefixOf_iff_prefix.mpr (vendor.trans (prefix_append ..))

theorem exHit_eq_elemTaken (ie ielen : Bool) (holds : Holds mem p (encodeAll (e :: es)))
    (inside : e.id = eid → ∀ bytes ∈ oui, bytes.length ≤ (e.body ++ encodeAll es).length) :
    exHit mem ⟨eid, oui, ie, ielen⟩ p = elemTaken eid oui e es := by
  rw [encodeAll_cons] at holds
  obtain ⟨id_eq, -, text⟩ :
    mem p = e.id ∧ mem (p + 1) = _ ∧ Holds mem (p + 2) (e.body ++ encodeAll es) := holds
  rw [exHit, elemTaken, id_eq, Bool.eq_iff_iff, decide_eq_true_iff, Bool.and_eq_true, beq_iff_eq,
    eq_comm (a := eid)]
  refine and_congr_right fun same => ?_
  cases oui with
  | none => exact Iff.rfl
  | some bytes =>
    have start : window mem (p + 2) bytes.length = (e.body ++ encodeAll es).take bytes.length := by
      rw [← take_append_drop bytes.length (e.body ++ encodeAll es)] at text
      exact (holds_append.mp text).1.window_eq
        (by rw [length_take, Nat.min_eq_left (inside same bytes rfl)])
    change decide (window mem (p + 2) bytes.length = bytes) = true ↔
      List.isPrefixOf bytes (e.body ++ encodeAll es) = true
    rw [ isPrefixOf_iff_prefix, prefix_iff_eq_take, start, decide_eq_true_iff]
    exact eq_comm

theorem paved_getIeEx (ie ielen : Bool) (holds : Holds mem p (encodeAll es))
    (whole : p + (encodeAll es).length = inLen) (small : inLen < 2 ^ 32)
    (inside : OuiInside eid oui es) :
    Paved (exMore inLen) (exHit mem ⟨eid, oui, ie, ielen⟩) (exNext mem) (elemTaken eid oui) p
      es := by
  induction es generalizing p with
  | nil =>
    change exMore inLen p = false
    rw [exMore, decide_eq_false_iff_not, ← whole]
    exact Nat.lt_irrefl _
  | cons e es ih =>
    obtain ⟨here, later⟩ := holds_encodeAll_cons.mp holds
    rw [encodeAll_cons, length_append, length_encode] at whole
    have length : ieLenAt mem p = e.body.length := by
      rw [ieLenAt, (holds_encode.mp here).2.1, e.toNat_length]
    refine ⟨decide_eq_true (by omega), exHit_eq_elemTaken ie ielen holds inside.1, ?_,
      ih later (by omega) inside.2⟩
    rw [exNext, length, Nat.mod_eq_of_lt (by omega)]

theorem rtwGetIeEx_elems {rounds : ℕ} (ie ielen : Bool) (holds : Holds mem p (encodeAll es))
    (small : (encodeAll es).length < 2 ^ 32) (inside : OuiInside eid oui es)
    (enough : (encodeAll es).length < rounds) :
    (rtwGetIeEx (fun i => mem (p + i)) (encodeAll es).length ⟨eid, oui, ie, ielen⟩ rounds).1 =
      (hitOffset (elemTaken eid oui) es).elim .missing .found := by
  rw [rtwGetIeEx]
  split
  next empty =>
    obtain rfl : es = [] := encodeAll_eq_nil_iff.mp (length_eq_zero_iff.mp (by omega))
    rfl
  · have few := length_le_encodeAll es
    rw [getIeExLoop_eq, search_eq (paved_getIeEx ie ielen (holds_shift.mpr holds) (Nat.zero_add _)
      small inside) (by omega)]
    simp only [Nat.zero_add]

end Search

section Loop

variable {eid : Byte} {oui : Option (List Byte)} {rounds : ℕ}

/-- The loop passes over an element that the search does not take. -/
theorem removeLoop_skip {out : Removed} {start fuel : ℕ} {e : Elem} {es : List Elem}
    (holds : Holds out.ies start (encodeAll (e :: es)))
    (small : (encodeAll (e :: es)).length < 2 ^ 32) (inside : OuiInside eid oui (e :: es))
    (enough : (encodeAll (e :: es)).length < rounds) (missed : ¬ elemTaken eid oui e es = true) :
    removeLoop ⟨eid, oui, false, true⟩ rounds fuel out start (encodeAll (e :: es)).length =
      removeLoop ⟨eid, oui, false, true⟩ rounds fuel out (start + (e.body.length + 2))
        (encodeAll es).length := by
  cases fuel with
  | zero => rfl
  | succ fuel =>
    have searched := rtwGetIeEx_elems false true holds small inside enough
    have size : (encodeAll (e :: es)).length = e.body.length + 2 + (encodeAll es).length := by
      rw [encodeAll_cons, length_append, length_encode]
    rw [hitOffset, if_neg missed] at searched
    rw [removeLoop, removeLoop, searched, rtwGetIeEx_elems false true
      (holds_encodeAll_cons.mp holds).2 (by omega) inside.2 (by omega), size]
    cases hitOffset (elemTaken eid oui) es with
    | none => rfl
    | some n =>
      have remain (t : ℕ) : e.body.length + 2 + (encodeAll es).length + 2 ^ 32 -
          (e.body.length + 2 + n + t) = (encodeAll es).length + 2 ^ 32 - (n + t) := by omega
      simp only [Option.map_some, Option.elim, remain, Nat.add_assoc start]

theorem removeLoop_elems {kept left : List Elem} {fuel : ℕ} {mem : ℕ → Byte} {ret : Status}
    (holds : Holds mem 0 (encodeAll (kept ++ left)))
    (small : (encodeAll (kept ++ left)).length < 2 ^ 32) (inside : OuiInside eid oui left)
    (enough : (encodeAll left).length < rounds) (fuel_enough : left.length < fuel) :
    ∃ mem', removeLoop ⟨eid, oui, false, true⟩ rounds fuel
        ⟨mem, (encodeAll (kept ++ left)).length, ret⟩ (encodeAll kept).length
        (encodeAll left).length =
      some ⟨mem', (encodeAll (kept ++ leftOver eid oui left)).length,
        if leftOver eid oui left = left then ret else .success⟩ ∧
      Holds mem' 0 (encodeAll (kept ++ leftOver eid oui left)) := by
  induction left generalizing kept mem ret fuel with
  | nil =>
    obtain ⟨fuel, rfl⟩ := Nat.exists_eq_add_one.mpr fuel_enough
    exact ⟨mem, rfl, holds⟩
  | cons e es ih =>
    obtain ⟨before, here⟩ := holds_append.mp ((encodeAll_append kept (e :: es)).symm ▸ holds)
    rw [Nat.zero_add] at here
    have size : (encodeAll (e :: es)).length = e.body.length + 2 + (encodeAll es).length := by
      rw [encodeAll_cons, length_append, length_encode]
    have sizes : (encodeAll (kept ++ e :: es)).length =
        (encodeAll kept).length + (encodeAll (e :: es)).length := by
      rw [encodeAll_append, length_append]
    by_cases taken : elemTaken eid oui e es = true
    · obtain ⟨fuel, rfl⟩ := Nat.exists_eq_add_one.mpr (Nat.zero_lt_of_lt fuel_enough)
      have searched := rtwGetIeEx_elems false true here (by omega) inside enough
      have length : ieLenAt mem (encodeAll kept).length = e.body.length := by
        rw [ieLenAt, (holds_encode.mp (holds_encodeAll_cons.mp here).1).2.1, e.toNat_length]
      have remain : ((encodeAll (e :: es)).length + 2 ^ 32 - (0 + (e.body.length + 2))) % 2 ^ 32 =
          (encodeAll es).length := by omega
      have total : ((encodeAll (kept ++ e :: es)).length + 2 ^ 32 - (e.body.length + 2)) % 2 ^ 32 =
          (encodeAll (kept ++ es)).length := by
        rw [encodeAll_append kept es, length_append]
        omega
      have moved : Holds (paste mem (encodeAll kept).length (window mem
          ((encodeAll kept).length + (e.body.length + 2)) (encodeAll es).length)) 0
          (encodeAll (kept ++ es)) := by
        rw [encodeAll_append, holds_append, Nat.zero_add]
        exact ⟨before.paste (.inl (by rw [Nat.zero_add])),
          (holds_encodeAll_cons.mp here).2.move (Nat.le_refl _) _⟩
      obtain ⟨mem', removed, holds'⟩ := @ih kept fuel _ .success moved
        (by rw [encodeAll_append, length_append]; omega) inside.2 (by omega)
        (Nat.lt_of_succ_lt_succ fuel_enough)
      have shorter : leftOver eid oui es ≠ e :: es := fun same => by
        have few := (leftOver_sublist eid oui es).length_le
        rw [same, length_cons] at few
        omega
      rw [hitOffset, if_pos taken] at searched
      rw [leftOver, if_pos taken, if_neg shorter, removeLoop, searched]
      refine ⟨mem', ?_, holds'⟩
      simpa only [Option.elim, Nat.add_zero, length, remain, total, ite_self] using removed
    · obtain ⟨mem', removed, holds'⟩ := @ih (kept ++ [e]) fuel mem ret
        (by rwa [append_assoc]) (by rwa [append_assoc]) inside.2 (by omega)
        (Nat.lt_of_succ_lt fuel_enough)
      rw [append_assoc, append_assoc, encodeAll_append kept [e], length_append] at removed
      rw [append_assoc] at holds'
      rw [leftOver, if_neg taken, removeLoop_skip here (by omega) inside enough taken]
      refine ⟨mem', ?_, holds'⟩
      simpa using removed

end Loop

/-! ## What is left -/

section Left

variable {eid : Byte} {oui : Option (List Byte)}

theorem leftOver_eq_filter {es : List Elem} (right : NoneMisread eid oui es) :
    leftOver eid oui es = es.filter (!elemMatches eid oui ·) := by
  induction es with
  | nil => rfl
  | cons e es ih =>
    have same : elemTaken eid oui e es = elemMatches eid oui e :=
      Bool.eq_iff_iff.mpr ⟨right.1, elemTaken_of_elemMatches⟩
    rw [leftOver, filter_cons, same, ih right.2]
    cases elemMatches eid oui e <;> rfl

theorem length_leftOver (es : List Elem) :
    (encodeAll (leftOver eid oui es)).length ≤
        (encodeAll (es.filter (!elemMatches eid oui ·))).length ∧
      ((encodeAll (leftOver eid oui es)).length =
        (encodeAll (es.filter (!elemMatches eid oui ·))).length → NoneMisread eid oui es) := by
  induction es with
  | nil => exact ⟨Nat.le_refl _, fun _ => trivial⟩
  | cons e es ih =>
    rw [leftOver, filter_cons, NoneMisread]
    cases hit : elemMatches eid oui e with
    | true =>
      rw [if_pos (elemTaken_of_elemMatches hit)]
      exact ⟨ih.1, fun same => ⟨fun _ => rfl, ih.2 same⟩⟩
    | false =>
      simp only [Bool.not_false, if_true, encodeAll_cons, length_append, length_encode]
      split_ifs with taken
      · exact ⟨by omega, fun same => by omega⟩
      · simp only [encodeAll_cons, length_append, length_encode]
        exact ⟨by omega, fun same => ⟨fun hits => absurd hits taken, ih.2 (by omega)⟩⟩

end Left

/-- For every list of elements, boundary, id and vendor filter, as long as the comparisons with the
vendor's bytes stay in the list: the elements before the boundary and the others behind it are left
in order, the length is theirs and the function succeeds if one was removed, exactly if no element
is taken for the bytes of those behind it. -/
theorem ies_remove_ie_elems (before after : List Elem) (ies : ℕ → Byte) (eid : Byte)
    (oui : Option (List Byte)) (rounds : ℕ)
    (holds : Holds ies 0 (encodeAll (before ++ after)))
    (small : (encodeAll (before ++ after)).length < 2 ^ 32) (inside : OuiInside eid oui after)
    (enough : (encodeAll (before ++ after)).length < rounds) :
    ∃ out, rtwIesRemoveIe ies (encodeAll (before ++ after)).length (encodeAll before).length eid oui
        rounds = some out ∧
      (Holds out.ies 0 (encodeAll (before ++ after.filter (!elemMatches eid oui ·))) ∧
        out.iesLen = (encodeAll (before ++ after.filter (!elemMatches eid oui ·))).length ∧
        (out.ret = .success ↔ ∃ e ∈ after, elemMatches eid oui e = true) ↔
      NoneMisread eid oui after) := by
  have sizes : (encodeAll (before ++ after)).length =
      (encodeAll before).length + (encodeAll after).length := by
    rw [encodeAll_append, length_append]
  have few := length_le_encodeAll after
  obtain ⟨mem', removed, holds'⟩ := @removeLoop_elems eid oui rounds before after rounds ies .fail
    holds small inside (by omega) (by omega)
  have out_eq : rtwIesRemoveIe ies (encodeAll (before ++ after)).length (encodeAll before).length
      eid oui rounds = some ⟨mem', (encodeAll (before ++ leftOver eid oui after)).length,
        if leftOver eid oui after = after then .fail else .success⟩ := by
    rw [rtwIesRemoveIe]
    split
    · -- nothing is behind the offset
      next at_end =>
      obtain rfl : after = [] := encodeAll_eq_nil_iff.mp (length_eq_zero_iff.mp (by omega))
      obtain ⟨rounds, rfl⟩ := Nat.exists_eq_add_one.mpr (Nat.zero_lt_of_lt enough)
      exact removed
    · rw [← removed, sizes, Nat.add_sub_cancel_left]
  refine ⟨_, out_eq, ?_, fun right => ?_⟩
  · rintro ⟨-, length, -⟩
    simp only [encodeAll_append, length_append] at length
    exact (length_leftOver after).2 (by omega)
  · have same := leftOver_eq_filter right
    rw [← same]
    refine ⟨holds', rfl, ?_⟩
    have none_taken : leftOver eid oui after = after ↔
        ¬ ∃ e ∈ after, elemMatches eid oui e = true := by
      rw [same, filter_eq_self]
      simp
    split
    next all => exact iff_of_false nofun (none_taken.mp all)
    next taken => exact iff_of_true rfl (not_not.mp fun missed => taken (none_taken.mpr missed))

def vendorElems : List Elem :=
  [⟨221, [0x00, 0x10, 0x18, 2], by decide⟩, ⟨1, [0x82], by decide⟩,
    ⟨221, [0x00, 0x50, 0xf2, 1], by decide⟩]

theorem ies_remove_ie_vendor :
    ∃ out, rtwIesRemoveIe (image 0 (encodeAll vendorElems)) 15 0 221
        (some [0x00, 0x10, 0x18]) 16 = some out ∧ out.iesLen = 9 ∧ out.ret = .success := by
  obtain ⟨out, removed, right⟩ := ies_remove_ie_elems [] vendorElems
    (image 0 (encodeAll vendorElems)) 221 (some [0x00, 0x10, 0x18]) 16 (holds_image _) (by decide)
    (by simp [OuiInside, vendorElems]) (by decide)
  obtain ⟨-, length, status⟩ := right.mpr ⟨by decide, by decide, by decide, trivial⟩
  refine ⟨out, removed, length, status.mpr ?_⟩
  exact ⟨⟨221, [0x00, 0x10, 0x18, 2], by decide⟩, by decide, by decide⟩

def shortVendor : List Elem :=
  [⟨221, [], by decide⟩, ⟨0, 0x18 :: List.replicate 15 0x61, by decide⟩]

theorem short_vendor_removed :
    shortVendor.filter (!elemMatches 221 (some [0x00, 0x10, 0x18]) ·) = shortVendor ∧
    (rtwIesRemoveIe (image 0 (encodeAll shortVendor)) (encodeAll shortVendor).length 0 221
        (some [0x00, 0x10, 0x18]) 30).map (fun out => (out.iesLen, out.ret)) =
      some ((encodeAll shortVendor).length - 2, .success) := by
  decide +kernel

end Rtl88x2bu.Ie
