import Rtl88x2bu.Ie.Search
import Rtl88x2bu.P2p.MergeIes

/-!
# P2P elements and their attributes

`rtw_get_p2p_ie` and `rtw_get_p2p_attr` (`core/rtw_ieee80211.c`). The first compares the OUI `50 6f
9a 09` without looking at the length of the element, so that it also stops at short elements of
other vendors.
-/

namespace Rtl88x2bu.P2p

open List
open Tape Tlv Walk
open Ie (wlanEidVendorSpecific maxIeSz ieLenAt ieNext attrLoop vendorIe rtwGetP2pAttr)

/-! ## Attributes -/

structure Attr where
  id : Byte
  data : List Byte
  short : data.length < 65533
deriving DecidableEq

variable (as : List Attr)

def Attr.encode (a : Attr) : List Byte :=
  a.id :: UInt8.ofNat a.data.length :: UInt8.ofNat (a.data.length / 256) :: a.data

def encodeAttrs : List Byte :=
  as.flatMap Attr.encode

@[simp]
theorem length_attr_encode (a : Attr) : a.encode.length = a.data.length + 3 := rfl

@[simp]
theorem encodeAttrs_cons (a : Attr) (as : List Attr) :
    encodeAttrs (a :: as) = a.encode ++ encodeAttrs as :=
  flatMap_cons

@[simp] theorem encodeAttrs_append (as' : List Attr) : encodeAttrs (as ++ as') = encodeAttrs as ++
    encodeAttrs as' :=
  flatMap_append

theorem length_le_encodeAttrs : as.length ≤ (encodeAttrs as).length := by
  induction as with
  | nil => exact le_rfl
  | cons a as ih =>
    rw [encodeAttrs_cons, length_append, length_cons, length_attr_encode]
    omega

theorem first_attr (target : Byte) (as : List Attr) :
    (∀ a ∈ as, a.id ≠ target) ∨
      ∃ front a back, as = front ++ a :: back ∧ (∀ x ∈ front, x.id ≠ target) ∧ a.id = target := by
  simpa only [beq_eq_false_iff_ne, beq_iff_eq] using first_hit (fun a : Attr => a.id == target) as

section Search

variable {buf : ℕ → Byte} {p ielen fuel : ℕ} {target : Byte} {a : Attr} {as front back : List Attr}

theorem attrLen_eq (holds : Holds buf p a.encode) :
    (le16 buf (p + 1) + 3) % 65536 = a.data.length + 3 := by
  have low : buf (p + 1) = UInt8.ofNat a.data.length := holds.2.1
  have high : buf (p + 1 + 1) = UInt8.ofNat (a.data.length / 256) := holds.2.2.1
  have short := a.short
  rw [le16, low, high, UInt8.toNat_ofNat', UInt8.toNat_ofNat']
  omega

theorem holds_encodeAttrs_cons :
    Holds buf p (encodeAttrs (a :: as)) ↔
      Holds buf p a.encode ∧ Holds buf (p + (a.data.length + 3)) (encodeAttrs as) := by
  rw [encodeAttrs_cons, holds_append, length_attr_encode]

theorem attrLoop_cons (holds : Holds buf p a.encode) (inside : p + (a.data.length + 3) ≤ ielen) :
    attrLoop le16 buf ielen target (fuel + 1) p =
      if a.id = target then .found p
      else attrLoop le16 buf ielen target fuel (p + (a.data.length + 3)) := by
  have id : buf p = a.id := holds.1
  rw [attrLoop, if_pos (by omega)]
  simp only [attrLen_eq holds, id]
  rw [if_neg (by omega)]

theorem attrLoop_missing (holds : Holds buf p (encodeAttrs as))
    (end_ : p + (encodeAttrs as).length = ielen) (absent : ∀ a ∈ as, a.id ≠ target)
    (enough : as.length < fuel) : attrLoop le16 buf ielen target fuel p = .missing := by
  induction as generalizing p fuel with
  | nil =>
    obtain ⟨fuel, rfl⟩ := Nat.exists_eq_add_one.mpr enough
    have stop : p = ielen := end_
    rw [attrLoop, if_neg (by omega)]
  | cons a as ih =>
    obtain ⟨fuel, rfl⟩ := Nat.exists_eq_add_one.mpr (Nat.zero_lt_of_lt enough)
    obtain ⟨own, later⟩ := holds_encodeAttrs_cons.mp holds
    obtain ⟨other, absent⟩ := forall_mem_cons.mp absent
    rw [encodeAttrs_cons, length_append, length_attr_encode] at end_
    rw [attrLoop_cons own (by omega), if_neg other]
    exact ih later (by omega) absent (Nat.lt_of_succ_lt_succ enough)

theorem attrLoop_found (holds : Holds buf p (encodeAttrs (front ++ a :: back)))
    (end_ : p + (encodeAttrs (front ++ a :: back)).length = ielen)
    (absent : ∀ x ∈ front, x.id ≠ target) (here : a.id = target) (enough : front.length < fuel) :
    attrLoop le16 buf ielen target fuel p = .found (p + (encodeAttrs front).length) := by
  induction front generalizing p fuel with
  | nil =>
    obtain ⟨fuel, rfl⟩ := Nat.exists_eq_add_one.mpr enough
    rw [nil_append] at holds end_
    rw [encodeAttrs_cons, length_append, length_attr_encode] at end_
    rw [attrLoop_cons (holds_encodeAttrs_cons.mp holds).1 (by omega), if_pos here]
    rfl
  | cons x front ih =>
    obtain ⟨fuel, rfl⟩ := Nat.exists_eq_add_one.mpr (Nat.zero_lt_of_lt enough)
    rw [cons_append] at holds end_
    obtain ⟨own, later⟩ := holds_encodeAttrs_cons.mp holds
    obtain ⟨other, absent⟩ := forall_mem_cons.mp absent
    rw [encodeAttrs_cons, length_append, length_attr_encode] at end_
    rw [attrLoop_cons own (by omega), if_neg other,
      ih later (by omega) absent (Nat.lt_of_succ_lt_succ enough), encodeAttrs_cons,
      length_append, length_attr_encode, Nat.add_assoc]

end Search

/-! ## P2P elements -/

def p2pIe : List Byte :=
  wlanEidVendorSpecific :: UInt8.ofNat (4 + (encodeAttrs as).length) :: (p2pOui ++ encodeAttrs as)

theorem length_p2pIe : (p2pIe as).length = 6 + (encodeAttrs as).length := by
  simp only [p2pIe, p2pOui, length_cons, length_append, length_nil]
  omega

theorem vendorIe_iff (buf : ℕ → Byte) :
    vendorIe buf #v[0x50, 0x6f, 0x9a, 0x09] ↔ p2pIeAt buf 0 = true := by
  rw [vendorIe, p2pIeAt, Bool.and_eq_true, beq_iff_eq, beq_iff_eq, ← Vector.toList_inj,
    Vector.toList_ofFn]
  rfl

section Element

variable {buf : ℕ → Byte} {p ielen fuel : ℕ} {target : Byte} {a : Attr} {as front back : List Attr}

theorem holds_p2pIe :
    Holds buf p (p2pIe as) ↔ p2pIeAt buf p = true ∧
      buf (p + 1) = UInt8.ofNat (4 + (encodeAttrs as).length) ∧
      Holds buf (p + 6) (encodeAttrs as) := by
  have parts : Holds buf p (p2pIe as) ↔ buf p = wlanEidVendorSpecific ∧
      buf (p + 1) = UInt8.ofNat (4 + (encodeAttrs as).length) ∧
      Holds buf (p + 2) p2pOui ∧ Holds buf (p + 6) (encodeAttrs as) :=
    and_congr_right fun _ => and_congr_right fun _ => holds_append
  rw [parts, p2pIeAt, Bool.and_eq_true, beq_iff_eq, beq_iff_eq]
  constructor
  · rintro ⟨id, length, oui, attrs⟩
    exact ⟨⟨id, oui.window_eq rfl⟩, length, attrs⟩
  · rintro ⟨⟨id, oui⟩, length, attrs⟩
    exact ⟨id, length, oui ▸ holds_window 4 rfl, attrs⟩

theorem rtwGetP2pAttr_eq (holds : Holds buf 0 (p2pIe as)) (some_ : as ≠ []) :
    rtwGetP2pAttr buf (p2pIe as).length target fuel =
      attrLoop le16 buf (6 + (encodeAttrs as).length) target fuel 6 := by
  have vendor := (vendorIe_iff buf).mpr (holds_p2pIe.mp holds).1
  obtain ⟨a, as, rfl⟩ := exists_cons_of_ne_nil some_
  rw [rtwGetP2pAttr, length_p2pIe, if_neg]
  rintro (short | other)
  · rw [encodeAttrs_cons, length_append, length_attr_encode] at short
    omega
  · exact other vendor

theorem rtwGetP2pAttr_missing (holds : Holds buf 0 (p2pIe as)) (absent : ∀ a ∈ as, a.id ≠ target)
    (enough : as.length < fuel) : rtwGetP2pAttr buf (p2pIe as).length target fuel = .missing := by
  by_cases empty : as = []
  · rw [rtwGetP2pAttr, length_p2pIe, empty]
    exact if_pos (.inl le_rfl)
  · rw [rtwGetP2pAttr_eq holds empty]
    exact attrLoop_missing (holds_p2pIe.mp holds).2.2 rfl absent enough

theorem rtwGetP2pAttr_found (holds : Holds buf 0 (p2pIe (front ++ a :: back)))
    (absent : ∀ x ∈ front, x.id ≠ target) (here : a.id = target) (enough : front.length < fuel) :
    rtwGetP2pAttr buf (p2pIe (front ++ a :: back)).length target fuel =
      .found (6 + (encodeAttrs front).length) := by
  rw [rtwGetP2pAttr_eq holds (by simp)]
  exact attrLoop_found (holds_p2pIe.mp holds).2.2 rfl absent here enough

theorem rtwGetP2pAttr_short (short : ielen ≤ 6) : rtwGetP2pAttr buf ielen target fuel = .missing :=
  if_pos (.inl short)

end Element

/-! ## The search for P2P elements -/

/-- The condition of the loop of `rtw_get_p2p_ie`, and of the return behind `MAX_IE_SZ` bytes. -/
def p2pMore (inLen cnt : ℕ) : Bool :=
  decide (cnt + 1 + 4 < inLen ∧ cnt + 1 + 4 < maxIeSz)

def rtwGetP2pIe (inIe : ℕ → Byte) (inLen fuel : ℕ) : Outcome :=
  search (p2pMore inLen) (p2pIeAt inIe) (ieNext inIe) fuel 0

def isP2p (e : Elem) : Bool :=
  e.id == wlanEidVendorSpecific && p2pOui.isPrefixOf e.body

section Elements

variable {buf : ℕ → Byte} {p inLen fuel : ℕ} {e : Elem} {es : List Elem}

theorem id_of_isP2p (p2p : isP2p e = true) : e.id = wlanEidVendorSpecific := by
  rw [isP2p, Bool.and_eq_true, beq_iff_eq] at p2p
  exact p2p.1

theorem encode_eq_p2pIe {as : List Attr} (id : e.id = wlanEidVendorSpecific)
    (body : e.body = p2pOui ++ encodeAttrs as) : e.encode = p2pIe as := by
  have length : e.body.length = 4 + (encodeAttrs as).length := by rw [body, length_append]; rfl
  rw [Elem.encode, length, id, body, p2pIe]

theorem p2pIeAt_of_isP2p (holds : Holds buf p e.encode) (p2p : isP2p e = true) :
    p2pIeAt buf p = true ∧ 4 ≤ e.body.length := by
  rw [isP2p, Bool.and_eq_true, beq_iff_eq, isPrefixOf_iff_prefix] at p2p
  obtain ⟨id, rest, body⟩ := p2p
  obtain ⟨here, -, text⟩ := holds_encode.mp holds
  rw [← body, holds_append] at text
  rw [p2pIeAt, Bool.and_eq_true, beq_iff_eq, beq_iff_eq, ← body, length_append]
  exact ⟨⟨here.trans id, text.1.window_eq rfl⟩, Nat.le_add_right ..⟩

theorem isP2p_of_p2pIeAt (holds : Holds buf p e.encode) (hit : p2pIeAt buf p = true)
    (long : 4 ≤ e.body.length) : isP2p e = true := by
  rw [p2pIeAt, Bool.and_eq_true, beq_iff_eq, beq_iff_eq] at hit
  obtain ⟨here, -, text⟩ := holds_encode.mp holds
  rw [isP2p, Bool.and_eq_true, beq_iff_eq, isPrefixOf_iff_prefix]
  refine ⟨here.symm.trans hit.1, ?_⟩
  obtain ⟨n, length⟩ := Nat.exists_eq_add_of_le long
  rw [← text.window_eq rfl, length, window_add, hit.2]
  exact prefix_append ..

theorem p2pSearch_elems (holds : Holds buf p (encodeAll es))
    (end_ : p + (encodeAll es).length = inLen) (enough : es.length < fuel) :
    (search (p2pMore inLen) (p2pIeAt buf) (ieNext buf) fuel p = .missing ∧
      (inLen ≤ maxIeSz → ∀ e ∈ es, isP2p e = false)) ∨
    ∃ front e back, es = front ++ e :: back ∧ (∀ x ∈ front, isP2p x = false) ∧
      search (p2pMore inLen) (p2pIeAt buf) (ieNext buf) fuel p =
        .found (p + (encodeAll front).length) ∧
      p2pIeAt buf (p + (encodeAll front).length) = true := by
  induction es generalizing p fuel with
  | nil =>
    obtain ⟨fuel, rfl⟩ := Nat.exists_eq_add_one.mpr enough
    have stop : p = inLen := end_
    left
    rw [search, p2pMore, decide_eq_false (by omega)]
    exact ⟨rfl, fun _ => forall_mem_nil _⟩
  | cons e es ih =>
    obtain ⟨fuel, rfl⟩ := Nat.exists_eq_add_one.mpr (Nat.zero_lt_of_lt enough)
    obtain ⟨own, later⟩ := holds_encodeAll_cons.mp holds
    have length := end_
    rw [encodeAll_cons, length_append, length_encode] at length
    cases more : p2pMore inLen p with
    | true =>
      rw [search, more]
      cases hit : p2pIeAt buf p with
      | true => exact .inr ⟨[], e, es, rfl, forall_mem_nil _, rfl, hit⟩
      | false =>
        have other : isP2p e = false := by
          by_contra p2p
          have found := p2pIeAt_of_isP2p own (Bool.not_eq_false _ ▸ p2p)
          exact absurd (hit.symm.trans found.1) (by decide)
        have next : ieNext buf p = p + (e.body.length + 2) := by
          rw [ieNext, ieLenAt, (holds_encode.mp own).2.1, e.toNat_length]
        simp only [if_true, Bool.false_eq_true, if_false, next]
        rcases ih later (by omega) (Nat.lt_of_succ_lt_succ enough) with
          ⟨missing, none_⟩ | ⟨front, x, back, rfl, none_, found, here⟩
        · exact .inl ⟨missing, fun small => forall_mem_cons.mpr ⟨other, none_ small⟩⟩
        · refine .inr ⟨e :: front, x, back, rfl, forall_mem_cons.mpr ⟨other, none_⟩, ?_, ?_⟩
          · rw [found, encodeAll_cons, length_append, length_encode, Nat.add_assoc]
          · rw [encodeAll_cons, length_append, length_encode, ← Nat.add_assoc]
            exact here
    | false =>
      -- what is left is too short for a P2P element, or behind `MAX_IE_SZ` bytes
      left
      rw [search, more]
      refine ⟨rfl, fun small x member => ?_⟩
      have size := length_le_of_mem member
      rw [p2pMore, decide_eq_false_iff_not, not_and_or] at more
      by_contra p2p
      rw [Bool.not_eq_false, isP2p, Bool.and_eq_true, isPrefixOf_iff_prefix] at p2p
      have long : 4 ≤ x.body.length := p2p.2.length_le
      omega

end Elements

end Rtl88x2bu.P2p
