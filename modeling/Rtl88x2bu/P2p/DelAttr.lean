import Rtl88x2bu.P2p.Attrs

/-!
# Deleting an attribute from the P2P elements of a network

`rtw_bss_ex_del_p2p_attr` with `rtw_del_p2p_attr` (`rust/rtw_ieee80211_rest.rs`).
-/

namespace Rtl88x2bu.P2p

open List
open Tape Tlv Walk
open Ie (wlanEidVendorSpecific maxIeSz ieLenAt rtwGetP2pAttr)

/-! ## The model -/

/-- The loop of `rtw_del_p2p_attr` on the element at `ie`: the memory and `ielen` that it leaves.
`rounds` is given to each search. -/
def delAttrLoop (attrId : Byte) (ie rounds : ℕ) :
    ℕ → (ℕ → Byte) → ℕ → Option ((ℕ → Byte) × ℕ)
  | 0, _, _ => none
  | fuel + 1, mem, ielen =>
    match rtwGetP2pAttr (fun i => mem (ie + i)) ielen attrId rounds with
    | .found p =>
      let targetAttr := ie + p
      let targetAttrLen := (le16 mem (targetAttr + 1) + 3) % 65536
      if targetAttrLen = 0 then some (mem, ielen)
      else
        let nextAttr := targetAttr + targetAttrLen
        let remainLen := ielen - (nextAttr - ie)
        let mem := paste mem targetAttr (window mem nextAttr remainLen)
        let mem := paste mem (targetAttr + remainLen) (List.replicate targetAttrLen 0)
        -- a saturating subtraction of bytes
        let len := (mem (ie + 1)).toNat - targetAttrLen % 256
        let mem := paste mem (ie + 1) [UInt8.ofNat len]
        delAttrLoop attrId ie rounds fuel mem (ielen - targetAttrLen)
    | .missing => some (mem, ielen)
    | .endless => none

def rtwDelP2pAttr (mem : ℕ → Byte) (ie ielenOri : ℕ) (attrId : Byte) : Option ((ℕ → Byte) × ℕ) :=
  delAttrLoop attrId ie (ielenOri + 1) (ielenOri + 1) mem ielenOri

structure BssEx where
  ies : ℕ → Byte
  ieLength : ℕ
  reserved0 : ℕ

def fixedIeOffset (reserved0 : ℕ) : ℕ :=
  if reserved0 = 1 then 0 else 12

def bssDelAttrLoop (attrId : Byte) (rounds : ℕ) : ℕ → BssEx → ℕ → ℕ → Option BssEx
  | 0, _, _, _ => none
  | fuel + 1, bss, ies, iesLen =>
    match rtwGetP2pIe (fun i => bss.ies (ies + i)) iesLen rounds with
    | .found p => do
      let ie := ies + p
      let ieLenOri := ieLenAt bss.ies ie + 2
      let nextIeOri := ie + ieLenOri
      let remainLen := bss.ieLength - nextIeOri
      let (mem, ieLen) ← rtwDelP2pAttr bss.ies ie ieLenOri attrId
      if ieLen ≠ ieLenOri then
        let nextIe := ie + ieLen
        let mem := paste mem nextIe (window mem nextIeOri remainLen)
        let mem := paste mem (nextIe + remainLen) (List.replicate (ieLenOri - ieLen) 0)
        bssDelAttrLoop attrId rounds fuel
          { bss with ies := mem, ieLength := bss.ieLength - (ieLenOri - ieLen) } nextIe remainLen
      else bssDelAttrLoop attrId rounds fuel { bss with ies := mem } nextIeOri remainLen
    | .missing => some bss
    | .endless => none

def rtwBssExDelP2pAttr (bss : BssEx) (attrId : Byte) : Option BssEx :=
  bssDelAttrLoop attrId (bss.ieLength + 1) (bss.ieLength + 1) bss (fixedIeOffset bss.reserved0)
    (bss.ieLength - fixedIeOffset bss.reserved0)

/-! ## One element -/

def SameOutside (base n : ℕ) (mem mem' : ℕ → Byte) : Prop :=
  ∀ i, i < base ∨ base + n ≤ i → mem' i = mem i

section Element

variable {mem mem' : ℕ → Byte} {ie n : ℕ} {attrId : Byte}

theorem SameOutside.trans {mem'' : ℕ → Byte} {m : ℕ} (first : SameOutside ie n mem mem')
    (second : SameOutside ie m mem' mem'') (less : m ≤ n) : SameOutside ie n mem mem'' := by
  intro i outside
  rw [second i (by omega), first i outside]

theorem SameOutside.holds {cells : List Byte} {base : ℕ} (same : SameOutside ie n mem mem')
    (holds : Holds mem base cells) (apart : base + cells.length ≤ ie ∨ ie + n ≤ base) :
    Holds mem' base cells := by
  rw [holds_iff] at holds ⊢
  intro i c there
  obtain ⟨inside, -⟩ := List.getElem?_eq_some_iff.mp there
  rw [same (base + i) (by omega)]
  exact holds i c there

theorem SameOutside.paste {start : ℕ} {cells : List Byte} (same : SameOutside ie n mem mem')
    (inside : ie ≤ start) (fits : start + cells.length ≤ ie + n) :
    SameOutside ie n mem (paste mem' start cells) := by
  intro i outside
  rw [← same i outside]
  rcases outside with before | behind
  · exact paste_of_lt (by omega)
  · exact paste_of_le (by omega)

theorem sameOutside_refl : SameOutside ie n mem mem := fun _ _ => rfl

theorem delAttr_round {front back : List Attr} {a : Attr}
    (holds : Holds mem ie (p2pIe (front ++ a :: back)))
    (short : (encodeAttrs (front ++ a :: back)).length < 252) :
    let target := ie + (6 + (encodeAttrs front).length)
    let len := a.data.length + 3
    let remain := (encodeAttrs back).length
    let mem₁ := paste mem target (window mem (target + len) remain)
    let mem₂ := paste mem₁ (target + remain) (List.replicate len 0)
    let mem₃ := paste mem₂ (ie + 1) [UInt8.ofNat ((mem₂ (ie + 1)).toNat - len % 256)]
    Holds mem₃ ie (p2pIe (front ++ back)) ∧
      SameOutside ie (p2pIe (front ++ a :: back)).length mem mem₃ := by
  intro target len remain mem₁ mem₂ mem₃
  have total : (encodeAttrs (front ++ a :: back)).length =
      (encodeAttrs front).length + (len + remain) := by
    rw [encodeAttrs_append, encodeAttrs_cons, length_append, length_append,
      length_attr_encode]
  have size : (p2pIe (front ++ a :: back)).length =
      6 + ((encodeAttrs front).length + (len + remain)) := by rw [length_p2pIe, total]
  -- the element before: id, length, what stays in front of the attribute and what is behind it
  obtain ⟨id, length, body⟩ : mem ie = wlanEidVendorSpecific ∧
      mem (ie + 1) = UInt8.ofNat (4 + (encodeAttrs (front ++ a :: back)).length) ∧
      Holds mem (ie + 2) (p2pOui ++ encodeAttrs (front ++ a :: back)) := holds
  rw [encodeAttrs_append, encodeAttrs_cons, ← append_assoc, holds_append] at body
  obtain ⟨kept, rest⟩ := body
  obtain ⟨-, behind⟩ := holds_append.mp rest
  have head : Holds mem ie [wlanEidVendorSpecific] := ⟨id, trivial⟩
  have kept_length : (p2pOui ++ encodeAttrs front).length = 4 + (encodeAttrs front).length :=
    length_append
  have start : ie + 2 + (p2pOui ++ encodeAttrs front).length + a.encode.length = target + len := by
    rw [kept_length, length_attr_encode]
    simp only [target, len]
    omega
  rw [start] at behind
  have head₂ : Holds mem₂ ie [wlanEidVendorSpecific] :=
    (head.paste (.inl (by simp [target]; omega))).paste (.inl (by simp [target]; omega))
  have length₂ : mem₂ (ie + 1) = mem (ie + 1) := by
    simp only [mem₂, mem₁]
    rw [paste_of_lt (by omega), paste_of_lt (by omega)]
  have kept₂ : Holds mem₂ (ie + 2) (p2pOui ++ encodeAttrs front) :=
    (kept.paste (.inl (by rw [kept_length]; omega))).paste (.inl (by rw [kept_length]; omega))
  have behind₂ : Holds mem₂ target (encodeAttrs back) :=
    (behind.move le_rfl target).paste (.inl le_rfl)
  have left : (mem₂ (ie + 1)).toNat - len % 256 = 4 + (encodeAttrs (front ++ back)).length := by
    rw [length₂, length, UInt8.toNat_ofNat', total, encodeAttrs_append, length_append]
    rw [total] at short
    simp only [len, remain] at short ⊢
    omega
  refine ⟨⟨?_, ?_, ?_⟩, ?_⟩
  · exact (head₂.paste (.inl (by simp))).1
  · have written := holds_paste mem₂ (ie + 1) [UInt8.ofNat ((mem₂ (ie + 1)).toNat - len % 256)]
    rw [← left]
    exact written.1
  · have place : ie + 1 + 1 + (p2pOui ++ encodeAttrs front).length = target := by
      rw [kept_length]
      simp only [target]
      omega
    rw [encodeAttrs_append, ← append_assoc, holds_append, place]
    exact ⟨kept₂.paste (.inr (by simp)), behind₂.paste (.inr (by simp [target]; omega))⟩
  · rw [size]
    have moved : SameOutside ie (6 + ((encodeAttrs front).length + (len + remain))) mem mem₁ :=
      sameOutside_refl.paste (by omega) (by rw [length_window]; omega)
    have cleared : SameOutside ie (6 + ((encodeAttrs front).length + (len + remain))) mem mem₂ :=
      moved.paste (by omega) (by rw [length_replicate]; omega)
    exact cleared.paste (Nat.le_succ ie) (by rw [length_singleton]; omega)

theorem delAttrLoop_spec (rounds fuel : ℕ) (as : List Attr) (holds : Holds mem ie (p2pIe as))
    (short : (encodeAttrs as).length < 252) (enough : as.length < rounds)
    (fuel_enough : as.length < fuel) :
    ∃ mem', delAttrLoop attrId ie rounds fuel mem (p2pIe as).length =
        some (mem', (p2pIe (as.filter (·.id != attrId))).length) ∧
      Holds mem' ie (p2pIe (as.filter (·.id != attrId))) ∧
      SameOutside ie (p2pIe as).length mem mem' := by
  induction fuel generalizing as mem with
  | zero => omega
  | succ fuel ih =>
    have seen := holds_shift.mpr holds
    rcases first_attr attrId as with absent | ⟨front, a, back, rfl, first, here⟩
    · have all : as.filter (·.id != attrId) = as :=
        filter_eq_self.mpr fun a member => by simpa using absent a member
      rw [all, delAttrLoop, rtwGetP2pAttr_missing seen absent enough]
      exact ⟨mem, rfl, holds, sameOutside_refl⟩
    · rw [length_append, length_cons] at enough fuel_enough
      have filtered : (front ++ a :: back).filter (·.id != attrId) =
          (front ++ back).filter (·.id != attrId) := by
        rw [filter_append, filter_append, filter_cons_of_neg (by simp [here])]
      have total : (encodeAttrs (front ++ a :: back)).length =
          (encodeAttrs (front ++ back)).length + (a.data.length + 3) := by
        simp only [encodeAttrs_append, encodeAttrs_cons, length_append, length_attr_encode]
        omega
      have target : Holds mem (ie + (6 + (encodeAttrs front).length)) a.encode := by
        have attrs := (holds_p2pIe.mp holds).2.2
        rw [encodeAttrs_append, holds_append, holds_encodeAttrs_cons, Nat.add_assoc] at attrs
        exact attrs.2.1
      have remain : (p2pIe (front ++ a :: back)).length -
          (ie + (6 + (encodeAttrs front).length) + (a.data.length + 3) - ie) =
          (encodeAttrs back).length := by
        rw [length_p2pIe, encodeAttrs_append, encodeAttrs_cons, length_append,
          length_append, length_attr_encode]
        omega
      have shorter : (p2pIe (front ++ a :: back)).length - (a.data.length + 3) =
          (p2pIe (front ++ back)).length := by
        rw [length_p2pIe, length_p2pIe, total]
        omega
      obtain ⟨next, same⟩ := delAttr_round holds short
      rw [delAttrLoop, rtwGetP2pAttr_found seen first here (by omega)]
      simp only [attrLen_eq target, remain, shorter]
      rw [if_neg (by omega)]
      obtain ⟨mem', run, left, same'⟩ := ih (front ++ back) next (by omega)
        (by rw [length_append]; omega) (by rw [length_append]; omega)
      rw [filtered]
      refine ⟨mem', run, left, same.trans same' ?_⟩
      rw [length_p2pIe, length_p2pIe, total]
      omega

theorem rtwDelP2pAttr_spec (attrId : Byte) (as : List Attr) (holds : Holds mem ie (p2pIe as))
    (short : (encodeAttrs as).length < 252) :
    ∃ mem', rtwDelP2pAttr mem ie (p2pIe as).length attrId =
        some (mem', (p2pIe (as.filter (·.id != attrId))).length) ∧
      Holds mem' ie (p2pIe (as.filter (·.id != attrId))) ∧
      SameOutside ie (p2pIe as).length mem mem' := by
  have few := length_le_encodeAttrs as
  have size := length_p2pIe as
  exact delAttrLoop_spec _ _ as holds short (by omega) (by omega)

theorem rtwDelP2pAttr_short {ielen : ℕ} (short : ielen ≤ 6) :
    rtwDelP2pAttr mem ie ielen attrId = some (mem, ielen) := by
  rw [rtwDelP2pAttr, delAttrLoop, rtwGetP2pAttr_short short]

end Element

/-! ## All elements -/

/-- A P2P element loses its attributes with the id, any other element stays as it is. -/
def AttrDeleted (attrId : Byte) (e e' : Elem) : Prop :=
  if isP2p e then
    ∃ as, e.body = p2pOui ++ encodeAttrs as ∧ e'.id = e.id ∧
      e'.body = p2pOui ++ encodeAttrs (as.filter (·.id != attrId))
  else e' = e

def AttrsWellFormed (els : List Elem) : Prop :=
  ∀ e ∈ els, isP2p e = true → ∃ as, e.body = p2pOui ++ encodeAttrs as

/-- The description holds these elements behind its fixed bytes. -/
structure BssHolds (bss : BssEx) (fixed : List Byte) (els : List Elem) : Prop where
  fixed_length : fixed.length = fixedIeOffset bss.reserved0
  text : Holds bss.ies 0 (fixed ++ encodeAll els)
  length : bss.ieLength = (fixed ++ encodeAll els).length

section Elements

variable {mem : ℕ → Byte} {ie : ℕ} {attrId : Byte} {e : Elem} {els : List Elem}

theorem attrDeleted_same (other : isP2p e = false) : AttrDeleted attrId e e := by
  rw [AttrDeleted, other]
  rfl

theorem delAttr_elem (attrId : Byte) (holds : Holds mem ie e.encode) (hit : p2pIeAt mem ie = true)
    (attrs : isP2p e = true → ∃ as, e.body = p2pOui ++ encodeAttrs as) :
    ∃ mem' e', rtwDelP2pAttr mem ie (e.body.length + 2) attrId = some (mem', e'.body.length + 2) ∧
      Holds mem' ie e'.encode ∧ SameOutside ie (e.body.length + 2) mem mem' ∧
      AttrDeleted attrId e e' ∧ e'.body.length ≤ e.body.length := by
  cases p2p : isP2p e with
  | true =>
    obtain ⟨as, body⟩ := attrs p2p
    have id := id_of_isP2p p2p
    have length : e.body.length = 4 + (encodeAttrs as).length := by
      rw [body, length_append]
      rfl
    have short := e.short
    have fewer : (encodeAttrs (as.filter (·.id != attrId))).length ≤ (encodeAttrs as).length :=
      ((filter_sublist (l := as)).flatMap Attr.encode).length_le
    let e' : Elem :=
      { id := e.id, body := p2pOui ++ encodeAttrs (as.filter (·.id != attrId))
        short := by
          rw [length_append]
          simp only [p2pOui, length_cons, length_nil]
          omega }
    have length' : e'.body.length = 4 + (encodeAttrs (as.filter (·.id != attrId))).length :=
      length_append
    rw [encode_eq_p2pIe id body] at holds
    obtain ⟨mem', run, left, same⟩ := rtwDelP2pAttr_spec attrId as holds (by omega)
    rw [← encode_eq_p2pIe id body, length_encode] at run same
    refine ⟨mem', e', ?_, ?_, same, ?_, by omega⟩
    · rw [run, length_p2pIe, length']
      congr 2
      omega
    · rw [encode_eq_p2pIe (e := e') id rfl]
      exact left
    · rw [AttrDeleted, if_pos p2p]
      exact ⟨as, body, rfl, rfl⟩
  | false =>
    -- the OUI was found across the end of a short element
    have short : e.body.length < 4 := by
      by_contra long
      have found := isP2p_of_p2pIeAt holds hit (not_lt.mp long)
      exact absurd (p2p.symm.trans found) (by decide)
    exact ⟨mem, e, rtwDelP2pAttr_short (by omega), holds, sameOutside_refl, attrDeleted_same p2p,
      le_rfl⟩

section

variable {mem' : ℕ → Byte} {pre behind : List Byte} {e' : Elem}
  (text : Holds mem 0 (pre ++ (e.encode ++ behind))) (own : Holds mem' pre.length e'.encode)
  (same : SameOutside pre.length (e.body.length + 2) mem mem')
include text own same

theorem holds_moved_up (zeros : List Byte) : let next := pre.length + (e'.body.length + 2)
    Holds (paste (paste mem' next (window mem' (pre.length + (e.body.length + 2)) behind.length))
      (next + behind.length) zeros) 0 (pre ++ (e'.encode ++ behind)) := by
  intro next
  rw [holds_append, holds_append, Nat.zero_add, length_encode] at text ⊢
  obtain ⟨before, -, rest⟩ := text
  have before' := same.holds before (.inl (by omega))
  have rest' := same.holds rest (.inr le_rfl)
  refine ⟨?_, ?_, ?_⟩
  · exact (before'.paste (.inl (by omega))).paste (.inl (by omega))
  · exact (own.paste (.inl (by rw [length_encode]))).paste (.inl (by rw [length_encode]; omega))
  · exact (rest'.move le_rfl next).paste (.inl le_rfl)

theorem holds_in_place (equal : e'.body.length = e.body.length) :
    Holds mem' 0 (pre ++ (e'.encode ++ behind)) := by
  rw [holds_append, holds_append, Nat.zero_add, length_encode] at text ⊢
  obtain ⟨before, -, rest⟩ := text
  rw [equal]
  exact ⟨same.holds before (.inl (by omega)), own, same.holds rest (.inr le_rfl)⟩

end

theorem bssDelAttr_round (attrId : Byte) (fuel : ℕ) {rounds : ℕ} {bss : BssEx} {pre : List Byte}
    {front back : List Elem}
    (text : Holds bss.ies 0 (pre ++ encodeAll (front ++ e :: back)))
    (length : bss.ieLength = (pre ++ encodeAll (front ++ e :: back)).length)
    (attrs : isP2p e = true → ∃ as, e.body = p2pOui ++ encodeAttrs as)
    (found : rtwGetP2pIe (fun i => bss.ies (pre.length + i)) (encodeAll (front ++ e :: back)).length
      rounds = .found (encodeAll front).length)
    (hit : p2pIeAt bss.ies (pre ++ encodeAll front).length = true) :
    ∃ bss₂ e', bssDelAttrLoop attrId rounds (fuel + 1) bss pre.length
        (encodeAll (front ++ e :: back)).length =
        bssDelAttrLoop attrId rounds fuel bss₂ (pre ++ encodeAll front ++ e'.encode).length
          (encodeAll back).length ∧
      AttrDeleted attrId e e' ∧
      Holds bss₂.ies 0 (pre ++ encodeAll front ++ e'.encode ++ encodeAll back) ∧
      bss₂.ieLength = (pre ++ encodeAll front ++ e'.encode ++ encodeAll back).length ∧
      bss₂.ieLength ≤ bss.ieLength ∧ bss₂.reserved0 = bss.reserved0 := by
  have start : (pre ++ encodeAll front).length = pre.length + (encodeAll front).length :=
    length_append
  rw [encodeAll_append, encodeAll_cons, ← append_assoc] at text length
  obtain ⟨-, later⟩ := holds_append.mp text
  rw [Nat.zero_add] at later
  have own := (holds_append.mp later).1
  obtain ⟨mem', e', run, own', same, deleted, shorter⟩ := delAttr_elem attrId own hit attrs
  have len : ieLenAt bss.ies (pre.length + (encodeAll front).length) = e.body.length := by
    rw [ieLenAt, ← start, (holds_encode.mp own).2.1, e.toNat_length]
  simp only [length_append, length_encode] at length
  have remain : bss.ieLength - (pre.length + (encodeAll front).length + (e.body.length + 2)) =
      (encodeAll back).length := by omega
  have place : (pre ++ encodeAll front ++ e'.encode).length =
      pre.length + (encodeAll front).length + (e'.body.length + 2) := by
    rw [length_append, length_encode, start]
  rw [start] at run
  rw [bssDelAttrLoop, found]
  simp only [len, remain, run, Option.bind_eq_bind, Option.bind_some]
  by_cases equal : e'.body.length = e.body.length
  · rw [if_neg (by rw [equal]; exact not_not.mpr rfl)]
    refine ⟨{ bss with ies := mem' }, e', by rw [place, equal], deleted, ?_, ?_, le_rfl, rfl⟩
    · rw [append_assoc (pre ++ encodeAll front)]
      exact holds_in_place text own' same equal
    · rw [length_append, place]
      simp only
      omega
  · rw [if_pos (by omega)]
    have moved := holds_moved_up text own' same
      (List.replicate (e.body.length + 2 - (e'.body.length + 2)) 0)
    rw [start] at moved
    refine ⟨_, e', congrArg (bssDelAttrLoop attrId rounds fuel _ · _) place.symm, deleted, ?_, ?_,
      ?_, rfl⟩
    · rw [append_assoc (pre ++ encodeAll front)]
      exact moved
    · rw [length_append, place]
      simp only
      omega
    · simp only
      omega

theorem bssDelAttrLoop_spec (attrId : Byte) (rounds fuel : ℕ) (bss : BssEx) (pre : List Byte)
    (left : List Elem) (text : Holds bss.ies 0 (pre ++ encodeAll left))
    (length : bss.ieLength = (pre ++ encodeAll left).length) (small : bss.ieLength ≤ maxIeSz)
    (attrs : AttrsWellFormed left) (enough : left.length < rounds)
    (fuel_enough : left.length < fuel) :
    ∃ bss' left', bssDelAttrLoop attrId rounds fuel bss pre.length (encodeAll left).length =
        some bss' ∧
      List.Forall₂ (AttrDeleted attrId) left left' ∧ Holds bss'.ies 0 (pre ++ encodeAll left') ∧
      bss'.ieLength = (pre ++ encodeAll left').length ∧ bss'.reserved0 = bss.reserved0 := by
  induction fuel generalizing bss pre left with
  | zero => omega
  | succ fuel ih =>
    have seen := holds_shift.mpr (Nat.zero_add pre.length ▸ (holds_append.mp text).2)
    have same_list : ∀ {es : List Elem}, (∀ e ∈ es, isP2p e = false) →
        List.Forall₂ (AttrDeleted attrId) es es := fun others =>
      forall₂_same.mpr fun e member => attrDeleted_same (others e member)
    have bound : (encodeAll left).length ≤ maxIeSz := by
      rw [length, length_append] at small
      omega
    rcases p2pSearch_elems seen (Nat.zero_add _) enough with
      ⟨missing, others⟩ | ⟨front, e, back, rfl, others, found, hit⟩
    · rw [bssDelAttrLoop, rtwGetP2pIe, missing]
      exact ⟨bss, left, rfl, same_list (others bound), text, length, rfl⟩
    · rw [Nat.zero_add] at found hit
      have listed : e ∈ front ++ e :: back := mem_append_right front mem_cons_self
      have here : p2pIeAt bss.ies (pre ++ encodeAll front).length = true := by
        rw [length_append]
        exact hit
      obtain ⟨bss₂, e', step, deleted, text₂, length₂, less, reserved₂⟩ :=
        bssDelAttr_round attrId fuel text length (attrs e listed) found here
      rw [length_append, length_cons] at enough fuel_enough
      obtain ⟨bss', left', run, deleted', text', length', reserved'⟩ :=
        ih bss₂ (pre ++ encodeAll front ++ e'.encode) back text₂ length₂ (less.trans small)
          (fun x member => attrs x (mem_append_right front (mem_cons_of_mem e member)))
          (by omega) (by omega)
      have together : pre ++ encodeAll front ++ e'.encode ++ encodeAll left' =
          pre ++ encodeAll (front ++ e' :: left') := by
        rw [encodeAll_append, encodeAll_cons, append_assoc, append_assoc]
      rw [together] at text' length'
      exact ⟨bss', front ++ e' :: left', step.trans run,
        rel_append (same_list others) (.cons deleted deleted'), text', length',
        reserved'.trans reserved₂⟩

end Elements

/-- For every BSS description with well-formed elements and attributes: the function ends, every P2P
element has lost the attributes with the id and kept the others, every other element is as it was,
the order is the same, and the length bytes and `IELength` are those of what is left. -/
theorem bss_ex_del_p2p_attr_spec (bss : BssEx) (attrId : Byte) (fixed : List Byte) (els : List Elem)
    (holds : BssHolds bss fixed els) (small : bss.ieLength ≤ maxIeSz)
    (attrs : AttrsWellFormed els) :
    ∃ bss' els', rtwBssExDelP2pAttr bss attrId = some bss' ∧ BssHolds bss' fixed els' ∧
      List.Forall₂ (AttrDeleted attrId) els els' := by
  have few := length_le_encodeAll els
  have length := holds.length
  rw [length_append] at length
  obtain ⟨bss', els', run, deleted, text, length', reserved⟩ :=
    bssDelAttrLoop_spec attrId (bss.ieLength + 1) (bss.ieLength + 1) bss fixed els
      holds.text holds.length small attrs (by omega) (by omega)
  have left : bss.ieLength - fixedIeOffset bss.reserved0 = (encodeAll els).length := by
    rw [length, holds.fixed_length, Nat.add_sub_cancel_left]
  refine ⟨bss', els', ?_, ⟨?_, text, length'⟩, deleted⟩
  · rw [rtwBssExDelP2pAttr, left, ← holds.fixed_length]
    exact run
  · rw [reserved]
    exact holds.fixed_length

def threeAttrs : List Elem :=
  [⟨0, [0x70], by decide⟩, ⟨221, [], Nat.zero_lt_succ (nat_lit 255)⟩,
    ⟨221, p2pOui ++ [2, 1, 0, 7, 6, 2, 0, 8, 9, 2, 0, 0], by decide⟩]

theorem bss_ex_del_p2p_attr_two :
    ∃ bss' els', rtwBssExDelP2pAttr
        ⟨image 0 (List.replicate 12 0 ++ encodeAll threeAttrs), 35, 0⟩ 2 = some bss' ∧
      BssHolds bss' (List.replicate 12 0) els' ∧
      List.Forall₂ (AttrDeleted 2) threeAttrs els' :=
  bss_ex_del_p2p_attr_spec _ 2 (List.replicate 12 0) threeAttrs
    ⟨rfl, holds_image _, by decide⟩ (by decide) <| by
    intro e member p2p
    simp only [threeAttrs, mem_cons, not_mem_nil, or_false] at member
    rcases member with rfl | rfl | rfl
    · exact absurd p2p (by decide)
    · exact absurd p2p (by decide)
    · exact ⟨[⟨2, [7], by decide⟩, ⟨6, [8, 9], by decide⟩, ⟨2, [], by decide⟩], by decide⟩

end Rtl88x2bu.P2p
