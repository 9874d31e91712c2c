import Rtl88x2bu.Ie.Remove
import Rtl88x2bu.Ie.Tim

/-!
# The TIM element of the beacon template

`update_BCNTIM` (`rust/rtw_ap_bcn_ie_tim.rs`). Where there is no TIM element it puts one behind the
first SSID, the first supported rates and a DS parameter element, whether these are at the front of
the template, or there at all, or not.
-/

namespace Rtl88x2bu.Ie

open List Option
open Tape Walk Tlv

variable (els : List Elem)

/-! ## The function -/

/-- `IEs` and `IELength` of the network: 12 fixed bytes and the elements of the beacon. -/
structure BcnNetwork where
  ies : ℕ → Byte
  ieLength : ℕ

variable (net : BcnNetwork)

def beaconIeOffset : ℕ := 12
def ssidIe : ℕ := 0
def supportedRatesIe : ℕ := 1
def timIe : ℕ := 5

def BcnNetwork.getIe (index : ℕ) : Outcome :=
  (rtwGetIe (fun i => net.ies (beaconIeOffset + i)) index (net.ieLength - beaconIeOffset)
    (net.ieLength + 1)).1

def BcnNetwork.spanOf (index : ℕ) : Option ℕ :=
  match net.getIe index with
  | .found p => some (ieLenAt net.ies (beaconIeOffset + p) + 2)
  | .missing => some 0
  | .endless => none

/-- Where the element is written, the number of bytes that come behind it and where they are now. -/
structure TimPlacement where
  dstIe : ℕ
  remainderIelen : ℕ
  premainderIe : ℕ

/-- The place for a new element. The number of bytes behind it is an `u32`. -/
def BcnNetwork.newPlacement : Option TimPlacement := do
  let ssid ← net.spanOf ssidIe
  let rates ← net.spanOf supportedRatesIe
  let offset := beaconIeOffset + ssid + rates + 3
  return ⟨offset, (net.ieLength + 2 ^ 32 - offset) % 2 ^ 32, offset⟩

def BcnNetwork.placement : Option TimPlacement :=
  match net.getIe timIe with
  | .found p =>
    let dst := beaconIeOffset + p
    let timIelen := ieLenAt net.ies dst
    if timIelen > 0 then
      some ⟨dst, (net.ieLength + 2 ^ 32 - dst - (timIelen + 2)) % 2 ^ 32, dst + (timIelen + 2)⟩
    else net.newPlacement
  | .missing => net.newPlacement
  | .endless => none

/-- `update_BCNTIM`. The bytes behind the element are saved if `bcn_malloc` succeeds. -/
def updateBcnTim (malloc : ℕ → Bool) (net : BcnNetwork) (timBmp : List Byte) : Option BcnNetwork :=
  net.placement.map fun place =>
    let backup :=
      if place.remainderIelen > 0 ∧ malloc place.remainderIelen then
        window net.ies place.premainderIe place.remainderIelen
      else []
    let (tim, len) := rtwSetTimIe 0 1 timBmp
    let dstIe := place.dstIe + len.toNat
    ⟨paste (paste net.ies place.dstIe tim) dstIe backup, (dstIe + place.remainderIelen) % 2 ^ 32⟩

/-! ## What it is for -/

def isTim (e : Elem) : Bool := e.id == wlanEidTim

/-- The template holds these elements behind the fixed bytes. -/
structure HoldsElems (net : BcnNetwork) (fixed : List Byte) (els : List Elem) : Prop where
  fixed_length : fixed.length = beaconIeOffset
  holds : Holds net.ies 0 (fixed ++ encodeAll els)
  length : net.ieLength = beaconIeOffset + (encodeAll els).length

/-- The template with the TIM element `tim` and no other, and all the other elements in order. -/
def TimUpdated (fixed : List Byte) (els : List Elem) (tim : List Byte) (net : BcnNetwork) : Prop :=
  ∃ before t after, t.encode = tim ∧ before ++ after = els.filter (!isTim ·) ∧
    HoldsElems net fixed (before ++ t :: after)

def elemSpan (id : Byte) (els : List Elem) : ℕ :=
  ((els.find? (·.id == id)).map fun e => e.body.length + 2).getD 0

def newTimAt : ℕ := elemSpan 0 els + elemSpan 1 els + 3

/-- There is one TIM element and it has a body; or there is none and the new one is written between
two elements, or where it makes no difference. -/
def TimPlaceRight (tim : List Byte) : Prop :=
  els.countP isTim = 1 ∧ (∀ e ∈ els, isTim e = true → e.body ≠ []) ∨
  els.countP isTim = 0 ∧ ∃ before after, els = before ++ after ∧
    newTimAt els ≤ (encodeAll before).length ∧
    tim ++ (encodeAll before).drop (newTimAt els) = (encodeAll before).drop (newTimAt els) ++ tim

/-! ## Searching the template -/

section Search

variable {buf : ℕ → Byte} {index limit p fuel : ℕ} {els : List Elem}

theorem sint_of_lt (small : p < 2 ^ 31) : sint p = p := by
  rw [sint]
  split <;> omega

theorem paved_getIe (holds : Holds buf p (encodeAll els))
    (whole : p + (encodeAll els).length = limit)
    (small : limit < 2 ^ 31) :
    Paved (ieMore limit) (ieHit buf index) (ieNext buf) (fun e _ => e.id == UInt8.ofNat index) p
      els := by
  induction els generalizing p with
  | nil =>
    change ieMore limit p = false
    rw [encodeAll_nil, length_nil, Nat.add_zero] at whole
    rw [ieMore, decide_eq_false_iff_not, sint_of_lt (by omega), whole]
    omega
  | cons e els ih =>
    obtain ⟨here, later⟩ := holds_encodeAll_cons.mp holds
    obtain ⟨id_eq, len_eq, -⟩ := holds_encode.mp here
    rw [encodeAll_cons, length_append, length_encode] at whole
    refine ⟨?_, ?_, ?_, ih later (by omega)⟩
    · rw [ieMore, decide_eq_true_iff, sint_of_lt (by omega)]
      omega
    · rw [ieHit, id_eq]
      rfl
    · rw [ieNext, ieLenAt, len_eq, e.toNat_length]

theorem getIeLoop_missing (some_elem : els ≠ []) (holds : Holds buf p (encodeAll els))
    (whole : p + (encodeAll els).length = limit) (small : limit < 2 ^ 31)
    (absent : ∀ e ∈ els, (e.id == UInt8.ofNat index) = false) (enough : els.length ≤ fuel)
    (inside : Bool) : (getIeLoop buf index limit fuel p inside).1 = .missing := by
  induction els generalizing p fuel inside with
  | nil => exact absurd rfl some_elem
  | cons e els ih =>
    obtain ⟨fuel, rfl⟩ := Nat.exists_eq_add_of_le' (Nat.le_trans (Nat.le_add_left 1 _) enough)
    obtain ⟨here, later⟩ := holds_encodeAll_cons.mp holds
    obtain ⟨id_eq, len_eq, -⟩ := holds_encode.mp here
    obtain ⟨other, absent⟩ := forall_mem_cons.mp absent
    rw [encodeAll_cons, length_append, length_encode] at whole
    have miss : buf p ≠ UInt8.ofNat index := by
      rw [id_eq]
      exact beq_eq_false_iff_ne.mp other
    have next : p + (ieLenAt buf p + 2) = p + (e.body.length + 2) := by
      rw [ieLenAt, len_eq, e.toNat_length]
    rw [getIeLoop, if_neg miss]
    dsimp only
    rw [next, sint_of_lt (by omega)]
    by_cases last : els = []
    · subst last
      rw [encodeAll_nil, length_nil, Nat.add_zero] at whole
      rw [if_pos (by omega)]
    · have more : 0 < (encodeAll els).length :=
        length_pos_iff.mpr fun nothing => last (encodeAll_eq_nil_iff.mp nothing)
      rw [if_neg (by omega)]
      exact ih last later (by omega) absent (Nat.le_of_succ_le_succ enough) _

theorem rtwGetIe_missing (holds : Holds buf 0 (encodeAll els))
    (small : (encodeAll els).length < 2 ^ 31)
    (absent : ∀ e ∈ els, (e.id == UInt8.ofNat index) = false) (enough : els.length ≤ fuel) :
    (rtwGetIe buf index (encodeAll els).length fuel).1 = .missing := by
  rw [rtwGetIe]
  split
  · rfl
  next some_byte =>
    have some_elem : els ≠ [] := by
      rintro rfl
      exact some_byte (by decide)
    exact getIeLoop_missing some_elem holds (Nat.zero_add _) small absent enough true

theorem rtwGetIe_found {front back : List Elem} {e : Elem}
    (holds : Holds buf 0 (encodeAll (front ++ e :: back)))
    (small : (encodeAll (front ++ e :: back)).length < 2 ^ 31)
    (absent : ∀ x ∈ front, (x.id == UInt8.ofNat index) = false)
    (here : (e.id == UInt8.ofNat index) = true) (enough : (front ++ e :: back).length < fuel) :
    (rtwGetIe buf index (encodeAll (front ++ e :: back)).length fuel).1 =
      .found (encodeAll front).length := by
  have some_byte : 0 < (encodeAll (front ++ e :: back)).length := by
    rw [encodeAll_append, encodeAll_cons, length_append, length_append, length_encode]
    omega
  have first : ieMore (encodeAll (front ++ e :: back)).length 0 = true := by
    rw [ieMore, decide_eq_true_iff, sint_zero]
    omega
  have paved := @paved_getIe buf index _ 0 _ holds (Nat.zero_add _) small
  rw [rtwGetIe, if_neg (by omega), (getIeLoop_spec buf index fuel 0 true first).2,
    search_eq paved enough,
    hitOffset_append (m := (·.id == UInt8.ofNat index)) absent here, Option.elim, Nat.zero_add]

end Search

section Network

variable {net : BcnNetwork} {fixed : List Byte} {els : List Elem}

theorem HoldsElems.elems (held : HoldsElems net fixed els) :
    Holds (fun i => net.ies (beaconIeOffset + i)) 0 (encodeAll els) := by
  have part := (holds_append.mp held.holds).2
  rw [held.fixed_length, Nat.zero_add] at part
  rw [holds_iff] at part ⊢
  intro i c there
  rw [Nat.zero_add]
  exact part i c there

theorem HoldsElems.limit (held : HoldsElems net fixed els) :
    net.ieLength - beaconIeOffset = (encodeAll els).length := by
  rw [held.length, Nat.add_sub_cancel_left]

theorem HoldsElems.getIe_found {front back : List Elem} {e : Elem} {index : ℕ}
    (held : HoldsElems net fixed (front ++ e :: back)) (small : net.ieLength ≤ maxIeSz)
    (absent : ∀ x ∈ front, (x.id == UInt8.ofNat index) = false)
    (here : (e.id == UInt8.ofNat index) = true) :
    net.getIe index = .found (encodeAll front).length ∧
      ieLenAt net.ies (beaconIeOffset + (encodeAll front).length) = e.body.length := by
  have length := held.length
  have few := length_le_encodeAll (front ++ e :: back)
  rw [maxIeSz] at small
  constructor
  · rw [BcnNetwork.getIe, held.limit]
    exact rtwGetIe_found held.elems (by omega) absent here (by omega)
  · have elems := held.elems
    rw [encodeAll_append] at elems
    have header := (holds_encodeAll_cons.mp (holds_append.mp elems).2).1
    rw [Nat.zero_add] at header
    have len : net.ies (beaconIeOffset + ((encodeAll front).length + 1)) = _ :=
      (holds_encode.mp header).2.1
    rw [ieLenAt, Nat.add_assoc, len, e.toNat_length]

section

variable (held : HoldsElems net fixed els) (small : net.ieLength ≤ maxIeSz)
include held small

theorem HoldsElems.getIe_missing {index : ℕ}
    (absent : ∀ e ∈ els, (e.id == UInt8.ofNat index) = false) : net.getIe index = .missing := by
  have length := held.length
  have few := length_le_encodeAll els
  rw [maxIeSz] at small
  rw [BcnNetwork.getIe, held.limit]
  exact rtwGetIe_missing held.elems (by omega) absent (by omega)

theorem HoldsElems.spanOf_eq (index : ℕ) :
    net.spanOf index = some (elemSpan (UInt8.ofNat index) els) := by
  rcases first_hit (·.id == UInt8.ofNat index) els with absent | ⟨front, e, back, rfl, absent, here⟩
  · have nothing : els.find? (·.id == UInt8.ofNat index) = none :=
      List.find?_eq_none.mpr fun e member => by rw [absent e member]; exact Bool.false_ne_true
    rw [BcnNetwork.spanOf, held.getIe_missing small absent, elemSpan, nothing]
    rfl
  · have first : (front ++ e :: back).find? (·.id == UInt8.ofNat index) = some e := by
      rw [List.find?_append, List.find?_eq_none.mpr fun x member => by
        rw [absent x member]; exact Bool.false_ne_true, List.find?_cons, here]
      rfl
    obtain ⟨found, length⟩ := held.getIe_found small absent here
    rw [BcnNetwork.spanOf, found, elemSpan, first]
    simp only [length, map_some, getD_some]

theorem HoldsElems.newPlacement_eq :
    net.newPlacement = some ⟨beaconIeOffset + newTimAt els,
      (net.ieLength + 2 ^ 32 - (beaconIeOffset + newTimAt els)) % 2 ^ 32,
      beaconIeOffset + newTimAt els⟩ := by
  have sum : beaconIeOffset + elemSpan (UInt8.ofNat ssidIe) els +
      elemSpan (UInt8.ofNat supportedRatesIe) els + 3 = beaconIeOffset + newTimAt els := by
    rw [newTimAt, Nat.add_assoc, Nat.add_assoc]
    rfl
  rw [BcnNetwork.newPlacement, held.spanOf_eq small, held.spanOf_eq small]
  simp only [Option.bind_eq_bind, Option.bind_some, Option.pure_def, sum]

end

end Network

theorem newTimAt_le : newTimAt els ≤ (encodeAll els).length + 3 := by
  have one (id : Byte) (els : List Elem) : elemSpan id els ≤ (encodeAll els).length := by
    induction els with
    | nil => exact Nat.le_refl _
    | cons e els ih =>
      rw [elemSpan, List.find?_cons, encodeAll_cons, length_append, length_encode]
      split
      · simp only [map_some, getD_some]
        omega
      · exact Nat.le_trans ih (Nat.le_add_left _ _)
  rw [newTimAt, Nat.add_le_add_iff_right]
  induction els with
  | nil => exact Nat.le_refl _
  | cons e els ih =>
    have span (id : Byte) : elemSpan id (e :: els) =
        if e.id == id then e.body.length + 2 else elemSpan id els := by
      rw [elemSpan, List.find?_cons]
      split
      next here => rw [here]; rfl
      next other => rw [other]; rfl
    have rest_ssid := one 0 els
    have rest_rates := one 1 els
    rw [span, span, encodeAll_cons, length_append, length_encode]
    split
    next ssid =>
      have not_rates : ¬ (e.id == (1 : Byte)) = true := by
        rw [beq_iff_eq.mp ssid]
        decide
      rw [if_neg not_rates]
      omega
    · split
      · omega
      · omega

/-! ## Writing the element -/

theorem exists_timElem {bmp : List Byte} (some_byte : 1 ≤ bmp.length) (few : bmp.length ≤ 250) :
    ∃ t : Elem, t.encode = (rtwSetTimIe 0 1 bmp).1 ∧ isTim t = true ∧
      (∃ rest, t.body = 0 :: 1 :: rest) ∧
      (rtwSetTimIe 0 1 bmp).2.toNat = (rtwSetTimIe 0 1 bmp).1.length := by
  obtain ⟨tim, decoded, count, period, -⟩ := rtwSetTimIe_decode 0 1 some_byte few
  revert decoded
  rw [(rtwSetTimIe_lengths 0 1 some_byte few).2]
  fun_cases Tim.decode (rtwSetTimIe 0 1 bmp).1 with
  | case1 id len dtimCnt dtimPeriod control bitmap header =>
    intro decoded
    cases decoded
    obtain ⟨rfl, length⟩ := header
    have count : dtimCnt = 0 := count
    have period : dtimPeriod = 1 := period
    have bound := len.toNat_lt
    refine ⟨⟨wlanEidTim, dtimCnt :: dtimPeriod :: control :: bitmap, ?_⟩, ?_, rfl, ?_, rfl⟩
    · simp only [length_cons]
      omega
    · have total : (dtimCnt :: dtimPeriod :: control :: bitmap).length = len.toNat := by
        simp only [length_cons]
        omega
      have len_byte : UInt8.ofNat (dtimCnt :: dtimPeriod :: control :: bitmap).length = len := by
        rw [total, UInt8.ofNat_toNat]
      exact congrArg (wlanEidTim :: · :: dtimCnt :: dtimPeriod :: control :: bitmap) len_byte
    · exact ⟨control :: bitmap, by rw [count, period]⟩
  | case2 id len dtimCnt dtimPeriod control bitmap other => exact nofun
  | case3 => exact nofun

section Update

variable {malloc : ℕ → Bool} {net : BcnNetwork} {bmp : List Byte} {place : TimPlacement}

theorem updateBcnTim_eq (placed : net.placement = some place)
    (returned : (rtwSetTimIe 0 1 bmp).2.toNat = (rtwSetTimIe 0 1 bmp).1.length) :
    updateBcnTim malloc net bmp =
      some ⟨paste (paste net.ies place.dstIe (rtwSetTimIe 0 1 bmp).1)
          (place.dstIe + (rtwSetTimIe 0 1 bmp).1.length)
          (if place.remainderIelen > 0 ∧ malloc place.remainderIelen then
            window net.ies place.premainderIe place.remainderIelen else []),
        (place.dstIe + (rtwSetTimIe 0 1 bmp).1.length + place.remainderIelen) % 2 ^ 32⟩ := by
  rw [updateBcnTim, placed, map_some, ← returned]

theorem holds_update {front mid back tim : List Byte}
    (holds : Holds net.ies 0 (front ++ (mid ++ back)))
    (alloc : malloc back.length = true) :
    Holds (paste (paste net.ies front.length tim) (front.length + tim.length)
      (if back.length > 0 ∧ malloc back.length then
        window net.ies (front.length + mid.length) back.length else [])) 0
      (front ++ (tim ++ back)) := by
  obtain ⟨at_front, rest⟩ := holds_append.mp holds
  obtain ⟨-, at_back⟩ := holds_append.mp rest
  rw [Nat.zero_add] at at_back
  have backup : (if back.length > 0 ∧ malloc back.length then
      window net.ies (front.length + mid.length) back.length else []) = back := by
    split
    · exact at_back.window_eq rfl
    next nothing =>
      have empty : ¬ back.length > 0 := fun some_byte => nothing ⟨some_byte, alloc⟩
      exact (length_eq_zero_iff.mp (Nat.eq_zero_of_not_pos empty)).symm
  rw [backup, holds_append, holds_append, Nat.zero_add]
  refine ⟨(at_front.paste (.inl ?_)).paste (.inl ?_), (holds_paste _ _ _).paste (.inl ?_),
    holds_paste _ _ _⟩
  · rw [Nat.zero_add]
  · rw [Nat.zero_add]
    exact Nat.le_add_right _ _
  · exact Nat.le_refl _

end Update

section Elems

variable {net : BcnNetwork} {fixed tim : List Byte} {els : List Elem}

theorem TimUpdated.no_tim (updated : TimUpdated fixed els tim net)
    (grown : net.ieLength = beaconIeOffset + (encodeAll els).length + tim.length) :
    els.countP isTim = 0 := by
  obtain ⟨before, t, after, rfl, others, held⟩ := updated
  have length := held.length
  have whole := congrArg (fun es => (encodeAll es).length) others
  have filtered := length_encodeAll_filter (!isTim ·) els
  simp only [encodeAll_append, encodeAll_cons, length_append] at length whole
  rw [countP_eq_zero]
  intro e member
  have kept := filtered.2 (by omega) e member
  rw [Bool.not_eq_true'] at kept
  rw [kept]
  exact Bool.false_ne_true

theorem filter_eq_self_of_no_tim (no_tim : els.countP isTim = 0) : els.filter (!isTim ·) = els := by
  rw [countP_eq_zero] at no_tim
  apply filter_eq_self.mpr
  intro e member
  rw [Bool.not_eq_true', Bool.eq_false_iff]
  exact no_tim e member

theorem insert_eq_iff {t : Elem} (is_tim : isTim t = true) (no_tim : els.countP isTim = 0) {n : ℕ}
    (fits : n ≤ (encodeAll els).length) :
    (∃ before after, before ++ after = els ∧
      (encodeAll els).take n ++ (t.encode ++ (encodeAll els).drop n) =
        encodeAll before ++ (t.encode ++ encodeAll after)) ↔
    ∃ before after, els = before ++ after ∧ n ≤ (encodeAll before).length ∧
      t.encode ++ (encodeAll before).drop n = (encodeAll before).drop n ++ t.encode := by
  constructor
  · rintro ⟨before, after, rfl, same⟩
    rw [encodeAll_append] at same fits
    rcases Nat.lt_or_ge (encodeAll before).length n with longer | shorter
    · -- the element would start in front of the place: what is there is an element of the list
      exfalso
      rw [take_append, take_of_length_le longer.le, append_assoc,
        append_cancel_left_eq] at same
      cases after with
      | nil =>
        rw [length_append, encodeAll_nil, length_nil] at fits
        omega
      | cons e after =>
        obtain ⟨k, k_eq⟩ := Nat.exists_eq_succ_of_ne_zero (Nat.sub_ne_zero_of_lt longer)
        rw [encodeAll_cons, k_eq] at same
        have ids : e.id = t.id := (cons.inj same).1
        refine countP_eq_zero.mp no_tim e (mem_append_right _ mem_cons_self) ?_
        rw [isTim, ids]
        exact is_tim
    · refine ⟨before, after, rfl, shorter, ?_⟩
      have split := take_append_drop n (encodeAll before)
      rw [take_append_of_le_length shorter, drop_append_of_le_length shorter] at same
      nth_rewrite 3 [← split] at same
      rw [append_assoc, append_cancel_left_eq, ← append_assoc, ← append_assoc,
        append_cancel_right_eq] at same
      exact same
  · rintro ⟨before, after, rfl, shorter, commute⟩
    refine ⟨before, after, rfl, ?_⟩
    have split := take_append_drop n (encodeAll before)
    rw [encodeAll_append, take_append_of_le_length shorter,
      drop_append_of_le_length shorter]
    nth_rewrite 3 [← split]
    rw [append_assoc, ← append_assoc t.encode, commute, append_assoc]

theorem not_timUpdated_of_beyond {mem : ℕ → Byte} {backup : List Byte} {n : ℕ}
    (held : HoldsElems net fixed els) {t : Elem} (is_tim : isTim t = true)
    (head : ∃ rest, t.body = 0 :: 1 :: rest) (no_tim : els.countP isTim = 0)
    (beyond : (encodeAll els).length < n) (near : n ≤ (encodeAll els).length + 3)
    (ies : mem = paste (paste net.ies (beaconIeOffset + n) t.encode)
      (beaconIeOffset + n + t.encode.length) backup) (m : ℕ) :
    ¬ TimUpdated fixed els t.encode ⟨mem, m⟩ := by
  rintro ⟨before, t', after, t_eq, others, updated⟩
  rw [filter_eq_self_of_no_tim no_tim] at others
  subst others
  have new := (holds_append.mp updated.holds).2
  have old := (holds_append.mp held.holds).2
  rw [updated.fixed_length, Nat.zero_add, encodeAll_append, encodeAll_cons, t_eq] at new
  rw [held.fixed_length, Nat.zero_add, encodeAll_append] at old
  have new := (holds_append.mp new).2
  have old := (holds_append.mp old).2
  have kept (i : ℕ) (below : i < beaconIeOffset + n) : mem i = net.ies i := by
    rw [ies, paste_of_lt (by omega), paste_of_lt below]
  have id_eq : t.id = wlanEidTim := beq_iff_eq.mp is_tim
  have first : mem (beaconIeOffset + (encodeAll before).length) = wlanEidTim :=
    (holds_append.mp new).1.1.trans id_eq
  rw [encodeAll_append, length_append] at beyond near
  cases after with
  | cons e after =>
    -- the first element behind starts with the id of a TIM element
    rw [kept _ (by omega)] at first
    refine countP_eq_zero.mp no_tim e (mem_append_right _ mem_cons_self) ?_
    rw [isTim, ← old.1, first]
    rfl
  | nil =>
    obtain ⟨rest, body_eq⟩ := head
    have here := (holds_append.mp new).1
    have there : Holds mem (beaconIeOffset + n) t.encode := by
      rw [ies]
      exact (holds_paste net.ies (beaconIeOffset + n) t.encode).paste (.inl (Nat.le_refl _))
    rw [holds_encode, body_eq] at here there
    obtain ⟨-, here_len, here_count, here_period, -⟩ := here
    obtain ⟨there_id, there_len, -⟩ := there
    rw [encodeAll_nil, length_nil, Nat.add_zero] at beyond near
    obtain ⟨k, rfl⟩ := Nat.exists_eq_add_of_lt beyond
    rw [id_eq] at there_id
    have places : k = 0 ∨ k = 1 ∨ k = 2 := by omega
    rcases places with rfl | rfl | rfl
    · have len_zero := there_len.symm.trans here_count
      have len_tim := here_len.symm.trans there_id
      exact absurd (len_zero.symm.trans len_tim) (by decide)
    · exact absurd (here_count.symm.trans there_id) (by decide)
    · exact absurd (here_period.symm.trans there_id) (by decide)

end Elems

section Main

variable {malloc : ℕ → Bool} {net : BcnNetwork} {fixed bmp : List Byte} {els : List Elem} {t : Elem}
  (alloc : ∀ n ≤ maxIeSz, malloc n = true) (t_eq : t.encode = (rtwSetTimIe 0 1 bmp).1)
  (returned : (rtwSetTimIe 0 1 bmp).2.toNat = (rtwSetTimIe 0 1 bmp).1.length)
  (room : net.ieLength + t.encode.length ≤ maxIeSz)

include alloc t_eq returned room

theorem updateBcnTim_replace {front back : List Elem} {e : Elem}
    (held : HoldsElems net fixed (front ++ e :: back)) (none_before : ∀ x ∈ front, isTim x = false)
    (is_tim : isTim e = true) (body : e.body ≠ []) :
    ∃ net', updateBcnTim malloc net bmp = some net' ∧
      HoldsElems net' fixed (front ++ t :: back) := by
  have length := held.length
  have holds := held.holds
  simp only [encodeAll_append, encodeAll_cons, length_append, length_encode] at length holds
  rw [maxIeSz] at room
  rw [beaconIeOffset] at length
  obtain ⟨found, len⟩ := @HoldsElems.getIe_found net fixed front back e timIe held
    (by rw [maxIeSz]; omega) none_before is_tim
  have pos : e.body.length > 0 := length_pos_iff.mpr body
  have front_length : (fixed ++ encodeAll front).length =
      beaconIeOffset + (encodeAll front).length := by
    rw [length_append, held.fixed_length]
  have placed : net.placement = some ⟨(fixed ++ encodeAll front).length, (encodeAll back).length,
      (fixed ++ encodeAll front).length + e.encode.length⟩ := by
    have remainder : (net.ieLength + 2 ^ 32 - (beaconIeOffset + (encodeAll front).length) -
        (e.body.length + 2)) % 2 ^ 32 = (encodeAll back).length := by
      rw [beaconIeOffset]
      omega
    rw [BcnNetwork.placement, found]
    simp only [len, if_pos pos, remainder, front_length, length_encode]
  refine ⟨_, updateBcnTim_eq placed returned, held.fixed_length, ?_, ?_⟩
  · rw [← append_assoc] at holds
    rw [encodeAll_append, encodeAll_cons, ← append_assoc, t_eq]
    exact holds_update holds (alloc _ (by rw [maxIeSz]; omega))
  · simp only [encodeAll_append, encodeAll_cons, length_append, ← t_eq, length_encode,
      held.fixed_length, beaconIeOffset] at room ⊢
    omega

theorem updateBcnTim_insert (held : HoldsElems net fixed els)
    (placed : net.placement = net.newPlacement) :
    ∃ net', updateBcnTim malloc net bmp = some net' ∧
      net'.ieLength = beaconIeOffset + (encodeAll els).length + t.encode.length ∧
      (∃ backup, net'.ies = paste (paste net.ies (beaconIeOffset + newTimAt els) t.encode)
        (beaconIeOffset + newTimAt els + t.encode.length) backup) ∧
      (newTimAt els ≤ (encodeAll els).length →
        Holds net'.ies 0 (fixed ++ ((encodeAll els).take (newTimAt els) ++
          (t.encode ++ (encodeAll els).drop (newTimAt els))))) := by
  have length := held.length
  have near := newTimAt_le els
  rw [maxIeSz] at room
  rw [held.newPlacement_eq (by rw [maxIeSz]; omega)] at placed
  refine ⟨_, updateBcnTim_eq placed returned, ?_, ?_, ?_⟩
  · simp only [← t_eq, beaconIeOffset] at length ⊢
    omega
  · exact ⟨_, by rw [t_eq]⟩
  · intro fits
    have front_length : (fixed ++ (encodeAll els).take (newTimAt els)).length =
        beaconIeOffset + newTimAt els := by
      rw [length_append, held.fixed_length, length_take, Nat.min_eq_left fits]
    have back_length : (net.ieLength + 2 ^ 32 - (beaconIeOffset + newTimAt els)) % 2 ^ 32 =
        ((encodeAll els).drop (newTimAt els)).length := by
      rw [length_drop, length, beaconIeOffset]
      rw [beaconIeOffset] at length
      omega
    have holds : Holds net.ies 0 ((fixed ++ (encodeAll els).take (newTimAt els)) ++
        ([] ++ (encodeAll els).drop (newTimAt els))) := by
      rw [nil_append, append_assoc, take_append_drop]
      exact held.holds
    have updated := @holds_update malloc net _ _ _ t.encode holds
      (alloc _ (by rw [length_drop, maxIeSz]; omega))
    rw [front_length, length_nil, Nat.add_zero, append_assoc, ← back_length] at updated
    rw [← t_eq]
    exact updated

section

variable (held : HoldsElems net fixed els) (new_tim : isTim t = true)
  (head : ∃ rest, t.body = 0 :: 1 :: rest)
include held new_tim head

theorem updateBcnTim_of_no_tim (no_tim : els.countP isTim = 0) :
    ∃ net', updateBcnTim malloc net bmp = some net' ∧
      (TimUpdated fixed els t.encode net' ↔ TimPlaceRight els t.encode) := by
  have absent : ∀ e ∈ els, (e.id == UInt8.ofNat timIe) = false := fun e member =>
    Bool.eq_false_iff.mpr (countP_eq_zero.mp no_tim e member)
  have placed : net.placement = net.newPlacement := by
    rw [BcnNetwork.placement, held.getIe_missing (Nat.le_trans (Nat.le_add_right _ _) room) absent]
  obtain ⟨⟨ies, ieLength⟩, update_eq, grown, ⟨backup, ies_eq⟩, inserted⟩ :=
    updateBcnTim_insert alloc t_eq returned room held placed
  refine ⟨_, update_eq, ?_⟩
  have right_iff : TimPlaceRight els t.encode ↔ ∃ before after, els = before ++ after ∧
      newTimAt els ≤ (encodeAll before).length ∧
        t.encode ++ (encodeAll before).drop (newTimAt els) =
        (encodeAll before).drop (newTimAt els) ++ t.encode := by
    rw [TimPlaceRight, no_tim]
    simp
  rw [right_iff]
  by_cases fits : newTimAt els ≤ (encodeAll els).length
  · have holds : Holds ies 0 _ := inserted fits
    rw [← insert_eq_iff new_tim no_tim fits]
    constructor
    · rintro ⟨before, t', after, t'_eq, others, updated⟩
      rw [filter_eq_self_of_no_tim no_tim] at others
      refine ⟨before, after, others, ?_⟩
      have updated_holds := updated.holds
      rw [encodeAll_append, encodeAll_cons, t'_eq] at updated_holds
      have text := (holds.window_eq rfl).symm.trans (updated_holds.window_eq ?_)
      · exact append_cancel_left text
      · simp only [← others, length_append, length_take, length_drop,
          encodeAll_append] at fits ⊢
        omega
    · rintro ⟨before, after, others, text⟩
      refine ⟨before, t, after, rfl, ?_, held.fixed_length, ?_, ?_⟩
      · rw [others, filter_eq_self_of_no_tim no_tim]
      · rw [encodeAll_append, encodeAll_cons, ← text]
        exact holds
      · rw [grown, ← others]
        simp only [encodeAll_append, encodeAll_cons, length_append]
        omega
  · apply iff_of_false
    · exact not_timUpdated_of_beyond held new_tim head no_tim (Nat.lt_of_not_le fits)
        (newTimAt_le els) ies_eq _
    · rintro ⟨before, after, rfl, counted, -⟩
      rw [encodeAll_append, length_append] at fits
      omega

theorem updateBcnTim_elems :
    ∃ net', updateBcnTim malloc net bmp = some net' ∧
      (TimUpdated fixed els t.encode net' ↔ TimPlaceRight els t.encode) := by
  rcases first_hit isTim els with none_tim | ⟨front, e, back, rfl, none_before, is_tim⟩
  · have no_tim : els.countP isTim = 0 :=
      countP_eq_zero.mpr fun e member => Bool.eq_false_iff.mp (none_tim e member)
    exact updateBcnTim_of_no_tim alloc t_eq returned room held new_tim head no_tim
  have count : (front ++ e :: back).countP isTim = back.countP isTim + 1 := by
    have front_count : front.countP isTim = 0 :=
      countP_eq_zero.mpr fun x member => Bool.eq_false_iff.mp (none_before x member)
    rw [countP_append, countP_cons_of_pos is_tim, front_count, Nat.zero_add]
  by_cases body : e.body = []
  · -- an element without a body is not replaced: it stays beside the new one
    have small := Nat.le_trans (Nat.le_add_right _ _) room
    obtain ⟨found, len⟩ :=
      @HoldsElems.getIe_found net fixed front back e timIe held small none_before is_tim
    have placed : net.placement = net.newPlacement := by
      rw [BcnNetwork.placement, found]
      simp only [len, body, length_nil, gt_iff_lt, Nat.lt_irrefl, if_false]
    obtain ⟨net', update_eq, grown, -⟩ := updateBcnTim_insert alloc t_eq returned room held placed
    refine ⟨net', update_eq, iff_of_false (fun updated => ?_) ?_⟩
    · have no_tim := updated.no_tim grown
      omega
    · rintro (⟨-, bodies⟩ | ⟨no_tim, -⟩)
      · exact bodies e (mem_append_right _ mem_cons_self) is_tim body
      · omega
  · obtain ⟨net', update_eq, updated⟩ :=
      updateBcnTim_replace alloc t_eq returned room held none_before is_tim body
    refine ⟨net', update_eq, ?_⟩
    have front_filter : front.filter (!isTim ·) = front :=
      filter_eq_self.mpr fun x member => by rw [none_before x member]; rfl
    have kept : (front ++ e :: back).filter (!isTim ·) = front ++ back.filter (!isTim ·) := by
      rw [filter_append, front_filter, filter_cons_of_neg (by rw [is_tim]; decide)]
    constructor
    · rintro ⟨before, t', after, t'_eq, others, held'⟩
      -- by the lengths, nothing behind the element is left out
      have lengths := updated.length.symm.trans held'.length
      have whole := congrArg (fun es => (encodeAll es).length) (others.trans kept)
      have filtered := length_encodeAll_filter (!isTim ·) back
      simp only [encodeAll_append, encodeAll_cons, length_append, t'_eq] at lengths whole
      have back_count : back.countP isTim = 0 := by
        rw [countP_eq_zero]
        intro x member
        have not_tim := filtered.2 (by omega) x member
        rw [Bool.not_eq_true'] at not_tim
        exact Bool.eq_false_iff.mp not_tim
      refine .inl ⟨by omega, fun x member tim => ?_⟩
      rcases mem_append.mp member with in_front | behind
      · exact absurd tim (Bool.eq_false_iff.mp (none_before x in_front))
      · rcases mem_cons.mp behind with rfl | in_back
        · exact body
        · exact absurd tim (countP_eq_zero.mp back_count x in_back)
    · rintro (⟨one, -⟩ | ⟨no_tim, -⟩)
      · have back_count : back.countP isTim = 0 := by omega
        rw [filter_eq_self_of_no_tim back_count] at kept
        exact ⟨front, t, back, rfl, kept.symm, updated⟩
      · omega

end

end Main

/-- For every template of well-formed elements and every bitmap, the update leaves one element that
encodes the bitmap beside all the others exactly if the place is right. -/
theorem beacon_tim_update_iff (malloc : ℕ → Bool) (net : BcnNetwork) (fixed : List Byte)
    (els : List Elem) (bmp : List Byte) (held : HoldsElems net fixed els)
    (some_byte : 1 ≤ bmp.length) (few : bmp.length ≤ 250)
    (room : net.ieLength + (rtwSetTimIe 0 1 bmp).1.length ≤ maxIeSz)
    (alloc : ∀ n ≤ maxIeSz, malloc n = true) :
    (∃ tim, Tim.decode (rtwSetTimIe 0 1 bmp).1 = some tim ∧ tim.bitmap bmp.length = bmp) ∧
    ∃ net', updateBcnTim malloc net bmp = some net' ∧
      (TimUpdated fixed els (rtwSetTimIe 0 1 bmp).1 net' ↔
        TimPlaceRight els (rtwSetTimIe 0 1 bmp).1) := by
  obtain ⟨tim, decoded, -, -, -, bitmap⟩ := rtwSetTimIe_decode 0 1 some_byte few
  obtain ⟨t, t_eq, new_tim, head, returned⟩ := exists_timElem some_byte few
  rw [← t_eq] at room
  have updated := updateBcnTim_elems alloc t_eq returned room held new_tim head
  rw [t_eq] at updated
  exact ⟨⟨tim, decoded, bitmap⟩, updated⟩

def usualElems : List Elem :=
  [⟨0, [0x61], by decide⟩, ⟨1, [0x82, 0x84], by decide⟩, ⟨3, [6], by decide⟩,
    ⟨45, [0x2c, 0x01], by decide⟩]

def templateOf : BcnNetwork :=
  ⟨image 0 (List.replicate 12 0 ++ encodeAll els), 12 + (encodeAll els).length⟩

theorem holdsElems_templateOf : HoldsElems (templateOf els) (List.replicate 12 0) els :=
  ⟨rfl, holds_image _, rfl⟩

theorem beacon_tim_update_usual :
    ∃ net', updateBcnTim (fun _ => true) (templateOf usualElems) [2] = some net' ∧
      TimUpdated (List.replicate 12 0) usualElems (rtwSetTimIe 0 1 [2]).1 net' := by
  obtain ⟨-, net', updated, right⟩ := beacon_tim_update_iff (fun _ => true) (templateOf usualElems)
    (List.replicate 12 0) usualElems [2] (holdsElems_templateOf _) (by decide) (by decide)
    (by decide) (fun _ _ => rfl)
  exact ⟨net', updated, right.mpr (.inr ⟨by decide, usualElems.take 3, usualElems.drop 3,
    by decide, by decide, by decide⟩)⟩

def elemsWithoutDs : List Elem :=
  [⟨0, [0x61], by decide⟩, ⟨1, [0x8c, 0x12], by decide⟩, ⟨45, [0x2c, 0x01], by decide⟩]

theorem tim_splits_ht_capabilities :
    (updateBcnTim (fun _ => true) (templateOf elemsWithoutDs) [2]).map
        (fun net => (window net.ies 12 (net.ieLength - 12), net.ieLength)) =
      some ([0, 1, 0x61] ++ [1, 2, 0x8c, 0x12] ++ [45, 2, 0x2c] ++ [5, 4, 0, 1, 0, 2] ++ [0x01],
      29) ∧
    ¬ ∃ net', updateBcnTim (fun _ => true) (templateOf elemsWithoutDs) [2] = some net' ∧
      TimUpdated (List.replicate 12 0) elemsWithoutDs [5, 4, 0, 1, 0, 2] net' := by
  have left : (updateBcnTim (fun _ => true) (templateOf elemsWithoutDs) [2]).map
      (fun net => (window net.ies 12 (net.ieLength - 12), net.ieLength)) =
      some ([0, 1, 0x61] ++ [1, 2, 0x8c, 0x12] ++ [45, 2, 0x2c] ++ [5, 4, 0, 1, 0, 2] ++ [0x01],
        29) := by
    decide +kernel
  refine ⟨left, ?_⟩
  rintro ⟨net', updated, before, t, after, t_eq, others, held⟩
  rw [updated, map_some, some_inj, Prod.mk.injEq] at left
  have kept : elemsWithoutDs.filter (!isTim ·) = elemsWithoutDs := by decide
  rw [kept] at others
  have part := (holds_append.mp held.holds).2
  rw [held.fixed_length, Nat.zero_add] at part
  have text := left.1.symm.trans (part.window_eq held.limit)
  rw [encodeAll_append, encodeAll_cons, t_eq] at text
  have front : before = elemsWithoutDs.take before.length := by
    rw [← others, take_left]
  have back : after = elemsWithoutDs.drop before.length := by
    rw [← others, drop_left]
  have bound : before.length ≤ 3 := by
    have length := congrArg List.length others
    rw [length_append] at length
    exact Nat.le_trans (Nat.le_add_right _ _) length.le
  have table : ∀ n ≤ 3, [0, 1, 0x61] ++ [1, 2, 0x8c, 0x12] ++ [45, 2, 0x2c] ++ [5, 4, 0, 1, 0, 2] ++
      [0x01] ≠ encodeAll (elemsWithoutDs.take n) ++ ([5, 4, 0, 1, 0, 2] ++
        encodeAll (elemsWithoutDs.drop n)) := by
    decide
  rw [front, back] at text
  exact table _ bound text

end Rtl88x2bu.Ie
