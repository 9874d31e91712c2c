import Rtl88x2bu.Ie.Rsne

/-!
# The TIM element

`rtw_set_tim_ie` (`rust/rtw_ap_rest.rs`) keeps of the bitmap the part between the first and the last
byte that is not zero, from an even byte on.
-/

namespace Rtl88x2bu.Ie

open List

def wlanEidTim : Byte := 5

/-! ## Writing -/

def firstLoop : List Byte → ℕ → ℕ
  | [], first => first
  | byte :: bytes, first => if byte = 0 then firstLoop bytes (first + 1) else first

def lastLoop (bmp : List Byte) : ℕ → ℕ
  | 0 => 0
  | last + 1 => if bmp.getD (last + 1) 0 = 0 then lastLoop bmp last else last + 1

def bmpNotEmpty (bmp : List Byte) : Bool :=
  bmp.any (· != 0)

def bmpIsSet (bmp : List Byte) (id : Byte) : Bool :=
  bmp.getD (id / 8).toNat 0 &&& (1 <<< (id % 8)) != 0

/-- `n1` and `bmp_len`: where the part of the bitmap starts that is written, and its length. -/
def timPart (bmp : List Byte) : Byte × Byte :=
  if bmpNotEmpty bmp then
    let n1 := UInt8.ofNat (firstLoop bmp 0 &&& 0xFE)
    let n2 := UInt8.ofNat (lastLoop bmp (bmp.length - 1))
    (n1, n2 - n1 + 1)
  else (0, 1)

def rtwSetTimIe (dtimCnt dtimPeriod : Byte) (bmp : List Byte) : List Byte × Byte :=
  let (n1, bmpLen) := timPart bmp
  let part :=
    if bmp ≠ [] ∧ bmpLen > 0 ∧ n1.toNat + bmpLen.toNat ≤ bmp.length then
      (bmp.drop n1.toNat).take bmpLen.toNat
    else []
  ([wlanEidTim, 2 + 1 + bmpLen, dtimCnt, dtimPeriod, (if bmpIsSet bmp 0 then 1 else 0) ||| n1] ++
    part,
    2 + 2 + 1 + bmpLen)

/-! ## Reading -/

/-- What a TIM element says to a station that reads it. -/
structure Tim where
  dtimCnt : Byte
  dtimPeriod : Byte
  multicast : Bool
  -- the byte of the virtual bitmap that the partial one starts with
  offset : ℕ
  partialBitmap : List Byte

/-- The element as 802.11 defines it: `none` unless the length byte says how many bytes there
are. -/
def Tim.decode : List Byte → Option Tim
  | id :: len :: dtimCnt :: dtimPeriod :: control :: bitmap =>
    if id = wlanEidTim ∧ len.toNat = 3 + bitmap.length then
      some ⟨dtimCnt, dtimPeriod, control &&& 1 = 1, (control &&& 0xFE).toNat, bitmap⟩
    else none
  | _ => none

/-- The first `n` bytes of the virtual bitmap: what is not in the partial one is zero. -/
def Tim.bitmap (tim : Tim) (n : ℕ) : List Byte :=
  (List.range n).map fun i =>
    if tim.offset ≤ i then tim.partialBitmap.getD (i - tim.offset) 0 else 0

/-! ## The two loops -/

section Loops

variable {bmp : List Byte}

theorem firstLoop_eq (bmp : List Byte) (first : ℕ) :
    firstLoop bmp first = first + firstLoop bmp 0 := by
  induction bmp generalizing first with
  | nil => rfl
  | cons byte bmp ih =>
    rw [firstLoop, firstLoop]
    split
    · rw [ih (first + 1), ih (0 + 1)]
      omega
    · rfl

theorem getD_of_lt_firstLoop {i : ℕ} (before : i < firstLoop bmp 0) : bmp.getD i 0 = 0 := by
  induction bmp generalizing i with
  | nil => rfl
  | cons byte bmp ih =>
    rw [firstLoop] at before
    split at before
    next zero =>
      rw [firstLoop_eq] at before
      cases i with
      | zero => exact zero
      | succ i =>
        rw [getD_cons_succ]
        exact ih (by omega)
    · exact absurd before (Nat.not_lt_zero _)

theorem firstLoop_le {i : ℕ} (set : bmp.getD i 0 ≠ 0) : firstLoop bmp 0 ≤ i := by
  by_contra before
  exact set (getD_of_lt_firstLoop (Nat.not_le.mp before))

theorem getD_of_lastLoop_lt {last i : ℕ} (within : i ≤ last) (behind : lastLoop bmp last < i) :
    bmp.getD i 0 = 0 := by
  induction last with
  | zero =>
    rw [lastLoop] at behind
    omega
  | succ last ih =>
    rw [lastLoop] at behind
    split at behind
    next zero =>
      rcases Nat.lt_or_eq_of_le within with earlier | rfl
      · exact ih (Nat.le_of_lt_succ earlier) behind
      · exact zero
    · omega

theorem lastLoop_le (bmp : List Byte) (last : ℕ) : lastLoop bmp last ≤ last := by
  induction last with
  | zero => exact Nat.le_refl _
  | succ last ih =>
    rw [lastLoop]
    split
    · exact Nat.le_succ_of_le ih
    · exact Nat.le_refl _

theorem le_lastLoop {last i : ℕ} (within : i ≤ last) (set : bmp.getD i 0 ≠ 0) :
    i ≤ lastLoop bmp last := by
  by_contra behind
  exact set (getD_of_lastLoop_lt within (Nat.not_le.mp behind))

theorem exists_set_of_bmpNotEmpty (some_set : bmpNotEmpty bmp = true) :
    ∃ i < bmp.length, bmp.getD i 0 ≠ 0 := by
  obtain ⟨byte, member, set⟩ := any_eq_true.mp some_set
  obtain ⟨i, inside, rfl⟩ := mem_iff_getElem.mp member
  refine ⟨i, inside, ?_⟩
  rw [getD_eq_getElem _ _ inside]
  simpa using set

theorem getD_of_empty (none_set : bmpNotEmpty bmp = false) (i : ℕ) : bmp.getD i 0 = 0 := by
  by_cases inside : i < bmp.length
  · rw [getD_eq_getElem _ _ inside]
    have clear := any_eq_false.mp none_set (bmp.get ⟨i, inside⟩) (getElem_mem inside)
    simpa using clear
  · exact getD_eq_default _ _ (Nat.not_lt.mp inside)

end Loops

/-! ## The part that is written -/

/-- The part lies in the bitmap, from an even byte on, and outside it every byte is zero. -/
structure TimPart (bmp : List Byte) (n1 bmpLen : ℕ) : Prop where
  pos : 0 < bmpLen
  even : n1 % 2 = 0
  inside : n1 + bmpLen ≤ bmp.length
  outside : ∀ i, i < n1 ∨ n1 + bmpLen ≤ i → bmp.getD i 0 = 0

theorem and_fe_eq (n : ℕ) (small : n < 256) : n &&& 0xFE = n / 2 * 2 := by
  revert n
  decide +kernel

theorem timPart_spec {bmp : List Byte} (some_byte : 1 ≤ bmp.length) (few : bmp.length ≤ 250) :
    TimPart bmp (timPart bmp).1.toNat (timPart bmp).2.toNat := by
  unfold timPart
  split
  next some_set =>
    obtain ⟨i, inside, set⟩ := exists_set_of_bmpNotEmpty some_set
    have first_le := firstLoop_le set
    have le_last := le_lastLoop (show i ≤ bmp.length - 1 by omega) set
    have last_le := lastLoop_le bmp (bmp.length - 1)
    obtain ⟨first, first_eq⟩ : ∃ first, firstLoop bmp 0 = first := ⟨_, rfl⟩
    obtain ⟨last, last_eq⟩ : ∃ last, lastLoop bmp (bmp.length - 1) = last := ⟨_, rfl⟩
    rw [first_eq] at first_le
    rw [last_eq] at le_last last_le
    have n1_eq : (UInt8.ofNat (first &&& 0xFE)).toNat = first / 2 * 2 := by
      rw [UInt8.toNat_ofNat', and_fe_eq first (by omega), Nat.mod_eq_of_lt (by omega)]
    have n2_eq : (UInt8.ofNat last).toNat = last := by
      rw [UInt8.toNat_ofNat', Nat.mod_eq_of_lt (by omega)]
    have len_eq : (UInt8.ofNat last - UInt8.ofNat (first &&& 0xFE) + 1).toNat =
        last - first / 2 * 2 + 1 := by
      rw [UInt8.toNat_add, UInt8.toNat_sub_of_le _ _ (by rw [UInt8.le_iff_toNat_le]; omega), n1_eq,
        n2_eq]
      exact Nat.mod_eq_of_lt (show last - first / 2 * 2 + 1 < 256 by omega)
    simp only [first_eq, last_eq, n1_eq, len_eq]
    constructor
    · omega
    · omega
    · omega
    · rintro j (before | behind)
      · exact getD_of_lt_firstLoop (by omega)
      · by_cases within : j ≤ bmp.length - 1
        · exact getD_of_lastLoop_lt within (by omega)
        · exact getD_eq_default _ _ (by omega)
  next none_set =>
    exact ⟨by decide, rfl, some_byte, fun j _ => getD_of_empty (by simpa using none_set) j⟩

theorem control_fields {n1 : Byte} (even : n1.toNat % 2 = 0) (multicast : Bool) :
    (((if multicast then 1 else 0) ||| n1) &&& 1 = 1 ↔ multicast = true) ∧
      ((if multicast then 1 else 0) ||| n1) &&& 0xFE = n1 := by
  revert n1 multicast
  have table : ∀ (n1 : Fin 256) (multicast : Bool), n1.val % 2 = 0 →
      (((if multicast then 1 else 0) ||| UInt8.ofNat n1.val) &&& 1 = 1 ↔ multicast = true) ∧
        ((if multicast then 1 else 0) ||| UInt8.ofNat n1.val) &&& 0xFE = UInt8.ofNat n1.val := by
    decide +kernel
  intro n1 even multicast
  have entry := table ⟨n1.toNat, n1.toNat_lt⟩ multicast even
  rwa [UInt8.ofNat_toNat] at entry

section
variable (dtimCnt dtimPeriod : Byte) {bmp : List Byte} (some_byte : 1 ≤ bmp.length)
  (few : bmp.length ≤ 250)
include some_byte few

/-- The element holds a part of the bitmap. -/
theorem exists_timPart : ∃ n1 bmpLen : Byte, TimPart bmp n1.toNat bmpLen.toNat ∧
    rtwSetTimIe dtimCnt dtimPeriod bmp =
      (wlanEidTim :: (2 + 1 + bmpLen) :: dtimCnt :: dtimPeriod ::
        ((if bmpIsSet bmp 0 then 1 else 0) ||| n1) :: (bmp.drop n1.toNat).take bmpLen.toNat,
        2 + 2 + 1 + bmpLen) := by
  have part := timPart_spec some_byte few
  refine ⟨(timPart bmp).1, (timPart bmp).2, part, ?_⟩
  have whole : bmp ≠ [] ∧ (timPart bmp).2 > 0 ∧
      (timPart bmp).1.toNat + (timPart bmp).2.toNat ≤ bmp.length := by
    refine ⟨ne_nil_of_length_pos some_byte, ?_, part.inside⟩
    rw [gt_iff_lt, UInt8.lt_iff_toNat_lt]
    exact part.pos
  simp only [rtwSetTimIe, if_pos whole]
  rfl

theorem rtwSetTimIe_lengths :
    ((rtwSetTimIe dtimCnt dtimPeriod bmp).1.getD 1 0).toNat =
        (rtwSetTimIe dtimCnt dtimPeriod bmp).1.length - 2 ∧
      (rtwSetTimIe dtimCnt dtimPeriod bmp).2.toNat =
        (rtwSetTimIe dtimCnt dtimPeriod bmp).1.length := by
  obtain ⟨n1, bmpLen, ⟨-, -, inside, -⟩, written⟩ :=
    exists_timPart dtimCnt dtimPeriod some_byte few
  rw [written]
  simp only [getD_cons_succ, getD_cons_zero, length_cons, length_take, length_drop]
  have three : (2 + 1 + bmpLen).toNat = (3 + bmpLen.toNat) % 256 := UInt8.toNat_add ..
  have five : (2 + 2 + 1 + bmpLen).toNat = (5 + bmpLen.toNat) % 256 := UInt8.toNat_add ..
  omega

theorem rtwSetTimIe_decode : ∃ tim, Tim.decode (rtwSetTimIe dtimCnt dtimPeriod bmp).1 = some tim ∧
    tim.dtimCnt = dtimCnt ∧ tim.dtimPeriod = dtimPeriod ∧
    tim.multicast = decide (bmp.getD 0 0 &&& 1 ≠ 0) ∧ tim.bitmap bmp.length = bmp := by
  have lengths := (rtwSetTimIe_lengths dtimCnt dtimPeriod some_byte few).1
  obtain ⟨n1, bmpLen, ⟨-, even, inside, outside⟩, written⟩ :=
    exists_timPart dtimCnt dtimPeriod some_byte few
  rw [written] at lengths ⊢
  obtain ⟨multicast_bit, offset⟩ := control_fields even (bmpIsSet bmp 0)
  refine ⟨_, if_pos ⟨rfl, lengths.trans (Nat.add_comm _ 3)⟩, rfl, rfl, ?_, ?_⟩
  · change decide (_ = 1) = _
    rw [decide_eq_decide, multicast_bit]
    exact bne_iff_ne
  · -- byte by byte: inside the part it was copied, outside it is zero
    apply ext_getElem
    · rw [Tim.bitmap, length_map, length_range]
    intro i below below'
    simp only [Tim.bitmap, getElem_map, getElem_range, offset]
    have value : bmp.get ⟨i, below'⟩ = bmp.getD i 0 := (getD_eq_getElem _ _ below').symm
    change _ = bmp.get ⟨i, below'⟩
    rw [value]
    split
    next from_n1 =>
      by_cases within : i < n1.toNat + bmpLen.toNat
      · rw [getD_eq_getElem?_getD, List.getElem?_take_of_lt (by omega),
          List.getElem?_drop, Nat.add_sub_cancel' from_n1, ← getD_eq_getElem?_getD]
      · rw [getD_eq_default _ _ (by simp; omega), outside i (.inr (by omega))]
    next before => exact (outside i (.inl (by omega))).symm

end

/-- For every bitmap, the element that is written decodes to it: the multicast bit is bit 0, the
length byte counts the bytes behind it and the function returns the number of bytes written. -/
theorem tim_encoding_lossless (dtimCnt dtimPeriod : Byte) (bmp : List Byte)
    (some_byte : 1 ≤ bmp.length) (few : bmp.length ≤ 250) :
    ∃ tim, Tim.decode (rtwSetTimIe dtimCnt dtimPeriod bmp).1 = some tim ∧
      tim.dtimCnt = dtimCnt ∧ tim.dtimPeriod = dtimPeriod ∧
      tim.multicast = decide (bmp.getD 0 0 &&& 1 ≠ 0) ∧ tim.bitmap bmp.length = bmp ∧
      ((rtwSetTimIe dtimCnt dtimPeriod bmp).1.getD 1 0).toNat =
        (rtwSetTimIe dtimCnt dtimPeriod bmp).1.length - 2 ∧
      (rtwSetTimIe dtimCnt dtimPeriod bmp).2.toNat =
        (rtwSetTimIe dtimCnt dtimPeriod bmp).1.length := by
  obtain ⟨tim, decoded, count, period, multicast, bitmap⟩ :=
    rtwSetTimIe_decode dtimCnt dtimPeriod some_byte few
  exact ⟨tim, decoded, count, period, multicast, bitmap,
    rtwSetTimIe_lengths dtimCnt dtimPeriod some_byte few⟩

theorem tim_encoding_lossless_four :
    ∃ tim, Tim.decode (rtwSetTimIe 0 1 [1, 0, 0, 0x10]).1 = some tim ∧
      tim.bitmap 4 = [1, 0, 0, 0x10] := by
  obtain ⟨tim, decoded, -, -, -, bitmap, -⟩ :=
    tim_encoding_lossless 0 1 [1, 0, 0, 0x10] (by decide) (by decide)
  exact ⟨tim, decoded, bitmap⟩

end Rtl88x2bu.Ie
