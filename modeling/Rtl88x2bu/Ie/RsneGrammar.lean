import Rtl88x2bu.Lib.Tape
import Rtl88x2bu.Ie.Rsne

/-!
# What the parser of the RSN element accepts

`rtw_rsne_info_parse` accepts the fields of the standard up to any of them, except that the number
of PMKIDs is not accepted without them, and that anything may follow the last field.
-/

namespace Rtl88x2bu.Ie

open List
open Tape

/-! ## The grammar -/

def le16Bytes (n : ℕ) : List Byte :=
  [UInt8.ofNat n, UInt8.ofNat (n / 256)]

structure Counted (size : ℕ) where
  count : ℕ
  small : count < 65536
  items : List Byte
  length : items.length = size * count

structure RsneBody where
  gcs : List Byte
  gcs_length : gcs.length = 4
  pcs : Counted 4
  akm : Counted 4
  cap : List Byte
  cap_length : cap.length = 2
  pmkid : Counted 16
  gmcs : List Byte
  gmcs_length : gmcs.length = 4

def RsneBody.fields (b : RsneBody) : List (List Byte) :=
  [[1, 0], b.gcs, le16Bytes b.pcs.count, b.pcs.items, le16Bytes b.akm.count, b.akm.items, b.cap,
    le16Bytes b.pmkid.count, b.pmkid.items, b.gmcs]

/-- The body is the first `k` fields, possibly with other bytes behind the last. -/
structure RsneAccepted (body : List Byte) (b : RsneBody) (k : ℕ) (extra : List Byte) : Prop where
  version : 1 ≤ k
  fields : k ≤ 10
  -- a number of PMKIDs is followed by the PMKIDs
  not_count : k ≠ 8
  extra_last : k < 10 → extra = []
  text : body = (b.fields.take k).flatten ++ extra

/-- Every pointer and what is said to be there is in an element of `ieLen` bytes. -/
structure InfoInside (info : RsneInfo) (ieLen : ℕ) : Prop where
  gcs : ∀ p ∈ info.gcs, p + 4 ≤ ieLen
  pcs : ∀ p ∈ info.pcsList, p + 4 * info.pcsCnt ≤ ieLen
  akm : ∀ p ∈ info.akmList, p + 4 * info.akmCnt ≤ ieLen
  cap : ∀ p ∈ info.cap, p + 2 ≤ ieLen
  pmkid : ∀ p ∈ info.pmkidList, p + 16 * info.pmkidCnt ≤ ieLen
  gmcs : ∀ p ∈ info.gmcs, p + 4 ≤ ieLen

/-! ## The fields in a memory -/

section Memory

variable {ie : ℕ → Byte} {ieLen : ℕ}
variable {pos n k : ℕ} {info : RsneInfo} {rest : Status × RsneInfo}

def countedAt (ie : ℕ → Byte) (size pos : ℕ) : Counted size :=
  ⟨le16 ie pos, le16_lt ie pos, window ie (pos + 2) (size * le16 ie pos), length_window _ _ _⟩

def akmAt (ie : ℕ → Byte) : ℕ := 10 + 4 * le16 ie 8
def capAt (ie : ℕ → Byte) : ℕ := akmAt ie + 2 + 4 * le16 ie (akmAt ie)
def gmcsAt (ie : ℕ → Byte) : ℕ := capAt ie + 4 + 16 * le16 ie (capAt ie + 2)

/-- The fields as they stand in the memory, whether the element is long enough for them or not. -/
def bodyAt (ie : ℕ → Byte) : RsneBody where
  gcs := window ie 4 4
  gcs_length := length_window _ _ _
  pcs := countedAt ie 4 8
  akm := countedAt ie 4 (akmAt ie)
  cap := window ie (capAt ie) 2
  cap_length := length_window _ _ _
  pmkid := countedAt ie 16 (capAt ie + 2)
  gmcs := window ie (gmcsAt ie) 4
  gmcs_length := length_window _ _ _

theorem length_le16Bytes (n : ℕ) : (le16Bytes n).length = 2 := rfl

theorem le16_of_holds (small : n < 65536) (holds : Holds ie pos (le16Bytes n)) :
    le16 ie pos = n := by
  obtain ⟨low, high, -⟩ := holds
  rw [le16, low, high, UInt8.toNat_ofNat', UInt8.toNat_ofNat']
  omega

theorem le16Bytes_le16 (pos : ℕ) : le16Bytes (le16 ie pos) = window ie pos 2 := by
  have low := (ie pos).toNat_lt
  have first : UInt8.ofNat (le16 ie pos) = ie pos := by
    rw [← UInt8.toNat_inj, UInt8.toNat_ofNat', le16]
    omega
  have second : UInt8.ofNat (le16 ie pos / 256) = ie (pos + 1) := by
    have high := (ie (pos + 1)).toNat_lt
    rw [← UInt8.toNat_inj, UInt8.toNat_ofNat', le16]
    omega
  rw [le16Bytes, first, second]
  rfl

theorem holds_field {fs : List (List Byte)} {f : List Byte} {base j : ℕ} (before : j < k)
    (field : fs[j]? = some f) (holds : Holds ie base (fs.take k).flatten) :
    Holds ie (base + (fs.take j).flatten.length) f := by
  obtain ⟨bound, rfl⟩ := List.getElem?_eq_some_iff.mp field
  have split : fs.take k = fs.take j ++ (fs.get ⟨j, bound⟩ :: (fs.take k).drop (j + 1)) := by
    have whole := (take_append_drop j (fs.take k)).symm
    have inside : j < (fs.take k).length := by
      rw [length_take]
      omega
    rw [take_take, Nat.min_eq_left before.le, drop_eq_getElem_cons inside,
      getElem_take] at whole
    exact whole
  rw [split, flatten_append, flatten_cons, holds_append, holds_append] at holds
  exact holds.2.1

theorem holds_take {fs : List (List Byte)} {base j : ℕ} (before : j ≤ k)
    (holds : Holds ie base (fs.take k).flatten) : Holds ie base (fs.take j).flatten := by
  rw [← take_append_drop j (fs.take k), take_take, Nat.min_eq_left before,
    flatten_append] at holds
  exact (holds_append.mp holds).1

theorem length_fields_of_holds {b : RsneBody} (holds : Holds ie 2 (b.fields.take k).flatten) :
    (b.fields.take k).flatten.length = ((bodyAt ie).fields.take k).flatten.length := by
  have lengths : (b.fields.take 2).flatten.length = 6 ∧
      (b.fields.take 4).flatten.length = 8 + 4 * b.pcs.count ∧
      (b.fields.take 7).flatten.length = 12 + 4 * b.pcs.count + 4 * b.akm.count := by
    simp [RsneBody.fields, length_le16Bytes, b.gcs_length, b.pcs.length, b.akm.length, b.cap_length]
    omega
  have pcs (later : 2 < k) : le16 ie 8 = b.pcs.count := by
    have field : b.fields[2]? = some (le16Bytes b.pcs.count) := rfl
    have found := holds_field later field holds
    rw [lengths.1] at found
    exact le16_of_holds b.pcs.small found
  have akm (later : 4 < k) : le16 ie (akmAt ie) = b.akm.count := by
    have field : b.fields[4]? = some (le16Bytes b.akm.count) := rfl
    have found := holds_field later field holds
    rw [lengths.2.1] at found
    apply le16_of_holds b.akm.small
    rw [akmAt, pcs (by omega)]
    convert found using 1
    omega
  have pmkid (later : 7 < k) : le16 ie (capAt ie + 2) = b.pmkid.count := by
    have field : b.fields[7]? = some (le16Bytes b.pmkid.count) := rfl
    have found := holds_field later field holds
    rw [lengths.2.2] at found
    apply le16_of_holds b.pmkid.small
    rw [capAt, akm (by omega), akmAt, pcs (by omega)]
    convert found using 1
    omega
  -- one case for each of the boundaries, and one for all the lengths behind the last
  match k with
  | 0 | 1 | 2 | 3 | 4 | 5 | 6 | 7 | 8 | 9 | k + 10 =>
    simp [RsneBody.fields, bodyAt, countedAt, length_le16Bytes, b.gcs_length, b.pcs.length,
      b.akm.length, b.cap_length, b.pmkid.length, b.gmcs_length, pcs, akm, pmkid]

theorem length_bodyAt (ie : ℕ → Byte) :
    (((bodyAt ie).fields.take 1).flatten.length = 2 ∧
      ((bodyAt ie).fields.take 2).flatten.length = 6 ∧
      ((bodyAt ie).fields.take 3).flatten.length = 8 ∧
      2 + ((bodyAt ie).fields.take 4).flatten.length = akmAt ie ∧
      2 + ((bodyAt ie).fields.take 5).flatten.length = akmAt ie + 2) ∧
    2 + ((bodyAt ie).fields.take 6).flatten.length = capAt ie ∧
      2 + ((bodyAt ie).fields.take 7).flatten.length = capAt ie + 2 ∧
      2 + ((bodyAt ie).fields.take 9).flatten.length = gmcsAt ie ∧
      2 + ((bodyAt ie).fields.take 10).flatten.length = gmcsAt ie + 4 := by
  simp only [RsneBody.fields, bodyAt, countedAt, take_succ_cons, take_zero,
    flatten_cons, flatten_nil, length_append, length_cons, length_nil,
    length_le16Bytes, length_window, akmAt, capAt, gmcsAt, true_and]
  omega

theorem holds_bodyAt (version : le16 ie 2 = 1) :
    Holds ie 2 ((bodyAt ie).fields.take 10).flatten := by
  have bytes : ([1, 0] : List Byte) = window ie 2 2 := by
    rw [← le16Bytes_le16, version]
    rfl
  have fields : (bodyAt ie).fields.take 10 =
      [window ie 2 2, window ie 4 4, window ie 8 2, window ie 10 (4 * le16 ie 8),
        window ie (akmAt ie) 2, window ie (akmAt ie + 2) (4 * le16 ie (akmAt ie)),
        window ie (capAt ie) 2, window ie (capAt ie + 2) 2,
        window ie (capAt ie + 2 + 2) (16 * le16 ie (capAt ie + 2)), window ie (gmcsAt ie) 4] := by
    simp only [RsneBody.fields, bodyAt, countedAt, take_succ_cons, take_zero,
      le16Bytes_le16, bytes]
  have pos_akm : akmAt ie = 10 + 4 * le16 ie 8 := rfl
  have pos_cap : capAt ie = akmAt ie + 2 + 4 * le16 ie (akmAt ie) := rfl
  have pos_gmcs : gmcsAt ie = capAt ie + 4 + 16 * le16 ie (capAt ie + 2) := rfl
  rw [fields]
  simp only [flatten_cons, flatten_nil, holds_append, length_window]
  exact ⟨holds_window _ rfl, holds_window _ rfl, holds_window _ rfl, holds_window _ rfl,
    holds_window _ (by omega), holds_window _ (by omega), holds_window _ (by omega),
    holds_window _ (by omega), holds_window _ (by omega), holds_window _ (by omega), trivial⟩

/-- One field of the parser: the element ends in front of it, or the parser goes on. What comes
behind needs the field whole, and takes the element that ends behind an empty field. -/
theorem field_success_iff {later : Prop}
    (rest_iff : pos + n ≤ ieLen → (rest.1 = .success ↔ later)) (whole : later → pos + n ≤ ieLen)
    (empty : n = 0 → ieLen = pos → later) :
    (if ieLen < pos + n then parseEnd info ieLen pos else rest).1 = .success ↔
      ieLen = pos ∨ later := by
  rw [parseEnd, parseErr]
  by_cases short : ieLen < pos + n
  · rw [if_pos short, or_iff_left fun goes_on => absurd (whole goes_on) (not_le.mpr short)]
    by_cases ends : ieLen = pos
    · rw [if_neg (not_not.mpr ends)]
      exact iff_of_true rfl ends
    · rw [if_pos ends]
      exact iff_of_false nofun ends
  · rw [if_neg short, rest_iff (not_lt.mp short)]
    exact (or_iff_right_of_imp fun ends => empty (by omega) ends).symm

theorem check_success_iff {c : Prop} [Decidable c] :
    (if c then parseErr info else rest).1 = .success ↔ ¬ c ∧ rest.1 = .success := by
  by_cases fails : c
  · rw [if_pos fails]
    exact iff_of_false nofun fun both => both.1 fails
  · rw [if_neg fails]
    exact (and_iff_right fails).symm

theorem parse_rust_success_iff :
    (rsneInfoParseRust ie ieLen).1 = .success ↔
      (4 ≤ ieLen ∧ ie 0 = wlanEidRsn ∧ ie 1 = UInt8.ofNat (ieLen - 2) ∧ le16 ie 2 = 1) ∧
      (ieLen = 4 ∨ ieLen = 8 ∨ ieLen = 10 ∨ ieLen = akmAt ie ∨ ieLen = akmAt ie + 2 ∨
        ieLen = capAt ie ∨ ieLen = capAt ie + 2 ∨ ieLen = gmcsAt ie ∨ gmcsAt ie + 4 ≤ ieLen) := by
  rw [rsneInfoParseRust, rsneInfoParse]
  simp only [check_success_iff, not_or, not_not, not_lt, and_assoc, Bool.not_eq_false,
    decide_eq_true_eq]
  refine and_congr_right fun _ => and_congr_right fun _ => and_congr_right fun _ =>
    and_congr_right fun _ => ?_
  -- the positions as sums of the counts
  obtain ⟨c, c_eq⟩ : ∃ c, le16 ie 8 = c := ⟨_, rfl⟩
  simp only [gmcsAt, capAt, akmAt, c_eq]
  obtain ⟨d, d_eq⟩ : ∃ d, le16 ie (10 + 4 * c) = d := ⟨_, rfl⟩
  simp only [d_eq]
  generalize le16 ie (10 + 4 * c + 2 + 4 * d + 2) = e
  -- the seven optional fields before the PMKIDs
  iterate 7 refine field_success_iff (fun _ => ?_) (by omega) (by omega)
  -- which are not optional behind their number
  have last : (10 + 4 * c + 2 + 4 * d + 2 + 2 + 16 * e ≤ ieLen ∧
      (ieLen = 10 + 4 * c + 2 + 4 * d + 2 + 2 + 16 * e ∨
        10 + 4 * c + 2 + 4 * d + 2 + 2 + 16 * e + 4 ≤ ieLen)) ↔
      ieLen = 10 + 4 * c + 2 + 4 * d + 4 + 16 * e ∨
        10 + 4 * c + 2 + 4 * d + 4 + 16 * e + 4 ≤ ieLen := by
    omega
  rw [check_success_iff, not_lt, ← last]
  exact and_congr_right fun _ =>
    field_success_iff (fun whole => iff_of_true rfl whole) id (by omega)

theorem infoInside_field (inside : InfoInside info ieLen)
    (later : pos + n ≤ ieLen → InfoInside rest.2 ieLen) :
    InfoInside (if ieLen < pos + n then parseEnd info ieLen pos else rest).2 ieLen := by
  split
  · rw [parseEnd]
    split
    · exact { inside with }
    · exact inside
  next long => exact later (not_lt.mp long)

theorem infoInside_check {c : Prop} [Decidable c] (inside : InfoInside info ieLen)
    (later : ¬ c → InfoInside rest.2 ieLen) :
    InfoInside (if c then parseErr info else rest).2 ieLen := by
  split
  · exact { inside with }
  next passes => exact later passes

theorem infoInside_parse_rust (ie : ℕ → Byte) (ieLen : ℕ) :
    InfoInside (rsneInfoParseRust ie ieLen).2 ieLen := by
  have nothing : InfoInside {} ieLen := ⟨nofun, nofun, nofun, nofun, nofun, nofun⟩
  rw [rsneInfoParseRust, rsneInfoParse]
  dsimp only
  refine infoInside_check nothing fun _ => infoInside_check nothing fun _ =>
    infoInside_check nothing fun _ => infoInside_field nothing fun fits => ?_
  have gcs : InfoInside { gcs := some 4 } ieLen :=
    { nothing with gcs := fun p taken => by cases taken; exact fits }
  refine infoInside_field gcs fun _ => infoInside_field gcs fun fits => ?_
  have pcs : InfoInside { gcs := some 4, pcsCnt := le16 ie 8, pcsList := some 10 } ieLen :=
    { gcs with pcs := fun p taken => by cases taken; exact fits }
  refine infoInside_field pcs fun _ => infoInside_field pcs fun fits => ?_
  -- from here on the record and the positions are what the parser has built up
  have akm : InfoInside
      { gcs := some 4, pcsCnt := le16 ie 8, pcsList := some 10, akmCnt := le16 ie (akmAt ie),
        akmList := some (akmAt ie + 2) } ieLen :=
    { pcs with akm := fun p taken => by cases taken; exact fits }
  refine infoInside_field akm fun fits => ?_
  have cap : InfoInside
      { gcs := some 4, pcsCnt := le16 ie 8, pcsList := some 10, akmCnt := le16 ie (akmAt ie),
        akmList := some (akmAt ie + 2), cap := some (capAt ie) } ieLen :=
    { akm with cap := fun p taken => by cases taken; exact fits }
  refine infoInside_field cap fun _ => infoInside_check cap fun fits => ?_
  have pmkid : InfoInside
      { gcs := some 4, pcsCnt := le16 ie 8, pcsList := some 10, akmCnt := le16 ie (akmAt ie),
        akmList := some (akmAt ie + 2), cap := some (capAt ie),
        pmkidCnt := le16 ie (capAt ie + 2), pmkidList := some (capAt ie + 2 + 2) } ieLen :=
    { cap with pmkid := fun p taken => by cases taken; exact not_lt.mp fits }
  refine infoInside_field pmkid fun fits => ?_
  exact { pmkid with gmcs := fun p taken => by cases taken; exact fits }

theorem boundary_iff :
    (ieLen = 4 ∨ ieLen = 8 ∨ ieLen = 10 ∨ ieLen = akmAt ie ∨ ieLen = akmAt ie + 2 ∨
      ieLen = capAt ie ∨ ieLen = capAt ie + 2 ∨ ieLen = gmcsAt ie ∨ gmcsAt ie + 4 ≤ ieLen) ↔
    ∃ k, 1 ≤ k ∧ k ≤ 10 ∧ k ≠ 8 ∧ 2 + ((bodyAt ie).fields.take k).flatten.length ≤ ieLen ∧
      (k < 10 → ieLen = 2 + ((bodyAt ie).fields.take k).flatten.length) := by
  obtain ⟨⟨l1, l2, l3, l4, l5⟩, l6, l7, l9, l10⟩ := length_bodyAt ie
  constructor
  · rintro (h | h | h | h | h | h | h | h | h)
    · exact ⟨1, by omega⟩
    · exact ⟨2, by omega⟩
    · exact ⟨3, by omega⟩
    · exact ⟨4, by omega⟩
    · exact ⟨5, by omega⟩
    · exact ⟨6, by omega⟩
    · exact ⟨7, by omega⟩
    · exact ⟨9, by omega⟩
    · exact ⟨10, by omega⟩
  · rintro ⟨k, version, fields, not_count, whole, ends⟩
    interval_cases k
    all_goals omega

end Memory

/-! ## The accepted elements -/

/-- Whatever pointers the parser reports, they and what they are said to point at are inside the
element; and the elements that it accepts are those of the grammar. -/
theorem rsne_accepted_iff (ie : ℕ → Byte) (ieLen : ℕ) :
    InfoInside (rsneInfoParseRust ie ieLen).2 ieLen ∧
    ((rsneInfoParseRust ie ieLen).1 = .success ↔
      4 ≤ ieLen ∧ ie 0 = wlanEidRsn ∧ ie 1 = UInt8.ofNat (ieLen - 2) ∧
      ∃ b k extra, RsneAccepted (window ie 2 (ieLen - 2)) b k extra) := by
  refine ⟨infoInside_parse_rust ie ieLen, ?_⟩
  rw [parse_rust_success_iff, boundary_iff]
  constructor
  · rintro ⟨⟨long, eid, length, version⟩, k, some_field, fields, not_count, whole, ends⟩
    obtain ⟨n, rest⟩ := Nat.exists_eq_add_of_le whole
    have text : window ie 2 (ieLen - 2) = ((bodyAt ie).fields.take k).flatten ++
        window ie (2 + ((bodyAt ie).fields.take k).flatten.length) n := by
      have body_length : ieLen - 2 = ((bodyAt ie).fields.take k).flatten.length + n := by omega
      rw [body_length, window_add, (holds_take fields (holds_bodyAt version)).window_eq rfl]
    refine ⟨long, eid, length, bodyAt ie, k, _, some_field, fields, not_count, ?_, text⟩
    intro before_last
    have nothing : n = 0 := by
      have exact_end := ends before_last
      omega
    rw [nothing]
    rfl
  · rintro ⟨long, eid, length, b, k, extra, some_field, fields, not_count, extra_last, text⟩
    have holds := @holds_window _ ie 2 2 (ieLen - 2) rfl
    rw [text] at holds
    have holds_fields := (holds_append.mp holds).1
    have version : le16 ie 2 = 1 :=
      le16_of_holds (by decide) (holds_field some_field (f := le16Bytes 1) rfl holds_fields)
    have lengths := congrArg List.length text
    rw [length_window, length_append, length_fields_of_holds holds_fields] at lengths
    refine ⟨⟨long, eid, length, version⟩, k, some_field, fields, not_count, by omega, ?_⟩
    intro before_last
    rw [extra_last before_last, length_nil] at lengths
    omega

def rsneWithTail : List Byte :=
  [48, 19, 1, 0, 0x00, 0x0f, 0xac, 4, 0, 0, 0, 0, 0, 0, 0, 0, 0x00, 0x0f, 0xac, 6, 0xff]

theorem rsne_tail_accepted :
    (rsneInfoParseRust (image 0 rsneWithTail) 21).1 = .success ∧
      ¬ ∃ (b : RsneBody) (k : ℕ), window (image 0 rsneWithTail) 2 19 =
      (b.fields.take k).flatten := by
  refine ⟨by decide, ?_⟩
  rintro ⟨b, k, text⟩
  have holds := @holds_window _ (image 0 rsneWithTail) 2 2 19 rfl
  rw [text] at holds
  have lengths := congrArg List.length text
  rw [length_window, length_fields_of_holds holds] at lengths
  have table : ∀ k < 10, ((bodyAt (image 0 rsneWithTail)).fields.take k).flatten.length ≠ 19 := by
    decide
  rcases Nat.lt_or_ge k 10 with before_last | whole
  · exact table k before_last lengths.symm
  · rw [take_of_length_le whole] at lengths
    exact absurd lengths (by decide)

example : (rsneInfoParseRust (image 0 [48, 8, 1, 0, 0x00, 0x0f, 0xac, 4, 1, 0]) 10).1 =
  .success := by
  decide

end Rtl88x2bu.Ie
