import Rtl88x2bu.Lib.Tlv
import Rtl88x2bu.Ie.Search
import Rtl88x2bu.Wnm.Candidates

/-!
# BSS transition requests

`rtw_wnm_process_btm_req` and `rtw_wnm_nb_elem_parsing` (`core/rtw_wnm.c`). `inside` and `noWrap`
are not in the source: they say that all reads so far were inside the frame and that no `u32`
subtraction has wrapped around.
-/

namespace Rtl88x2bu.Wnm

open List Option
open Tape Tlv Walk
open Ie (reads reads_iff sint_lt_iff ieLenAt rtwGetIe ieMore ieHit ieNext)

variable (mem : ℕ → Byte)

variable (size ptr : ℕ)

/-! ## The walk over the reports -/

def nbRptElem : Byte := 0x34
def candPrefSubeid : ℕ := 3
def termDurSubeid : Byte := 4

def nbRptHdrAt (p : ℕ) : NbRptHdr where
  id := mem p
  len := mem (p + 1)
  bssid := window mem (p + 2) 6
  bssInfo := (mem (p + 11)).toBitVec ++ (mem (p + 10)).toBitVec ++ (mem (p + 9)).toBitVec ++
    (mem (p + 8)).toBitVec
  regClass := mem (p + 12)
  chNum := mem (p + 13)
  phyType := mem (p + 14)
  pad := mem (p + 15)

/-- The variables of `rtw_wnm_nb_elem_parsing`; `ptr` is relative to the frame. -/
structure NbWalk where
  ptr : ℕ
  elemLen : ℕ
  subelemLen : ℕ
  candidates : List WnmBtmCant
  bfound : Bool
  inside : Bool
  noWrap : Bool

/-- `op`, the search for the preference. The limit is a `u32` difference that is taken for an `int`.
-/
def prefSearch (subelemLen : ℕ) : Outcome :=
  (rtwGetIe (fun i => mem (ptr + 15 + i)) candPrefSubeid (subelemLen - 15) (subelemLen + 1)).1

def prefSearchInside (subelemLen : ℕ) : Bool :=
  checked (ieMore (subelemLen - 15)) (ieHit (fun i => mem (ptr + 15 + i)) candPrefSubeid)
    (fun p => !ieMore (subelemLen - 15) p || reads size (ptr + 15 + p) 2)
    (ieNext fun i => mem (ptr + 15 + i)) (subelemLen + 1) 0

def preferenceAt : Outcome → Byte × Bool
  | .found op =>
    if mem (ptr + 15 + op + 1) ≠ 0 then (mem (ptr + 15 + op + 2), true) else (0, false)
  | _ => (0, false)

def preferenceInside : Outcome → Bool
  | .found op => mem (ptr + 15 + op + 1) == 0 || reads size (ptr + 15 + op + 2) 1
  | _ => true

def nbRound (s : NbWalk) : NbWalk :=
  let op := prefSearch mem s.ptr s.subelemLen
  let (preference, found) := preferenceAt mem s.ptr op
  let ptr := s.ptr + s.subelemLen + 2
  { ptr := ptr
    elemLen := (s.elemLen + 2 ^ 32 - (s.subelemLen + 2)) % 2 ^ 32
    subelemLen := (mem (ptr + 1)).toNat
    candidates := s.candidates ++ [⟨nbRptHdrAt mem s.ptr, preference⟩]
    bfound := s.bfound || found
    inside := s.inside && prefSearchInside mem size s.ptr s.subelemLen && reads size (ptr + 1) 1 &&
      reads size s.ptr 16 && preferenceInside mem size s.ptr op
    noWrap := s.noWrap && decide (s.subelemLen + 2 ≤ s.elemLen) }

def nbElemLoop (mem : ℕ → Byte) (size pend : ℕ) : ℕ → NbWalk → NbWalk
  | 0, s => s
  | rounds + 1, s =>
    if s.ptr + 7 > pend ∨ s.elemLen < s.subelemLen then s
    else
      let s := { s with inside := s.inside && reads size s.ptr 1 }
      if mem s.ptr ≠ nbRptElem then s
      else nbElemLoop mem size pend rounds (nbRound mem size s)

def rtwWnmNbElemParsing (pdata dataLen : ℕ) : NbWalk :=
  nbElemLoop mem size (pdata + dataLen) rtwMaxNbRptNum
    { ptr := pdata, elemLen := dataLen, subelemLen := (mem (pdata + 1)).toNat, candidates := []
      bfound := false, inside := reads size (pdata + 1) 1, noWrap := true }

/-! ## The request -/

def wnmBtmBssTermInc : Bool := mem 3 &&& 0x08 != 0

def wnmBtmEssDisassocIm : Bool := mem 3 &&& 0x10 != 0

def le16At (p : ℕ) : BitVec 16 :=
  (mem (p + 1)).toBitVec ++ (mem p).toBitVec

structure BtmTermDuration where
  id : Byte
  len : Byte
  tsf : List Byte
  duration : BitVec 16

/-- `struct btm_req_hdr`; the duration is `none` where the source leaves it zero. -/
structure BtmReqHdr where
  dialogToken : Byte
  reqMode : Byte
  disassocTimer : BitVec 16
  validityInterval : Byte
  termDuration : Option BtmTermDuration

def rtwWnmBtmReqHdrParsing : BtmReqHdr where
  dialogToken := mem 2
  reqMode := mem 3
  disassocTimer := le16At mem 4
  validityInterval := mem 6
  termDuration :=
    if wnmBtmBssTermInc mem && mem 7 == termDurSubeid then
      some { id := mem 7, len := mem 8, tsf := window mem 9 8, duration := le16At mem 17 }
    else none

def hdrParsingInside : Bool :=
  reads size 2 5 && (!wnmBtmBssTermInc mem ||
    reads size 7 1 && (mem 7 != termDurSubeid || reads size 7 12))

def urlOffset : ℕ :=
  7 + if wnmBtmBssTermInc mem then 12 else 0

/-- `rtw_wnm_btm_candidates_offset_get`: with a session URL the offset is set, not increased. -/
def rtwWnmBtmCandidatesOffsetGet : ℕ :=
  if wnmBtmEssDisassocIm mem then 1 + (mem (urlOffset mem)).toNat else urlOffset mem

def offsetGetInside : Bool :=
  reads size 3 1 && (!wnmBtmEssDisassocIm mem || reads size (urlOffset mem) 1)

/-- What `rtw_wnm_process_btm_req` does up to the survey: the header, and the part for
`rtw_wnm_nb_elem_parsing`. -/
structure BtmReqRun where
  hdr : BtmReqHdr
  offset : ℕ
  elemLen : ℕ
  walk : Option NbWalk
  inside : Bool
  noWrap : Bool

def rtwWnmProcessBtmReq (frameLen : ℕ) : BtmReqRun :=
  let offset := rtwWnmBtmCandidatesOffsetGet mem
  let elemLen := (frameLen + 2 ^ 32 - offset) % 2 ^ 32
  let walk := if elemLen ≤ 15 then none else some (rtwWnmNbElemParsing mem frameLen offset elemLen)
  { hdr := rtwWnmBtmReqHdrParsing mem
    offset := offset
    elemLen := elemLen
    walk := walk
    inside := hdrParsingInside mem frameLen && offsetGetInside mem frameLen &&
      walk.all (·.inside)
    noWrap := decide (offset ≤ frameLen) && walk.all (·.noWrap) }

/-! ## Reads inside the frame -/

def WalkStays (mem : ℕ → Byte) (size : ℕ) : ℕ → ℕ → Prop
  | 0, _ => True
  | rounds + 1, ptr =>
    ptr + 7 ≤ size → ptr + ieLenAt mem ptr ≤ size → mem ptr = nbRptElem →
      ptr + 16 ≤ size ∧ ptr + ieLenAt mem ptr + 4 ≤ size ∧
        WalkStays mem size rounds (ptr + ieLenAt mem ptr + 2)

/-- The frame has the optional fields that the request mode announces, the offset is not behind the
frame, and the walk stays inside. -/
structure ReadInside (mem : ℕ → Byte) (size : ℕ) : Prop where
  duration : wnmBtmBssTermInc mem = true → 8 ≤ size ∧ (mem 7 = termDurSubeid → 19 ≤ size)
  url : wnmBtmEssDisassocIm mem = true → urlOffset mem < size
  offset : rtwWnmBtmCandidatesOffsetGet mem ≤ size
  walk : 15 < size - rtwWnmBtmCandidatesOffsetGet mem →
    WalkStays mem size rtwMaxNbRptNum (rtwWnmBtmCandidatesOffsetGet mem)

def NbWalk.Safe (s : NbWalk) : Prop := s.inside = true ∧ s.noWrap = true

section Safety

variable {mem : ℕ → Byte} {size : ℕ}

theorem prefSearch_lt {buf : ℕ → Byte} {limit fuel p q : ℕ} {inside : Bool} (small : limit < 2 ^ 30)
    (before : p < limit)
    (found : (Ie.getIeLoop buf candPrefSubeid limit fuel p inside).1 = .found q) : q < limit := by
  induction fuel generalizing p inside with
  | zero => cases found
  | succ fuel ih =>
    rw [Ie.getIeLoop] at found
    have len : ieLenAt buf p < 256 := UInt8.toNat_lt _
    split at found
    · exact (Outcome.found.inj found) ▸ before
    · simp only at found
      split at found
      · cases found
      next more =>
        apply ih ((sint_lt_iff (by omega)).mp (not_le.mp more)) found

theorem checked_of_lt {buf : ℕ → Byte} {ok : ℕ → Bool} {limit : ℕ} (small : limit < 2 ^ 30)
    (all : ∀ q < limit, ok q = true) (fuel p : ℕ) (near : p ≤ limit + 256) :
    checked (ieMore limit) (ieHit buf candPrefSubeid) (fun q => !ieMore limit q || ok q)
      (ieNext buf) fuel p = true := by
  induction fuel generalizing p with
  | zero => rfl
  | succ fuel ih =>
    rw [checked]
    cases more : ieMore limit p with
    | false => rfl
    | true =>
      have before : p < limit := (sint_lt_iff (by omega)).mp (decide_eq_true_iff.mp more)
      have len : ieLenAt buf p < 256 := UInt8.toNat_lt _
      rw [all p before]
      simp only [Bool.not_true, Bool.false_or, Bool.true_and, if_true]
      split
      · rfl
      · exact ih _ (by rw [ieNext]; omega)

theorem nbRound_safe_iff {s : NbWalk} (short : s.subelemLen < 256)
    (end_ : s.ptr + s.elemLen = size) :
    (nbRound mem size s).Safe ↔
      s.Safe ∧ s.ptr + 16 ≤ size ∧ s.ptr + s.subelemLen + 4 ≤ size := by
  simp only [NbWalk.Safe, nbRound, Bool.and_eq_true, reads_iff, decide_eq_true_iff]
  constructor
  · rintro ⟨⟨⟨⟨⟨inside, -⟩, next⟩, header⟩, -⟩, noWrap, -⟩
    exact ⟨⟨inside, noWrap⟩, by omega, by omega⟩
  · rintro ⟨⟨inside, noWrap⟩, header, next⟩
    have search : prefSearchInside mem size s.ptr s.subelemLen = true := by
      apply checked_of_lt (by omega) _ _ _ (Nat.zero_le _)
      intro q before
      rw [reads_iff]
      omega
    have value : preferenceInside mem size s.ptr (prefSearch mem s.ptr s.subelemLen) = true := by
      cases found : prefSearch mem s.ptr s.subelemLen with
      | found op =>
        have before : op < s.subelemLen - 15 := by
          rw [prefSearch, rtwGetIe] at found
          split at found
          · exact nomatch found
          next some_ => exact prefSearch_lt (by omega) (by omega) found
        rw [preferenceInside, Bool.or_eq_true, reads_iff]
        omega
      | missing => rfl
      | endless => rfl
    exact ⟨⟨⟨⟨⟨inside, search⟩, by omega⟩, by omega⟩, value⟩, noWrap, by omega⟩

theorem nbElemLoop_safe {pend : ℕ} (rounds : ℕ) (s : NbWalk)
    (safe : (nbElemLoop mem size pend rounds s).Safe) : s.Safe := by
  induction rounds generalizing s with
  | zero => exact safe
  | succ rounds ih =>
    rw [nbElemLoop] at safe
    split at safe
    · exact safe
    · simp only at safe
      split at safe
      · simp only [NbWalk.Safe, Bool.and_eq_true] at safe
        exact ⟨safe.1.1, safe.2⟩
      · have round := ih _ safe
        simp only [NbWalk.Safe, nbRound, Bool.and_eq_true] at round
        exact ⟨round.1.1.1.1.1.1, round.2.1⟩

theorem nbElemLoop_safe_iff (rounds : ℕ) (s : NbWalk) (safe : s.Safe)
    (length : s.subelemLen = ieLenAt mem s.ptr) (end_ : s.ptr + s.elemLen = size)
    (small : s.elemLen < 2 ^ 32) :
    (nbElemLoop mem size size rounds s).Safe ↔ WalkStays mem size rounds s.ptr := by
  induction rounds generalizing s with
  | zero => exact iff_of_true safe trivial
  | succ rounds ih =>
    have short : s.subelemLen < 256 := length ▸ UInt8.toNat_lt _
    rw [nbElemLoop, WalkStays, ← length]
    split
    next stops =>
      refine iff_of_true safe fun header body => ?_
      omega
    next goes_on =>
      simp only [not_or, not_lt, gt_iff_lt] at goes_on
      have first : reads size s.ptr 1 = true := reads_iff.mpr (by omega)
      simp only [first, Bool.and_true]
      split
      next other => exact iff_of_true safe fun _ _ report => absurd report other
      next report =>
        have report := not_not.mp report
        simp only [report, forall_const]
        rw [imp_iff_right (by omega), imp_iff_right (by omega)]
        by_cases room : s.ptr + 16 ≤ size ∧ s.ptr + s.subelemLen + 4 ≤ size
        · have round : (nbRound mem size s).Safe := (nbRound_safe_iff short end_).mpr ⟨safe, room⟩
          rw [ih (nbRound mem size s) round rfl (by simp only [nbRound]; omega)
            (by simp only [nbRound]; omega)]
          simp only [room, true_and]
          rfl
        · apply iff_of_false
          · intro after
            have round := nbElemLoop_safe _ _ after
            exact room ((nbRound_safe_iff short end_).mp round).2
          · exact fun all => room ⟨all.1, all.2.1⟩

theorem hdrParsingInside_iff (header : 7 ≤ size) :
    hdrParsingInside mem size = true ↔
      (wnmBtmBssTermInc mem = true → 8 ≤ size ∧ (mem 7 = termDurSubeid → 19 ≤ size)) := by
  rw [hdrParsingInside, Bool.and_eq_true, reads_iff, and_iff_right (by omega)]
  cases wnmBtmBssTermInc mem with
  | false => simp
  | true =>
    simp only [Bool.not_true, Bool.false_or, Bool.and_eq_true, Bool.or_eq_true, bne_iff_ne, ne_eq,
      reads_iff, forall_const, imp_iff_not_or, one_ne_zero, OfNat.ofNat_ne_zero, false_or]

theorem offsetGetInside_iff (header : 7 ≤ size) :
    offsetGetInside mem size = true ↔ (wnmBtmEssDisassocIm mem = true → urlOffset mem < size) := by
  rw [offsetGetInside, Bool.and_eq_true, reads_iff, and_iff_right (by omega)]
  cases wnmBtmEssDisassocIm mem with
  | false => simp
  | true =>
    simp only [Bool.not_true, Bool.false_or, reads_iff, forall_const]
    omega

theorem nbElemParsing_safe_iff (mem : ℕ → Byte) {offset : ℕ} (part : 15 < size - offset)
    (small : size < 2 ^ 32) :
    (rtwWnmNbElemParsing mem size offset (size - offset)).Safe ↔
      WalkStays mem size rtwMaxNbRptNum offset := by
  have end_ : offset + (size - offset) = size := by omega
  rw [rtwWnmNbElemParsing, end_]
  exact nbElemLoop_safe_iff _ _ ⟨reads_iff.mpr (.inr (by omega)), rfl⟩ rfl end_
    (by simp only; omega)

end Safety

/-- For every frame of at least 7 bytes, and whatever is in the memory behind it. -/
theorem btm_req_inside_iff (mem : ℕ → Byte) (frameLen : ℕ) (header : 7 ≤ frameLen)
    (small : frameLen < 2 ^ 32) :
    ((rtwWnmProcessBtmReq mem frameLen).inside = true ∧
      (rtwWnmProcessBtmReq mem frameLen).noWrap = true) ↔ ReadInside mem frameLen := by
  simp only [rtwWnmProcessBtmReq, Bool.and_eq_true, hdrParsingInside_iff header,
    offsetGetInside_iff header, decide_eq_true_iff]
  by_cases before : rtwWnmBtmCandidatesOffsetGet mem ≤ frameLen
  · have length : (frameLen + 2 ^ 32 - rtwWnmBtmCandidatesOffsetGet mem) % 2 ^ 32 =
        frameLen - rtwWnmBtmCandidatesOffsetGet mem := by omega
    rw [length]
    by_cases rejected : frameLen - rtwWnmBtmCandidatesOffsetGet mem ≤ 15
    · simp only [if_pos rejected, all_none, and_true]
      constructor
      · rintro ⟨⟨duration, url⟩, offset⟩
        exact ⟨duration, url, offset, fun part => absurd rejected (by omega)⟩
      · rintro ⟨duration, url, offset, -⟩
        exact ⟨⟨duration, url⟩, offset⟩
    · have safe := nbElemParsing_safe_iff mem (not_le.mp rejected) small
      simp only [if_neg rejected, all_some]
      constructor
      · rintro ⟨⟨⟨duration, url⟩, inside⟩, offset, noWrap⟩
        exact ⟨duration, url, offset, fun _ => safe.mp ⟨inside, noWrap⟩⟩
      · rintro ⟨duration, url, offset, walk⟩
        obtain ⟨inside, noWrap⟩ := safe.mpr (walk (by omega))
        exact ⟨⟨⟨duration, url⟩, inside⟩, offset, noWrap⟩
  · -- the length of the part has wrapped around
    exact iff_of_false (fun all => before all.2.1) fun all => before all.offset

theorem btm_req_inside_one :
    let frame := [10, 7, 1, 0, 0, 0, 255] ++ 0x34 :: 14 :: List.replicate 14 0 ++ [0, 0]
    (rtwWnmProcessBtmReq (image 0 frame) 25).inside = true ∧
      (rtwWnmProcessBtmReq (image 0 frame) 25).noWrap = true :=
  (btm_req_inside_iff _ 25 (by decide) (by decide)).mpr <| by
    refine ⟨nofun, nofun, by decide, fun _ => ?_⟩
    intro _ _ _
    exact ⟨by decide, by decide, fun header => absurd header (by decide)⟩

theorem btm_req_read_outside :
    (rtwWnmProcessBtmReq (image 0 ([10, 7, 1, 0, 0, 0, 255] ++ 0x34 :: 14 :: List.replicate 14 0))
        23).inside = false ∧
      (rtwWnmProcessBtmReq (image 0 [10, 7, 1, 8, 0, 0, 255]) 7).noWrap = false := by
  decide +kernel

/-! ## The reports of a well-formed request -/

/-- The first preference among the sub-elements of a report, 0 if there is none or it has no value.
-/
def prefWalk : ℕ → List Byte → Byte
  | fuel + 1, id :: len :: rest =>
    if id = UInt8.ofNat candPrefSubeid then if len = 0 then 0 else rest.headD 0
    else prefWalk fuel (rest.drop len.toNat)
  | _, _ => 0

def preferenceOf (subelems : List Byte) : Byte :=
  prefWalk subelems.length subelems

/-- The candidate for a report: the 15 bytes of its header, and its preference. -/
def reportCandidate (e : Elem) : WnmBtmCant where
  nbRpt := nbRptHdrAt (image 0 (e.encode.take 15)) 0
  preference := preferenceOf (e.body.drop 13)

def WnmBtmCant.noPad (c : WnmBtmCant) : WnmBtmCant :=
  { c with nbRpt := { c.nbRpt with pad := 0 } }

/-- Seven header bytes, the announced optional fields, and the neighbour reports. -/
structure BtmFrame where
  head : List Byte
  term : List Byte
  url : List Byte
  reports : List Elem
  head_length : head.length = 7
  term_length : term.length = if head.getD 3 0 &&& 0x08 != 0 then 12 else 0
  url_shape : if head.getD 3 0 &&& 0x10 != 0 then
      ∃ bytes : List Byte, bytes.length < 256 ∧ url = UInt8.ofNat bytes.length :: bytes
    else url = []
  some_report : reports ≠ []
  report : ∀ e ∈ reports, e.id = nbRptElem ∧ 13 ≤ e.body.length

variable (f : BtmFrame)

namespace BtmFrame

def fields : List Byte := f.head ++ (f.term ++ f.url)

def bytes : List Byte := f.fields ++ encodeAll f.reports

def hasUrl : Bool := f.head.getD 3 0 &&& 0x10 != 0

end BtmFrame

/-- The part of the frame with the reports is handed on, and the candidates are the first eight of
them. -/
def HandsReports : Prop :=
  let run := rtwWnmProcessBtmReq mem f.bytes.length
  run.offset = f.fields.length ∧ run.elemLen = (encodeAll f.reports).length ∧
    ∃ walk ∈ run.walk,
      walk.candidates.map (·.noPad) = (f.reports.take rtwMaxNbRptNum).map reportCandidate

section Reports

variable {mem : ℕ → Byte} {size : ℕ}

theorem prefWalk_short (fuel : ℕ) (subelems : List Byte) (short : subelems.length ≤ 2) :
    prefWalk fuel subelems = 0 := by
  match fuel, subelems, short with
  | 0, _, _ => simp [prefWalk]
  | _ + 1, [], _ => rfl
  | _ + 1, [_], _ => rfl
  | 0 + 1, [id, len], _ => simp [prefWalk]
  | _ + 1 + 1, [id, len], _ => simp [prefWalk]

theorem getIeLoop_preference (n : ℕ) (small : n < 256) (fuel p k : ℕ) (inside : Bool)
    (before : p + 2 < n) (enough : n < p + fuel) (enough' : n ≤ p + k) :
    (preferenceAt mem ptr
      (Ie.getIeLoop (fun i => mem (ptr + 15 + i)) candPrefSubeid (n - 2) fuel p inside).1).1 =
      prefWalk k (window mem (ptr + 15 + p) (n - p)) := by
  induction fuel generalizing p k inside with
  | zero => omega
  | succ fuel ih =>
    obtain ⟨k, rfl⟩ : ∃ m, k = m + 1 := ⟨k - 1, by omega⟩
    obtain ⟨m, rfl⟩ : ∃ m, n = p + (m + 3) := ⟨n - p - 3, by omega⟩
    rw [Nat.add_sub_cancel_left, window_cons, window_cons, prefWalk, Ie.getIeLoop]
    by_cases hit : mem (ptr + 15 + p) = UInt8.ofNat candPrefSubeid
    · rw [if_pos hit, if_pos hit, preferenceAt, window_cons, headD_cons]
      by_cases value : mem (ptr + 15 + p + 1) = 0
      · rw [if_neg (not_not.mpr value), if_pos value]
      · rw [if_pos value, if_neg value]
    · rw [if_neg hit, if_neg hit, drop_window]
      simp only
      have len : ieLenAt (fun i => mem (ptr + 15 + i)) p = (mem (ptr + 15 + p + 1)).toNat := rfl
      rw [len]
      have short := UInt8.toNat_lt (mem (ptr + 15 + p + 1))
      generalize (mem (ptr + 15 + p + 1)).toNat = l at short ⊢
      split
      next stops =>
        -- at most two bytes are left
        have last := not_lt.mpr stops
        rw [sint_lt_iff (by omega)] at last
        rw [prefWalk_short _ _ (by rw [length_window]; omega)]
        rfl
      next more =>
        have next := (sint_lt_iff (by omega)).mp (not_le.mp more)
        rw [ih (p + (l + 2)) k _ (by omega) (by omega) (by omega)]
        congr 2 <;> omega

theorem prefSearch_preference (n : ℕ) (small : n < 243) :
    (preferenceAt mem ptr (prefSearch mem ptr (13 + n))).1 =
      preferenceOf (window mem (ptr + 15) n) := by
  have limit : 13 + n - 15 = n - 2 := by omega
  rw [prefSearch, rtwGetIe, limit, preferenceOf, length_window]
  split
  next none =>
    rw [prefWalk_short _ _ (by rw [length_window]; omega)]
    rfl
  next some_ =>
    exact getIeLoop_preference ptr n (by omega) (13 + n + 1) 0 n true (by omega) (by omega)
      (by omega)

theorem nbRptHdrAt_congr {mem' : ℕ → Byte} {p p' : ℕ}
    (same : ∀ k < 15, mem (p + k) = mem' (p' + k)) (preference : Byte) :
    WnmBtmCant.noPad ⟨nbRptHdrAt mem p, preference⟩ =
      WnmBtmCant.noPad ⟨nbRptHdrAt mem' p', preference⟩ := by
  have address : window mem (p + 2) 6 = window mem' (p' + 2) 6 := by
    apply map_congr_left
    intro i inside
    have bound := mem_range.mp inside
    rw [Nat.add_assoc, Nat.add_assoc]
    exact same (2 + i) (by omega)
  have byte := fun k (below : k < 15) => same k below
  simp only [WnmBtmCant.noPad, nbRptHdrAt, address, byte 1 (by decide), byte 8 (by decide),
    byte 9 (by decide), byte 10 (by decide), byte 11 (by decide), byte 12 (by decide),
    byte 13 (by decide), byte 14 (by decide)]
  rw [show mem p = mem' p' from byte 0 (by decide)]

theorem candidate_eq {ptr : ℕ} {e : Elem} (holds : Holds mem ptr e.encode)
    (long : 13 ≤ e.body.length) :
    WnmBtmCant.noPad ⟨nbRptHdrAt mem ptr,
      (preferenceAt mem ptr (prefSearch mem ptr e.body.length)).1⟩ = reportCandidate e := by
  obtain ⟨n, length⟩ := Nat.exists_eq_add_of_le long
  have short := e.short
  have body := (holds_encode.mp holds).2.2
  have subelems : window mem (ptr + 15) n = e.body.drop 13 := by
    rw [← body.window_eq rfl, drop_window, length, Nat.add_sub_cancel_left]
  rw [length, prefSearch_preference ptr n (by omega), subelems]
  have header : ∀ k < 15, mem (ptr + k) = image 0 (e.encode.take 15) (0 + k) := by
    intro k below
    have inside : k < e.encode.length := by
      rw [length_encode]
      omega
    rw [Nat.zero_add, image, getD_eq_getElem?_getD, List.getElem?_take_of_lt below,
      List.getElem?_eq_getElem inside, getD_some]
    exact holds_iff.mp holds k _ (List.getElem?_eq_getElem inside)
  have blank : image (0 : Byte) (e.encode.take 15) 15 = 0 :=
    image_of_length_le (length_take_le ..)
  rw [nbRptHdrAt_congr header]
  simp only [WnmBtmCant.noPad, reportCandidate, nbRptHdrAt, blank]

theorem nbElemLoop_reports (reports : List Elem) (rounds : ℕ) (s : NbWalk) {pend : ℕ}
    (text : Holds mem s.ptr (encodeAll reports))
    (report : ∀ e ∈ reports, e.id = nbRptElem ∧ 13 ≤ e.body.length)
    (length : s.elemLen = (encodeAll reports).length) (end_ : s.ptr + s.elemLen = pend)
    (small : s.elemLen < 2 ^ 32) (first : s.subelemLen = ieLenAt mem s.ptr) :
    (nbElemLoop mem size pend rounds s).candidates.map (·.noPad) =
      s.candidates.map (·.noPad) ++ (reports.take rounds).map reportCandidate := by
  induction rounds generalizing reports s with
  | zero => simp [nbElemLoop]
  | succ rounds ih =>
    cases reports with
    | nil =>
      have empty : s.elemLen = 0 := length
      rw [nbElemLoop, if_pos (.inl (by omega))]
      simp
    | cons e reports =>
      obtain ⟨own, later⟩ := holds_encodeAll_cons.mp text
      obtain ⟨⟨id, long⟩, report⟩ := forall_mem_cons.mp report
      obtain ⟨here, len, -⟩ := holds_encode.mp own
      rw [encodeAll_cons, length_append, length_encode] at length
      rw [ieLenAt, len, e.toNat_length] at first
      rw [nbElemLoop, if_neg (by omega)]
      simp only [here, id, ne_eq, not_true_eq_false, if_false]
      rw [ih reports]
      · simp only [nbRound, first, map_append, map_cons, map_nil,
          candidate_eq own long, append_assoc, singleton_append, take_succ_cons]
      · simp only [nbRound, first, Nat.add_assoc]
        exact later
      · exact report
      · simp only [nbRound, first]
        omega
      · simp only [nbRound, first]
        omega
      · simp only [nbRound]
        omega
      · rfl

theorem BtmFrame.layout (holds : Holds mem 0 f.bytes) : wnmBtmEssDisassocIm mem = f.hasUrl ∧
    urlOffset mem = 7 + f.term.length ∧ Holds mem (7 + f.term.length) f.url ∧ Holds mem
    f.fields.length (encodeAll f.reports) := by
  rw [BtmFrame.bytes, holds_append, Nat.zero_add, BtmFrame.fields, holds_append, holds_append,
    Nat.zero_add, f.head_length] at holds
  obtain ⟨⟨head, -, url⟩, reports⟩ := holds
  have inside : 3 < f.head.length := by rw [f.head_length]; decide
  have mode : mem 3 = f.head.getD 3 0 := by
    rw [getD_eq_getElem?_getD, List.getElem?_eq_getElem inside, getD_some,
      ← holds_iff.mp head 3 _ (List.getElem?_eq_getElem inside)]
  refine ⟨?_, ?_, url, reports⟩
  · rw [wnmBtmEssDisassocIm, mode, BtmFrame.hasUrl]
  · rw [urlOffset, wnmBtmBssTermInc, mode, f.term_length]

end Reports

/-- For every well-formed request, with whatever is in the memory behind it: the reports are handed
on and become the candidates exactly if there is no session URL and there is more than one report of
the minimal size. -/
theorem btm_req_reports_iff (mem : ℕ → Byte) (f : BtmFrame) (holds : Holds mem 0 f.bytes)
    (small : f.bytes.length < 2 ^ 32) :
    HandsReports mem f ↔ f.hasUrl = false ∧ 15 < (encodeAll f.reports).length := by
  obtain ⟨ess, place, url, reports⟩ := f.layout holds
  have fields : f.fields.length = 7 + f.term.length + f.url.length := by
    rw [BtmFrame.fields, length_append, length_append, f.head_length, Nat.add_assoc]
  have total : f.bytes.length = f.fields.length + (encodeAll f.reports).length := length_append
  have shape := f.url_shape
  rw [← BtmFrame.hasUrl] at shape
  cases has : f.hasUrl with
  | true =>
    -- the offset is set to the length of the URL field alone
    rw [has, if_pos rfl] at shape
    obtain ⟨bytes, short, field⟩ := shape
    rw [field] at url fields
    have length : (mem (7 + f.term.length)).toNat = bytes.length := by
      rw [url.1, UInt8.toNat_ofNat', Nat.mod_eq_of_lt short]
    have offset : rtwWnmBtmCandidatesOffsetGet mem = 1 + bytes.length := by
      rw [rtwWnmBtmCandidatesOffsetGet, ess, has, if_pos rfl, place, length]
    apply iff_of_false
    · rintro ⟨same, -⟩
      simp only [rtwWnmProcessBtmReq, offset, fields, length_cons] at same
      omega
    · simp
  | false =>
    rw [has, if_neg Bool.false_ne_true] at shape
    rw [shape] at fields
    have offset : rtwWnmBtmCandidatesOffsetGet mem = f.fields.length := by
      rw [rtwWnmBtmCandidatesOffsetGet, ess, has, if_neg Bool.false_ne_true, place, fields]
      rfl
    have part : (f.bytes.length + 2 ^ 32 - f.fields.length) % 2 ^ 32 =
        (encodeAll f.reports).length := by omega
    simp only [HandsReports, rtwWnmProcessBtmReq, offset, part, true_and]
    by_cases rejected : (encodeAll f.reports).length ≤ 15
    · rw [if_pos rejected]
      exact iff_of_false (fun ⟨walk, member, _⟩ => nomatch member) (by omega)
    · rw [if_neg rejected]
      apply iff_of_true _ (by omega)
      have bound : (encodeAll f.reports).length < 2 ^ 32 := by omega
      exact ⟨_, rfl,
        nbElemLoop_reports f.reports rtwMaxNbRptNum _ reports f.report rfl rfl bound rfl⟩

def sampleReport (channel preference : Byte) : Elem where
  id := nbRptElem
  body := [2, 0, 0, 0, 0, channel, 0, 0, 0, 0, 81, channel, 7, 3, 1, preference]
  short := by simp

def twoReports : BtmFrame where
  head := [10, 7, 1, 0x08, 0, 0, 255]
  term := [4, 10, 0, 0, 0, 0, 0, 0, 0, 0, 1, 0]
  url := []
  reports := [sampleReport 6 100, sampleReport 11 200]
  head_length := rfl
  term_length := by decide
  url_shape := rfl
  some_report := by decide
  report := by decide

theorem two_reports_handed : HandsReports (image 0 twoReports.bytes) twoReports :=
  (btm_req_reports_iff _ twoReports (holds_image _) (by decide)).mpr (by decide)

def urlReports : BtmFrame where
  head := [10, 7, 1, 0x10, 0, 0, 255]
  term := []
  url := [3, 0x61, 0x62, 0x63]
  reports := [sampleReport 6 100, sampleReport 11 200]
  head_length := rfl
  term_length := by decide
  url_shape := ⟨[0x61, 0x62, 0x63], by decide, rfl⟩
  some_report := by decide
  report := by decide

theorem url_reports_missed :
    (rtwWnmProcessBtmReq (image 0 urlReports.bytes) urlReports.bytes.length).offset = 4 ∧
      urlReports.fields.length = 11 ∧
      (rtwWnmProcessBtmReq (image 0 urlReports.bytes) urlReports.bytes.length).walk.map
        (·.candidates) = some [] := by
  decide +kernel

end Rtl88x2bu.Wnm
