import Rtl88x2bu.Lib.Walk
import Rtl88x2bu.Ie.Rsne

/-!
# Searches through elements and attributes

`rtw_get_ie`, `rtw_get_ie_ex`, `rtw_get_p2p_attr`, `rtw_get_wfd_attr` and `rtw_get_wps_attr`. The
loops take the number of rounds that they may make; an access outside the buffer is recorded in a
flag that is not in the source.
-/

namespace Rtl88x2bu.Ie

open Walk

variable (buf ie inIe : ℕ → Byte)

/-! ## `rtw_get_ie` -/

def reads (limit p n : ℕ) : Bool :=
  decide (n = 0 ∨ p + n ≤ limit)

/-- The count `i` at position `p`: a `sint` that is increased along with the pointer. -/
def sint (p : ℕ) : ℤ :=
  if p % 4294967296 < 2147483648 then p % 4294967296 else p % 4294967296 - 4294967296

def ieLenAt (p : ℕ) : ℕ :=
  (buf (p + 1)).toNat

def getIeLoop (buf : ℕ → Byte) (index limit : ℕ) : ℕ → ℕ → Bool → Outcome × Bool
  | 0, _, inside => (.endless, inside)
  | fuel + 1, p, inside =>
    let inside := inside && reads limit p 1
    if buf p = UInt8.ofNat index then (.found p, inside && reads limit (p + 1) 1)
    else
      let inside := inside && reads limit (p + 1) 1
      let next := p + (ieLenAt buf p + 2)
      if sint next ≥ limit then (.missing, inside) else getIeLoop buf index limit fuel next inside

def rtwGetIe (index limit fuel : ℕ) : Outcome × Bool :=
  if limit < 1 then (.missing, true) else getIeLoop buf index limit fuel 0 true

/-- However far it goes, the search reads inside the buffer, and what it returns is inside. -/
def GetIeContained (index limit : ℕ) : Prop :=
  ∀ fuel, (rtwGetIe buf index limit fuel).2 = true ∧
    ∀ p, (rtwGetIe buf index limit fuel).1 = .found p → p + 2 + ieLenAt buf p ≤ limit

section GetIe

variable (buf : ℕ → Byte) (index limit : ℕ)

def ieMore (p : ℕ) : Bool :=
  decide (sint p < limit)

def ieHit (p : ℕ) : Bool :=
  decide (buf p = UInt8.ofNat index)

def ieNext (p : ℕ) : ℕ :=
  p + (ieLenAt buf p + 2)

def ieOk (p : ℕ) : Bool :=
  !ieMore limit p || decide (p + 2 ≤ limit)

def IeVisited (p : ℕ) : Prop :=
  Visits (ieMore limit) (ieHit buf index) (ieNext buf) 0 p

end GetIe

section

variable {buf : ℕ → Byte} {index limit : ℕ}

theorem sint_zero : sint 0 = 0 := by
  norm_num [sint]

theorem reads_iff {p n : ℕ} : reads limit p n = true ↔ n = 0 ∨ p + n ≤ limit :=
  decide_eq_true_iff

theorem sint_lt_iff {p : ℕ} (small : p < 2 ^ 31) : sint p < limit ↔ p < limit := by
  rw [sint]
  split <;> omega

theorem reads_header (p : ℕ) :
    (reads limit p 1 && reads limit (p + 1) 1) = decide (p + 2 ≤ limit) := by
  rw [Bool.eq_iff_iff, Bool.and_eq_true, reads_iff, reads_iff, decide_eq_true_iff]
  omega

theorem checked_of_stop (fuel : ℕ) {p : ℕ} (stops : ieMore limit p = false) :
    checked (ieMore limit) (ieHit buf index) (ieOk limit) (ieNext buf) fuel p = true := by
  cases fuel with
  | zero => rfl
  | succ fuel => simp [checked, ieOk, stops]

variable (buf index) in
/-- The loop is the general search, with the reads of the two header bytes as the test. It looks
whether to go on after a round, not before, so that it may miss in one round less. -/
theorem getIeLoop_spec (fuel p : ℕ) (inside : Bool) (more : ieMore limit p = true) :
    ((getIeLoop buf index limit fuel p inside).2 = (inside &&
      checked (ieMore limit) (ieHit buf index) (ieOk limit) (ieNext buf) fuel p)) ∧
    ∀ q, (getIeLoop buf index limit fuel p inside).1 = .found q ↔
      search (ieMore limit) (ieHit buf index) (ieNext buf) fuel p = .found q := by
  induction fuel generalizing p inside with
  | zero => simp [getIeLoop, search, checked]
  | succ fuel ih =>
    have ok : ieOk limit p = (reads limit p 1 && reads limit (p + 1) 1) := by
      rw [reads_header, ieOk, more, Bool.not_true, Bool.false_or]
    by_cases hit : buf p = UInt8.ofNat index
    · simp [getIeLoop, search, checked, more, ieHit, hit, ok, Bool.and_assoc]
    have check : checked (ieMore limit) (ieHit buf index) (ieOk limit) (ieNext buf) (fuel + 1) p =
        (ieOk limit p &&
          checked (ieMore limit) (ieHit buf index) (ieOk limit) (ieNext buf) fuel
            (ieNext buf p)) := by
      simp [checked, more, ieHit, hit]
    have rest : search (ieMore limit) (ieHit buf index) (ieNext buf) (fuel + 1) p =
        search (ieMore limit) (ieHit buf index) (ieNext buf) fuel (ieNext buf p) := by
      simp [search, more, ieHit, hit]
    by_cases last : sint (ieNext buf p) ≥ limit
    · have stops : ieMore limit (ieNext buf p) = false := by
        rw [ieMore, decide_eq_false_iff_not]
        omega
      have calls : getIeLoop buf index limit (fuel + 1) p inside =
          (.missing, inside && reads limit p 1 && reads limit (p + 1) 1) :=
        (if_neg hit).trans (if_pos last)
      have missing : ∀ q, search (ieMore limit) (ieHit buf index) (ieNext buf) fuel (ieNext buf p) ≠
          .found q := by
        cases fuel with
        | zero => simp [search]
        | succ fuel => simp [search, stops]
      rw [calls, check, rest, checked_of_stop fuel stops, ok, Bool.and_true, Bool.and_assoc]
      exact ⟨rfl, fun q => iff_of_false (by simp) (missing q)⟩
    · have goesOn : ieMore limit (ieNext buf p) = true := by
        rw [ieMore, decide_eq_true_iff]
        omega
      have calls : getIeLoop buf index limit (fuel + 1) p inside =
          getIeLoop buf index limit fuel (ieNext buf p)
            (inside && reads limit p 1 && reads limit (p + 1) 1) := (if_neg hit).trans (if_neg last)
      obtain ⟨inner, found⟩ := ih (ieNext buf p)
        (inside && reads limit p 1 && reads limit (p + 1) 1) goesOn
      rw [calls, check, rest, inner, ok]
      exact ⟨by simp only [Bool.and_assoc], found⟩

theorem getIe_contained_iff :
    GetIeContained buf index limit ↔ ∀ p, IeVisited buf index limit p → sint p < limit →
      p + 2 ≤ limit ∧ (buf p = UInt8.ofNat index → p + 2 + ieLenAt buf p ≤ limit) := by
  by_cases empty : limit < 1
  · have nothing : limit = 0 := by omega
    subst nothing
    have stops : ieMore 0 0 = false := by rw [ieMore, sint_zero]; rfl
    refine iff_of_true (fun fuel => ⟨rfl, fun p found => ?_⟩) fun p visited more => ?_
    · cases found
    · rcases Visits.eq_or_next visited with rfl | ⟨goesOn, -⟩
      · rw [sint_zero] at more
        exact absurd more (lt_irrefl 0)
      · rw [stops] at goesOn
        cases goesOn
  have first : ieMore limit 0 = true := by
    rw [ieMore, decide_eq_true_iff, sint_zero]
    omega
  have calls : ∀ fuel, rtwGetIe buf index limit fuel = getIeLoop buf index limit fuel 0 true :=
    fun fuel => if_neg empty
  have spec := fun fuel => getIeLoop_spec buf index fuel 0 true first
  constructor
  · intro contained p visited more
    have allOk := (forall_checked_iff (ieOk limit)).mp (fun fuel => by
      have inside := (contained fuel).1
      rw [calls, (spec fuel).1, Bool.true_and] at inside
      exact inside) p visited
    have more' : ieMore limit p = true := by rw [ieMore, decide_eq_true_iff]; exact more
    rw [ieOk, more', Bool.not_true, Bool.false_or, decide_eq_true_iff] at allOk
    refine ⟨allOk, fun hit => ?_⟩
    have hit' : ieHit buf index p = true := by rw [ieHit, decide_eq_true_iff]; exact hit
    obtain ⟨fuel, found⟩ := exists_search_eq_found_iff.mpr ⟨visited, more', hit'⟩
    exact (contained fuel).2 p (by rw [calls]; exact ((spec fuel).2 p).mpr found)
  · intro all fuel
    rw [calls]
    refine ⟨?_, fun p found => ?_⟩
    · rw [(spec fuel).1, Bool.true_and]
      refine (forall_checked_iff (ieOk limit)).mpr (fun p visited => ?_) fuel
      cases more : ieMore limit p with
      | false => rw [ieOk, more]; rfl
      | true =>
        rw [ieOk, more, Bool.not_true, Bool.false_or, decide_eq_true_iff]
        exact (all p visited (by simpa [ieMore] using more)).1
    · have there := exists_search_eq_found_iff.mp ⟨fuel, ((spec fuel).2 p).mp found⟩
      obtain ⟨visited, more, hit⟩ := there
      exact (all p visited (by simpa [ieMore] using more)).2 (by simpa [ieHit] using hit)

end

/-! ## `rtw_get_ie_ex` -/

/-- What the caller of `rtw_get_ie_ex` asks for: `oui` with `oui_len` bytes, if not null, and
whether `ie` and `ielen` are given. -/
structure ExQuery where
  eid : Byte
  oui : Option (List Byte)
  ie : Bool
  ielen : Bool

def ouiMatches (cnt : ℕ) : Option (List Byte) → Bool
  | none => true
  | some oui => decide ((List.range oui.length).map (fun i => inIe (cnt + 2 + i)) = oui)

def ExQuery.ouiLen (q : ExQuery) : ℕ :=
  (q.oui.map List.length).getD 0

def getIeExLoop (inIe : ℕ → Byte) (inLen : ℕ) (q : ExQuery) : ℕ → ℕ → Bool → Outcome × Bool
  | 0, _, inside => (.endless, inside)
  | fuel + 1, cnt, inside =>
    if cnt < inLen then
      let inside := inside && reads inLen cnt 1
      -- `memcmp` is only called for an element with the id
      let inside := if q.eid = inIe cnt then inside && reads inLen (cnt + 2) q.ouiLen else inside
      if q.eid = inIe cnt ∧ ouiMatches inIe cnt q.oui then
        let inside := if q.ie then inside && reads inLen (cnt + 1) 1 &&
          reads inLen cnt (ieLenAt inIe cnt + 2) else inside
        let inside := if q.ielen then inside && reads inLen (cnt + 1) 1 else inside
        (.found cnt, inside)
      else
        let inside := inside && reads inLen (cnt + 1) 1
        getIeExLoop inIe inLen q fuel ((cnt + (ieLenAt inIe cnt + 2)) % 2 ^ 32) inside
    else (.missing, inside)

def rtwGetIeEx (inLen : ℕ) (q : ExQuery) (fuel : ℕ) : Outcome × Bool :=
  if inLen ≤ 0 then (.missing, true) else getIeExLoop inIe inLen q fuel 0 true

def GetIeExContained (inLen : ℕ) (q : ExQuery) : Prop :=
  ∀ fuel, (rtwGetIeEx inIe inLen q fuel).2 = true ∧
    ∀ p, (rtwGetIeEx inIe inLen q fuel).1 = .found p → p + 2 + ieLenAt inIe p ≤ inLen

section GetIeEx

variable (inIe : ℕ → Byte) (inLen : ℕ) (q : ExQuery)

def exMore (p : ℕ) : Bool :=
  decide (p < inLen)

def exHit (p : ℕ) : Bool :=
  decide (q.eid = inIe p ∧ ouiMatches inIe p q.oui = true)

def exNext (p : ℕ) : ℕ :=
  (p + (ieLenAt inIe p + 2)) % 2 ^ 32

def exOk (p : ℕ) : Bool :=
  !exMore inLen p ||
    ((reads inLen p 1 && (!decide (q.eid = inIe p) || reads inLen (p + 2) q.ouiLen)) &&
      if exHit inIe q p then
        (!q.ie || reads inLen (p + 1) 1 && reads inLen p (ieLenAt inIe p + 2)) &&
          (!q.ielen || reads inLen (p + 1) 1)
      else reads inLen (p + 1) 1)

def ExVisited (p : ℕ) : Prop :=
  Visits (exMore inLen) (exHit inIe q) (exNext inIe) 0 p

variable {inIe inLen q}

theorem getIeExLoop_eq (fuel cnt : ℕ) (inside : Bool) :
    getIeExLoop inIe inLen q fuel cnt inside =
      (search (exMore inLen) (exHit inIe q) (exNext inIe) fuel cnt,
        inside &&
          checked (exMore inLen) (exHit inIe q) (exOk inIe inLen q) (exNext inIe) fuel cnt) := by
  induction fuel generalizing cnt inside with
  | zero => simp [getIeExLoop, search, checked]
  | succ fuel ih =>
    by_cases more : cnt < inLen
    swap
    · simp [getIeExLoop, search, checked, exOk, exMore, more]
    by_cases hit : q.eid = inIe cnt ∧ ouiMatches inIe cnt q.oui = true
    · simp only [getIeExLoop, search, checked, exOk, exMore, exHit, more, hit, if_true, decide_true,
        Bool.not_true, Bool.false_or, Bool.and_true, and_self]
      cases q.ie with
      | false =>
        cases q.ielen with
        | false => simp [Bool.and_assoc]
        | true => simp [Bool.and_assoc]
      | true =>
        cases q.ielen with
        | false => simp [Bool.and_assoc]
        | true => simp [Bool.and_assoc]
    · simp only [getIeExLoop, search, checked, exOk, exMore, exHit, more, hit, if_true, if_false,
        decide_true, decide_false, Bool.false_eq_true, Bool.not_true, Bool.false_or, ih]
      by_cases eid : q.eid = inIe cnt
      · simp [eid, exNext, Bool.and_assoc]
      · simp [eid, exNext, Bool.and_assoc]

theorem exOk_iff {p : ℕ} (more : p < inLen)
    (fits : exHit inIe q p = true → p + 2 + ieLenAt inIe p ≤ inLen) :
    exOk inIe inLen q p = true ↔
      (q.eid = inIe p → q.ouiLen = 0 ∨ p + 2 + q.ouiLen ≤ inLen) ∧
        (exHit inIe q p = false → p + 2 ≤ inLen) := by
  have here : reads inLen p 1 = true := by
    rw [reads, decide_eq_true_iff]
    omega
  have oui : ((!decide (q.eid = inIe p) || reads inLen (p + 2) q.ouiLen) = true) ↔
      (q.eid = inIe p → q.ouiLen = 0 ∨ p + 2 + q.ouiLen ≤ inLen) := by
    rw [Bool.or_eq_true, Bool.not_eq_true', decide_eq_false_iff_not, reads, decide_eq_true_iff]
    exact imp_iff_not_or.symm
  have more' : exMore inLen p = true := by rw [exMore, decide_eq_true_iff]; exact more
  rw [exOk, more', here, Bool.not_true, Bool.false_or, Bool.true_and, Bool.and_eq_true, oui]
  apply and_congr_right
  intro _
  cases hit : exHit inIe q p with
  | true =>
    have whole := fits hit
    have length : reads inLen (p + 1) 1 = true := by rw [reads, decide_eq_true_iff]; omega
    have all : reads inLen p (ieLenAt inIe p + 2) = true := by
      rw [reads, decide_eq_true_iff]
      omega
    simp [length, all]
  | false =>
    simp only [Bool.false_eq_true, if_false, reads, decide_eq_true_iff, true_imp_iff]
    omega

theorem getIeEx_contained_iff :
    GetIeExContained inIe inLen q ↔ ∀ p, ExVisited inIe inLen q p → p < inLen →
      (q.eid = inIe p → q.ouiLen = 0 ∨ p + 2 + q.ouiLen ≤ inLen) ∧
        if q.eid = inIe p ∧ ouiMatches inIe p q.oui then p + 2 + ieLenAt inIe p ≤ inLen
        else p + 2 ≤ inLen := by
  have calls : ∀ fuel, inLen ≠ 0 → rtwGetIeEx inIe inLen q fuel =
      (search (exMore inLen) (exHit inIe q) (exNext inIe) fuel 0,
        checked (exMore inLen) (exHit inIe q) (exOk inIe inLen q) (exNext inIe) fuel 0) := by
    intro fuel some
    rw [rtwGetIeEx, if_neg (by omega), getIeExLoop_eq, Bool.true_and]
  by_cases empty : inLen = 0
  · subst empty
    refine iff_of_true (fun fuel => ⟨rfl, fun p found => ?_⟩) fun p _ more => ?_
    · cases found
    · exact absurd more (Nat.not_lt_zero p)
  constructor
  · intro contained p visited more
    have more' : exMore inLen p = true := by rw [exMore, decide_eq_true_iff]; exact more
    have ok := (forall_checked_iff (exOk inIe inLen q)).mp (fun fuel => by
      have inside := (contained fuel).1
      rw [calls fuel empty] at inside
      exact inside) p visited
    have fits : exHit inIe q p = true → p + 2 + ieLenAt inIe p ≤ inLen := by
      intro hit
      obtain ⟨fuel, found⟩ := exists_search_eq_found_iff.mpr ⟨visited, more', hit⟩
      exact (contained fuel).2 p (by rw [calls fuel empty]; exact found)
    obtain ⟨oui, header⟩ := (exOk_iff more fits).mp ok
    refine ⟨oui, ?_⟩
    split
    · rename_i hit
      exact fits (by rw [exHit, decide_eq_true_iff]; exact hit)
    · rename_i misses
      exact header (by rw [exHit, decide_eq_false_iff_not]; exact misses)
  · intro all fuel
    rw [calls fuel empty]
    refine ⟨(forall_checked_iff (exOk inIe inLen q)).mpr (fun p visited => ?_) fuel,
      fun p found => ?_⟩
    · by_cases more : p < inLen
      swap
      · have stops : exMore inLen p = false := by rw [exMore, decide_eq_false_iff_not]; exact more
        rw [exOk, stops]
        rfl
      obtain ⟨oui, rest⟩ := all p visited more
      have fits : exHit inIe q p = true → p + 2 + ieLenAt inIe p ≤ inLen := by
        intro hit
        rw [exHit, decide_eq_true_iff] at hit
        rwa [if_pos hit] at rest
      refine (exOk_iff more fits).mpr ⟨oui, fun misses => ?_⟩
      rw [exHit, decide_eq_false_iff_not] at misses
      rwa [if_neg misses] at rest
    · obtain ⟨visited, more, hit⟩ := exists_search_eq_found_iff.mp ⟨fuel, found⟩
      have rest := (all p visited (by simpa [exMore] using more)).2
      rw [exHit, decide_eq_true_iff] at hit
      rwa [if_pos hit] at rest

end GetIeEx

/-- The two searches stay inside a buffer exactly if every element that they come to has its header
in it, the one that they return ends in it, and no vendor's bytes are compared past its end. -/
theorem element_search_contained_iff (buf : ℕ → Byte) (index limit : ℕ) (q : ExQuery) :
    (GetIeContained buf index limit ↔ ∀ p, IeVisited buf index limit p → sint p < limit →
      p + 2 ≤ limit ∧ (buf p = UInt8.ofNat index → p + 2 + ieLenAt buf p ≤ limit)) ∧
    (GetIeExContained buf limit q ↔ ∀ p, ExVisited buf limit q p → p < limit →
      (q.eid = buf p → q.ouiLen = 0 ∨ p + 2 + q.ouiLen ≤ limit) ∧
        if q.eid = buf p ∧ ouiMatches buf p q.oui then p + 2 + ieLenAt buf p ≤ limit
        else p + 2 ≤ limit) :=
  ⟨getIe_contained_iff, getIeEx_contained_iff⟩

theorem element_search_strays :
    ¬ GetIeContained (fun _ => 0) 0 1 ∧ ¬ GetIeContained (fun i => if i = 1 then 5 else 0) 0 2 ∧
    ¬ GetIeExContained (fun _ => 0) 1 ⟨0, none, false, false⟩ := by
  refine ⟨fun contained => ?_, fun contained => ?_, fun contained => ?_⟩
  · exact absurd (contained 1).1 (by decide)
  · exact absurd ((contained 1).2 0 rfl) (by decide)
  · exact absurd ((contained 1).2 0 rfl) (by decide)

/-! ## Attributes -/

abbrev Get16 := (ℕ → Byte) → ℕ → ℕ

/-- The loop of `rtw_get_p2p_attr` and `rtw_get_wfd_attr`, which read the length differently. The
length of an attribute is an `u16`. -/
def attrLoop (get16 : Get16) (ie : ℕ → Byte) (ielen : ℕ) (target : Byte) : ℕ → ℕ → Outcome
  | 0, _ => .endless
  | fuel + 1, p =>
    if p + 3 ≤ ielen then
      let attrLen := (get16 ie (p + 1) + 3) % 65536
      if p + attrLen > ielen then .missing
      else if ie p = target then .found p
      else attrLoop get16 ie ielen target fuel (p + attrLen)
    else .missing

def vendorIe (oui : Vector Byte 4) : Prop :=
  ie 0 = 221 ∧ Vector.ofFn (fun i : Fin 4 => ie (2 + i)) = oui

instance (ie : ℕ → Byte) (oui : Vector Byte 4) : Decidable (vendorIe ie oui) :=
  inferInstanceAs (Decidable (_ ∧ _))

def rtwGetP2pAttr (ielen : ℕ) (target : Byte) (fuel : ℕ) : Outcome :=
  if ielen ≤ 6 ∨ ¬ vendorIe ie #v[0x50, 0x6f, 0x9a, 0x09] then .missing
  else attrLoop le16 ie ielen target fuel 6

def rtwGetWfdAttr (ielen : ℕ) (target : Byte) (fuel : ℕ) : Outcome :=
  if ielen ≤ 6 ∨ ¬ vendorIe ie #v[0x50, 0x6f, 0x9a, 0x0a] then .missing
  else attrLoop be16 ie ielen target fuel 6

def wpsAttrLoop (ie : ℕ → Byte) (ielen target : ℕ) : ℕ → ℕ → Outcome
  | 0, _ => .endless
  | fuel + 1, p =>
    if p < ielen then
      let attrLen := (be16 ie (p + 2) + 4) % 65536
      if be16 ie p = target then .found p else wpsAttrLoop ie ielen target fuel (p + attrLen)
    else .missing

def rtwGetWpsAttr (ielen target : ℕ) (fuel : ℕ) : Outcome :=
  if ¬ vendorIe ie #v[0x00, 0x50, 0xf2, 0x04] then .missing
  else wpsAttrLoop ie ielen target fuel 6

def Ends (run : ℕ → Outcome) : Prop :=
  ∃ fuel, run fuel ≠ .endless

section Attributes

variable (get16 : Get16) (ie : ℕ → Byte) (ielen : ℕ)

def attrMore (p : ℕ) : Bool :=
  decide (p + 3 ≤ ielen ∧ p + (get16 ie (p + 1) + 3) % 65536 ≤ ielen)

def attrHit (target : Byte) (p : ℕ) : Bool :=
  decide (ie p = target)

def attrNext (p : ℕ) : ℕ :=
  p + (get16 ie (p + 1) + 3) % 65536

def AttrPassed (target : Byte) (p : ℕ) : Prop :=
  Visits (attrMore get16 ie ielen) (attrHit ie target) (attrNext get16 ie) 6 p ∧
    p + 3 ≤ ielen ∧ p + (get16 ie (p + 1) + 3) % 65536 ≤ ielen ∧ ie p ≠ target

def wpsMore (p : ℕ) : Bool :=
  decide (p < ielen)

def wpsHit (target p : ℕ) : Bool :=
  decide (be16 ie p = target)

def wpsNext (p : ℕ) : ℕ :=
  p + (be16 ie (p + 2) + 4) % 65536

def WpsPassed (target p : ℕ) : Prop :=
  Visits (wpsMore ielen) (wpsHit ie target) (wpsNext ie) 6 p ∧ p < ielen ∧ be16 ie p ≠ target

variable {get16 ie ielen}

theorem attrLoop_eq (target : Byte) (fuel p : ℕ) :
    attrLoop get16 ie ielen target fuel p =
      search (attrMore get16 ie ielen) (attrHit ie target) (attrNext get16 ie) fuel p := by
  induction fuel generalizing p with
  | zero => rfl
  | succ fuel ih =>
    by_cases header : p + 3 ≤ ielen
    swap
    · simp [attrLoop, search, attrMore, header]
    by_cases long : p + (get16 ie (p + 1) + 3) % 65536 > ielen
    · have outside : ¬ p + (get16 ie (p + 1) + 3) % 65536 ≤ ielen := not_le.mpr long
      simp [attrLoop, search, attrMore, long, outside]
    · have inside : p + (get16 ie (p + 1) + 3) % 65536 ≤ ielen := not_lt.mp long
      simp [attrLoop, search, attrMore, attrHit, attrNext, header, long, inside, ih]

theorem wpsAttrLoop_eq (target fuel p : ℕ) :
    wpsAttrLoop ie ielen target fuel p =
      search (wpsMore ielen) (wpsHit ie target) (wpsNext ie) fuel p := by
  induction fuel generalizing p with
  | zero => rfl
  | succ fuel ih => simp [wpsAttrLoop, search, wpsMore, wpsHit, wpsNext, ih]

theorem ends_iff {more hit : ℕ → Bool} {next : ℕ → ℕ} {bound p : ℕ}
    (bounded : ∀ p, more p = true → p < bound) (forward : ∀ p, p ≤ next p) :
    Ends (fun fuel => search more hit next fuel p) ↔
      ∀ q, Visits more hit next p q → more q = true → hit q = false → next q ≠ q := by
  constructor
  · rintro ⟨fuel, ends⟩ q visits reads misses stuck
    exact ends (visits.endless reads misses stuck fuel)
  · intro moves
    refine ⟨bound - p + 1, search_ne_endless bounded (fun q visits reads misses => ?_)
      (Nat.lt_succ_self _)⟩
    exact lt_of_le_of_ne (forward q) (moves q visits reads misses).symm

theorem attrLoop_ends_iff (target : Byte) :
    Ends (fun fuel => attrLoop get16 ie ielen target fuel 6) ↔
      ∀ p, AttrPassed get16 ie ielen target p → (get16 ie (p + 1) + 3) % 65536 ≠ 0 := by
  have bounded : ∀ p, attrMore get16 ie ielen p = true → p < ielen := by
    intro p more
    rw [attrMore, decide_eq_true_iff] at more
    omega
  have forward : ∀ p, p ≤ attrNext get16 ie p := fun p => Nat.le_add_right p _
  simp only [attrLoop_eq]
  rw [ends_iff bounded forward]
  constructor
  · rintro moves p ⟨visits, header, fits, misses⟩ stuck
    refine moves p visits ?_ ?_ ?_
    · rw [attrMore, decide_eq_true_iff]
      exact ⟨header, fits⟩
    · rw [attrHit, decide_eq_false_iff_not]
      exact misses
    · rw [attrNext, stuck, Nat.add_zero]
  · intro moves p visits more misses stuck
    rw [attrMore, decide_eq_true_iff] at more
    rw [attrHit, decide_eq_false_iff_not] at misses
    have zero : (get16 ie (p + 1) + 3) % 65536 = 0 := by
      rw [attrNext] at stuck
      omega
    exact moves p ⟨visits, more.1, more.2, misses⟩ zero

theorem wpsAttrLoop_ends_iff (target : ℕ) :
    Ends (fun fuel => wpsAttrLoop ie ielen target fuel 6) ↔
      ∀ p, WpsPassed ie ielen target p → (be16 ie (p + 2) + 4) % 65536 ≠ 0 := by
  have bounded : ∀ p, wpsMore ielen p = true → p < ielen := by
    intro p more
    simpa [wpsMore] using more
  have forward : ∀ p, p ≤ wpsNext ie p := fun p => Nat.le_add_right p _
  simp only [wpsAttrLoop_eq]
  rw [ends_iff bounded forward]
  constructor
  · rintro moves p ⟨visits, more, misses⟩ stuck
    refine moves p visits ?_ ?_ ?_
    · rw [wpsMore, decide_eq_true_iff]
      exact more
    · rw [wpsHit, decide_eq_false_iff_not]
      exact misses
    · rw [wpsNext, stuck, Nat.add_zero]
  · intro moves p visits more misses stuck
    rw [wpsMore, decide_eq_true_iff] at more
    rw [wpsHit, decide_eq_false_iff_not] at misses
    have zero : (be16 ie (p + 2) + 4) % 65536 = 0 := by
      rw [wpsNext] at stuck
      omega
    exact moves p ⟨visits, more, misses⟩ zero

theorem ends_guarded {c : Prop} [Decidable c] {run : ℕ → Outcome} :
    Ends (fun fuel => if c then .missing else run fuel) ↔ c ∨ Ends run := by
  by_cases stops : c
  · simp only [stops, if_true, true_or, iff_true]
    exact ⟨0, by simp⟩
  · simp only [stops, if_false, false_or]

end Attributes

/-- Each search ends exactly if it passes no attribute whose length, with the header, is a multiple
of 65536: there the stride is zero. -/
theorem attr_search_ends_iff (ie : ℕ → Byte) (ielen : ℕ) (target : Byte) (wpsTarget : ℕ) :
    (Ends (rtwGetP2pAttr ie ielen target) ↔
      (ielen ≤ 6 ∨ ¬ vendorIe ie #v[0x50, 0x6f, 0x9a, 0x09]) ∨
        ∀ p, AttrPassed le16 ie ielen target p → le16 ie (p + 1) ≠ 65533) ∧
    (Ends (rtwGetWfdAttr ie ielen target) ↔
      (ielen ≤ 6 ∨ ¬ vendorIe ie #v[0x50, 0x6f, 0x9a, 0x0a]) ∨
        ∀ p, AttrPassed be16 ie ielen target p → be16 ie (p + 1) ≠ 65533) ∧
    (Ends (rtwGetWpsAttr ie ielen wpsTarget) ↔
      ¬ vendorIe ie #v[0x00, 0x50, 0xf2, 0x04] ∨
        ∀ p, WpsPassed ie ielen wpsTarget p → be16 ie (p + 2) ≠ 65532) := by
  refine ⟨?_, ?_, ?_⟩
  · refine ends_guarded.trans (or_congr_right ((attrLoop_ends_iff target).trans ?_))
    refine forall₂_congr fun p _ => not_congr ?_
    have range := le16_lt ie (p + 1)
    omega
  · refine ends_guarded.trans (or_congr_right ((attrLoop_ends_iff target).trans ?_))
    refine forall₂_congr fun p _ => not_congr ?_
    have range := be16_lt ie (p + 1)
    omega
  · refine ends_guarded.trans (or_congr_right ((wpsAttrLoop_ends_iff wpsTarget).trans ?_))
    refine forall₂_congr fun p _ => not_congr ?_
    have range := be16_lt ie (p + 2)
    omega

def stuckP2pIe (i : ℕ) : Byte :=
  [221, 7, 0x50, 0x6f, 0x9a, 0x09, 1, 0xfd, 0xff].getD i 0

theorem p2p_search_endless : ¬ Ends (rtwGetP2pAttr stuckP2pIe 9 2) := by
  rintro ⟨fuel, ends⟩
  apply ends
  have starts : rtwGetP2pAttr stuckP2pIe 9 2 fuel = attrLoop le16 stuckP2pIe 9 2 fuel 6 :=
    if_neg (by decide)
  rw [starts, attrLoop_eq]
  exact search_of_stuck (by decide) (by decide) (by decide) fuel

end Rtl88x2bu.Ie
