import Rtl88x2bu.Lib.Tape
import Rtl88x2bu.Ie.Search

/-!
# The parser of the WPA element

`rtw_parse_wpa_ie` (`rust/rtw_ieee80211_rest.rs`, and the same in `core/rtw_ieee80211.c`) compares
the first six bytes of the element before it knows that there are six, and never looks at the
version.
-/

namespace Rtl88x2bu.Ie

open Tape

variable (ie : ℕ → Byte)

/-! ## The function -/

def wpaIeId : Byte := 0xdd
def rtwWpaOuiType : List Byte := [0x00, 0x50, 0xf2, 1]
def wpaSelectorLen : ℕ := 4
def suite1x : List Byte := [0x00, 0x50, 0xf2, 1]
def wlanAkmType8021x : ℕ := 1

def rtwGetWpaCipherSuite (s : ℕ) : ℕ :=
  if window ie s wpaSelectorLen = [0x00, 0x50, 0xf2, 0] then 1 <<< 0
  else if window ie s wpaSelectorLen = [0x00, 0x50, 0xf2, 1] then 1 <<< 1
  else if window ie s wpaSelectorLen = [0x00, 0x50, 0xf2, 2] then 1 <<< 3
  else if window ie s wpaSelectorLen = [0x00, 0x50, 0xf2, 4] then 1 <<< 4
  else if window ie s wpaSelectorLen = [0x00, 0x50, 0xf2, 5] then 1 <<< 2
  else 0

/-- The position, the bytes that are left, and what is written through the pointers. `akm` may be
NULL. -/
structure WpaState where
  pos : ℕ
  left : ℤ
  groupCipher : ℕ
  pairwiseCipher : ℕ
  akm : Option ℕ
  inside : Bool

def WpaState.skip (s : WpaState) (limit n : ℕ) : WpaState :=
  { s with pos := s.pos + n, left := s.left - n, inside := s.inside && reads limit s.pos n }

def parseWpaGroup (limit : ℕ) (s : WpaState) : Status × WpaState :=
  if s.left ≥ wpaSelectorLen then
    (.success, { s with groupCipher := rtwGetWpaCipherSuite ie s.pos }.skip limit wpaSelectorLen)
  else if s.left > 0 then (.fail, s)
  else (.success, s)

def pairwiseLoop (ie : ℕ → Byte) (limit : ℕ) : ℕ → WpaState → WpaState
  | 0, s => s
  | count + 1, s =>
    pairwiseLoop ie limit count
      ({ s with pairwiseCipher := s.pairwiseCipher ||| rtwGetWpaCipherSuite ie s.pos }.skip limit
        wpaSelectorLen)

def parseWpaPairwise (limit : ℕ) (s : WpaState) : Status × WpaState :=
  if s.left ≥ 2 then
    let count := le16 ie s.pos
    let s := s.skip limit 2
    if count = 0 ∨ s.left < (count * wpaSelectorLen : ℕ) then (.fail, s)
    else (.success, pairwiseLoop ie limit count s)
  else if s.left = 1 then (.fail, s)
  else (.success, s)

def parseWpaAkm (limit : ℕ) (s : WpaState) : WpaState :=
  if s.akm.isSome ∧ s.left ≥ 6 then
    let pos := s.pos + 2
    { s with
      pos := pos
      akm := if window ie pos 4 = suite1x then some wlanAkmType8021x else s.akm
      inside := s.inside && reads limit pos 4 }
  else s

def parseWpaSuites (limit : ℕ) (s : WpaState) : Status × WpaState :=
  let (ret, s) := parseWpaGroup ie limit s
  if ret = .fail then (.fail, s)
  else
    let (ret, s) := parseWpaPairwise ie limit s
    if ret = .fail then (.fail, s) else (.success, parseWpaAkm ie limit s)

/-- `rtw_parse_wpa_ie`, with the values behind the pointers and whether only the buffer was read. -/
def rtwParseWpaIe (wpaIeLen : ℤ) (groupCipher pairwiseCipher : ℕ) (akm : Option ℕ) :
    Status × WpaState :=
  let limit := wpaIeLen.toNat
  let s : WpaState := ⟨0, wpaIeLen, groupCipher, pairwiseCipher, akm, true⟩
  if wpaIeLen ≤ 0 then (.fail, s)
  else
    let s := { s with inside := s.inside && reads limit 0 1 }
    if ie 0 ≠ wpaIeId then (.fail, s)
    else
      let s := { s with inside := s.inside && reads limit 1 1 }
      if ie 1 ≠ UInt8.ofNat ((wpaIeLen - 2) % 256).toNat then (.fail, s)
      else
        let s := { s with inside := s.inside && reads limit 2 wpaSelectorLen }
        if window ie 2 wpaSelectorLen ≠ rtwWpaOuiType then (.fail, s)
        else parseWpaSuites ie limit { s with pos := 8, left := wpaIeLen - 8 }

/-! ## From the group cipher on -/

/-- The position and the rest add up to the buffer, and no byte behind it was read. -/
structure WpaState.Sound (s : WpaState) (limit : ℕ) : Prop where
  sum : s.pos + s.left = limit
  inside : s.inside = true

section Suites

variable {ie : ℕ → Byte} {limit : ℕ} {s : WpaState}

section

variable (sound : s.Sound limit)
include sound

theorem WpaState.Sound.skip {n : ℕ} (enough : n ≤ s.left) : (s.skip limit n).Sound limit := by
  obtain ⟨sum, inside⟩ := sound
  constructor
  · simp only [WpaState.skip]
    omega
  · simp only [WpaState.skip, inside, reads, Bool.true_and, decide_eq_true_eq]
    omega

theorem parseWpaGroup_sound : (parseWpaGroup ie limit s).2.Sound limit := by
  rw [parseWpaGroup]
  split
  next enough =>
    have written : WpaState.Sound { s with groupCipher := rtwGetWpaCipherSuite ie s.pos } limit :=
      ⟨sound.sum, sound.inside⟩
    exact written.skip enough
  · split
    · exact sound
    · exact sound

theorem pairwiseLoop_sound {count : ℕ} (enough : ((count * wpaSelectorLen : ℕ) : ℤ) ≤ s.left) :
    (pairwiseLoop ie limit count s).Sound limit := by
  induction count generalizing s with
  | zero => exact sound
  | succ count ih =>
    have written : WpaState.Sound { s with
        pairwiseCipher := s.pairwiseCipher ||| rtwGetWpaCipherSuite ie s.pos } limit :=
      ⟨sound.sum, sound.inside⟩
    rw [wpaSelectorLen] at enough
    apply ih
    · apply written.skip
      change (4 : ℤ) ≤ s.left
      omega
    · simp only [WpaState.skip, wpaSelectorLen]
      omega

theorem parseWpaPairwise_sound : (parseWpaPairwise ie limit s).2.Sound limit := by
  rw [parseWpaPairwise]
  split
  next enough =>
    have skipped := sound.skip enough
    dsimp only
    split
    · exact skipped
    next fits => exact pairwiseLoop_sound skipped (not_lt.mp (not_or.mp fits).2)
  · split
    · exact sound
    · exact sound

theorem parseWpaAkm_inside : (parseWpaAkm ie limit s).inside = true := by
  rw [parseWpaAkm]
  split
  next enough =>
    have sum := sound.sum
    simp only [sound.inside, reads, Bool.true_and, decide_eq_true_eq]
    omega
  · exact sound.inside

end

/-! What was read outside the buffer before stays recorded. -/

theorem inside_of_skip {n : ℕ} (inside : (s.skip limit n).inside = true) : s.inside = true :=
  (Bool.and_eq_true_iff.mp inside).1

theorem inside_of_parseWpaGroup (inside : (parseWpaGroup ie limit s).2.inside = true) :
    s.inside = true := by
  rw [parseWpaGroup] at inside
  split at inside
  · exact inside_of_skip inside
  · split at inside
    · exact inside
    · exact inside

theorem inside_of_pairwiseLoop {count : ℕ}
    (inside : (pairwiseLoop ie limit count s).inside = true) : s.inside = true := by
  induction count generalizing s with
  | zero => exact inside
  | succ count ih =>
    rw [pairwiseLoop] at inside
    have before := inside_of_skip (ih inside)
    exact before

theorem inside_of_parseWpaPairwise (inside : (parseWpaPairwise ie limit s).2.inside = true) :
    s.inside = true := by
  rw [parseWpaPairwise] at inside
  split at inside
  · dsimp only at inside
    split at inside
    · exact inside_of_skip inside
    · exact inside_of_skip (inside_of_pairwiseLoop inside)
  · split at inside
    · exact inside
    · exact inside

theorem inside_of_parseWpaSuites (inside : (parseWpaSuites ie limit s).2.inside = true) :
    s.inside = true := by
  rw [parseWpaSuites] at inside
  dsimp only at inside
  split at inside
  · exact inside_of_parseWpaGroup inside
  · apply @inside_of_parseWpaGroup ie limit s
    split at inside
    · exact inside_of_parseWpaPairwise inside
    · apply @inside_of_parseWpaPairwise ie limit
      rw [parseWpaAkm] at inside
      split at inside
      · exact (Bool.and_eq_true_iff.mp inside).1
      · exact inside

end Suites

/-- Behind the version are the ciphers that their count says, or the bytes stop at one of them. -/
def WpaSuitesFit (len : ℕ) : Prop :=
  len ≤ 8 ∨ len = 12 ∨ 14 ≤ len ∧ 0 < le16 ie 12 ∧ 4 * le16 ie 12 ≤ len - 14

/-- A whole header: id, OUI, type and version. -/
structure WpaHeader (ie : ℕ → Byte) (len : ℕ) : Prop where
  long : 8 ≤ len
  id : ie 0 = wpaIeId
  oui_type : Holds ie 2 rtwWpaOuiType
  version : le16 ie 6 = 1

section Header

variable {ie : ℕ → Byte} {len groupCipher pairwiseCipher : ℕ} {akm : Option ℕ}
variable {limit : ℕ} {s : WpaState}

theorem parseWpaSuites_inside (sound : s.Sound limit) :
    (parseWpaSuites ie limit s).2.inside = true := by
  have group := @parseWpaGroup_sound ie _ _ sound
  have pairwise := @parseWpaPairwise_sound ie _ _ group
  rw [parseWpaSuites]
  dsimp only
  split
  · exact group.inside
  · split
    · exact pairwise.inside
    · exact parseWpaAkm_inside pairwise

theorem parseWpaGroup_fail_iff :
    (parseWpaGroup ie limit s).1 = .fail ↔ 0 < s.left ∧ s.left < 4 := by
  rw [parseWpaGroup, wpaSelectorLen]
  split
  · exact iff_of_false nofun (by omega)
  · split
    · exact iff_of_true rfl (by omega)
    · exact iff_of_false nofun (by omega)

theorem parseWpaGroup_rest :
    4 ≤ s.left ∧ (parseWpaGroup ie limit s).2.pos = s.pos + 4 ∧
      (parseWpaGroup ie limit s).2.left = s.left - 4 ∨
    s.left < 4 ∧ (parseWpaGroup ie limit s).2.left = s.left := by
  rw [parseWpaGroup, wpaSelectorLen]
  split
  next enough => exact .inl ⟨enough, rfl, rfl⟩
  next few =>
    refine .inr ⟨not_le.mp few, ?_⟩
    split <;> rfl

theorem parseWpaPairwise_fail_iff :
    (parseWpaPairwise ie limit s).1 = .fail ↔
      s.left = 1 ∨ 2 ≤ s.left ∧ (le16 ie s.pos = 0 ∨ s.left - 2 < 4 * le16 ie s.pos) := by
  rw [parseWpaPairwise]
  split
  next enough =>
    dsimp only [WpaState.skip]
    rw [wpaSelectorLen]
    split
    · exact iff_of_true rfl (by omega)
    · exact iff_of_false nofun (by omega)
  · split
    next one => exact iff_of_true rfl (.inl one)
    · exact iff_of_false nofun (by omega)

theorem parseWpaSuites_success_iff {inside : Bool} :
    (parseWpaSuites ie len ⟨8, len - 8, groupCipher, pairwiseCipher, akm, inside⟩).1 = .success ↔
      WpaSuitesFit ie len := by
  have group_fails := @parseWpaGroup_fail_iff ie len
    ⟨8, len - 8, groupCipher, pairwiseCipher, akm, inside⟩
  have rest := @parseWpaGroup_rest ie len ⟨8, len - 8, groupCipher, pairwiseCipher, akm, inside⟩
  rw [parseWpaSuites, WpaSuitesFit]
  generalize parseWpaGroup ie len ⟨8, len - 8, groupCipher, pairwiseCipher, akm, inside⟩ =
    group at *
  obtain ⟨ret, s⟩ := group
  have pairwise_fails := @parseWpaPairwise_fail_iff ie len s
  dsimp only at group_fails rest ⊢
  split
  next fails =>
    have part := group_fails.mp fails
    exact iff_of_false nofun (by omega)
  next passes =>
    rw [group_fails] at passes
    split
    next fails =>
      refine iff_of_false nofun ?_
      rcases pairwise_fails.mp fails with one | ⟨some_suite, misfit⟩
      · omega
      · rcases rest with ⟨whole, pos_eq, left_eq⟩ | ⟨none_left, left_eq⟩
        · have pos_eq : s.pos = 12 := pos_eq
          rw [pos_eq] at misfit
          omega
        · omega
    next fits =>
      rw [pairwise_fails, not_or, not_and_or, not_or] at fits
      refine iff_of_true rfl ?_
      rcases rest with ⟨whole, pos_eq, left_eq⟩ | ⟨none_left, left_eq⟩
      · have pos_eq : s.pos = 12 := pos_eq
        rw [pos_eq] at fits
        omega
      · omega

end Header

/-! ## The header -/

section

variable {ie : ℕ → Byte} {len groupCipher pairwiseCipher : ℕ} {akm : Option ℕ}

theorem rtwParseWpaIe_of_id (some_byte : 0 < len) (id : ie 0 = wpaIeId) :
    rtwParseWpaIe ie len groupCipher pairwiseCipher akm =
      if ie 1 ≠ UInt8.ofNat (((len : ℤ) - 2) % 256).toNat then
        (.fail, ⟨0, len, groupCipher, pairwiseCipher, akm, reads len 1 1⟩)
      else if window ie 2 wpaSelectorLen ≠ rtwWpaOuiType then
        (.fail, ⟨0, len, groupCipher, pairwiseCipher, akm, reads len 1 1 && reads len 2 4⟩)
      else
        parseWpaSuites ie len
          ⟨8, len - 8, groupCipher, pairwiseCipher, akm, reads len 1 1 && reads len 2 4⟩ := by
  have first : reads len 0 1 = true := by
    rw [reads, decide_eq_true_eq]
    omega
  rw [rtwParseWpaIe, if_neg (by omega)]
  simp only [Int.toNat_natCast, first, Bool.true_and, id, ne_eq, not_true_eq_false, if_false]
  rfl

theorem not_inside_of_short (some_byte : 0 < len) (id : ie 0 = wpaIeId)
    (short : len = 1 ∨ ie 1 = UInt8.ofNat (((len : ℤ) - 2) % 256).toNat ∧ len < 6) :
    (rtwParseWpaIe ie len groupCipher pairwiseCipher akm).2.inside ≠ true := by
  intro inside
  have outside : (reads len 1 1 && reads len 2 4) ≠ true := by
    simp only [reads, ne_eq, Bool.and_eq_true, decide_eq_true_eq]
    omega
  rw [rtwParseWpaIe_of_id some_byte id] at inside
  split at inside
  next other =>
    rcases short with rfl | ⟨length, -⟩
    · have second : reads 1 1 1 = true := inside
      exact absurd second (by decide)
    · exact other length
  · split at inside
    · exact outside inside
    · exact outside (inside_of_parseWpaSuites inside)

theorem lengthByte_eq (long : 2 ≤ len) :
    UInt8.ofNat (((len : ℤ) - 2) % 256).toNat = UInt8.ofNat (len - 2) := by
  rw [← UInt8.toNat_inj, UInt8.toNat_ofNat', UInt8.toNat_ofNat']
  omega

end

/-- For every buffer and its length: the function reads only bytes of the buffer, and succeeds only
with a whole header, except for a buffer that starts with the id and has no second byte, or whose
second byte agrees with the length and that is too short for the OUI and the type, or has these and
no version or another one while the suites fit. -/
theorem wpa_ie_header_iff (ie : ℕ → Byte) (len groupCipher pairwiseCipher : ℕ) (akm : Option ℕ) :
    ((rtwParseWpaIe ie len groupCipher pairwiseCipher akm).2.inside = true ∧
      ((rtwParseWpaIe ie len groupCipher pairwiseCipher akm).1 = .success → WpaHeader ie len)) ↔
    ¬ (ie 0 = wpaIeId ∧ (len = 1 ∨ 2 ≤ len ∧ ie 1 = UInt8.ofNat (len - 2) ∧
      (len < 6 ∨ Holds ie 2 rtwWpaOuiType ∧ WpaSuitesFit ie len ∧
      ¬ (8 ≤ len ∧ le16 ie 6 = 1)))) := by
  rcases Nat.eq_zero_or_pos len with rfl | some_byte
  · exact iff_of_true ⟨rfl, by rintro ⟨⟩⟩ (by omega)
  by_cases id : ie 0 = wpaIeId
  swap
  · refine iff_of_true ?_ fun both => id both.1
    have first : reads len 0 1 = true := by
      rw [reads, decide_eq_true_eq]
      omega
    rw [rtwParseWpaIe, if_neg (by omega)]
    simp only [Int.toNat_natCast, first, ne_eq, id, not_false_eq_true, if_true]
    exact ⟨rfl, by rintro ⟨⟩⟩
  rcases Nat.lt_or_ge len 2 with one | long
  · have one : len = 1 := by omega
    exact iff_of_false (fun both => not_inside_of_short some_byte id (.inl one) both.1)
      (not_not.mpr ⟨id, .inl one⟩)
  have parsed := @rtwParseWpaIe_of_id ie len groupCipher pairwiseCipher akm some_byte id
  rw [lengthByte_eq long] at parsed
  have second : reads len 1 1 = true := by
    rw [reads, decide_eq_true_eq]
    omega
  by_cases length : ie 1 = UInt8.ofNat (len - 2)
  swap
  · rw [if_pos length] at parsed
    rw [parsed]
    refine iff_of_true ⟨second, by rintro ⟨⟩⟩ ?_
    rintro ⟨-, one | ⟨-, same, -⟩⟩
    · omega
    · exact length same
  rw [if_neg (not_not.mpr length)] at parsed
  rcases Nat.lt_or_ge len 6 with short | six
  · refine iff_of_false (fun both => ?_) (not_not.mpr ⟨id, .inr ⟨long, length, .inl short⟩⟩)
    rw [← lengthByte_eq long] at length
    exact not_inside_of_short some_byte id (.inr ⟨length, short⟩) both.1
  have inside : (reads len 1 1 && reads len 2 4) = true := by
    simp only [reads, Bool.and_eq_true, decide_eq_true_eq]
    omega
  by_cases oui : window ie 2 wpaSelectorLen = rtwWpaOuiType
  swap
  · rw [if_pos oui] at parsed
    rw [parsed]
    refine iff_of_true ⟨inside, by rintro ⟨⟩⟩ ?_
    rintro ⟨-, one | ⟨-, -, short | ⟨held, -⟩⟩⟩
    · omega
    · omega
    · exact oui (held.window_eq rfl)
  have held : Holds ie 2 rtwWpaOuiType := by
    rw [← oui]
    exact holds_window _ rfl
  rw [if_neg (not_not.mpr oui), inside] at parsed
  have suites_inside := @parseWpaSuites_inside ie len
    ⟨8, len - 8, groupCipher, pairwiseCipher, akm, true⟩ ⟨by dsimp only; omega, rfl⟩
  rw [parsed, and_iff_right suites_inside, parseWpaSuites_success_iff]
  constructor
  · rintro header ⟨-, one | ⟨-, -, short | ⟨-, fit, no_version⟩⟩⟩
    · omega
    · omega
    · exact no_version ⟨(header fit).long, (header fit).version⟩
  · intro regular fit
    by_cases version : 8 ≤ len ∧ le16 ie 6 = 1
    · exact ⟨version.1, id, held, version.2⟩
    · exact absurd ⟨id, .inr ⟨long, length, .inr ⟨held, fit, version⟩⟩⟩ regular

theorem wpa_ie_without_version :
    (rtwParseWpaIe (image 0 [0xdd, 4, 0x00, 0x50, 0xf2, 1]) 6 0 0 none).1 = .success ∧
    (rtwParseWpaIe (image 0 [0xdd, 10, 0x00, 0x50, 0xf2, 1, 2, 0, 0x00, 0x50, 0xf2, 2]) 12 0 0
      none).1 = .success ∧
    (rtwParseWpaIe (image 0 [0xdd, 1, 0x00]) 3 0 0 none).2.inside = false := by
  decide

end Rtl88x2bu.Ie
