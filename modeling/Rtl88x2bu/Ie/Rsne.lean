import Rtl88x2bu.Basic

/-!
# The two parsers of the RSN element

`rtw_rsne_info_parse` of `core/rtw_ieee80211.c` and its port in `rust/rtw_ieee80211_rest.rs`, with
offsets into the element for pointers.
-/

namespace Rtl88x2bu.Ie

def wlanEidRsn : Byte := 48

def wlanEidVendorSpecific : Byte := 221

/-- `MAX_IE_SZ`, the room for the elements of a network. -/
def maxIeSz : ℕ := 768

structure RsneInfo where
  gcs : Option ℕ := none
  pcsCnt : ℕ := 0
  pcsList : Option ℕ := none
  akmCnt : ℕ := 0
  akmList : Option ℕ := none
  cap : Option ℕ := none
  pmkidCnt : ℕ := 0
  pmkidList : Option ℕ := none
  gmcs : Option ℕ := none
  err : Bool := false
  deriving DecidableEq

variable (info : RsneInfo)

inductive Status
  | success
  | fail
  deriving DecidableEq, Repr

def parseErr : Status × RsneInfo :=
  (.fail, { info with err := true })

/-- Where there are too few bytes for the next field: the element may end there, not later. -/
def parseEnd (ieLen pos : ℕ) : Status × RsneInfo :=
  if ieLen ≠ pos then parseErr info else (.success, info)

/-- `rtw_rsne_info_parse`, in which original and port differ in the test `lenOk` of the length byte
only. -/
def rsneInfoParse (lenOk : Bool) (ie : ℕ → Byte) (ieLen : ℕ) : Status × RsneInfo :=
  let info : RsneInfo := {}
  if ieLen < 4 then parseErr info
  else if ie 0 ≠ wlanEidRsn ∨ lenOk = false then parseErr info
  else if le16 ie 2 ≠ 1 then parseErr info
  else if ieLen < 4 + 4 then parseEnd info ieLen 4
  else
    let info := { info with gcs := some 4 }
    if ieLen < 8 + 2 then parseEnd info ieLen 8
    else
      let cnt := le16 ie 8
      let pos := 10
      if ieLen < pos + 4 * cnt then parseEnd info ieLen pos
      else
        let info := { info with pcsCnt := cnt, pcsList := some pos }
        let pos := pos + 4 * cnt
        if ieLen < pos + 2 then parseEnd info ieLen pos
        else
          let cnt := le16 ie pos
          let pos := pos + 2
          if ieLen < pos + 4 * cnt then parseEnd info ieLen pos
          else
            let info := { info with akmCnt := cnt, akmList := some pos }
            let pos := pos + 4 * cnt
            if ieLen < pos + 2 then parseEnd info ieLen pos
            else
              let info := { info with cap := some pos }
              let pos := pos + 2
              if ieLen < pos + 2 then parseEnd info ieLen pos
              else
                let cnt := le16 ie pos
                let pos := pos + 2
                if ieLen < pos + 16 * cnt then parseErr info
                else
                  let info := { info with pmkidCnt := cnt, pmkidList := some pos }
                  let pos := pos + 16 * cnt
                  if ieLen < pos + 4 then parseEnd info ieLen pos
                  else (.success, { info with gmcs := some pos })

/-- `rtw_rsne_info_parse` of `core/rtw_ieee80211.c`: the byte is compared as an `uint`. -/
def rsneInfoParseC (ie : ℕ → Byte) (ieLen : ℕ) : Status × RsneInfo :=
  rsneInfoParse ((ie 1).toNat = ieLen - 2) ie ieLen

/-- `rtw_rsne_info_parse` of `rust/rtw_ieee80211_rest.rs`: the length is cut down to a byte. -/
def rsneInfoParseRust (ie : ℕ → Byte) (ieLen : ℕ) : Status × RsneInfo :=
  rsneInfoParse (ie 1 = UInt8.ofNat (ieLen - 2)) ie ieLen

variable {ie : ℕ → Byte} {ieLen : ℕ}

@[simp] theorem parseEnd_gcs (ieLen pos : ℕ) : (parseEnd info ieLen pos).2.gcs = info.gcs := by
  unfold parseEnd
  split <;> rfl

theorem cut_length_iff (small : 4 ≤ ieLen) :
    ie 1 ≠ UInt8.ofNat (ieLen - 2) ↔
      (ie 1).toNat ≠ ieLen - 2 ∧ ¬ (256 ≤ ieLen - 2 ∧ (ie 1).toNat = (ieLen - 2) % 256) := by
  have byte : ie 1 = UInt8.ofNat (ieLen - 2) ↔ (ie 1).toNat = (ieLen - 2) % 256 := by
    rw [← UInt8.toNat_inj, UInt8.toNat_ofNat']
  have range := (ie 1).toNat_lt
  rw [Ne, byte]
  omega

/-- The header is checked before anything is reported. -/
theorem parse_err {lenOk : Bool}
    (bad : ieLen < 4 ∨ ie 0 ≠ wlanEidRsn ∨ lenOk = false ∨ le16 ie 2 ≠ 1) :
    rsneInfoParse lenOk ie ieLen = parseErr {} := by
  unfold rsneInfoParse
  by_cases short : ieLen < 4
  · rw [if_pos short]
  rw [if_neg short]
  by_cases check : ie 0 ≠ wlanEidRsn ∨ lenOk = false
  · rw [if_pos check]
  rw [← or_assoc (b := lenOk = false)] at bad
  rw [if_neg check, if_pos ((bad.resolve_left short).resolve_left check)]

theorem parse_gcs (long : 8 ≤ ieLen) (eid : ie 0 = wlanEidRsn) (version : le16 ie 2 = 1) :
    (rsneInfoParse true ie ieLen).2.gcs = some 4 := by
  have notShort : ¬ ieLen < 4 := by omega
  have notShort' : ¬ ieLen < 4 + 4 := by omega
  simp only [rsneInfoParse, notShort, eid, version, notShort', ne_eq, not_true_eq_false,
    Bool.true_eq_false, or_self, if_false]
  split_ifs
  all_goals first | rfl | exact parseEnd_gcs _ _ _

/-- The port gives the results of the original except for an element that is longer than its length
byte can say and whose length agrees with that byte modulo 256. -/
theorem rsne_parse_parity_iff (ie : ℕ → Byte) (ieLen : ℕ) :
    rsneInfoParseRust ie ieLen = rsneInfoParseC ie ieLen ↔
      ¬ (256 ≤ ieLen - 2 ∧ ie 0 = wlanEidRsn ∧ (ie 1).toNat = (ieLen - 2) % 256 ∧
        le16 ie 2 = 1) := by
  constructor
  · rintro same ⟨long, eid, length, version⟩
    have byte : ie 1 = UInt8.ofNat (ieLen - 2) := by
      rw [← UInt8.toNat_inj, UInt8.toNat_ofNat', length]
    have taken := parse_gcs (show 8 ≤ ieLen by omega) eid version
    have range := (ie 1).toNat_lt
    have rejected : rsneInfoParseC ie ieLen = parseErr {} :=
      parse_err (.inr (.inr (.inl (decide_eq_false (by omega)))))
    rw [rsneInfoParseRust, decide_eq_true byte] at same
    rw [same, rejected] at taken
    cases taken
  · intro regular
    by_cases bad : ieLen < 4 ∨ ie 0 ≠ wlanEidRsn ∨ le16 ie 2 ≠ 1
    · have rejected (lenOk) : rsneInfoParse lenOk ie ieLen = parseErr {} :=
        parse_err (bad.imp_right (Or.imp_right .inr))
      rw [rsneInfoParseRust, rsneInfoParseC, rejected, rejected]
    · simp only [not_or, not_not, not_lt] at bad
      obtain ⟨small, eid, version⟩ := bad
      rw [rsneInfoParseRust, rsneInfoParseC]
      congr 1
      rw [decide_eq_decide, ← not_iff_not]
      exact (cut_length_iff small).trans
        (and_iff_left fun both => regular ⟨both.1, eid, both.2, version⟩)

theorem long_rsne_parsed :
    rsneInfoParseRust (fun i => if i = 0 then 48 else if i = 2 then 1 else 0) 258 ≠
      rsneInfoParseC (fun i => if i = 0 then 48 else if i = 2 then 1 else 0) 258 := by
  decide

end Rtl88x2bu.Ie
