import Rtl88x2bu.Crypto.Ccmp
import Rtl88x2bu.Crypto.Gcmp

/-!
# What the additional authenticated data protect

The fields of a header on which the AAD of CCMP and GCMP depend. Both leave out the bits that may
change when a frame is sent again, and of a data frame also the subtype bits other than that of QoS;
CCMP takes the Protected bit as set.
-/

namespace Rtl88x2bu.Crypto

/-- The bits that may change: retry, power management, more data, and in QoS frames order. -/
def fcMutable (fc : UInt16) : UInt16 :=
  (fcRetry ||| fcPwrMgt ||| fcMoreData) ||| if isQosData fc then fcOrder else 0

/-- The bits of the frame control that are not in the AAD; `extra` is the Protected bit for CCMP. -/
def fcIgnored (extra fc : UInt16) : UInt16 :=
  fcMutable fc ||| ((if isData fc then 0x0070 else 0) ||| extra)

/-- The bits of the QoS control that are in the AAD: the TID, and for SPP A-MSDUs the A-MSDU bit. -/
def qosKept (amsduMode : Byte) : Byte :=
  if amsduMode ≠ 1 then 0x0f else 0x8f

/-- Two headers agree in what is authenticated. -/
@[mk_iff]
structure AadAgree (extra : UInt16) (amsduMode : Byte) (hdr hdr' : List Byte) : Prop where
  fc : getLe16 hdr 0 ||| fcIgnored extra (getLe16 hdr 0) =
    getLe16 hdr' 0 ||| fcIgnored extra (getLe16 hdr 0)
  addresses : slice hdr 4 18 = slice hdr' 4 18
  fragment : getLe16 hdr 22 &&& 0x000f = getLe16 hdr' 22 &&& 0x000f
  addr4 : hasAddr4 (getLe16 hdr 0) = true → slice hdr 24 6 = slice hdr' 24 6
  tid : isQosData (getLe16 hdr 0) = true →
    byteAt hdr (qosOffset (hasAddr4 (getLe16 hdr 0))) &&& qosKept amsduMode =
      byteAt hdr' (qosOffset (hasAddr4 (getLe16 hdr 0))) &&& qosKept amsduMode

/-- Two headers differ only in bits that may change, the duration and the sequence number. -/
structure SameButMutable (hdr hdr' : List Byte) : Prop where
  fc : getLe16 hdr 0 ||| fcMutable (getLe16 hdr 0) = getLe16 hdr' 0 ||| fcMutable (getLe16 hdr 0)
  addresses : slice hdr 4 18 = slice hdr' 4 18
  fragment : getLe16 hdr 22 &&& 0x000f = getLe16 hdr' 22 &&& 0x000f
  rest : hdr.drop 24 = hdr'.drop 24

section Fc

variable {a b m k extra fc fc' : UInt16}

theorem and_not_or_eq_iff :
    a &&& ~~~m ||| k = b &&& ~~~m ||| k ↔ a ||| (m ||| k) = b ||| (m ||| k) := by
  simp only [← UInt16.toBitVec_inj, UInt16.toBitVec_or, UInt16.toBitVec_and, UInt16.toBitVec_not,
    BitVec.eq_of_getLsbD_eq_iff, BitVec.getLsbD_or, BitVec.getLsbD_and, BitVec.getLsbD_not]
  refine forall₂_congr fun i small => ?_
  cases a.toBitVec.getLsbD i <;> cases b.toBitVec.getLsbD i <;> cases m.toBitVec.getLsbD i <;>
    cases k.toBitVec.getLsbD i <;> simp [small]

theorem or_and_of_apart (apart : m &&& k = 0) : (a ||| m) &&& k = a &&& k := by
  apply UInt16.toBitVec_inj.mp
  have none := congrArg UInt16.toBitVec apart
  ext i small
  have here : (m.toBitVec[i] && k.toBitVec[i]) = false := by simpa using congrArg (·[i]) none
  cases bit : a.toBitVec[i] <;> simp [bit, here]

theorem shape_eq (same : fc &&& 0x038c = fc' &&& 0x038c) :
    isData fc = isData fc' ∧ isMgmt fc = isMgmt fc' ∧ isQosData fc = isQosData fc' ∧
      hasAddr4 fc = hasAddr4 fc' := by
  have within (part : UInt16) (inside : 0x038c &&& part = part) : fc &&& part = fc' &&& part := by
    rw [← inside, ← UInt16.and_assoc, same, UInt16.and_assoc]
  simp only [isData, isMgmt, isQosData, hasAddr4, UInt16.and_assoc, within 0x000c rfl,
    within 0x0300 rfl, within (0x00f0 &&& 0x0080) rfl, and_self]

theorem fcIgnored_apart (apart : extra &&& 0x038c = 0) : fcIgnored extra fc &&& 0x038c = 0 := by
  rw [fcIgnored, fcMutable, ← UInt16.or_assoc, or_and_of_apart apart]
  split <;> split <;> rfl

theorem maskedFc_kept (fc : UInt16) : maskedFc fc &&& 0x038c = fc &&& 0x038c := by
  by_cases data : isData fc <;> by_cases qos : isQosData fc <;>
    simp only [maskedFc, data, qos, if_true, if_false, Bool.false_eq_true, UInt16.and_assoc] <;> rfl

theorem maskedFc_eq (fc : UInt16) : maskedFc fc = fc &&& ~~~fcIgnored 0 fc := by
  by_cases data : isData fc <;> by_cases qos : isQosData fc <;>
    simp only [maskedFc, fcIgnored, fcMutable, data, qos, if_true, if_false, Bool.false_eq_true,
      UInt16.and_assoc] <;> rfl

theorem maskedFc_eq_iff (same : fc &&& 0x038c = fc' &&& 0x038c) :
    maskedFc fc ||| extra = maskedFc fc' ||| extra ↔
      fc ||| fcIgnored extra fc = fc' ||| fcIgnored extra fc := by
  obtain ⟨data, -, qos, -⟩ := shape_eq same
  have ignored : fcIgnored 0 fc' = fcIgnored 0 fc := by
    rw [fcIgnored, fcMutable, ← data, ← qos, fcIgnored, fcMutable]
  have split : fcIgnored 0 fc ||| extra = fcIgnored extra fc := by
    rw [fcIgnored, UInt16.or_zero, fcIgnored, UInt16.or_assoc]
  rw [maskedFc_eq, maskedFc_eq, ignored, and_not_or_eq_iff, split]

end Fc

theorem putLe16_inj {x y : UInt16} : putLe16 x = putLe16 y ↔ x = y := by
  refine ⟨fun same => ?_, congrArg putLe16⟩
  have back := getLe16_putLe16 x []
  rwa [same, getLe16_putLe16, eq_comm] at back

theorem append_eq_iff {a b c d : List Byte} (length : a.length = c.length) :
    a ++ b = c ++ d ↔ a = c ∧ b = d :=
  ⟨fun same => List.append_inj same length, fun ⟨left, right⟩ => by rw [left, right]⟩

section Headers

variable {amsduMode : Byte} {hdr hdr' : List Byte} {extra : UInt16}

theorem AadAgree.kept (agree : AadAgree extra amsduMode hdr hdr') (apart : extra &&& 0x038c = 0) :
    getLe16 hdr 0 &&& 0x038c = getLe16 hdr' 0 &&& 0x038c := by
  rw [← or_and_of_apart (fcIgnored_apart apart), agree.fc, or_and_of_apart (fcIgnored_apart apart)]

def aadOf (extra : UInt16) (amsduMode : Byte) (hdr : List Byte) : List Byte :=
  headerAad amsduMode hdr (maskedFc (getLe16 hdr 0) ||| extra) (hasAddr4 (getLe16 hdr 0))
    (isQosData (getLe16 hdr 0))

theorem qosKept_eq (amsduMode byte : Byte) :
    (if amsduMode ≠ 1 then byte &&& ~~~0x70 &&& ~~~0x80 else byte &&& ~~~0x70) =
      byte &&& qosKept amsduMode := by
  rw [qosKept]
  split
  · rw [UInt8.and_assoc]; rfl
  · rfl

section Long

variable (long : 32 ≤ hdr.length) (long' : 32 ≤ hdr'.length)
include long long'

theorem aadOf_eq_iff_of_kept (kept : getLe16 hdr 0 &&& 0x038c = getLe16 hdr' 0 &&& 0x038c) :
    aadOf extra amsduMode hdr = aadOf extra amsduMode hdr' ↔
      AadAgree extra amsduMode hdr hdr' := by
  obtain ⟨-, -, qos, four⟩ := shape_eq kept
  have part {off len : ℕ} (inside : off + len ≤ 32) :
      (slice hdr off len).length = (slice hdr' off len).length := by
    simp only [slice, List.length_take, List.length_drop]
    omega
  have word (y y' : UInt16) : (putLe16 y).length = (putLe16 y').length := rfl
  simp only [aadOf, headerAad, qosKept_eq, List.append_assoc, ← qos, ← four]
  rw [append_eq_iff (word _ _), append_eq_iff (part (by decide)), append_eq_iff (word _ _),
    putLe16_inj, putLe16_inj, maskedFc_eq_iff kept, aadAgree_iff]
  refine and_congr_right' (and_congr_right' (and_congr_right' ?_))
  cases hasAddr4 (getLe16 hdr 0) <;> cases isQosData (getLe16 hdr 0) <;>
    simp [append_eq_iff (part (by decide : 24 + 6 ≤ 32))]

theorem aadOf_eq_iff (amsduMode : Byte) (apart : extra &&& 0x038c = 0) :
    aadOf extra amsduMode hdr = aadOf extra amsduMode hdr' ↔
      AadAgree extra amsduMode hdr hdr' := by
  refine ⟨fun same => ?_, fun agree =>
    (aadOf_eq_iff_of_kept long long' (agree.kept apart)).mpr agree⟩
  -- the frame control is in front, and what is left of it says how the rest is laid out
  have control : maskedFc (getLe16 hdr 0) ||| extra = maskedFc (getLe16 hdr' 0) ||| extra :=
    putLe16_inj.mp (congrArg (List.take 2) same)
  have kept : getLe16 hdr 0 &&& 0x038c = getLe16 hdr' 0 &&& 0x038c := by
    rw [← maskedFc_kept, ← or_and_of_apart apart, control, or_and_of_apart apart, maskedFc_kept]
  exact (aadOf_eq_iff_of_kept long long' kept).mp same

end Long

theorem byteAt_of_drop_eq {i : ℕ} (same : hdr.drop 24 = hdr'.drop 24) (behind : 24 ≤ i) :
    byteAt hdr i = byteAt hdr' i := by
  have here := congrArg (byteAt · (i - 24)) same
  simpa [byteAt, List.getD_eq_getElem?_getD, Nat.add_sub_of_le behind] using here

theorem SameButMutable.agree (same : SameButMutable hdr hdr') (extra : UInt16) (amsduMode : Byte) :
    AadAgree extra amsduMode hdr hdr' where
  fc := by rw [fcIgnored, ← UInt16.or_assoc, same.fc, UInt16.or_assoc]
  addresses := same.addresses
  fragment := same.fragment
  addr4 _ := congrArg (List.take 6) same.rest
  tid _ := by rw [byteAt_of_drop_eq same.rest (by rw [qosOffset]; split <;> omega)]

theorem SameButMutable.sender (same : SameButMutable hdr hdr') :
    slice hdr 10 6 = slice hdr' 10 6 := by
  simpa [slice, List.drop_take, List.take_take] using congrArg (slice · 6 6) same.addresses

/-- Headers that differ only in bits that may change, in the duration or in the sequence number have
the same AAD and nonce; and two headers have the same AAD exactly if they agree in the frame control
but for the bits that are left out, the addresses, the fragment number and the TID. -/
theorem aad_eq_iff_agree (amsduMode : Byte) (hdr hdr' data : List Byte) (long : 32 ≤ hdr.length)
    (long' : 32 ≤ hdr'.length) (number : 8 ≤ data.length) :
    (SameButMutable hdr hdr' → ccmpAadNonce amsduMode hdr data = ccmpAadNonce amsduMode hdr' data ∧
      gcmpAadNonce amsduMode hdr data = gcmpAadNonce amsduMode hdr' data) ∧
    ((ccmpAadNonce amsduMode hdr data).1 = (ccmpAadNonce amsduMode hdr' data).1 ↔
      AadAgree fcIsWep amsduMode hdr hdr') ∧
    ((gcmpAadNonce amsduMode hdr data).1 = (gcmpAadNonce amsduMode hdr' data).1 ↔
      AadAgree 0 amsduMode hdr hdr') := by
  have enough : ¬ data.length < 8 := Nat.not_lt.mpr number
  have ccmp (h : List Byte) : (ccmpAadNonce amsduMode h data).1 = aadOf fcIsWep amsduMode h := by
    rw [ccmpAadNonce, if_neg enough, aadOf]
  have gcmp (h : List Byte) : (gcmpAadNonce amsduMode h data).1 = aadOf 0 amsduMode h := by
    rw [gcmpAadNonce, if_neg enough, aadOf, UInt16.or_zero]
  have ccmpIff := aadOf_eq_iff long long' amsduMode (rfl : fcIsWep &&& 0x038c = 0)
  have gcmpIff := aadOf_eq_iff long long' amsduMode (rfl : (0 : UInt16) &&& 0x038c = 0)
  rw [ccmp, ccmp, gcmp, gcmp]
  refine ⟨fun same => ⟨Prod.ext ?_ ?_, Prod.ext ?_ ?_⟩, ccmpIff, gcmpIff⟩
  · rw [ccmp, ccmp, ccmpIff]
    exact same.agree _ _
  · have tid (addr4 : Bool) : byteAt hdr (qosOffset addr4) = byteAt hdr' (qosOffset addr4) :=
      byteAt_of_drop_eq same.rest (by cases addr4 <;> decide)
    obtain ⟨data, mgmt, qos, four⟩ := shape_eq ((same.agree 0 amsduMode).kept rfl)
    simp only [ccmpAadNonce, enough, if_false, same.sender, tid, data, mgmt, qos, four]
  · rw [gcmp, gcmp, gcmpIff]
    exact same.agree _ _
  · simp only [gcmpAadNonce, enough, if_false, same.sender]

def dataHdr (fc0 fc1 : Byte) : List Byte :=
  [fc0, fc1] ++ List.replicate 30 0x11

theorem aad_eq_iff_agree_retry : SameButMutable (dataHdr 0x08 0x01) (dataHdr 0x08 0x09) ∧
    ccmpAadNonce 0 (dataHdr 0x08 0x01) (List.replicate 8 0) =
      ccmpAadNonce 0 (dataHdr 0x08 0x09) (List.replicate 8 0) := by
  have same : SameButMutable (dataHdr 0x08 0x01) (dataHdr 0x08 0x09) := ⟨rfl, rfl, rfl, rfl⟩
  exact ⟨same, ((aad_eq_iff_agree 0 _ _ (List.replicate 8 0) (by decide) (by decide) (by decide)).1
    same).1⟩

theorem aad_ignores_subtype :
    gcmpAadNonce 0 (dataHdr 0x08 0x41) (List.replicate 8 0) =
        gcmpAadNonce 0 (dataHdr 0x18 0x41) (List.replicate 8 0) ∧
      ccmpAadNonce 0 (dataHdr 0x08 0x41) (List.replicate 8 0) =
        ccmpAadNonce 0 (dataHdr 0x18 0x01) (List.replicate 8 0) := by
  decide +kernel

end Headers

end Rtl88x2bu.Crypto
