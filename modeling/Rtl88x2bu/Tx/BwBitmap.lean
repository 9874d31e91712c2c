import Mathlib

/-!
# The bandwidths of a rate

`rtw_get_tx_bw_bmp_of_ht_rate` and `rtw_get_tx_bw_bmp_of_vht_rate`, in `core/rtw_xmit_rest.c` and in
`rust/rtw_xmit.rs`. The C functions have their bounds from the enumeration `MGN_RATE`, the Rust ones
from literals, of which the last is not the one of the enumeration.
-/

namespace Rtl88x2bu.Tx

/-- The bitmaps of `struct rf_ctl_t`, by bandwidth: two for HT and four for VHT. -/
structure RfCtl where
  rateBmpHtByBw : ℕ → BitVec 32
  rateBmpVhtByBw : ℕ → BitVec 64

def chWidthToBwCap (bw : ℕ) : UInt8 :=
  [0x04, 0x08, 0x10, 0x20, 0x40, 0x01, 0x02].getD bw 0

/-- The body of the four functions, for the rates from `first` to `last` and the bandwidths up to
`limit`. -/
def txBwBmpOfRate {w : ℕ} (first last limit : ℕ) (byBw : ℕ → BitVec w) (rate maxBw : UInt8) :
    UInt8 :=
  if first ≤ rate.toNat ∧ rate.toNat ≤ last then
    (List.range (min maxBw.toNat limit + 1)).foldl
      (fun bwBmp bw =>
        if 2 ^ (rate.toNat - first) ≤ (byBw bw).toNat then bwBmp ||| chWidthToBwCap bw else bwBmp)
      0
  else 0

/-- `MGN_MCS0` to `MGN_MCS31`, the enumerators behind `MGN_MCS32 = 0x7F`. -/
def mgnMcs (mcs : ℕ) : ℕ := 0x7f + 1 + mcs

/-- `MGN_VHT1SS_MCS0` to `MGN_VHT4SS_MCS9`, ten for each number of streams. -/
def mgnVht (ss mcs : ℕ) : ℕ := mgnMcs 31 + 1 + 10 * (ss - 1) + mcs

namespace C

def rtwGetTxBwBmpOfHtRate (rf : RfCtl) : UInt8 → UInt8 → UInt8 :=
  txBwBmpOfRate (mgnMcs 0) (mgnMcs 31) 1 rf.rateBmpHtByBw

def rtwGetTxBwBmpOfVhtRate (rf : RfCtl) : UInt8 → UInt8 → UInt8 :=
  txBwBmpOfRate (mgnVht 1 0) (mgnVht 4 9) 3 rf.rateBmpVhtByBw

end C

namespace Rust

def rtwGetTxBwBmpOfHtRate (rf : RfCtl) : UInt8 → UInt8 → UInt8 :=
  txBwBmpOfRate 0x80 0x9f 1 rf.rateBmpHtByBw

def rtwGetTxBwBmpOfVhtRate (rf : RfCtl) : UInt8 → UInt8 → UInt8 :=
  txBwBmpOfRate 0xa0 0xd9 3 rf.rateBmpVhtByBw

end Rust

theorem foldl_or_eq_zero_iff {cap : ℕ → UInt8} {taken : ℕ → Prop} [DecidablePred taken]
    (bws : List ℕ) (caps : ∀ bw ∈ bws, cap bw ≠ 0) (acc : UInt8) :
    bws.foldl (fun acc bw => if taken bw then acc ||| cap bw else acc) acc = 0 ↔
      acc = 0 ∧ ∀ bw ∈ bws, ¬ taken bw := by
  induction bws generalizing acc with
  | nil => simp
  | cons bw bws ih =>
    obtain ⟨own, caps⟩ := List.forall_mem_cons.mp caps
    rw [List.foldl_cons, ih caps, List.forall_mem_cons]
    by_cases here : taken bw
    · simp [here, own]
    · simp [here]

theorem txBwBmpOfRate_eq_zero_iff {w first last limit : ℕ} {byBw : ℕ → BitVec w}
    {rate maxBw : UInt8} (range : first ≤ rate.toNat ∧ rate.toNat ≤ last) (few : limit < 7) :
    txBwBmpOfRate first last limit byBw rate maxBw = 0 ↔
      ∀ bw ≤ min maxBw.toNat limit, (byBw bw).toNat < 2 ^ (rate.toNat - first) := by
  have caps : ∀ bw ∈ List.range (min maxBw.toNat limit + 1), chWidthToBwCap bw ≠ 0 := by
    intro bw inside
    have bound := List.mem_range.mp inside
    have small : bw < 7 := by omega
    interval_cases bw <;> decide
  rw [txBwBmpOfRate, if_pos range, foldl_or_eq_zero_iff _ caps]
  simp only [true_and, List.mem_range, not_le, Nat.lt_succ_iff]

/-- For every state of the bitmaps, every code of a rate and every limit: the functions for HT rates
agree, and those for VHT rates do so exactly unless the code is one of those between the last
enumerator, `0xC7`, and the literal `0xD9`, and a bitmap has a bit as high as that. -/
theorem tx_bw_bmp_agree_iff (rf : RfCtl) (rate maxBw : UInt8) :
    Rust.rtwGetTxBwBmpOfHtRate rf rate maxBw = C.rtwGetTxBwBmpOfHtRate rf rate maxBw ∧
    (Rust.rtwGetTxBwBmpOfVhtRate rf rate maxBw = C.rtwGetTxBwBmpOfVhtRate rf rate maxBw ↔
      ¬ (0xc8 ≤ rate.toNat ∧ rate.toNat ≤ 0xd9 ∧
        ∃ bw ≤ min maxBw.toNat 3, 2 ^ (rate.toNat - 0xa0) ≤ (rf.rateBmpVhtByBw bw).toNat)) := by
  refine ⟨rfl, ?_⟩
  have last : mgnVht 4 9 = 0xc7 := rfl
  rw [Rust.rtwGetTxBwBmpOfVhtRate, C.rtwGetTxBwBmpOfVhtRate, last]
  by_cases between : 0xc8 ≤ rate.toNat ∧ rate.toNat ≤ 0xd9
  · have range : 0xa0 ≤ rate.toNat ∧ rate.toNat ≤ 0xd9 := by omega
    have outside : txBwBmpOfRate (mgnVht 1 0) 0xc7 3 rf.rateBmpVhtByBw rate maxBw = 0 :=
      if_neg (by omega)
    rw [outside, txBwBmpOfRate_eq_zero_iff range (by decide)]
    simp [between]
  · -- both tests say the same
    have same : (0xa0 ≤ rate.toNat ∧ rate.toNat ≤ 0xd9) ↔
        mgnVht 1 0 ≤ rate.toNat ∧ rate.toNat ≤ 0xc7 := by
      rw [show mgnVht 1 0 = 0xa0 from rfl]
      omega
    refine iff_of_true ?_ fun both => between ⟨both.1, both.2.1⟩
    simp only [txBwBmpOfRate, same]
    rfl

theorem code_behind_vht_rates :
    Rust.rtwGetTxBwBmpOfVhtRate ⟨fun _ => 0, fun _ => 2 ^ 40⟩ 0xc8 0 = 0x04 ∧
      C.rtwGetTxBwBmpOfVhtRate ⟨fun _ => 0, fun _ => 2 ^ 40⟩ 0xc8 0 = 0 := by
  decide

end Rtl88x2bu.Tx
