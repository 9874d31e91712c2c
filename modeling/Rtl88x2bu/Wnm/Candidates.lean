import Rtl88x2bu.Lib.SelectionSort
import Rtl88x2bu.Ie.Rsne

/-!
# The candidates of a BSS transition request

`rtw_wnm_candidates_sorting` and `rtw_wnm_nb_info_update` (`core/rtw_wnm.c`).
-/

namespace Rtl88x2bu.Wnm

open List Function

variable (nbRptEntries : ℕ)

def rtwMaxNbRptNum : ℕ := 8

/-- `struct nb_rpt_hdr`. It is not packed: `pad` is the byte behind `phy_type`. -/
structure NbRptHdr where
  id : Byte
  len : Byte
  bssid : List Byte
  bssInfo : BitVec 32
  regClass : Byte
  chNum : Byte
  phyType : Byte
  pad : Byte
deriving DecidableEq

structure WnmBtmCant where
  nbRpt : NbRptHdr
  preference : Byte
deriving DecidableEq

/-- The part of `struct roam_nb_info` that the update writes; of a `nb_rpt_ch_list` entry only
`hw_value` is used. -/
structure RoamNbInfo where
  nbRpt : ℕ → NbRptHdr
  nbRptChList : ℕ → ℕ
  nbRptChListNum : ℕ

/-- `rtw_wnm_candidates_sorting`: whether the list was changed, and the list. -/
def rtwWnmCandidatesSorting (pcandidates : ℕ → WnmBtmCant) : Bool × (ℕ → WnmBtmCant) :=
  if nbRptEntries = 0 then (false, pcandidates)
  else SelectionSort.sort (·.preference.toNat) nbRptEntries pcandidates

def nbInfoRound (fromBtm : Bool) (pcandidates : ℕ → WnmBtmCant) (s : RoamNbInfo × Bool) (i : ℕ) :
    RoamNbInfo × Bool :=
  let (pnb, same) := s
  let pcand := pcandidates i
  let same := same && !(fromBtm && pnb.nbRpt i != pcand.nbRpt)
  let nbRpt := if fromBtm then Function.update pnb.nbRpt i pcand.nbRpt else pnb.nbRpt
  let chNum := (nbRpt i).chNum.toNat
  if chNum = 0 then ({ pnb with nbRpt := nbRpt }, same)
  -- the search runs over as many entries as there are reports, filled or not
  else if ∃ j < nbRptEntries, chNum = pnb.nbRptChList j then ({ pnb with nbRpt := nbRpt }, same)
  else
    ({ nbRpt := nbRpt
       nbRptChList := Function.update pnb.nbRptChList pnb.nbRptChListNum chNum
       nbRptChListNum := pnb.nbRptChListNum + 1 }, same)

def rtwWnmNbInfoUpdate (fromBtm : Bool) (pnb : RoamNbInfo) (pcandidates : ℕ → WnmBtmCant)
    (nbRptIsSame : Bool) : RoamNbInfo × Bool :=
  (List.range nbRptEntries).foldl (nbInfoRound nbRptEntries fromBtm pcandidates)
    ({ pnb with nbRptChListNum := 0 }, nbRptIsSame)

def RoamNbInfo.channels (pnb : RoamNbInfo) : List ℕ :=
  (List.range pnb.nbRptChListNum).map pnb.nbRptChList

/-- The first `i` of `n` reports are copied, the filled part of the channel list has each of their
channels once, and the list is zero behind it. -/
structure Listed (n i : ℕ) (pcandidates : ℕ → WnmBtmCant) (pnb : RoamNbInfo) : Prop where
  copied : ∀ k < i, pnb.nbRpt k = (pcandidates k).nbRpt
  short : pnb.nbRptChListNum ≤ i
  once : pnb.channels.Nodup
  mem_iff : ∀ c, c ∈ pnb.channels ↔ c ≠ 0 ∧ ∃ k < i, (pcandidates k).nbRpt.chNum.toNat = c
  zero : ∀ j < n, pnb.nbRptChListNum ≤ j → pnb.nbRptChList j = 0

theorem channels_push (pnb : RoamNbInfo) (nbRpt : ℕ → NbRptHdr) (c : ℕ) :
    RoamNbInfo.channels
      { nbRpt := nbRpt
        nbRptChList := Function.update pnb.nbRptChList pnb.nbRptChListNum c
        nbRptChListNum := pnb.nbRptChListNum + 1 } = pnb.channels ++ [c] := by
  simp only [RoamNbInfo.channels, range_succ, map_append, map_cons, map_nil,
    update_self, append_cancel_right_eq]
  apply map_congr_left
  intro j below
  exact update_of_ne (mem_range.mp below).ne ..

variable {n i : ℕ} {pcandidates : ℕ → WnmBtmCant} {pnb : RoamNbInfo}

theorem Listed.found_iff (listed : Listed n i pcandidates pnb) (inside : i < n) {c : ℕ}
    (channel : c ≠ 0) : (∃ j < n, c = pnb.nbRptChList j) ↔ c ∈ pnb.channels := by
  have short := listed.short
  simp only [RoamNbInfo.channels, mem_map, mem_range]
  constructor
  · rintro ⟨j, below, rfl⟩
    rcases Nat.lt_or_ge j pnb.nbRptChListNum with filled | behind
    · exact ⟨j, filled, rfl⟩
    · exact absurd (listed.zero j below behind) channel
  · rintro ⟨j, filled, rfl⟩
    exact ⟨j, by omega, rfl⟩

theorem Listed.round (listed : Listed n i pcandidates pnb) (inside : i < n) (same : Bool) :
    Listed n (i + 1) pcandidates (nbInfoRound n true pcandidates (pnb, same) i).1 := by
  have short := listed.short
  have copied : ∀ k < i + 1,
      Function.update pnb.nbRpt i (pcandidates i).nbRpt k = (pcandidates k).nbRpt := by
    intro k below
    rcases Nat.lt_succ_iff_lt_or_eq.mp below with before | rfl
    · rw [update_of_ne before.ne, listed.copied k before]
    · rw [update_self]
  -- the channels of one more report
  have more : ∀ c, (c ≠ 0 ∧ ∃ k < i + 1, (pcandidates k).nbRpt.chNum.toNat = c) ↔
      c ∈ pnb.channels ∨ c ≠ 0 ∧ (pcandidates i).nbRpt.chNum.toNat = c := by
    intro c
    simp only [listed.mem_iff c, Nat.lt_succ_iff_lt_or_eq]
    constructor
    · rintro ⟨channel, k, before | rfl, own⟩
      · exact .inl ⟨channel, k, before, own⟩
      · exact .inr ⟨channel, own⟩
    · rintro (⟨channel, k, before, own⟩ | ⟨channel, own⟩)
      · exact ⟨channel, k, .inl before, own⟩
      · exact ⟨channel, i, .inr rfl, own⟩
  simp only [nbInfoRound, if_true, update_self]
  split_ifs with no_channel known
  · refine ⟨copied, by simp only; omega, listed.once, fun c => ?_, listed.zero⟩
    rw [more c, no_channel]
    constructor
    · exact fun old => .inl old
    · rintro (old | ⟨channel, own⟩)
      · exact old
      · exact absurd own.symm channel
  · refine ⟨copied, by simp only; omega, listed.once, fun c => ?_, listed.zero⟩
    rw [more c]
    constructor
    · exact fun old => .inl old
    · rintro (old | ⟨channel, rfl⟩)
      · exact old
      · exact (listed.found_iff inside channel).mp known
  · have fresh := mt (listed.found_iff inside no_channel).mpr known
    refine ⟨copied, by simp only; omega, ?_, fun c => ?_, fun j below behind => ?_⟩
    · rw [channels_push, nodup_append]
      refine ⟨listed.once, nodup_singleton _, ?_⟩
      rintro c old d new rfl
      exact fresh (mem_singleton.mp new ▸ old)
    · rw [channels_push, more c, mem_append, mem_singleton]
      constructor
      · rintro (old | rfl)
        · exact .inl old
        · exact .inr ⟨no_channel, rfl⟩
      · rintro (old | ⟨_, own⟩)
        · exact .inl old
        · exact .inr own.symm
    · simp only at behind ⊢
      rw [update_of_ne (by omega)]
      exact listed.zero j below (by omega)

theorem listed_update (pcandidates : ℕ → WnmBtmCant) (pnb : RoamNbInfo) (same : Bool)
    (zeroed : ∀ j < n, pnb.nbRptChList j = 0) :
    Listed n n pcandidates (rtwWnmNbInfoUpdate n true pnb pcandidates same).1 := by
  -- every prefix of the reports leaves the state right
  have prefixes : ∀ i ≤ n, Listed n i pcandidates
      ((List.range i).foldl (nbInfoRound n true pcandidates)
        ({ pnb with nbRptChListNum := 0 }, same)).1 := by
    intro i
    induction i with
    | zero =>
      intro _
      exact ⟨fun k none => absurd none (Nat.not_lt_zero k), le_rfl, nodup_nil,
        fun c => by simp [RoamNbInfo.channels], fun j below _ => zeroed j below⟩
    | succ i ih =>
      intro inside
      rw [range_succ, foldl_append]
      exact (ih (by omega)).round (by omega) _
  exact prefixes n le_rfl

/-- Sorting and updating leave the reports in an order of non-increasing preference, and in the
channel list each channel of theirs once. -/
theorem candidates_sorted_and_listed (n : ℕ) (some_ : 1 ≤ n) (fits : n ≤ rtwMaxNbRptNum)
    (pcandidates : ℕ → WnmBtmCant) (pnb : RoamNbInfo) (nbRptIsSame : Bool)
    (zeroed : ∀ j < rtwMaxNbRptNum, pnb.nbRptChList j = 0) :
    let after := (rtwWnmNbInfoUpdate n true pnb
      (rtwWnmCandidatesSorting n pcandidates).2 nbRptIsSame).1
    (∃ order : List WnmBtmCant,
      order.Perm ((List.range n).map pcandidates) ∧
      order.Pairwise (fun before behind => behind.preference ≤ before.preference) ∧
      (List.range n).map after.nbRpt = order.map (·.nbRpt)) ∧
    after.nbRptChListNum ≤ rtwMaxNbRptNum ∧
    after.channels.Nodup ∧
    ∀ c, c ∈ after.channels ↔
      c ≠ 0 ∧ ∃ cand ∈ (List.range n).map pcandidates, cand.nbRpt.chNum.toNat = c := by
  intro after
  have sorts : rtwWnmCandidatesSorting n pcandidates =
      SelectionSort.sort (·.preference.toNat) n pcandidates := if_neg (by omega)
  have perm := SelectionSort.sort_perm (·.preference.toNat) n pcandidates
  have ordered := SelectionSort.sort_ordered (·.preference.toNat) n pcandidates
  rw [← sorts] at perm ordered
  have zeroed_below : ∀ j < n, pnb.nbRptChList j = 0 := fun j below =>
    zeroed j (below.trans_le fits)
  have listed :=
    listed_update (rtwWnmCandidatesSorting n pcandidates).2 pnb nbRptIsSame zeroed_below
  refine ⟨⟨_, perm, ?_, ?_⟩, listed.short.trans fits, listed.once, ?_⟩
  · rw [pairwise_map]
    apply List.Pairwise.imp_of_mem _ (pairwise_lt_range)
    intro k l _ inside behind
    exact ordered k l behind (mem_range.mp inside)
  · rw [map_map]
    apply map_congr_left
    intro k inside
    exact listed.copied k (mem_range.mp inside)
  · intro c
    rw [listed.mem_iff c]
    -- membership does not see the order
    simp only [← perm.mem_iff, mem_map, mem_range, exists_exists_and_eq_and]

theorem three_candidates_sorted_and_listed :
    let report (preference chNum : Byte) : WnmBtmCant :=
      { nbRpt := { id := 0x34, len := 13, bssid := [2, 0, 0, 0, 0, chNum], bssInfo := 0
                   regClass := 81, chNum := chNum, phyType := 7, pad := 0 }
        preference := preference }
    let candidates (i : ℕ) :=
      if i = 0 then report 10 6 else if i = 1 then report 0 6 else report 255 11
    let empty : RoamNbInfo :=
      { nbRpt := fun _ => (report 0 0).nbRpt, nbRptChList := fun _ => 0, nbRptChListNum := 0 }
    let after := (rtwWnmNbInfoUpdate 3 true empty (rtwWnmCandidatesSorting 3 candidates).2 true).1
    (after.channels = [11, 6] ∧ (after.nbRpt 0).chNum = 11) ∧
    after.nbRptChListNum ≤ rtwMaxNbRptNum ∧ after.channels.Nodup := by
  intro report candidates empty after
  have run := candidates_sorted_and_listed 3 (by decide) (by decide) candidates empty true
    fun _ _ => rfl
  exact ⟨by decide, run.2.1, run.2.2.1⟩

end Rtl88x2bu.Wnm
