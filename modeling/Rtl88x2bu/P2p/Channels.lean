import Rtl88x2bu.Lib.Tlv
import Rtl88x2bu.Ie.Rsne

/-!
# Channel lists of P2P devices

`rtw_p2p_get_peer_ch_list` and `rtw_p2p_ch_inclusion` (`core/rtw_p2p.c`). The first counts what is
left of the attribute in a `u8` that is not compared with what it is decremented by, the second goes
on in the channel set where it last found a channel.
-/

namespace Rtl88x2bu.P2p

open List
open Tape Tlv

variable (content : ℕ → Byte)

/-! ## The peer's channels -/

/-- The size of `ch_content`, `peer_ch_list` and `ch_list_inclusioned` in
`process_p2p_group_negotation_req`. -/
def chListSize : ℕ := 100

/-- The state of `rtw_p2p_get_peer_ch_list`. `inside`: no read has left the content; `fits`: no
write has left `peer_ch_list`. -/
@[ext]
structure ChScan where
  chContent : ℕ
  chCnt : ℕ
  j : ℕ
  chNo : ℕ
  peerChList : ℕ → Byte
  inside : Bool
  fits : Bool

def copyChannel (size : ℕ) (s : ChScan) (i : ℕ) : ChScan :=
  let from_ := s.chContent + 1 + i
  { s with
    peerChList := Function.update s.peerChList s.j (content from_)
    j := (s.j + 1) % 256
    inside := s.inside && decide (from_ < size)
    fits := s.fits && decide (s.j < chListSize) }

def peerChRound (size : ℕ) (s : ChScan) : ChScan :=
  let temp := (content (s.chContent + 1)).toNat
  let s := { s with
    chContent := s.chContent + 1
    chCnt := (s.chCnt + 256 - 1) % 256
    inside := s.inside && decide (s.chContent + 1 < size) }
  let s := (List.range temp).foldl (copyChannel content size) s
  { s with
    chContent := s.chContent + (temp + 1)
    chCnt := (s.chCnt + 256 - (temp + 1)) % 256
    chNo := (s.chNo + temp) % 256 }

def peerChLoop (content : ℕ → Byte) (size : ℕ) : ℕ → ChScan → Option ChScan
  | 0, _ => none
  | fuel + 1, s =>
    if s.chCnt = 0 then some s else peerChLoop content size fuel (peerChRound content size s)

/-- `rtw_p2p_get_peer_ch_list` on a content of `chCnt` bytes, in a buffer of `size` bytes. It
returns `ch_no`. -/
def rtwP2pGetPeerChList (size chCnt : ℕ) (peerChList : ℕ → Byte) (fuel : ℕ) : Option ChScan :=
  peerChLoop content size fuel
    { chContent := 3, chCnt := (chCnt + 256 - 3) % 256, j := 0, chNo := 0, peerChList := peerChList
      inside := true, fits := true }

def channelListContent (country : List Byte) (entries : List Elem) : List Byte :=
  country ++ encodeAll entries

def channelsOf (entries : List Elem) : List Byte :=
  entries.flatMap (·.body)

theorem length_channelsOf_le (entries : List Elem) :
    (channelsOf entries).length ≤ (encodeAll entries).length := by
  induction entries with
  | nil => exact le_rfl
  | cons e entries ih =>
    rw [channelsOf, flatMap_cons, ← channelsOf, encodeAll_cons, length_append,
      length_append, length_encode]
    omega

section Rounds

variable {content : ℕ → Byte} {size : ℕ}

theorem copy_outer (content : ℕ → Byte) (size : ℕ) (s : ChScan) (temp : ℕ) :
    let s' := (List.range temp).foldl (copyChannel content size) s
    s'.chContent = s.chContent ∧ s'.chCnt = s.chCnt ∧ s'.chNo = s.chNo ∧
      s'.inside = (s.inside && decide (temp = 0 ∨ s.chContent + temp < size)) := by
  induction temp with
  | zero => simp
  | succ temp ih =>
    obtain ⟨pointer, left, number, inside⟩ := ih
    rw [range_succ, foldl_append]
    refine ⟨pointer, left, number, ?_⟩
    simp only [foldl_cons, foldl_nil, copyChannel, inside, pointer, Bool.and_assoc,
      ← Bool.decide_and]
    congr 2
    rw [eq_iff_iff]
    omega

theorem copy_written (content : ℕ → Byte) (size : ℕ) (s : ChScan) (temp : ℕ)
    (room : s.j + temp ≤ chListSize) :
    let s' := (List.range temp).foldl (copyChannel content size) s
    s'.j = s.j + temp ∧ s'.fits = s.fits ∧
      s'.peerChList = paste s.peerChList s.j (window content (s.chContent + 1) temp) := by
  have hundred : chListSize = 100 := rfl
  induction temp with
  | zero =>
    exact ⟨rfl, rfl, (paste_nil ..).symm⟩
  | succ temp ih =>
    obtain ⟨place, fits, written⟩ := ih (by omega)
    obtain ⟨pointer, -⟩ := copy_outer content size s temp
    rw [range_succ, foldl_append]
    simp only [foldl_cons, foldl_nil, copyChannel, place, fits, written, pointer]
    refine ⟨Nat.mod_eq_of_lt (by omega), by simp; omega, ?_⟩
    have more : window content (s.chContent + 1) (temp + 1) =
        window content (s.chContent + 1) temp ++ [content (s.chContent + 1 + temp)] := by
      rw [window, range_succ, map_append, window, map_singleton]
    rw [more, ← paste_snoc, length_window]

theorem round_outer (content : ℕ → Byte) (size : ℕ) (s : ChScan) :
    let temp := (content (s.chContent + 1)).toNat
    let s' := peerChRound content size s
    s'.chContent = s.chContent + (temp + 2) ∧
      s'.chCnt = ((s.chCnt + 256 - 1) % 256 + 256 - (temp + 1)) % 256 ∧
      s'.chNo = (s.chNo + temp) % 256 ∧
      s'.inside = (s.inside && decide (s.chContent + 1 + temp < size)) := by
  intro temp s'
  obtain ⟨pointer, left, number, inside⟩ := copy_outer content size
    { s with
      chContent := s.chContent + 1
      chCnt := (s.chCnt + 256 - 1) % 256
      inside := s.inside && decide (s.chContent + 1 < size) } temp
  refine ⟨?_, ?_, ?_, ?_⟩
  · simp only [s', peerChRound, pointer, temp]
    omega
  · simp only [s', peerChRound, left, temp]
  · simp only [s', peerChRound, number, temp]
  · simp only [s', peerChRound, inside, temp, Bool.and_assoc, ← Bool.decide_and]
    congr 2
    rw [eq_iff_iff]
    omega

theorem round_entry (s : ChScan) (e : Elem) (rest : ℕ)
    (entry : Holds content s.chContent e.encode) (left : s.chCnt = e.body.length + 2 + rest)
    (bytes : s.chCnt < 256) (end_ : s.chContent + s.chCnt ≤ size)
    (room : s.j + e.body.length ≤ chListSize) (number : s.chNo = s.j) :
    peerChRound content size s =
      { s with
        chContent := s.chContent + (e.body.length + 2)
        chCnt := rest
        j := s.j + e.body.length
        chNo := s.j + e.body.length
        peerChList := paste s.peerChList s.j e.body } := by
  have hundred : chListSize = 100 := rfl
  obtain ⟨-, length, body⟩ := holds_encode.mp entry
  have temp : (content (s.chContent + 1)).toNat = e.body.length := by rw [length, e.toNat_length]
  obtain ⟨pointer, count, total, inside⟩ := round_outer content size s
  obtain ⟨place, fits, written⟩ := copy_written content size
    { s with
      chContent := s.chContent + 1
      chCnt := (s.chCnt + 256 - 1) % 256
      inside := s.inside && decide (s.chContent + 1 < size) } e.body.length room
  have channels : window content (s.chContent + 1 + 1) e.body.length = e.body :=
    body.window_eq rfl
  rw [temp] at pointer count total inside
  have count' : (peerChRound content size s).chCnt = rest := by
    rw [count]
    omega
  have total' : (peerChRound content size s).chNo = s.j + e.body.length := by
    rw [total, number, Nat.mod_eq_of_lt (by omega)]
  have inside' : (peerChRound content size s).inside = s.inside := by
    rw [inside, decide_eq_true (by omega), Bool.and_true]
  have place' : (peerChRound content size s).j = s.j + e.body.length := by
    simp only [peerChRound, temp]
    exact place
  have fits' : (peerChRound content size s).fits = s.fits := by
    simp only [peerChRound, temp]
    exact fits
  have written' : (peerChRound content size s).peerChList = paste s.peerChList s.j e.body := by
    simp only [peerChRound, temp]
    rw [written, channels]
  exact ChScan.ext pointer count' place' total' written' inside' fits'

theorem loop_entries (content : ℕ → Byte) (size : ℕ) (entries : List Elem) (s : ChScan) (fuel : ℕ)
    (text : Holds content s.chContent (encodeAll entries))
    (left : s.chCnt = (encodeAll entries).length) (bytes : s.chCnt < 256)
    (end_ : s.chContent + s.chCnt ≤ size)
    (room : s.j + (channelsOf entries).length ≤ chListSize) (number : s.chNo = s.j)
    (enough : entries.length < fuel) :
    peerChLoop content size fuel s = some
      { s with
        chContent := s.chContent + (encodeAll entries).length
        chCnt := 0
        j := s.j + (channelsOf entries).length
        chNo := s.j + (channelsOf entries).length
        peerChList := paste s.peerChList s.j (channelsOf entries) } := by
  induction entries generalizing s fuel with
  | nil =>
    obtain ⟨fuel, rfl⟩ := Nat.exists_eq_add_one.mpr enough
    have empty : s.chCnt = 0 := left
    rw [peerChLoop, if_pos empty]
    exact congrArg some (ChScan.ext rfl empty rfl number (paste_nil ..).symm rfl rfl)
  | cons e entries ih =>
    obtain ⟨fuel, rfl⟩ := Nat.exists_eq_add_one.mpr (Nat.zero_lt_of_lt enough)
    obtain ⟨entry, rest⟩ := holds_encodeAll_cons.mp text
    rw [encodeAll_cons, length_append, length_encode] at left
    have more : channelsOf (e :: entries) = e.body ++ channelsOf entries := flatMap_cons
    rw [more, length_append] at room
    rw [peerChLoop, if_neg (by omega),
      round_entry s e (encodeAll entries).length entry left bytes end_ (by omega) number]
    rw [ih _ fuel rest rfl (by simp only; omega) (by simp only; omega) (by simp only; omega) rfl
      (Nat.lt_of_succ_lt_succ enough)]
    simp only [more, encodeAll_cons, length_append, length_encode, paste_append, Nat.add_assoc]

section

variable (fuel : ℕ) (s s' : ChScan) (ends : peerChLoop content size fuel s = some s')
  (inside : s'.inside = true)
include ends inside

theorem loop_inside : s.inside = true := by
  induction fuel generalizing s with
  | zero => simp [peerChLoop] at ends
  | succ fuel ih =>
    rw [peerChLoop] at ends
    split at ends
    · rw [Option.some.inj ends]
      exact inside
    · have round := ih _ ends
      rw [(round_outer content size s).2.2.2, Bool.and_eq_true] at round
      exact round.1

theorem loop_inside_entries (bytes : s.chCnt < 256) (end_ : size = s.chContent + s.chCnt) :
    ∃ entries, window content s.chContent s.chCnt = encodeAll entries := by
  induction fuel generalizing s with
  | zero => simp [peerChLoop] at ends
  | succ fuel ih =>
    rw [peerChLoop] at ends
    split at ends
    next empty => exact ⟨[], by rw [empty]; rfl⟩
    next more =>
      obtain ⟨pointer, count, -, flag⟩ := round_outer content size s
      have round := loop_inside fuel _ s' ends inside
      rw [flag, Bool.and_eq_true, decide_eq_true_eq] at round
      generalize htemp : (content (s.chContent + 1)).toNat = temp at pointer count round
      have small : temp < 256 := htemp ▸ UInt8.toNat_lt _
      have count' : (peerChRound content size s).chCnt = s.chCnt - (temp + 2) := by
        rw [count]
        omega
      obtain ⟨entries, rest⟩ := ih (peerChRound content size s) ends (by omega)
        (by rw [pointer, count']; omega)
      rw [pointer, count'] at rest
      -- the entry that the round has taken
      let e : Elem := { id := content s.chContent, body := window content (s.chContent + 2) temp
                        short := by rw [length_window]; exact small }
      refine ⟨e :: entries, ?_⟩
      have own : window content s.chContent (temp + 2) = e.encode := by
        rw [Nat.add_comm temp 2, window_add]
        have length : UInt8.ofNat e.body.length = content (s.chContent + 1) := by
          rw [length_window, ← htemp, UInt8.ofNat_toNat]
        rw [Elem.encode, length]
        rfl
      rw [encodeAll_cons, ← rest, ← own, ← window_add]
      congr 1
      omega

end

end Rounds

theorem scan_entries (mem : ℕ → Byte) (peerChList : ℕ → Byte) {country : List Byte}
    {entries : List Elem} {size fuel : ℕ} (three : country.length = 3)
    (holds : Holds mem 0 (channelListContent country entries))
    (inside : (channelListContent country entries).length ≤ size)
    (room : (channelListContent country entries).length ≤ chListSize)
    (enough : entries.length < fuel) :
    ∃ s, rtwP2pGetPeerChList mem size (channelListContent country entries).length peerChList fuel =
        some s ∧
      s.inside = true ∧ s.fits = true ∧ window s.peerChList 0 s.chNo = channelsOf entries := by
  have hundred : chListSize = 100 := rfl
  have channels := length_channelsOf_le entries
  rw [channelListContent, length_append, three] at inside room ⊢
  rw [channelListContent, holds_append, three] at holds
  have left : (3 + (encodeAll entries).length + 256 - 3) % 256 = (encodeAll entries).length := by
    omega
  have run := loop_entries mem size entries
    { chContent := 3, chCnt := (encodeAll entries).length, j := 0, chNo := 0
      peerChList := peerChList, inside := true, fits := true }
    fuel holds.2 rfl (by simp only; omega) (by simp only; omega) (by simp only; omega) rfl enough
  rw [← left] at run
  refine ⟨_, run, rfl, rfl, ?_⟩
  simp only [Nat.zero_add]
  exact (holds_paste _ 0 _).window_eq rfl

theorem wellFormed_of_scan {mem : ℕ → Byte} {peerChList : ℕ → Byte} {content : List Byte} {fuel : ℕ}
    {s : ChScan} (holds : Holds mem 0 content) (size : content.length ≤ chListSize)
    (ends : rtwP2pGetPeerChList mem content.length content.length peerChList fuel = some s)
    (inside : s.inside = true) :
    ∃ country entries, country.length = 3 ∧ content = channelListContent country entries := by
  have hundred : chListSize = 100 := rfl
  rw [rtwP2pGetPeerChList] at ends
  by_cases country : 3 ≤ content.length
  · obtain ⟨entries, text⟩ := loop_inside_entries fuel _ s ends inside (by simp only; omega)
      (by simp only; omega)
    refine ⟨window mem 0 3, entries, length_window .., ?_⟩
    have left : (content.length + 256 - 3) % 256 = content.length - 3 := by omega
    simp only [left] at text
    rw [channelListContent, ← text, ← Nat.zero_add 3, ← window_add, Nat.zero_add,
      Nat.add_sub_cancel' country]
    exact (holds.window_eq rfl).symm
  · -- the count has wrapped around, and the first read is behind the content
    obtain - | fuel := fuel
    · simp [peerChLoop] at ends
    · rw [peerChLoop, if_neg (by simp only; omega)] at ends
      have round := loop_inside fuel _ s ends inside
      rw [(round_outer ..).2.2.2, Bool.and_eq_true, decide_eq_true_eq] at round
      simp only at round
      omega

/-- The scan ends and stays inside, and returns the channels of the entries if the content is a list
of them. -/
def ScansContent (mem : ℕ → Byte) (content : List Byte) (peerChList : ℕ → Byte) : Prop :=
  ∃ fuel s, rtwP2pGetPeerChList mem content.length content.length peerChList fuel = some s ∧
    s.inside = true ∧ s.fits = true ∧
    ∀ country entries, country.length = 3 → content = channelListContent country entries →
      window s.peerChList 0 s.chNo = channelsOf entries

/-- The function behaves on a content of at most 100 bytes, with whatever is in the memory behind
it, exactly if the content is a well-formed list. -/
theorem scans_content_iff (mem : ℕ → Byte) (content : List Byte) (peerChList : ℕ → Byte)
    (holds : Holds mem 0 content) (size : content.length ≤ chListSize) :
    ScansContent mem content peerChList ↔
      ∃ country entries, country.length = 3 ∧ content = channelListContent country entries := by
  constructor
  · rintro ⟨fuel, s, ends, inside, -⟩
    exact wellFormed_of_scan holds size ends inside
  · rintro ⟨country, entries, three, rfl⟩
    obtain ⟨s, ends, inside, fits, channels⟩ :=
      scan_entries mem peerChList three holds le_rfl size (Nat.lt_succ_self entries.length)
    refine ⟨_, s, ends, inside, fits, fun country' entries' three' same => ?_⟩
    have texts := (append_inj same (three.trans three'.symm)).2
    rw [channels, encodeAll_injective texts]

theorem short_content_read_outside : ¬ ScansContent (image 0 [0x55]) [0x55] (fun _ => 0) := by
  rintro ⟨fuel, s, ends, inside, -⟩
  obtain - | fuel := fuel
  · simp [rtwP2pGetPeerChList, peerChLoop] at ends
  · rw [rtwP2pGetPeerChList, peerChLoop, if_neg (by decide)] at ends
    have round := loop_inside fuel _ s ends inside
    revert round
    decide

theorem two_entries_scanned :
    ScansContent (image 0 [0x55, 0x53, 0x04, 81, 2, 1, 6, 115, 1, 36])
      [0x55, 0x53, 0x04, 81, 2, 1, 6, 115, 1, 36] (fun _ => 0) :=
  (scans_content_iff _ _ _ (holds_image _) (by decide)).mpr
    ⟨[0x55, 0x53, 0x04], [⟨81, [1, 6], by decide⟩, ⟨115, [36], by decide⟩], rfl, rfl⟩

/-! ## The common channels -/

/-- The loops of `rtw_p2p_ch_inclusion`. The inner one searches `channel_set` from `temp` on, the
last match. -/
def chInclusion (channelSet : List Byte) : List Byte → ℕ → List Byte
  | [], _ => []
  | ch :: peer, temp =>
    match (channelSet.drop temp).findIdx? (· == ch) with
    | some j => ch :: chInclusion channelSet peer (temp + j)
    | none => chInclusion channelSet peer temp

def rtwP2pChInclusion (channelSet peer : List Byte) : List Byte :=
  chInclusion channelSet peer 0

section Inclusion

variable {channelSet : List Byte}

theorem findIdx_drop_of_mem (distinct : channelSet.Nodup) {ch : Byte} {temp : ℕ}
    (member : ch ∈ channelSet) (behind : temp ≤ channelSet.idxOf ch) :
    (channelSet.drop temp).findIdx? (· == ch) = some (channelSet.idxOf ch - temp) := by
  have below := idxOf_lt_length_iff.mpr member
  rw [List.findIdx?_eq_some_iff_getElem]
  refine ⟨by rw [length_drop]; omega, ?_, ?_⟩
  · simp [Nat.add_sub_cancel' behind]
  · intro k before
    simp only [getElem_drop, beq_iff_eq]
    intro same
    -- the channel would have two places
    have place := distinct.idxOf_getElem (temp + k) (by omega)
    rw [same] at place
    omega

theorem findIdx_drop_of_not (distinct : channelSet.Nodup) {ch : Byte} {temp : ℕ}
    (absent : ch ∈ channelSet → channelSet.idxOf ch < temp) :
    (channelSet.drop temp).findIdx? (· == ch) = none := by
  rw [List.findIdx?_eq_none_iff]
  intro other member
  simp only [beq_eq_false_iff_ne]
  rintro rfl
  obtain ⟨k, below, place⟩ := getElem_of_mem member
  rw [getElem_drop] at place
  have before := absent (mem_of_mem_drop member)
  rw [← place, distinct.idxOf_getElem] at before
  omega

theorem chInclusion_sublist (channelSet peer : List Byte) (temp : ℕ) :
    (chInclusion channelSet peer temp).Sublist (peer.filter (· ∈ channelSet)) := by
  induction peer generalizing temp with
  | nil => exact List.Sublist.slnil
  | cons ch peer ih =>
    rw [chInclusion]
    split
    next j found =>
      obtain ⟨_, place, _⟩ := List.findIdx?_eq_some_iff_getElem.mp found
      have member : ch ∈ channelSet := by
        rw [← beq_iff_eq.mp place]
        exact mem_of_mem_drop (getElem_mem _)
      rw [filter_cons_of_pos (by simpa using member)]
      exact (ih _).cons_cons ch
    · by_cases member : ch ∈ channelSet
      · rw [filter_cons_of_pos (by simpa using member)]
        exact (ih _).cons ch
      · rw [filter_cons_of_neg (by simpa using member)]
        exact ih _

theorem chInclusion_eq_iff (distinct : channelSet.Nodup) (peer : List Byte) (temp : ℕ) :
    chInclusion channelSet peer temp = peer.filter (· ∈ channelSet) ↔
      (temp :: (peer.filter (· ∈ channelSet)).map channelSet.idxOf).Pairwise (· ≤ ·) := by
  induction peer generalizing temp with
  | nil => simp [chInclusion]
  | cons ch peer ih =>
    by_cases member : ch ∈ channelSet
    · rw [filter_cons_of_pos (by simpa using member), map_cons]
      by_cases behind : temp ≤ channelSet.idxOf ch
      · rw [chInclusion, findIdx_drop_of_mem distinct member behind]
        simp only [Nat.add_sub_cancel' behind, cons.injEq, true_and]
        rw [ih, pairwise_cons (a := temp)]
        constructor
        · intro ordered
          refine ⟨fun place there => ?_, ordered⟩
          rcases mem_cons.mp there with rfl | later
          · exact behind
          · exact behind.trans (rel_of_pairwise_cons ordered later)
        · exact fun both => both.2
      · -- the channel is in front of `temp`: it is dropped, and nothing makes up for it
        rw [chInclusion, findIdx_drop_of_not distinct fun _ => not_le.mp behind]
        constructor
        · intro same
          have shorter := (chInclusion_sublist channelSet peer temp).length_le
          have longer := congrArg List.length same
          simp only [length_cons] at longer
          omega
        · intro ordered
          exact absurd (rel_of_pairwise_cons ordered mem_cons_self) behind
    · rw [filter_cons_of_neg (by simpa using member), chInclusion,
        findIdx_drop_of_not distinct fun here => absurd here member]
      exact ih temp

end Inclusion

/-- The common channels are returned, in the order of the peer, exactly if their places in the
channel set do not go down in that order. -/
theorem ch_inclusion_eq_iff (channelSet peer : List Byte) (distinct : channelSet.Nodup) :
    rtwP2pChInclusion channelSet peer = peer.filter (· ∈ channelSet) ↔
      ((peer.filter (· ∈ channelSet)).map channelSet.idxOf).Pairwise (· ≤ ·) := by
  rw [rtwP2pChInclusion, chInclusion_eq_iff distinct, pairwise_cons]
  exact and_iff_right fun place _ => Nat.zero_le place

theorem ch_inclusion_in_order :
    [1, 6, 11].Nodup ∧
      rtwP2pChInclusion [1, 6, 11] [1, 3, 6, 11] =
        [1, 3, 6, 11].filter (· ∈ ([1, 6, 11] : List Byte)) :=
  ⟨by decide, (ch_inclusion_eq_iff [1, 6, 11] [1, 3, 6, 11] (by decide)).mpr (by decide)⟩

theorem common_channel_dropped :
    [1, 6, 11].Nodup ∧ rtwP2pChInclusion [1, 6, 11] [6, 1] = [6] ∧
      [6, 1].filter (· ∈ ([1, 6, 11] : List Byte)) = [6, 1] := by
  decide

end Rtl88x2bu.P2p
