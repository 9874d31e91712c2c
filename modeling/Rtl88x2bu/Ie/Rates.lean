import Rtl88x2bu.Ie.BeaconTim

/-!
# The rate elements of a network

`rtw_update_rate_bymode` (`rust/rtw_ieee80211_rest.rs`). The kept rates are collected in an array of
16 bytes; with more of them the indexing panics (the C function writes behind it).
-/

namespace Rtl88x2bu.Ie

open List Option
open Tape Walk Tlv

/-! ## Filtering the rates -/

def basicRateMask : Byte := 0x80

def wifiCckRates : List Byte := [0x82, 0x84, 0x8b, 0x96]

def wifiOfdmRates : List Byte := [0x0c, 0x12, 0x18, 0x24, 0x30, 0x48, 0x60, 0x6c]

def rtwBasicRateOfdm : List Byte := [0x8c, 0x98, 0xb0]

def rateMatchesTable (rate : Byte) (table : List Byte) : Bool :=
  table.any fun entry => (entry &&& 0x7f) == (rate &&& 0x7f)

inductive RateKind
  | cck
  | ofdm
deriving DecidableEq

variable (keep : RateKind)

def RateKind.has (rate : Byte) : Bool :=
  match keep with
  | .cck => rateMatchesTable rate wifiCckRates
  | .ofdm => rateMatchesTable rate wifiOfdmRates

def keptRate (rate : Byte) : Byte :=
  if rateMatchesTable rate rtwBasicRateOfdm then rate ||| basicRateMask else rate

def lengthRatesEx : ℕ := 16

/-- A round of the loop over the rates: the first `idx` bytes of `new_rate`, or a panic. -/
def newRate (new : List Byte) (rate : Byte) : Option (List Byte) :=
  if keep.has rate then
    if new.length < lengthRatesEx then some (new ++ [keptRate rate]) else none
  else some new

/-- `filter_suppport_rateie_inner`; `none` for a panic, or a search that does not end. -/
def filterSuppportRateie (net : BcnNetwork) (keep : RateKind) : Option BcnNetwork :=
  match net.getIe supportedRatesIe with
  | .found p => do
    let p := beaconIeOffset + p
    let ieOrilen := ieLenAt net.ies p
    let newRate ← (window net.ies (p + 2) ieOrilen).foldlM (newRate keep) []
    let idx := newRate.length
    let ies := paste net.ies (p + 1) [UInt8.ofNat idx]
    let ies := paste ies (p + 2) newRate
    let remainIes := p + 2 + ieOrilen
    let remainLen := net.ieLength - remainIes
    some { ies := paste ies (p + 2 + idx) (window ies remainIes remainLen)
           ieLength := net.ieLength - (ieOrilen - idx) }
  | .missing => some net
  | .endless => none

theorem newRate_foldlM (rates new : List Byte) (room : new.length ≤ lengthRatesEx) : rates.foldlM
    (newRate keep) new = if new.length + (rates.filter keep.has).length ≤ lengthRatesEx then some
    (new ++ (rates.filter keep.has).map keptRate) else none := by
  induction rates generalizing new with
  | nil =>
    rw [filter_nil, length_nil, Nat.add_zero, if_pos room, map_nil, append_nil]
    rfl
  | cons rate rates ih =>
    rw [foldlM_cons, newRate]
    by_cases kept : keep.has rate = true
    · rw [filter_cons_of_pos kept, if_pos kept, length_cons]
      by_cases full : new.length < lengthRatesEx
      · rw [if_pos full, bind_eq_bind, bind_some,
          ih _ (by rw [length_append, length_singleton]; omega)]
        simp only [length_append, length_singleton, map_cons, append_assoc,
          singleton_append, Nat.add_assoc, Nat.add_comm 1]
      · rw [if_neg full, if_neg (by omega)]
        rfl
    · rw [filter_cons_of_neg kept, if_neg kept]
      exact ih new room

def filteredRates (e : Elem) : Elem where
  id := e.id
  body := (e.body.filter keep.has).map keptRate
  short := by
    rw [List.length_map]
    exact (List.length_filter_le _ _).trans_lt e.short

@[simp] theorem length_filteredRates (e : Elem) : (filteredRates keep e).body.length =
    (e.body.filter keep.has).length :=
  length_map ..

section Filter

variable {net net' : BcnNetwork} {fixed : List Byte} {els front back : List Elem} {e : Elem}
  {keep : RateKind}

theorem HoldsElems.unique (held : HoldsElems net fixed els) {els' : List Elem}
    (held' : HoldsElems net fixed els') : encodeAll els = encodeAll els' := by
  have same : (fixed ++ encodeAll els).length = (fixed ++ encodeAll els').length := by
    rw [length_append, length_append]
    have first := held.length
    have second := held'.length
    omega
  have texts : fixed ++ encodeAll els = fixed ++ encodeAll els' := by
    rw [← held.holds.window_eq rfl, ← held'.holds.window_eq rfl, same]
  exact append_cancel_left texts

section

variable (held : HoldsElems net fixed (front ++ e :: back))
include held

theorem HoldsElems.parts :
    let p := beaconIeOffset + (encodeAll front).length
    Holds net.ies 0 (fixed ++ encodeAll front) ∧ net.ies p = e.id ∧
      net.ies (p + 1) = UInt8.ofNat e.body.length ∧ Holds net.ies (p + 2) e.body ∧
      Holds net.ies (p + 2 + e.body.length) (encodeAll back) := by
  intro p
  have holds := held.holds
  have start : 0 + (fixed ++ encodeAll front).length = p := by
    rw [length_append, held.fixed_length, Nat.zero_add]
  rw [encodeAll_append, ← append_assoc, holds_append, start, holds_encodeAll_cons,
    holds_encode] at holds
  obtain ⟨before, ⟨id, length, body⟩, behind⟩ := holds
  rw [Nat.add_comm e.body.length, ← Nat.add_assoc] at behind
  exact ⟨before, id, length, body, behind⟩

theorem HoldsElems.shrink (body : List Byte) (shorter : body.length ≤ e.body.length)
    (short : body.length < 256) :
    let p := beaconIeOffset + (encodeAll front).length
    let ies := paste (paste net.ies (p + 1) [UInt8.ofNat body.length]) (p + 2) body
    let remainIes := p + 2 + e.body.length
    HoldsElems
      { ies := paste ies (p + 2 + body.length) (window ies remainIes (net.ieLength - remainIes))
        ieLength := net.ieLength - (e.body.length - body.length) }
      fixed (front ++ ⟨e.id, body, short⟩ :: back) := by
  intro p ies remainIes
  have length := held.length
  have start : 0 + (fixed ++ encodeAll front).length = p := by
    rw [length_append, held.fixed_length, Nat.zero_add]
  obtain ⟨before, id, -, -, behind⟩ := held.parts
  rw [encodeAll_append, encodeAll_cons, length_append, length_append,
    length_encode] at length
  -- what the two writes leave in front of the element, in it and behind it
  have before' : Holds ies 0 (fixed ++ encodeAll front) :=
    (before.paste (.inl (by rw [start]; omega))).paste (.inl (by rw [start]; omega))
  have header : Holds ies p [e.id, UInt8.ofNat body.length] := by
    have kept : Holds net.ies p [e.id] := ⟨id, trivial⟩
    have first : Holds (paste net.ies (p + 1) [UInt8.ofNat body.length]) p [e.id] :=
      kept.paste (.inl le_rfl)
    have second := holds_paste net.ies (p + 1) [UInt8.ofNat body.length]
    have both : Holds (paste net.ies (p + 1) [UInt8.ofNat body.length]) p
        [e.id, UInt8.ofNat body.length] := ⟨first.1, second.1, trivial⟩
    exact both.paste (.inl le_rfl)
  have own : Holds ies (p + 2) body := holds_paste ..
  have behind' : Holds ies remainIes (encodeAll back) :=
    (behind.paste (.inr (by simp only [length_singleton]; omega))).paste (.inr (by omega))
  have moved := behind'.move (n := net.ieLength - remainIes) (by simp only [remainIes, p]; omega)
    (p + 2 + body.length)
  refine ⟨held.fixed_length, ?_, ?_⟩
  · rw [encodeAll_append, ← append_assoc, holds_append, start, holds_encodeAll_cons,
      holds_encode]
    refine ⟨before'.paste (.inl (by rw [start]; omega)), ⟨?_, ?_, ?_⟩, ?_⟩
    · exact (header.paste (.inl (by simp))).1
    · exact (header.paste (.inl (by simp))).2.1
    · exact own.paste (.inl le_rfl)
    · rw [show p + (body.length + 2) = p + 2 + body.length by omega]
      exact moved
  · simp only [encodeAll_append, encodeAll_cons, length_append, length_encode]
    omega

theorem HoldsElems.filter_found (keep : RateKind) (small : net.ieLength ≤ maxIeSz)
    (absent : ∀ x ∈ front, (x.id == UInt8.ofNat supportedRatesIe) = false)
    (here : (e.id == UInt8.ofNat supportedRatesIe) = true) :
    if (e.body.filter keep.has).length ≤ lengthRatesEx then
      ∃ net', filterSuppportRateie net keep = some net' ∧ net'.ieLength ≤ maxIeSz ∧
        HoldsElems net' fixed (front ++ filteredRates keep e :: back)
    else filterSuppportRateie net keep = none := by
  obtain ⟨found, length⟩ := held.getIe_found small absent here
  have rates := held.parts.2.2.2.1.window_eq rfl
  rw [filterSuppportRateie, found]
  simp only [length, rates, newRate_foldlM keep e.body [] (Nat.zero_le _), length_nil,
    Nat.zero_add, nil_append, bind_eq_bind]
  split_ifs with room
  · have shrunk := held.shrink (filteredRates keep e).body
      (by rw [length_filteredRates]; exact length_filter_le _ _) (filteredRates keep e).short
    refine ⟨_, rfl, ?_, shrunk⟩
    simp only
    omega
  · rfl

end

theorem HoldsElems.filter_missing (held : HoldsElems net fixed els)
    (small : net.ieLength ≤ maxIeSz)
    (absent : ∀ x ∈ els, (x.id == UInt8.ofNat supportedRatesIe) = false) :
    filterSuppportRateie net keep = some net := by
  rw [filterSuppportRateie, held.getIe_missing small absent]

end Filter

def rateValue (rate : Byte) : Byte := rate &&& 0x7f

theorem rateValue_keptRate (rate : Byte) : rateValue (keptRate rate) = rateValue rate := by
  rw [keptRate]
  split
  · have masked : basicRateMask.toBitVec &&& (0x7f : Byte).toBitVec = 0 := rfl
    apply UInt8.toBitVec_inj.mp
    rw [rateValue, rateValue, UInt8.toBitVec_and, UInt8.toBitVec_or, BitVec.and_or_distrib_right,
      masked, UInt8.toBitVec_and]
    exact BitVec.or_zero
  · rfl

theorem filteredRates_values (e : Elem) :
    (filteredRates keep e).body.map rateValue = (e.body.filter keep.has).map rateValue := by
  rw [filteredRates, List.map_map]
  exact List.map_congr_left fun rate _ => rateValue_keptRate rate

/-- For every supported-rates element (the first one of the network) and its neighbours: it is
rewritten with exactly its rates of the mode, in order, if and only if these are at most 16. -/
theorem filter_suppport_rateie_iff (net : BcnNetwork) (keep : RateKind) (fixed : List Byte)
    (front back : List Elem) (e : Elem) (held : HoldsElems net fixed (front ++ e :: back))
    (small : net.ieLength ≤ maxIeSz)
    (absent : ∀ x ∈ front, (x.id == UInt8.ofNat supportedRatesIe) = false)
    (here : (e.id == UInt8.ofNat supportedRatesIe) = true) :
    (∃ net' e', filterSuppportRateie net keep = some net' ∧
      HoldsElems net' fixed (front ++ e' :: back) ∧ e'.id = e.id ∧
      e'.body.map rateValue = (e.body.filter keep.has).map rateValue) ↔
      (e.body.filter keep.has).length ≤ lengthRatesEx := by
  have filtered := held.filter_found keep small absent here
  split_ifs at filtered with room
  · obtain ⟨net', run, -, after⟩ := filtered
    exact iff_of_true ⟨net', _, run, after, rfl, filteredRates_values keep e⟩ room
  · apply iff_of_false _ room
    rintro ⟨net', e', run, -⟩
    rw [filtered] at run
    exact nomatch run

theorem filter_suppport_rateie_four :
    ∃ net' e', filterSuppportRateie
        ⟨image 0 (List.replicate 12 0 ++ [1, 4, 0x82, 0x0c, 0x96, 0x12]), 18⟩ .ofdm = some net' ∧
      HoldsElems net' (List.replicate 12 0) [e'] ∧ e'.id = 1 ∧
      e'.body.map rateValue = [0x0c, 0x12] :=
  (filter_suppport_rateie_iff _ .ofdm (List.replicate 12 0) [] []
    ⟨1, [0x82, 0x0c, 0x96, 0x12], by decide⟩ ⟨rfl, holds_image _, rfl⟩ (by decide) nofun rfl).mpr
    (by decide)

theorem seventeen_rates_panic :
    filterSuppportRateie
      ⟨image 0 (List.replicate 12 0 ++ [1, 17] ++ List.replicate 17 0x82), 31⟩ .cck = none := by
  decide +kernel

/-! ## Fitting a network to a mode -/

structure WlanBssidEx extends BcnNetwork where
  dsConfig : ℕ
  supportedRates : List Byte

variable (bss : WlanBssidEx)

def wireless11B : ℕ := 1
def wireless11G : ℕ := 2
def wireless11A : ℕ := 4
def wireless11BG : ℕ := 3

def extSupportedRatesIe : ℕ := 50

def rtwSetSupportedRate (mode : ℕ) : List Byte :=
  let rates :=
    if mode = wireless11B then wifiCckRates
    -- 11G, 11A, 11_5N, 11A_5N, 11_5AC
    else if mode ∈ [2, 4, 16, 20, 68] then wifiOfdmRates
    -- 11BG, 11G_24N, 11_24N, 11BG_24N
    else if mode ∈ [3, 10, 8, 11] then wifiCckRates ++ wifiOfdmRates
    else []
  rates ++ List.replicate (lengthRatesEx - rates.length) 0

/-- The removal of the extended rates, from the length before the filtering; `IELength` is reduced
by one body. -/
def dropExtRates (net : BcnNetwork) (networkIelen : ℕ) : Option BcnNetwork :=
  match net.getIe extSupportedRatesIe with
  | .found p => do
    let ieLen := ieLenAt net.ies (beaconIeOffset + p)
    let out ← rtwIesRemoveIe net.ies networkIelen beaconIeOffset (UInt8.ofNat extSupportedRatesIe)
      none (networkIelen + 1)
    some { ies := out.ies, ieLength := net.ieLength - ieLen }
  | .missing => some net
  | .endless => none

def updateRateIes (mode : ℕ) : Option (BcnNetwork × ℕ) :=
  if mode = wireless11B then do
    let net ← filterSuppportRateie bss.toBcnNetwork .cck
    let net ← dropExtRates net bss.ieLength
    some (net, wireless11B)
  else if 14 < bss.dsConfig then
    (filterSuppportRateie bss.toBcnNetwork .ofdm).map (·, wireless11A)
  else if mode &&& wireless11B = 0 then
    (filterSuppportRateie bss.toBcnNetwork .ofdm).map (·, wireless11G)
  else some (bss.toBcnNetwork, wireless11BG)

def rtwUpdateRateBymode (mode : ℕ) : Option (WlanBssidEx × ℕ) :=
  (updateRateIes bss mode).map fun (net, networkType) =>
    ({ net with dsConfig := bss.dsConfig, supportedRates := rtwSetSupportedRate networkType },
      networkType)

def keptKind (mode : ℕ) : Option RateKind :=
  if mode = wireless11B then some .cck
  else if 14 < bss.dsConfig ∨ mode &&& wireless11B = 0 then some .ofdm
  else none

def isRates (e : Elem) : Bool := e.id == UInt8.ofNat supportedRatesIe

def isExtRates (e : Elem) : Bool := e.id == UInt8.ofNat extSupportedRatesIe

/-- A supported-rates element keeps the rates of the mode, any other element is the same. -/
def RateElem (e e' : Elem) : Prop :=
  if isRates e then e'.id = e.id ∧
    e'.body.map rateValue = (e.body.filter keep.has).map rateValue
  else e' = e

/-- The elements with the supported rates filtered to the mode and without extended rates for
802.11b. -/
def RatesLeft (mode : ℕ) (els els' : List Elem) : Prop :=
  match keptKind bss mode with
  | none => els' = els
  | some keep => List.Forall₂ (RateElem keep)
      (if mode = wireless11B then els.filter (!isExtRates ·) else els) els'

/-- What is expected of `rtw_update_rate_bymode`: these elements are left, and `IELength` is their
length. -/
def RatesUpdated (mode : ℕ) (fixed : List Byte) (els : List Elem) : Prop :=
  ∃ bss' networkType els', rtwUpdateRateBymode bss mode = some (bss', networkType) ∧
    HoldsElems bss'.toBcnNetwork fixed els' ∧ RatesLeft bss mode els els'

def filterFirst (keep : RateKind) : List Elem → List Elem
  | [] => []
  | e :: es => if isRates e then filteredRates keep e :: es else e :: filterFirst keep es

/-- The rates to keep of the first supported-rates element have room, and those behind it have no
others. -/
def Filterable (es : List Elem) : Prop :=
  (∀ e ∈ es.find? isRates, (e.body.filter keep.has).length ≤ lengthRatesEx) ∧
    es.Pairwise fun e x => isRates e → isRates x → ∀ rate ∈ x.body, keep.has rate

section Update

variable {keep : RateKind} {net : BcnNetwork} {fixed : List Byte} {es es' front back : List Elem}
  {e x : Elem}

theorem filterFirst_eq_self (absent : ∀ x ∈ es, isRates x = false) : filterFirst keep es = es := by
  induction es with
  | nil => rfl
  | cons e es ih =>
    obtain ⟨own, later⟩ := forall_mem_cons.mp absent
    rw [filterFirst, own, ih later]
    rfl

theorem filterFirst_found (absent : ∀ x ∈ front, isRates x = false) (here : isRates e = true) :
    filterFirst keep (front ++ e :: back) = front ++ filteredRates keep e :: back := by
  induction front with
  | nil => exact if_pos here
  | cons x front ih =>
    obtain ⟨own, later⟩ := forall_mem_cons.mp absent
    rw [cons_append, filterFirst, own, ih later]
    rfl

theorem mem_filterFirst (other : isRates x = false) : x ∈ filterFirst keep es ↔ x ∈ es := by
  induction es with
  | nil => rfl
  | cons e es ih =>
    rw [filterFirst]
    split
    next rates =>
      -- neither the element nor what it is replaced by is `x`
      have filtered : x ≠ filteredRates keep e := by
        rintro rfl
        exact absurd (rates.symm.trans other) (by decide)
      have own : x ≠ e := by
        rintro rfl
        exact absurd (rates.symm.trans other) (by decide)
      rw [mem_cons, mem_cons, or_iff_right filtered, or_iff_right own]
    · rw [mem_cons, mem_cons, ih]

theorem length_filterFirst_le (keep : RateKind) (es : List Elem) :
    (encodeAll (filterFirst keep es)).length ≤ (encodeAll es).length := by
  induction es with
  | nil => exact le_rfl
  | cons e es ih =>
    have fewer := length_filter_le keep.has e.body
    rw [filterFirst]
    split
    all_goals
      simp only [encodeAll_cons, length_append, length_encode, length_filteredRates]
      omega

theorem HoldsElems.filter_spec (held : HoldsElems net fixed es) (small : net.ieLength ≤ maxIeSz)
    (keep : RateKind) :
    if ∀ e ∈ es.find? isRates, (e.body.filter keep.has).length ≤ lengthRatesEx then
      ∃ net', filterSuppportRateie net keep = some net' ∧ net'.ieLength ≤ maxIeSz ∧
        HoldsElems net' fixed (filterFirst keep es)
    else filterSuppportRateie net keep = none := by
  rcases first_hit isRates es with absent | ⟨front, e, back, rfl, absent, here⟩
  · have nothing : es.find? isRates = none :=
      List.find?_eq_none.mpr fun e member => by rw [absent e member]; exact Bool.false_ne_true
    rw [nothing, if_pos nofun, filterFirst_eq_self absent]
    exact ⟨net, held.filter_missing small absent, small, held⟩
  · have first : (front ++ e :: back).find? isRates = some e := by
      rw [List.find?_append, List.find?_eq_none.mpr fun x member => by
        rw [absent x member]; exact Bool.false_ne_true]
      exact List.find?_cons_of_pos here
    have found := held.filter_found keep small absent here
    rw [filterFirst_found absent here, first]
    simpa only [mem_def, some.injEq, forall_eq'] using found

theorem filterFirst_expected_iff (keep : RateKind) (es : List Elem) :
    List.Forall₂ (RateElem keep) es (filterFirst keep es) ↔
      es.Pairwise fun e x => isRates e → isRates x → ∀ rate ∈ x.body, keep.has rate := by
  -- an element that is not touched
  have same : ∀ x, RateElem keep x x ↔ (isRates x → ∀ rate ∈ x.body, keep.has rate) := by
    intro x
    rw [RateElem]
    by_cases rates : isRates x = true
    · rw [if_pos rates]
      simp only [rates, true_and, forall_const]
      constructor
      · intro equal
        have lengths := congrArg List.length equal
        rw [length_map, length_map] at lengths
        exact length_filter_eq_length_iff.mp lengths.symm
      · intro all
        rw [filter_eq_self.mpr all]
    · simp [rates]
  induction es with
  | nil => simp [filterFirst]
  | cons e es ih =>
    rw [filterFirst, pairwise_cons]
    by_cases rates : isRates e = true
    · rw [if_pos rates, forall₂_cons, forall₂_same]
      have own : RateElem keep e (filteredRates keep e) := by
        rw [RateElem, if_pos rates]
        exact ⟨rfl, filteredRates_values keep e⟩
      simp only [own, true_and, same, rates, forall_const]
      constructor
      · intro all
        exact ⟨all, pairwise_of_forall_mem_list fun a _ b member _ => all b member⟩
      · exact fun both => both.1
    · rw [if_neg rates, forall₂_cons, same]
      simpa [rates] using ih

theorem isRates_of_isExtRates (ext : isExtRates e = true) : isRates e = false := by
  rw [isRates, beq_eq_false_iff_ne, beq_iff_eq.mp ext]
  decide

theorem RateElem.length_eq (made : RateElem keep e x) :
    x.body.length = if isRates e then (e.body.filter keep.has).length else e.body.length := by
  rw [RateElem] at made
  split_ifs at made ⊢
  · have lengths := congrArg List.length made.2
    rwa [length_map, length_map] at lengths
  · rw [made]

theorem length_expected_le
    (expected : List.Forall₂ (RateElem keep) (es.filter (!isExtRates ·)) es') :
    (encodeAll es').length + (encodeAll (es.filter isExtRates)).length ≤
      (encodeAll (filterFirst keep es)).length := by
  induction es generalizing es' with
  | nil =>
    rw [filter_nil, forall₂_nil_left_iff] at expected
    rw [expected]
    exact le_rfl
  | cons e es ih =>
    by_cases ext : isExtRates e = true
    · rw [filter_cons_of_neg (by simp [ext])] at expected
      have later := ih expected
      rw [filter_cons_of_pos ext, filterFirst, isRates_of_isExtRates ext]
      simp only [Bool.false_eq_true, if_false, encodeAll_cons, length_append, length_encode]
      omega
    · rw [filter_cons_of_pos (by simp [ext]), forall₂_cons_left_iff] at expected
      obtain ⟨x, es', made, rest, rfl⟩ := expected
      have length := made.length_eq
      have later := ih rest
      have shorter := length_filterFirst_le keep es
      rw [filter_cons_of_neg ext, filterFirst]
      split_ifs at length ⊢
      all_goals
        simp only [encodeAll_cons, length_append, length_encode, length_filteredRates]
        omega

section

variable (held : HoldsElems net fixed (filterFirst keep es)) (small : net.ieLength ≤ maxIeSz)
include held small

theorem HoldsElems.dropExtRates_length {net' : BcnNetwork} {networkIelen : ℕ} (member : e ∈ es)
    (ext : isExtRates e = true) (run : dropExtRates net networkIelen = some net')
    (expected : List.Forall₂ (RateElem keep) (es.filter (!isExtRates ·)) es') :
    net'.ieLength ≠ beaconIeOffset + (encodeAll es').length := by
  rcases first_hit isExtRates (filterFirst keep es) with
    absent | ⟨front, x, back, split_, absent, here⟩
  · have kept : e ∈ filterFirst keep es :=
      (mem_filterFirst (isRates_of_isExtRates ext)).mpr member
    exact absurd ((absent e kept).symm.trans ext) (by decide)
  · have total := held.length
    rw [split_] at held
    obtain ⟨found, length⟩ := held.getIe_found small absent here
    rw [dropExtRates, found] at run
    simp only [bind_eq_bind, bind_eq_some_iff, length] at run
    obtain ⟨out, -, made⟩ := run
    obtain rfl := some.inj made
    -- the first of them is counted without its header
    have first : x ∈ es := (mem_filterFirst (isRates_of_isExtRates here)).mp
      (split_ ▸ mem_append_right front mem_cons_self)
    have counted := length_le_of_mem (mem_filter.mpr ⟨first, here⟩)
    have bound := length_expected_le expected
    simp only
    omega

theorem HoldsElems.dropExtRates_none {networkIelen : ℕ} (absent : ∀ e ∈ es, isExtRates e = false) :
    dropExtRates net networkIelen = some net := by
  have missing : net.getIe extSupportedRatesIe = .missing := by
    apply held.getIe_missing small
    intro x member
    by_contra here
    have ext : isExtRates x = true := Bool.not_eq_false _ ▸ here
    have kept := (mem_filterFirst (isRates_of_isExtRates ext)).mp member
    exact absurd ((absent x kept).symm.trans ext) (by decide)
  rw [dropExtRates, missing]

end

theorem HoldsElems.filtered_iff (held : HoldsElems net fixed es) (small : net.ieLength ≤ maxIeSz) :
    (∃ net' es', filterSuppportRateie net keep = some net' ∧ HoldsElems net' fixed es' ∧
      List.Forall₂ (RateElem keep) es es') ↔ Filterable keep es := by
  have filtered := held.filter_spec small keep
  rw [Filterable, ← filterFirst_expected_iff]
  split_ifs at filtered with room
  · obtain ⟨net', run, -, after⟩ := filtered
    rw [run]
    constructor
    · rintro ⟨_, es', same, held', expected⟩
      obtain rfl := some.inj same
      rw [encodeAll_injective (after.unique held')]
      exact ⟨room, expected⟩
    · rintro ⟨-, expected⟩
      exact ⟨net', _, rfl, after, expected⟩
  · rw [filtered]
    exact iff_of_false (fun ⟨_, _, run, _⟩ => nomatch run) fun both => room both.1

end Update

/-- There is nothing to filter; or the rates can be filtered and there are no extended rates to
drop. -/
def RatesUpdatable (mode : ℕ) (els : List Elem) : Prop :=
  ∀ keep ∈ keptKind bss mode, Filterable keep els ∧
    (mode = wireless11B → ∀ e ∈ els, isExtRates e = false)

theorem ratesUpdated_iff (mode : ℕ) (fixed : List Byte) (els : List Elem) : RatesUpdated bss mode
    fixed els ↔ ∃ net networkType els', updateRateIes bss mode = some (net, networkType) ∧
    HoldsElems net fixed els' ∧ RatesLeft bss mode els els' := by
  constructor
  · rintro ⟨bss', networkType, els', run, held, expected⟩
    rw [rtwUpdateRateBymode, map_eq_some_iff] at run
    obtain ⟨⟨net, networkType'⟩, run, made⟩ := run
    obtain ⟨rfl, rfl⟩ := Prod.mk.inj made
    exact ⟨net, networkType', els', run, held, expected⟩
  · rintro ⟨net, networkType, els', run, held, expected⟩
    exact ⟨_, networkType, els', by rw [rtwUpdateRateBymode, run]; rfl, held, expected⟩

theorem ratesUpdatable_iff {bss : WlanBssidEx} {mode : ℕ} {els : List Elem} {keep : RateKind}
    (kind : keptKind bss mode = some keep) :
    RatesUpdatable bss mode els ↔
      Filterable keep els ∧ (mode = wireless11B → ∀ e ∈ els, isExtRates e = false) := by
  simp only [RatesUpdatable, kind, mem_def, some.injEq, forall_eq']

section

variable (fixed : List Byte) (els : List Elem) (held : HoldsElems bss.toBcnNetwork fixed els)
  (small : bss.ieLength ≤ maxIeSz)
include held small

theorem updated_11b_iff :
    RatesUpdated bss wireless11B fixed els ↔ RatesUpdatable bss wireless11B els := by
  have kind : keptKind bss wireless11B = some .cck := rfl
  have run : updateRateIes bss wireless11B =
      (filterSuppportRateie bss.toBcnNetwork .cck).bind fun net =>
        (dropExtRates net bss.ieLength).bind fun net => some (net, wireless11B) := rfl
  rw [ratesUpdated_iff, ratesUpdatable_iff kind, run]
  simp only [RatesLeft, kind, if_true]
  have filtered := held.filter_spec small .cck
  by_cases ext : ∀ e ∈ els, isExtRates e = false
  · have kept : els.filter (!isExtRates ·) = els :=
      filter_eq_self.mpr fun e member => by rw [ext e member]; rfl
    rw [and_iff_left fun _ => ext, ← held.filtered_iff small, kept]
    split_ifs at filtered with room
    · obtain ⟨net', run', small', after⟩ := filtered
      simp only [run', bind_some, after.dropExtRates_none small' ext, some.injEq,
        Prod.mk.injEq]
      constructor
      · rintro ⟨net, networkType, els', ⟨rfl, -⟩, rest⟩
        exact ⟨_, els', rfl, rest⟩
      · rintro ⟨net, els', rfl, rest⟩
        exact ⟨_, wireless11B, els', ⟨rfl, rfl⟩, rest⟩
    · simp [filtered]
  · -- whatever is removed, the length is not the one of what should be left
    apply iff_of_false _ fun all => ext (all.2 trivial)
    simp only [not_forall, Bool.not_eq_false] at ext
    obtain ⟨e, member, here⟩ := ext
    rintro ⟨net, networkType, els', run', held', expected⟩
    simp only [bind_eq_some_iff] at run'
    obtain ⟨first, filter_run, second, drop_run, made⟩ := run'
    obtain ⟨rfl, -⟩ := Prod.mk.inj (some.inj made)
    split_ifs at filtered with room
    · obtain ⟨net', run'', small', after⟩ := filtered
      obtain rfl := some.inj (filter_run.symm.trans run'')
      exact after.dropExtRates_length small' member here drop_run expected held'.length
    · rw [filtered] at filter_run
      exact nomatch filter_run

theorem updated_ofdm_iff (mode : ℕ) (other : mode ≠ wireless11B)
    (ofdm : 14 < bss.dsConfig ∨ mode &&& wireless11B = 0) :
    RatesUpdated bss mode fixed els ↔ RatesUpdatable bss mode els := by
  have kind : keptKind bss mode = some .ofdm := by rw [keptKind, if_neg other, if_pos ofdm]
  have run : ∃ networkType, updateRateIes bss mode =
      (filterSuppportRateie bss.toBcnNetwork .ofdm).map (·, networkType) := by
    rw [updateRateIes, if_neg other]
    split_ifs with channel low
    · exact ⟨_, rfl⟩
    · exact ⟨_, rfl⟩
    · exact absurd ofdm (not_or.mpr ⟨channel, low⟩)
  obtain ⟨networkType, run⟩ := run
  rw [ratesUpdated_iff, ratesUpdatable_iff kind, run, and_iff_left fun b => absurd b other,
    ← held.filtered_iff small]
  simp only [RatesLeft, kind, if_neg other]
  constructor
  · rintro ⟨net, ty, els', run', rest⟩
    rw [map_eq_some_iff] at run'
    obtain ⟨net', run', made⟩ := run'
    obtain ⟨rfl, -⟩ := Prod.mk.inj made
    exact ⟨net', els', run', rest⟩
  · rintro ⟨net, els', run', rest⟩
    exact ⟨net, networkType, els', by rw [run']; rfl, rest⟩

end

/-- For every network with well-formed elements and every mode. -/
theorem update_rate_bymode_iff (bss : WlanBssidEx) (mode : ℕ) (fixed : List Byte) (els : List Elem)
    (held : HoldsElems bss.toBcnNetwork fixed els) (small : bss.ieLength ≤ maxIeSz) :
    RatesUpdated bss mode fixed els ↔ RatesUpdatable bss mode els := by
  by_cases b : mode = wireless11B
  · subst b
    exact updated_11b_iff bss fixed els held small
  by_cases ofdm : 14 < bss.dsConfig ∨ mode &&& wireless11B = 0
  · exact updated_ofdm_iff bss fixed els held small mode b ofdm
  · have kind : keptKind bss mode = none := by rw [keptKind, if_neg b, if_neg ofdm]
    obtain ⟨channel, low⟩ := not_or.mp ofdm
    have run : updateRateIes bss mode = some (bss.toBcnNetwork, wireless11BG) := by
      rw [updateRateIes, if_neg b, if_neg channel, if_neg low]
    rw [ratesUpdated_iff, run, RatesUpdatable, kind]
    simp only [RatesLeft, kind]
    exact iff_of_true ⟨_, _, els, rfl, held, rfl⟩ nofun

def mixedNetwork : WlanBssidEx where
  ies := image 0 (List.replicate 12 0 ++ [1, 3, 0x82, 0x0c, 0x24, 50, 1, 0x6c])
  ieLength := 20
  dsConfig := 6
  supportedRates := []

def mixedRates : List Elem :=
  [⟨1, [0x82, 0x0c, 0x24], by decide⟩, ⟨50, [0x6c], by decide⟩]

theorem update_rate_bymode_11g :
    RatesUpdated mixedNetwork wireless11G (List.replicate 12 0) mixedRates :=
  (update_rate_bymode_iff mixedNetwork wireless11G (List.replicate 12 0) mixedRates
    ⟨rfl, holds_image _, rfl⟩ (by decide)).mpr <| by
    refine (@ratesUpdatable_iff _ _ _ .ofdm rfl).mpr ⟨⟨?_, ?_⟩, fun b => absurd b (by decide)⟩
    · rintro e found
      obtain rfl := some.inj found
      decide
    · simp [mixedRates, isRates, supportedRatesIe]

/-- The length counts two bytes behind the one element that is left. -/
theorem ext_rates_length_off :
    ¬ RatesUpdated mixedNetwork wireless11B (List.replicate 12 0) mixedRates ∧
    (rtwUpdateRateBymode mixedNetwork wireless11B).map
      (fun (bss, networkType) => (bss.ieLength, window bss.ies 12 3, networkType)) =
      some (17, [1, 1, 0x82], wireless11B) := by
  refine ⟨fun updated => ?_, by decide +kernel⟩
  rw [updated_11b_iff _ _ _ ⟨rfl, holds_image _, rfl⟩ (by decide)] at updated
  exact absurd ((updated .cck rfl).2 rfl _ (.tail _ (.head _))) (by decide)

end Rtl88x2bu.Ie
