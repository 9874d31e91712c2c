import Rtl88x2bu.Lib.Tlv
import Rtl88x2bu.Ie.Rsne

/-!
# `rtw_ieee802_11_parse_elems`

The parser (`rust/rtw_ieee80211_rest.rs`) fails exactly on a buffer that is not a concatenation of
elements; otherwise each field is the last element of its kind.
-/

namespace Rtl88x2bu.Ie

open List
open Tape Tlv

/-! ## The parser -/

/-- The members of `struct rtw_ieee802_11_elems`, each a pointer with its length. -/
inductive ElemField
  | ssid | suppRates | fhParams | dsParams | cfParams | tim | ibssParams | challenge | erpInfo
  | extSuppRates | wpaIe | rsnIe | wme | wmeTspec | wpsIe | powerCap | suppChannels | mdie | ftie
  | timeoutInt | htCapabilities | htOperation | vendorHtCap | vhtCapabilities | vhtOperation
  | vhtOpModeNotify | rmEnCap | preq | prep | perr | rann | tbtxCap
  deriving DecidableEq

structure ElemsConfig where
  mesh : Bool
  tokenBasedXmit : Bool

variable (cfg : ElemsConfig)

variable (f : ElemField)

/-- Where the body starts and its length; `none` for a NULL pointer. -/
abbrev Elems := ElemField → Option (ℕ × Byte)

inductive ParseRes
  | ok
  | unknown
  | failed
  deriving DecidableEq

def fieldTable : List (Byte × ElemField) :=
  [(0, .ssid), (1, .suppRates), (2, .fhParams), (3, .dsParams), (4, .cfParams), (5, .tim),
    (6, .ibssParams), (16, .challenge), (42, .erpInfo), (50, .extSuppRates), (48, .rsnIe),
    (33, .powerCap), (36, .suppChannels), (54, .mdie), (55, .ftie), (56, .timeoutInt),
    (45, .htCapabilities), (61, .htOperation), (191, .vhtCapabilities), (192, .vhtOperation),
    (199, .vhtOpModeNotify), (70, .rmEnCap)] ++
  if cfg.mesh then [(130, .preq), (131, .prep), (132, .perr), (126, .rann)] else []

def ouiMicrosoft : ℕ := 0x0050f2
def ouiBroadcom : ℕ := 0x00904c
def ouiRealtek : ℕ := 0x00e04c
def wmeOuiType : Byte := 2
def vendorHtCapabOuiType : Byte := 0x33

/-- `parse_vendor_specific`: what it returns, and the field that it sets. -/
def parseVendorSpecific (buf : ℕ → Byte) (pos elen : ℕ) : ℤ × Option ElemField :=
  if elen < 4 then (-1, none)
  else
    let oui := (buf pos).toNat <<< 16 + (buf (pos + 1)).toNat <<< 8 + (buf (pos + 2)).toNat
    if oui = ouiMicrosoft then
      if buf (pos + 3) = 1 then (0, some .wpaIe)
      else if buf (pos + 3) = wmeOuiType ∧ elen ≥ 5 then
        if buf (pos + 4) = 0 ∨ buf (pos + 4) = 1 then (0, some .wme)
        else if buf (pos + 4) = 2 then (0, some .wmeTspec)
        else (-1, none)
      else if buf (pos + 3) = 4 then (0, some .wpsIe)
      else (-1, none)
    else if oui = ouiBroadcom ∧ buf (pos + 3) = vendorHtCapabOuiType then (0, some .vendorHtCap)
    else if cfg.tokenBasedXmit ∧ oui = ouiRealtek then
      (0, if elen = 8 then some .tbtxCap else none)
    else (-1, none)

/-- The match over the id: the field that is set, and whether the element counts as unknown. -/
def parseElem (buf : ℕ → Byte) (id : Byte) (pos : ℕ) (elen : Byte) : Option ElemField × Bool :=
  if id = wlanEidVendorSpecific then
    let (ret, field) := parseVendorSpecific cfg buf pos elen.toNat
    (field, ret ≠ 0)
  else
    match (fieldTable cfg).lookup id with
    | some field => (some field, false)
    | none => (none, true)

def Elems.put (e : Elems) (field : Option ElemField) (pos : ℕ) (elen : Byte) : Elems :=
  fun f => if field = some f then some (pos, elen) else e f

def parseElemsLoop (cfg : ElemsConfig) (buf : ℕ → Byte) (left pos : ℕ) (e : Elems) (unknown : ℕ) :
    ParseRes × Elems :=
  if left ≥ 2 then
    let id := buf pos
    let elen := buf (pos + 1)
    if elen.toNat > left - 2 then (.failed, e)
    else
      let (field, odd) := parseElem cfg buf id (pos + 2) elen
      parseElemsLoop cfg buf (left - 2 - elen.toNat) (pos + 2 + elen.toNat)
        (e.put field (pos + 2) elen) (if odd then unknown + 1 else unknown)
  else if left ≠ 0 then (.failed, e)
  else if unknown ≠ 0 then (.unknown, e)
  else (.ok, e)
termination_by left

def rtwIeee80211ParseElems (start : ℕ → Byte) (len : ℕ) : ParseRes × Elems :=
  parseElemsLoop cfg start len 0 (fun _ => none) 0

/-! ## The kinds of elements -/

def vendorTable : List (List Byte × ElemField) :=
  [([0x00, 0x50, 0xf2, 1], .wpaIe), ([0x00, 0x50, 0xf2, 2, 0], .wme),
    ([0x00, 0x50, 0xf2, 2, 1], .wme),
    ([0x00, 0x50, 0xf2, 2, 2], .wmeTspec), ([0x00, 0x50, 0xf2, 4], .wpsIe),
    ([0x00, 0x90, 0x4c, 0x33], .vendorHtCap)]

def VendorTakes (body : List Byte) : Prop :=
  (∃ head, (head, f) ∈ vendorTable ∧ head <+: body) ∨
  f = .tbtxCap ∧ cfg.tokenBasedXmit = true ∧ body.length = 8 ∧ [0x00, 0xe0, 0x4c] <+: body

/-- The element is one for the field: by its id, or by the head of its body. -/
def Takes (x : Elem) : Prop :=
  (x.id, f) ∈ fieldTable cfg ∨ x.id = wlanEidVendorSpecific ∧ VendorTakes cfg f x.body

/-- The field holds the last element for it, from `pos` on; if there is none, what it held
before. -/
def LastTaken (pos : ℕ) (els : List Elem) (before after : Option (ℕ × Byte)) : Prop :=
  (∀ x ∈ els, ¬ Takes cfg f x) ∧ after = before ∨
  ∃ front x back, els = front ++ x :: back ∧ Takes cfg f x ∧ (∀ y ∈ back, ¬ Takes cfg f y) ∧
    after = some (pos + (encodeAll front).length + 2, UInt8.ofNat x.body.length)

/-! ## One element -/

theorem lookup_eq_some_iff {table : List (Byte × ElemField)} (keys : (table.map Prod.fst).Nodup)
    {id : Byte} {f : ElemField} : table.lookup id = some f ↔ (id, f) ∈ table := by
  induction table with
  | nil => simp
  | cons entry table ih =>
    obtain ⟨key, field⟩ := entry
    obtain ⟨fresh, keys⟩ := nodup_cons.mp keys
    rw [lookup_cons, mem_cons, Prod.mk.injEq]
    by_cases same : id = key
    · subst same
      have later : (id, f) ∉ table := fun member => fresh (mem_map.mpr ⟨_, member, rfl⟩)
      simp [later, eq_comm]
    · rw [beq_eq_false_iff_ne.mpr same]
      simp [same, ih keys]

theorem fieldTable_keys : ((fieldTable cfg).map Prod.fst).Nodup := by
  rw [fieldTable]
  cases cfg.mesh <;> decide

theorem vendor_not_in_fieldTable : (wlanEidVendorSpecific, f) ∉ fieldTable cfg := by
  intro member
  have key : wlanEidVendorSpecific ∈ (fieldTable cfg).map Prod.fst :=
    mem_map.mpr ⟨_, member, rfl⟩
  revert key
  rw [fieldTable]
  cases cfg.mesh <;> decide

theorem oui_eq_iff (a b c : Byte) (oui : ℕ) (small : oui < 16777216) :
    a.toNat <<< 16 + b.toNat <<< 8 + c.toNat = oui ↔
      a = UInt8.ofNat (oui / 65536) ∧ b = UInt8.ofNat (oui / 256) ∧ c = UInt8.ofNat oui := by
  have := a.toNat_lt
  have := b.toNat_lt
  have := c.toNat_lt
  simp only [← UInt8.toNat_inj, UInt8.toNat_ofNat', Nat.shiftLeft_eq]
  omega

section Element

variable {cfg : ElemsConfig} {buf : ℕ → Byte} {pos : ℕ} {f : ElemField}

theorem vendorTakes_cons {a b c d : Byte} {rest : List Byte} :
    VendorTakes cfg f (a :: b :: c :: d :: rest) ↔
      (a = 0 ∧ b = 0x50 ∧ c = 0xf2) ∧
        (d = 1 ∧ f = .wpaIe ∨ d = 2 ∧ ([0] <+: rest ∨ [1] <+: rest) ∧ f = .wme ∨
          d = 2 ∧ [2] <+: rest ∧ f = .wmeTspec ∨ d = 4 ∧ f = .wpsIe) ∨
      (a = 0 ∧ b = 0x90 ∧ c = 0x4c) ∧ d = 0x33 ∧ f = .vendorHtCap ∨
      (a = 0 ∧ b = 0xe0 ∧ c = 0x4c) ∧ cfg.tokenBasedXmit = true ∧ rest.length = 4 ∧
        f = .tbtxCap := by
  have head_iff (u v w x : Byte) : [u, v, w, x] <+: a :: b :: c :: d :: rest ↔
      (a = u ∧ b = v ∧ c = w) ∧ d = x := by
    simp only [cons_prefix_cons, nil_prefix, and_true, @eq_comm _ u, @eq_comm _ v,
      @eq_comm _ w, @eq_comm _ x, and_assoc]
  have subtype_iff (u v w x y : Byte) : [u, v, w, x, y] <+: a :: b :: c :: d :: rest ↔
      (a = u ∧ b = v ∧ c = w) ∧ d = x ∧ [y] <+: rest := by
    simp only [cons_prefix_cons, @eq_comm _ u, @eq_comm _ v, @eq_comm _ w, @eq_comm _ x,
      and_assoc]
  have oui_iff : [0x00, 0xe0, 0x4c] <+: a :: b :: c :: d :: rest ↔ a = 0 ∧ b = 0xe0 ∧ c = 0x4c := by
    simp only [cons_prefix_cons, nil_prefix, and_true, @eq_comm _ _ a, @eq_comm _ _ b,
      @eq_comm _ _ c]
  rw [VendorTakes, oui_iff]
  constructor
  · rintro (⟨head, entry, start⟩ | ⟨rfl, config, length, oui⟩)
    · simp only [vendorTable, mem_cons, Prod.mk.injEq, not_mem_nil, or_false] at entry
      rcases entry with ⟨rfl, rfl⟩ | ⟨rfl, rfl⟩ | ⟨rfl, rfl⟩ | ⟨rfl, rfl⟩ | ⟨rfl, rfl⟩ | ⟨rfl, rfl⟩
      · obtain ⟨oui, type⟩ := (head_iff _ _ _ _).mp start
        exact .inl ⟨oui, .inl ⟨type, rfl⟩⟩
      · obtain ⟨oui, type, first⟩ := (subtype_iff _ _ _ _ _).mp start
        exact .inl ⟨oui, .inr (.inl ⟨type, .inl first, rfl⟩)⟩
      · obtain ⟨oui, type, first⟩ := (subtype_iff _ _ _ _ _).mp start
        exact .inl ⟨oui, .inr (.inl ⟨type, .inr first, rfl⟩)⟩
      · obtain ⟨oui, type, first⟩ := (subtype_iff _ _ _ _ _).mp start
        exact .inl ⟨oui, .inr (.inr (.inl ⟨type, first, rfl⟩))⟩
      · obtain ⟨oui, type⟩ := (head_iff _ _ _ _).mp start
        exact .inl ⟨oui, .inr (.inr (.inr ⟨type, rfl⟩))⟩
      · obtain ⟨oui, type⟩ := (head_iff _ _ _ _).mp start
        exact .inr (.inl ⟨oui, type, rfl⟩)
    · exact .inr (.inr ⟨oui, config, by simpa using length, rfl⟩)
  · rintro (⟨oui, ⟨type, rfl⟩ | ⟨type, first | first, rfl⟩ | ⟨type, first, rfl⟩ | ⟨type, rfl⟩⟩ |
      ⟨oui, type, rfl⟩ | ⟨oui, config, length, rfl⟩)
    · exact .inl ⟨_, by decide, (head_iff 0 0x50 0xf2 1).mpr ⟨oui, type⟩⟩
    · exact .inl ⟨_, by decide, (subtype_iff 0 0x50 0xf2 2 0).mpr ⟨oui, type, first⟩⟩
    · exact .inl ⟨_, by decide, (subtype_iff 0 0x50 0xf2 2 1).mpr ⟨oui, type, first⟩⟩
    · exact .inl ⟨_, by decide, (subtype_iff 0 0x50 0xf2 2 2).mpr ⟨oui, type, first⟩⟩
    · exact .inl ⟨_, by decide, (head_iff 0 0x50 0xf2 4).mpr ⟨oui, type⟩⟩
    · exact .inl ⟨_, by decide, (head_iff 0 0x90 0x4c 0x33).mpr ⟨oui, type⟩⟩
    · exact .inr ⟨rfl, config, by simpa using length, oui⟩

theorem length_of_vendorTakes {body : List Byte} (takes : VendorTakes cfg f body) :
    4 ≤ body.length := by
  rcases takes with ⟨head, entry, start⟩ | ⟨-, -, length, -⟩
  · have long : ∀ entry ∈ vendorTable, 4 ≤ entry.1.length := by decide
    exact Nat.le_trans (long _ entry) start.length_le
  · omega

theorem parseVendorSpecific_iff {body : List Byte} (holds : Holds buf pos body) :
    (parseVendorSpecific cfg buf pos body.length).2 = some f ↔ VendorTakes cfg f body := by
  rw [parseVendorSpecific]
  match body, holds with
  | [], _ | [_], _ | [_, _], _ | [_, _, _], _ =>
    rw [if_pos (by simp)]
    exact iff_of_false nofun fun takes => absurd (length_of_vendorTakes takes) (by simp)
  | a :: b :: c :: d :: rest, ⟨at_a, at_b, at_c, at_d, at_rest⟩ =>
    have at_c : buf (pos + 2) = c := at_c
    have at_d : buf (pos + 3) = d := at_d
    have microsoft : _ ↔ a = 0 ∧ b = 0x50 ∧ c = 0xf2 := oui_eq_iff a b c ouiMicrosoft (by decide)
    have broadcom : _ ↔ a = 0 ∧ b = 0x90 ∧ c = 0x4c := oui_eq_iff a b c ouiBroadcom (by decide)
    have realtek : _ ↔ a = 0 ∧ b = 0xe0 ∧ c = 0x4c := oui_eq_iff a b c ouiRealtek (by decide)
    rw [if_neg (by simp only [length_cons]; omega), vendorTakes_cons]
    simp only [at_a, at_b, at_c, at_d, microsoft, broadcom, realtek, wmeOuiType,
      vendorHtCapabOuiType, length_cons]
    cases rest with
    | nil =>
      simp only [prefix_nil, cons_ne_nil, length_nil]
      split_ifs <;> grind
    | cons y rest =>
      have at_y : buf (pos + 4) = y := at_rest.1
      simp only [at_y, cons_prefix_cons, nil_prefix, and_true, length_cons]
      split_ifs <;> grind

theorem parseElem_iff {x : Elem} (holds : Holds buf pos x.encode) :
    (parseElem cfg buf x.id (pos + 2) (UInt8.ofNat x.body.length)).1 = some f ↔ Takes cfg f x := by
  rw [parseElem, Takes]
  by_cases vendor : x.id = wlanEidVendorSpecific
  · have no_field : (x.id, f) ∉ fieldTable cfg := by
      rw [vendor]
      exact vendor_not_in_fieldTable cfg f
    rw [if_pos vendor, x.toNat_length, or_iff_right no_field, and_iff_right vendor]
    exact parseVendorSpecific_iff (holds_encode.mp holds).2.2
  · rw [if_neg vendor, or_iff_left fun both => vendor both.1,
      ← lookup_eq_some_iff (fieldTable_keys cfg)]
    cases (fieldTable cfg).lookup x.id with
    | none => exact iff_of_false nofun nofun
    | some field => exact Iff.rfl

end Element

/-! ## All the elements -/

section Loop

variable {cfg : ElemsConfig} {buf : ℕ → Byte}

theorem lastTaken_cons {f : ElemField} {pos : ℕ} {x : Elem} {els : List Elem}
    {before after : Option (ℕ × Byte)} {field : Option ElemField}
    (field_iff : field = some f ↔ Takes cfg f x)
    (later : LastTaken cfg f (pos + 2 + x.body.length) els
      (if field = some f then some (pos + 2, UInt8.ofNat x.body.length) else before) after) :
    LastTaken cfg f pos (x :: els) before after := by
  rcases later with ⟨none_takes, kept⟩ | ⟨front, y, back, rfl, takes, last, held⟩
  · by_cases takes : Takes cfg f x
    · rw [if_pos (field_iff.mpr takes)] at kept
      exact .inr ⟨[], x, els, rfl, takes, none_takes, kept⟩
    · rw [if_neg fun set => takes (field_iff.mp set)] at kept
      exact .inl ⟨forall_mem_cons.mpr ⟨takes, none_takes⟩, kept⟩
  · refine .inr ⟨x :: front, y, back, rfl, takes, last, ?_⟩
    have place : pos + 2 + x.body.length + (encodeAll front).length + 2 =
        pos + (encodeAll (x :: front)).length + 2 := by
      rw [encodeAll_cons, length_append, length_encode]
      omega
    rw [held, place]

theorem parseElemsLoop_spec (left pos : ℕ) (e : Elems) (unknown : ℕ) :
    ((parseElemsLoop cfg buf left pos e unknown).1 = .failed ∧
      ∀ els, (encodeAll els).length = left → ¬ Holds buf pos (encodeAll els)) ∨
    ((parseElemsLoop cfg buf left pos e unknown).1 ≠ .failed ∧
      ∃ els, (encodeAll els).length = left ∧ Holds buf pos (encodeAll els) ∧
        ∀ f, LastTaken cfg f pos els (e f) ((parseElemsLoop cfg buf left pos e unknown).2 f)) := by
  fun_induction parseElemsLoop cfg buf left pos e unknown with
  | case1 left pos e unknown two elen long =>
    refine .inl ⟨rfl, fun els length holds => ?_⟩
    cases els with
    | nil =>
      have none_left : 0 = left := length
      omega
    | cons x els =>
      have len_byte : elen = _ := (holds_encode.mp (holds_encodeAll_cons.mp holds).1).2.1
      rw [encodeAll_cons, length_append, length_encode] at length
      rw [len_byte, x.toNat_length] at long
      omega
  | case2 left pos e unknown two id elen fits field odd parsed ih =>
    have elen_bound : (window buf (pos + 2) elen.toNat).length < 256 := by
      rw [length_window]
      exact elen.toNat_lt
    rcases ih with ⟨fails, no_elems⟩ | ⟨passes, els, length, holds, last⟩
    · refine .inl ⟨fails, fun els length holds => ?_⟩
      cases els with
      | nil =>
        have none_left : 0 = left := length
        omega
      | cons x els =>
        obtain ⟨here, later⟩ := holds_encodeAll_cons.mp holds
        have len_byte : elen = _ := (holds_encode.mp here).2.1
        have elen_eq : elen.toNat = x.body.length := by rw [len_byte, x.toNat_length]
        rw [encodeAll_cons, length_append, length_encode] at length
        apply no_elems els (by omega)
        rw [elen_eq, Nat.add_assoc, Nat.add_comm 2]
        exact later
    · -- the element that was just read, as an element of the grammar
      let x : Elem := ⟨id, window buf (pos + 2) elen.toNat, elen_bound⟩
      have body_length : x.body.length = elen.toNat := length_window _ _ _
      have len_byte : UInt8.ofNat x.body.length = elen := by rw [body_length, UInt8.ofNat_toNat]
      have here : Holds buf pos x.encode :=
        holds_encode.mpr ⟨rfl, len_byte.symm, holds_window _ rfl⟩
      refine .inr ⟨passes, x :: els, ?_, ?_, fun f => ?_⟩
      · rw [encodeAll_cons, length_append, length_encode, body_length]
        omega
      · rw [holds_encodeAll_cons, body_length, Nat.add_comm elen.toNat, ← Nat.add_assoc]
        exact ⟨here, holds⟩
      · have field_iff := @parseElem_iff cfg buf pos f x here
        rw [len_byte, parsed] at field_iff
        apply lastTaken_cons field_iff
        rw [len_byte, body_length]
        exact last f
  | case3 left pos e unknown few some_left =>
    refine .inl ⟨rfl, fun els length holds => ?_⟩
    cases els with
    | nil => exact some_left length.symm
    | cons x els =>
      rw [encodeAll_cons, length_append, length_encode] at length
      omega
  | case4 left pos e unknown few none_left odd =>
    refine .inr ⟨nofun, [], ?_, trivial, fun f => .inl ⟨nofun, rfl⟩⟩
    exact (not_not.mp none_left).symm
  | case5 left pos e unknown few none_left known =>
    refine .inr ⟨nofun, [], ?_, trivial, fun f => .inl ⟨nofun, rfl⟩⟩
    exact (not_not.mp none_left).symm

end Loop

/-- The parser fails exactly if the buffer is not a concatenation of elements; otherwise each field
is NULL and no element is for it, or it is the last element for it, which lies in the buffer. -/
theorem parse_elems_last (cfg : ElemsConfig) (buf : ℕ → Byte) (len : ℕ) :
    ((rtwIeee80211ParseElems cfg buf len).1 = .failed ∧
      ¬ ∃ els, window buf 0 len = encodeAll els) ∨
    ((rtwIeee80211ParseElems cfg buf len).1 ≠ .failed ∧
      ∃ els, window buf 0 len = encodeAll els ∧ ∀ f,
        ((rtwIeee80211ParseElems cfg buf len).2 f = none ∧ ∀ x ∈ els, ¬ Takes cfg f x) ∨
        ∃ front x back, els = front ++ x :: back ∧ Takes cfg f x ∧ (∀ y ∈ back, ¬ Takes cfg f y) ∧
          (rtwIeee80211ParseElems cfg buf len).2 f =
            some ((encodeAll front).length + 2, UInt8.ofNat x.body.length) ∧
          (encodeAll front).length + 2 + x.body.length ≤ len) := by
  rcases @parseElemsLoop_spec cfg buf len 0 (fun _ => none) 0 with ⟨fails, no_elems⟩ |
    ⟨passes, els, length, holds, last⟩
  · refine .inl ⟨fails, ?_⟩
    rintro ⟨els, text⟩
    have length := congrArg List.length text
    rw [length_window] at length
    apply no_elems els length.symm
    rw [← text]
    exact holds_window _ rfl
  · refine .inr ⟨passes, els, holds.window_eq length.symm, fun f => ?_⟩
    rcases last f with ⟨none_takes, kept⟩ | ⟨front, x, back, rfl, takes, later, held⟩
    · exact .inl ⟨kept, none_takes⟩
    · refine .inr ⟨front, x, back, rfl, takes, later, ?_, ?_⟩
      · rw [Nat.zero_add] at held
        exact held
      · simp only [encodeAll_append, encodeAll_cons, length_append, length_encode] at length
        omega

example :
    (rtwIeee80211ParseElems ⟨false, false⟩
      (image 0 [0, 1, 0x61, 0, 1, 0x62, 221, 4, 0x00, 0x50, 0xf2, 2]) 12).2 .ssid =
        some (5, 1) := by
  decide +kernel

end Rtl88x2bu.Ie
