import Rtl88x2bu.Lib.Tlv
import Rtl88x2bu.Ie.Rsne

/-!
# Merging the P2P elements of a frame

`rtw_get_p2p_merged_ies_len` and `rtw_p2p_merge_ies` (`rust/rtw_ieee80211_rest.rs`). The first
subtracts the four bytes of the OUI with `saturating_sub`, the second with `-`; neither looks at the
length before it compares the OUI.
-/

namespace Rtl88x2bu.P2p

open List Option
open Tape Tlv
open Ie (wlanEidVendorSpecific)

variable (checks : Bool) (inIe : ℕ → Byte)

def p2pOui : List Byte := [0x50, 0x6F, 0x9A, 0x09]

/-- `eid == WLAN_EID_VENDOR_SPECIFIC && mem_eq(p_ie.add(2), P2P_OUI.as_ptr(), 4)` -/
def p2pIeAt (buf : ℕ → Byte) (p : ℕ) : Bool :=
  buf p == wlanEidVendorSpecific && window buf (p + 2) 4 == p2pOui

/-- `a + b` on `u32`. With overflow checks (a kernel option) an overflow is a panic: `none`. -/
def addU32 (a b : ℕ) : Option ℕ :=
  if a + b < 2 ^ 32 then some (a + b) else if checks then none else some ((a + b) % 2 ^ 32)

def subU32 (a b : ℕ) : Option ℕ :=
  if b ≤ a then some (a - b) else if checks then none else some (a + 2 ^ 32 - b)

/-- The loop of `rtw_get_p2p_merged_ies_len`; `none` also if it does not end in `fuel` rounds. -/
def mergedLenLoop (checks : Bool) (inIe : ℕ → Byte) (inLen : ℕ) : ℕ → ℕ → ℕ → Option ℕ
  | 0, _, _ => none
  | fuel + 1, i, len =>
    if i < inLen then do
      let ieLen := (inIe (i + 1)).toNat
      let len ← if p2pIeAt inIe i then addU32 checks len (ieLen - 4) else some len
      let i ← addU32 checks i (ieLen + 2)
      mergedLenLoop checks inIe inLen fuel i len
    else some len

def rtwGetP2pMergedIesLen (inLen fuel : ℕ) : Option ℕ :=
  if inLen = 0 then some 4 else do
    let len ← mergedLenLoop checks inIe inLen fuel 0 0
    addU32 checks len 4

/-- What `rtw_p2p_merge_ies` has written to `merge_ie` from its first byte on, and a length. -/
structure Merged where
  out : List Byte
  len : ℕ

def mergeLoop (checks : Bool) (inIe : ℕ → Byte) (inLen : ℕ) : ℕ → ℕ → Merged → Option Merged
  | 0, _, _ => none
  | fuel + 1, i, m =>
    if i < inLen then do
      let ieLen := (inIe (i + 1)).toNat
      let m ← if p2pIeAt inIe i then do
          let copyLen ← subU32 checks ieLen 4
          let payloadLen ← addU32 checks m.len copyLen
          some { out := m.out ++ window inIe (i + 6) copyLen, len := payloadLen }
        else some m
      let i ← addU32 checks i (ieLen + 2)
      mergeLoop checks inIe inLen fuel i m
    else some m

def rtwP2pMergeIes (inLen fuel : ℕ) : Option Merged := do
  let m ← mergeLoop checks inIe inLen fuel 0
    { out := [wlanEidVendorSpecific, 0] ++ p2pOui, len := 0 }
  let len ← addU32 checks m.len 4
  some { m with len := len }

/-- What the P2P elements from `p` on have behind the OUI, nothing for those that are too short. -/
def payload (buf : ℕ → Byte) : ℕ → List Elem → ℕ
  | _, [] => 0
  | p, e :: es =>
    (if p2pIeAt buf p then e.body.length - 4 else 0) + payload buf (p + (e.body.length + 2)) es

/-- No element from `p` on that is taken for a P2P element is too short for the OUI. -/
def NoShortIe (buf : ℕ → Byte) (p : ℕ) (es : List Elem) : Prop :=
  ∀ front e back, es = front ++ e :: back → p2pIeAt buf (p + (encodeAll front).length) = true →
    4 ≤ e.body.length

section Walks

variable {checks : Bool} {buf : ℕ → Byte} {p inLen fuel : ℕ} {e : Elem} {es : List Elem}

theorem noShortIe_nil : NoShortIe buf p [] := by
  intro front e back same
  simp at same

theorem noShortIe_cons :
    NoShortIe buf p (e :: es) ↔
      (p2pIeAt buf p = true → 4 ≤ e.body.length) ∧ NoShortIe buf (p + (e.body.length + 2)) es := by
  constructor
  · intro all
    refine ⟨fun here => all [] e es rfl here, fun front x back same hit => ?_⟩
    apply all (e :: front) x back (by rw [same]; rfl)
    rw [encodeAll_cons, length_append, length_encode, ← Nat.add_assoc]
    exact hit
  · rintro ⟨own, later⟩ front x back same hit
    cases front with
    | nil =>
      obtain ⟨rfl, -⟩ := cons.inj same
      exact own hit
    | cons y front =>
      obtain ⟨rfl, rest⟩ := cons.inj same
      apply later front x back rest
      rw [encodeAll_cons, length_append, length_encode, ← Nat.add_assoc] at hit
      exact hit

theorem payload_le (buf : ℕ → Byte) (p : ℕ) (es : List Elem) :
    payload buf p es = 0 ∨ payload buf p es + 6 ≤ (encodeAll es).length := by
  induction es generalizing p with
  | nil => exact .inl rfl
  | cons e es ih =>
    have later := ih (p + (e.body.length + 2))
    rw [payload, encodeAll_cons, length_append, length_encode]
    split <;> omega

theorem addU32_of_lt {a b : ℕ} (small : a + b < 2 ^ 32) : addU32 checks a b = some (a + b) :=
  if_pos small

theorem subU32_of_le {a b : ℕ} (le : b ≤ a) : subU32 checks a b = some (a - b) :=
  if_pos le

theorem subU32_of_lt {a b r : ℕ} (less : a < b) (small : b ≤ 2 ^ 31)
    (result : subU32 checks a b = some r) : 2 ^ 31 ≤ r := by
  rw [subU32, if_neg (not_le.mpr less)] at result
  split at result
  · simp at result
  · have value := some.inj result
    omega

structure Remaining (buf : ℕ → Byte) (inLen p : ℕ) (es : List Elem) : Prop where
  text : Holds buf p (encodeAll es)
  end_ : p + (encodeAll es).length = inLen
  small : inLen < 2 ^ 32

theorem Remaining.cons (checks : Bool) (rem : Remaining buf inLen p (e :: es)) :
    p < inLen ∧ (buf (p + 1)).toNat = e.body.length ∧
      addU32 checks p (e.body.length + 2) = some (p + (e.body.length + 2)) ∧
      Remaining buf inLen (p + (e.body.length + 2)) es := by
  obtain ⟨own, later⟩ := holds_encodeAll_cons.mp rem.text
  have end_ := rem.end_
  have small := rem.small
  rw [encodeAll_cons, length_append, length_encode] at end_
  refine ⟨by omega, ?_, addU32_of_lt (by omega), later, by omega, small⟩
  rw [(holds_encode.mp own).2.1, e.toNat_length]

theorem mergedLenLoop_eq (rem : Remaining buf inLen p es) (enough : es.length < fuel) (len : ℕ)
    (room : len + (encodeAll es).length < 2 ^ 32) :
    mergedLenLoop checks buf inLen fuel p len = some (len + payload buf p es) := by
  induction es generalizing p fuel len with
  | nil =>
    obtain ⟨fuel, rfl⟩ := Nat.exists_eq_add_one.mpr enough
    have end_ : p = inLen := rem.end_
    rw [mergedLenLoop, if_neg (by omega)]
    rfl
  | cons e es ih =>
    obtain ⟨fuel, rfl⟩ := Nat.exists_eq_add_one.mpr (Nat.zero_lt_of_lt enough)
    obtain ⟨inside, length, next, later⟩ := rem.cons checks
    rw [encodeAll_cons, length_append, length_encode] at room
    have rest := fun len room => ih later (Nat.lt_of_succ_lt_succ enough) len room
    rw [mergedLenLoop, if_pos inside, payload]
    simp only [length, next]
    split
    · rw [addU32_of_lt (by omega)]
      simp only [bind_eq_bind, bind_some]
      rw [rest _ (by omega), Nat.add_assoc]
    · simp only [bind_eq_bind, bind_some]
      rw [rest _ (by omega), Nat.zero_add]

theorem mergeLoop_eq (checks : Bool) (rem : Remaining buf inLen p es)
    (enough : es.length < fuel) (m : Merged)
    (room : m.len + (encodeAll es).length < 2 ^ 32) (long : NoShortIe buf p es) :
    ∃ m', mergeLoop checks buf inLen fuel p m = some m' ∧ m'.len = m.len + payload buf p es ∧
      m'.out.length = m.out.length + payload buf p es := by
  induction es generalizing p fuel m with
  | nil =>
    obtain ⟨fuel, rfl⟩ := Nat.exists_eq_add_one.mpr enough
    have end_ : p = inLen := rem.end_
    refine ⟨m, ?_, rfl, rfl⟩
    rw [mergeLoop, if_neg (by omega)]
  | cons e es ih =>
    obtain ⟨fuel, rfl⟩ := Nat.exists_eq_add_one.mpr (Nat.zero_lt_of_lt enough)
    obtain ⟨inside, length, next, later⟩ := rem.cons checks
    obtain ⟨own, long⟩ := noShortIe_cons.mp long
    rw [encodeAll_cons, length_append, length_encode] at room
    have rest := fun m room => ih later (Nat.lt_of_succ_lt_succ enough) m room long
    rw [mergeLoop, if_pos inside, payload]
    simp only [length, next]
    split
    next hit =>
      rw [subU32_of_le (own hit)]
      simp only [bind_eq_bind, bind_some]
      rw [addU32_of_lt (by omega)]
      simp only [bind_some]
      obtain ⟨m', run, sum, bytes⟩ := rest
        { out := m.out ++ window buf (p + 6) (e.body.length - 4)
          len := m.len + (e.body.length - 4) } (by simp only; omega)
      refine ⟨m', run, by rw [sum]; simp only; omega, ?_⟩
      rw [bytes, length_append, length_window, Nat.add_assoc]
    · simp only [bind_eq_bind, bind_some, Nat.zero_add]
      exact rest m (by omega)

theorem mergeLoop_out (rem : Remaining buf inLen p es) (m m' : Merged)
    (run : mergeLoop checks buf inLen fuel p m = some m') :
    m.out.length + payload buf p es ≤ m'.out.length ∧
      (m'.out.length = m.out.length + payload buf p es → NoShortIe buf p es) := by
  induction es generalizing p fuel m with
  | nil =>
    obtain - | fuel := fuel
    · simp [mergeLoop] at run
    have end_ : p = inLen := rem.end_
    rw [mergeLoop, if_neg (by omega)] at run
    rw [some.inj run]
    exact ⟨le_rfl, fun _ => noShortIe_nil⟩
  | cons e es ih =>
    obtain - | fuel := fuel
    · simp [mergeLoop] at run
    obtain ⟨inside, length, next, later⟩ := rem.cons checks
    rw [mergeLoop, if_pos inside] at run
    simp only [length, next] at run
    rw [payload, noShortIe_cons]
    by_cases hit : p2pIeAt buf p = true
    · rw [if_pos hit] at run ⊢
      simp only [bind_eq_bind, bind_some, bind_eq_some_iff] at run
      obtain ⟨copyLen, sub, sum, -, run⟩ := run
      obtain ⟨more, exact_⟩ := ih later _ run
      rw [length_append, length_window] at more exact_
      by_cases long : 4 ≤ e.body.length
      · rw [subU32_of_le long] at sub
        have copied := some.inj sub
        exact ⟨by omega, fun same => ⟨fun _ => long, exact_ (by omega)⟩⟩
      · have large := subU32_of_lt (by omega) (by norm_num) sub
        exact ⟨by omega, fun same => by omega⟩
    · rw [if_neg hit] at run ⊢
      simp only [bind_eq_bind, bind_some] at run
      obtain ⟨more, exact_⟩ := ih later m run
      exact ⟨by omega, fun same => ⟨fun here => absurd here hit, exact_ (by omega)⟩⟩

end Walks

/-- The return values agree and, with the header, are what is written. -/
def MergeFits (inLen : ℕ) : Prop :=
  ∃ len m, rtwGetP2pMergedIesLen checks inIe inLen (inLen + 1) = some len ∧
    rtwP2pMergeIes checks inIe inLen (inLen + 1) = some m ∧ m.len = len ∧ m.out.length = len + 2

section

variable {inIe : ℕ → Byte} {inLen : ℕ} {es : List Elem} (rem : Remaining inIe inLen 0 es)
include rem

theorem mergedIesLen_eq {checks : Bool} :
    rtwGetP2pMergedIesLen checks inIe inLen (inLen + 1) = some (payload inIe 0 es + 4) := by
  have small := rem.small
  have end_ := rem.end_
  have rounds := length_le_encodeAll es
  have bound := payload_le inIe 0 es
  rw [rtwGetP2pMergedIesLen]
  split
  next empty =>
    have none : es = [] := encodeAll_eq_nil_iff.mp (length_eq_zero_iff.mp (by omega))
    rw [none]
    rfl
  · rw [mergedLenLoop_eq rem (by omega) 0 (by omega), Nat.zero_add]
    exact addU32_of_lt (by omega)

theorem MergeFits.noShortIe {checks : Bool} (fits : MergeFits checks inIe inLen) :
    NoShortIe inIe 0 es := by
  obtain ⟨len, m, lengths, run, same, written⟩ := fits
  rw [mergedIesLen_eq rem] at lengths
  simp only [rtwP2pMergeIes, bind_eq_bind, bind_eq_some_iff] at run
  obtain ⟨m', loop, total, sum, made⟩ := run
  obtain rfl := some.inj made
  obtain rfl := some.inj lengths
  apply (mergeLoop_out rem _ m' loop).2
  rw [written]
  simp only [p2pOui, length_append, length_cons, length_nil]
  omega

end

/-- For every buffer of elements, with whatever follows it in memory: the lengths agree exactly if
no element that is taken for a P2P element is shorter than the OUI. -/
theorem merge_fits_iff (checks : Bool) (inIe : ℕ → Byte) (es : List Elem)
    (buffer : Holds inIe 0 (encodeAll es)) (small : (encodeAll es).length < 2 ^ 32) :
    MergeFits checks inIe (encodeAll es).length ↔
      ∀ front e back, es = front ++ e :: back → p2pIeAt inIe (encodeAll front).length = true →
        4 ≤ e.body.length := by
  have rem : Remaining inIe (encodeAll es).length 0 es := ⟨buffer, Nat.zero_add _, small⟩
  have condition : (∀ front e back, es = front ++ e :: back →
      p2pIeAt inIe (encodeAll front).length = true → 4 ≤ e.body.length) ↔ NoShortIe inIe 0 es := by
    simp only [NoShortIe, Nat.zero_add]
  have bound := payload_le inIe 0 es
  have rounds := length_le_encodeAll es
  rw [condition]
  constructor
  · exact MergeFits.noShortIe rem
  · intro long
    obtain ⟨m, loop, sum, bytes⟩ := mergeLoop_eq checks rem (Nat.lt_succ_of_le rounds)
      { out := [wlanEidVendorSpecific, 0] ++ p2pOui, len := 0 } (by simp only; omega) long
    simp only [Nat.zero_add] at sum
    refine ⟨_, { m with len := payload inIe 0 es + 4 }, mergedIesLen_eq rem, ?_, rfl, ?_⟩
    · rw [rtwP2pMergeIes, loop]
      simp only [bind_eq_bind, bind_some, sum]
      rw [addU32_of_lt (by omega)]
      rfl
    · simp only [bytes, p2pOui, length_append, length_cons, length_nil]
      omega

theorem merge_fits_p2p_and_ssid :
    MergeFits true (image 0 [221, 6, 0x50, 0x6F, 0x9A, 0x09, 1, 2, 0, 1, 65]) 11 :=
  (merge_fits_iff true _
    [⟨221, [0x50, 0x6F, 0x9A, 0x09, 1, 2], by decide⟩, ⟨0, [65], by decide⟩]
    (holds_image _) (by decide)).mpr <| by
    rintro (_ | ⟨first, _ | ⟨second, front⟩⟩) e back same hit
    · obtain ⟨rfl, -⟩ := cons.inj same
      decide
    · obtain ⟨rfl, -⟩ := cons.inj same
      exact absurd hit (by decide)
    · simp at same

theorem short_vendor_ie_merged :
    let buffer := [221, 2, 0x50, 0x6F, 0x9A, 0x09, 0, 0, 0, 0, 0, 0, 0, 0, 0]
    ¬ MergeFits true (image 0 buffer) 15 ∧ ¬ MergeFits false (image 0 buffer) 15 := by
  intro buffer
  let es : List Elem := [⟨221, [0x50, 0x6F], by decide⟩, ⟨0x9A, List.replicate 9 0, by decide⟩]
  have rem : Remaining (image 0 (encodeAll es)) 15 0 es := ⟨holds_image _, by decide, by decide⟩
  have short : ¬ NoShortIe (image 0 (encodeAll es)) 0 es := fun all =>
    absurd (all [] _ _ rfl (by decide)) (by decide)
  exact ⟨fun fits => short (MergeFits.noShortIe rem fits),
    fun fits => short (MergeFits.noShortIe rem fits)⟩

end Rtl88x2bu.P2p
