import Rtl88x2bu.Lib.Tape
import Rtl88x2bu.Lib.Walk

/-!
# Elements with an id, a length and a body

A search is known by its first hit: the elements before it, the element and the rest.
-/

namespace Tlv

open List
open Tape Walk

/-- An element whose length fits its length byte. -/
structure Elem where
  id : UInt8
  body : List UInt8
  short : body.length < 256
  deriving DecidableEq

/-- Id, length and body. -/
def Elem.encode (e : Elem) : List UInt8 :=
  e.id :: UInt8.ofNat e.body.length :: e.body

def encodeAll (es : List Elem) : List UInt8 :=
  es.flatMap Elem.encode

@[simp]
theorem length_encode (e : Elem) : e.encode.length = e.body.length + 2 := rfl

@[simp]
theorem encodeAll_nil : encodeAll [] = [] := rfl

@[simp]
theorem encodeAll_cons (e : Elem) (es : List Elem) :
    encodeAll (e :: es) = e.encode ++ encodeAll es :=
  flatMap_cons

@[simp]
theorem encodeAll_append (es es' : List Elem) :
    encodeAll (es ++ es') = encodeAll es ++ encodeAll es' :=
  flatMap_append

theorem Elem.toNat_length (e : Elem) : (UInt8.ofNat e.body.length).toNat = e.body.length := by
  rw [UInt8.toNat_ofNat', Nat.mod_eq_of_lt e.short]

theorem length_le_encodeAll (es : List Elem) : es.length ≤ (encodeAll es).length := by
  induction es with
  | nil => exact Nat.le_refl _
  | cons e es ih =>
    rw [encodeAll_cons, length_append, length_cons, length_encode]
    omega

theorem encodeAll_eq_nil_iff {es : List Elem} : encodeAll es = [] ↔ es = [] := by
  cases es with
  | nil => simp
  | cons e es => simp [Elem.encode]

/-- Elements can be told apart. -/
theorem prefix_of_encodeAll_prefix {es es' : List Elem} (cut : encodeAll es' <+: encodeAll es) :
    es' <+: es := by
  induction es' generalizing es with
  | nil => exact nil_prefix
  | cons e' es' ih =>
    cases es with
    | nil =>
      have empty := encodeAll_eq_nil_iff.mp (prefix_nil.mp cut)
      exact absurd empty (cons_ne_nil e' es')
    | cons e es =>
      obtain ⟨rest, text⟩ := cut
      rw [encodeAll_cons, encodeAll_cons, append_assoc] at text
      obtain ⟨id, tail⟩ := cons.inj text
      obtain ⟨length, bodies⟩ := cons.inj tail
      have length' : e'.body.length = e.body.length := by
        rw [← e'.toNat_length, ← e.toNat_length, length]
      obtain ⟨body, later⟩ := append_inj bodies length'
      obtain ⟨eid, ebody, eshort⟩ := e
      obtain ⟨eid', ebody', eshort'⟩ := e'
      simp only at id body
      subst id body
      exact cons_prefix_cons.mpr ⟨rfl, ih ⟨rest, later⟩⟩

theorem encodeAll_injective {es es' : List Elem} (same : encodeAll es = encodeAll es') :
    es = es' := by
  have front := prefix_of_encodeAll_prefix (same ▸ prefix_rfl : encodeAll es <+: encodeAll es')
  have back := prefix_of_encodeAll_prefix (same ▸ prefix_rfl : encodeAll es' <+: encodeAll es)
  exact front.eq_of_length_le back.length_le

theorem length_le_of_mem {e : Elem} {es : List Elem} (member : e ∈ es) :
    e.body.length + 2 ≤ (encodeAll es).length := by
  obtain ⟨front, back, rfl⟩ := append_of_mem member
  simp only [encodeAll_append, encodeAll_cons, length_append, length_encode]
  omega

theorem length_encodeAll_filter (m : Elem → Bool) (es : List Elem) :
    (encodeAll (es.filter m)).length ≤ (encodeAll es).length ∧
      ((encodeAll (es.filter m)).length = (encodeAll es).length → ∀ e ∈ es, m e = true) := by
  induction es with
  | nil => exact ⟨Nat.le_refl _, fun _ _ member => nomatch member⟩
  | cons e es ih =>
    cases taken : m e with
    | true =>
      rw [filter_cons_of_pos taken, encodeAll_cons, encodeAll_cons, length_append,
        length_append, forall_mem_cons]
      exact ⟨by omega, fun same => ⟨taken, ih.2 (by omega)⟩⟩
    | false =>
      rw [filter_cons_of_neg (by rw [taken]; exact Bool.false_ne_true), encodeAll_cons,
        length_append, length_encode]
      exact ⟨by omega, fun same => by omega⟩

section Memory

variable {mem : ℕ → UInt8} {base : ℕ} {e : Elem} {es : List Elem}

theorem holds_encode :
    Holds mem base e.encode ↔ mem base = e.id ∧ mem (base + 1) = UInt8.ofNat e.body.length ∧
      Holds mem (base + 2) e.body :=
  Iff.rfl

theorem holds_encodeAll_cons :
    Holds mem base (encodeAll (e :: es)) ↔
      Holds mem base e.encode ∧ Holds mem (base + (e.body.length + 2)) (encodeAll es) := by
  rw [encodeAll_cons, holds_append, length_encode]

end Memory

/-- A search sees the elements from `p` on, hits one if `m` says so of it and those behind it, and
stops behind the last. -/
def Paved (more hit : ℕ → Bool) (next : ℕ → ℕ) (m : Elem → List Elem → Bool) : ℕ → List Elem → Prop
  | p, [] => more p = false
  | p, e :: es => more p = true ∧ hit p = m e es ∧ next p = p + (e.body.length + 2) ∧
      Paved more hit next m (p + (e.body.length + 2)) es

/-- Where the first hit starts. -/
def hitOffset (m : Elem → List Elem → Bool) : List Elem → Option ℕ
  | [] => none
  | e :: es => if m e es then some 0 else (hitOffset m es).map (e.body.length + 2 + ·)

theorem hitOffset_append {m : Elem → Bool} {front back : List Elem} {e : Elem}
    (misses : ∀ x ∈ front, m x = false) (hits : m e = true) :
    hitOffset (fun e _ => m e) (front ++ e :: back) = some (encodeAll front).length := by
  induction front with
  | nil => rw [nil_append, hitOffset, if_pos hits, encodeAll_nil, length_nil]
  | cons x front ih =>
    obtain ⟨miss, misses⟩ := forall_mem_cons.mp misses
    rw [cons_append, hitOffset, if_neg (by rw [miss]; exact Bool.false_ne_true), ih misses,
      Option.map_some, encodeAll_cons, length_append, length_encode]

/-- A search finds the first hit, given more rounds than there are elements. -/
theorem search_eq {more hit : ℕ → Bool} {next : ℕ → ℕ} {m : Elem → List Elem → Bool}
    {p fuel : ℕ} {es : List Elem} (paved : Paved more hit next m p es) (enough : es.length < fuel) :
    search more hit next fuel p = (hitOffset m es).elim .missing (.found <| p + ·) := by
  induction es generalizing p fuel with
  | nil =>
    obtain ⟨fuel, rfl⟩ := Nat.exists_eq_add_one.mpr enough
    have stops : more p = false := paved
    rw [search, stops]
    rfl
  | cons e es ih =>
    obtain ⟨fuel, rfl⟩ := Nat.exists_eq_add_one.mpr (Nat.zero_lt_of_lt enough)
    obtain ⟨goes_on, hit_eq, next_eq, later⟩ := paved
    rw [search, goes_on, hit_eq, hitOffset]
    cases m e es with
    | true => rfl
    | false =>
      rw [next_eq]
      refine (ih later (Nat.lt_of_succ_lt_succ enough)).trans ?_
      cases hitOffset m es with
      | none => rfl
      | some n => exact congrArg _ (Nat.add_assoc p _ n)

theorem first_hit {α : Type*} (m : α → Bool) (es : List α) :
    (∀ e ∈ es, m e = false) ∨
      ∃ front e back, es = front ++ e :: back ∧ (∀ x ∈ front, m x = false) ∧ m e = true := by
  cases found : es.find? m with
  | none => exact .inl fun e member => Bool.eq_false_iff.mpr (List.find?_eq_none.mp found e member)
  | some e =>
    obtain ⟨here, front, back, rfl, misses⟩ := List.find?_eq_some_iff_append.mp found
    exact .inr ⟨front, e, back, rfl, fun x member => Bool.not_eq_true' _ ▸ misses x member, here⟩

end Tlv
