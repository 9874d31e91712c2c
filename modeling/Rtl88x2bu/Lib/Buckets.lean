import Mathlib

/-!
# Entries on hash chains

A table of chains of entries, each on the chain that the hash of its key selects, seen as a map from
keys to entries.
-/

namespace Buckets

open List Function

variable {Entry Key Index : Type} [DecidableEq Key] [DecidableEq Index] {hash : Key → Index}
  {key : Entry → Key} {t : Index → List Entry} {f : Entry → Entry}

section

variable (hash key t)

/-- The first entry with the key on its chain. -/
def find (k : Key) : Option Entry :=
  (t (hash k)).find? fun e => decide (key e = k)

/-- The first entry with the key is changed. -/
def modifyFirst (key : Entry → Key) (k : Key) (f : Entry → Entry) : List Entry → List Entry
  | [] => []
  | e :: es => if key e = k then f e :: es else e :: modifyFirst key k f es

def modify (hash : Key → Index) (key : Entry → Key) (t : Index → List Entry) (k : Key)
    (f : Entry → Entry) : Index → List Entry :=
  Function.update t (hash k) (modifyFirst key k f (t (hash k)))

/-- An entry goes to the front of its chain. -/
def push (e : Entry) : Index → List Entry :=
  Function.update t (hash (key e)) (e :: t (hash (key e)))

/-- Every entry is changed or taken off its chain. -/
def sieve (g : Entry → Option Entry) : Index → List Entry :=
  fun i => (t i).filterMap g

/-- No chain has a key twice. -/
def Distinct : Prop :=
  ∀ i, ((t i).map key).Nodup

end

omit [DecidableEq Index] in
theorem find_key {k : Key} {e : Entry} (found : find hash key t k = some e) : key e = k := by
  have same := List.find?_some found
  simpa using same

omit [DecidableEq Index] in
/-- An entry of the right chain is found. -/
theorem find_of_mem (distinct : Distinct key t) {e : Entry} (member : e ∈ t (hash (key e))) :
    find hash key t (key e) = some e := by
  have any : (find hash key t (key e)).isSome :=
    List.find?_isSome.mpr ⟨e, member, decide_eq_true rfl⟩
  obtain ⟨e', found⟩ := Option.isSome_iff_exists.mp any
  have same := List.inj_on_of_nodup_map (distinct _) (List.mem_of_find?_eq_some found) member
    (find_key found)
  rwa [same] at found

/-! ## Changing an entry -/

section

variable (same : ∀ e, key (f e) = key e)
include same

theorem modifyFirst_map_key (k : Key) (es : List Entry) :
    (modifyFirst key k f es).map key = es.map key := by
  induction es with
  | nil => rfl
  | cons e es ih =>
    rw [modifyFirst]
    split
    · rw [map_cons, map_cons, same]
    · rw [map_cons, map_cons, ih]

theorem find_modifyFirst_self (k : Key) (es : List Entry) :
    ((modifyFirst key k f es).find? fun e => decide (key e = k)) =
      (es.find? fun e => decide (key e = k)).map f := by
  induction es with
  | nil => rfl
  | cons e es ih =>
    rw [modifyFirst]
    by_cases here : key e = k
    · rw [if_pos here, List.find?_cons_of_pos (by simp [same, here]),
        List.find?_cons_of_pos (by simp [here]), Option.map_some]
    · rw [if_neg here, List.find?_cons_of_neg (by simp [here]),
        List.find?_cons_of_neg (by simp [here]), ih]

theorem find_modifyFirst_of_ne {k k' : Key} (other : k' ≠ k) (es : List Entry) :
    ((modifyFirst key k f es).find? fun e => decide (key e = k')) =
      es.find? fun e => decide (key e = k') := by
  induction es with
  | nil => rfl
  | cons e es ih =>
    rw [modifyFirst]
    by_cases here : key e = k
    · have apart : key e ≠ k' := fun same' => other (same'.symm.trans here)
      rw [if_pos here, List.find?_cons_of_neg (by simp [same, apart]),
        List.find?_cons_of_neg (by simp [apart])]
    · rw [if_neg here]
      by_cases there : key e = k'
      · rw [List.find?_cons_of_pos (by simp [there]), List.find?_cons_of_pos (by simp [there])]
      · rw [List.find?_cons_of_neg (by simp [there]), List.find?_cons_of_neg (by simp [there]), ih]

theorem find_modify_self (k : Key) :
    find hash key (modify hash key t k f) k = (find hash key t k).map f := by
  rw [find, modify, update_self, find_modifyFirst_self same]
  rfl

theorem find_modify_of_ne {k k' : Key} (other : k' ≠ k) :
    find hash key (modify hash key t k f) k' = find hash key t k' := by
  rw [find, modify]
  by_cases chain : hash k' = hash k
  · rw [chain, update_self, find_modifyFirst_of_ne same other, find, chain]
  · rw [update_of_ne chain, find]

end

theorem Distinct.modify (distinct : Distinct key t) (same : ∀ e, key (f e) = key e) (k : Key) :
    Distinct key (modify hash key t k f) := by
  intro i
  by_cases chain : i = hash k
  · subst chain
    rw [Buckets.modify, update_self, modifyFirst_map_key same]
    exact distinct _
  · rw [Buckets.modify, update_of_ne chain]
    exact distinct i

/-! ## Adding an entry -/

theorem find_push_self (e : Entry) : find hash key (push hash key t e) (key e) = some e := by
  rw [find, push, update_self, List.find?_cons_of_pos (by simp)]

theorem find_push_of_ne {e : Entry} {k : Key} (other : k ≠ key e) :
    find hash key (push hash key t e) k = find hash key t k := by
  rw [find, push]
  by_cases chain : hash k = hash (key e)
  · rw [chain, update_self, List.find?_cons_of_neg (by simpa using other.symm), find, chain]
  · rw [update_of_ne chain, find]

theorem Distinct.push (distinct : Distinct key t) {e : Entry}
    (absent : find hash key t (key e) = none) : Distinct key (push hash key t e) := by
  intro i
  by_cases chain : i = hash (key e)
  · subst chain
    rw [Buckets.push, update_self, map_cons, nodup_cons]
    refine ⟨?_, distinct _⟩
    intro listed
    obtain ⟨e', member, same⟩ := mem_map.mp listed
    have missed := List.find?_eq_none.mp absent e' member
    simp [same] at missed
  · rw [Buckets.push, update_of_ne chain]
    exact distinct i

/-! ## Sieving -/

section Sieve

variable {g : Entry → Option Entry}

omit [DecidableEq Key] [DecidableEq Index] in
theorem filterMap_map_key_sublist (same : ∀ e e', g e = some e' → key e' = key e)
    (es : List Entry) : ((es.filterMap g).map key).Sublist (es.map key) := by
  induction es with
  | nil => exact List.Sublist.refl _
  | cons e es ih =>
    cases kept : g e with
    | none =>
      rw [filterMap_cons_none kept, map_cons]
      exact ih.cons _
    | some e' =>
      rw [filterMap_cons_some kept, map_cons, map_cons, same e e' kept]
      exact ih.cons_cons _

omit [DecidableEq Key] [DecidableEq Index] in
theorem Distinct.sieve (distinct : Distinct key t) (same : ∀ e e', g e = some e' → key e' = key e) :
    Distinct key (sieve t g) := fun i =>
  (distinct i).sublist (filterMap_map_key_sublist same (t i))

theorem find_filterMap (same : ∀ e e', g e = some e' → key e' = key e) (k : Key) {es : List Entry}
    (distinct : (es.map key).Nodup) :
    ((es.filterMap g).find? fun e => decide (key e = k)) =
      (es.find? fun e => decide (key e = k)).bind g := by
  induction es with
  | nil => rfl
  | cons e es ih =>
    obtain ⟨alone, later⟩ := nodup_cons.mp distinct
    by_cases here : key e = k
    · rw [List.find?_cons_of_pos (by simp [here]), Option.bind_some]
      cases kept : g e with
      | none =>
        -- no later entry has the key
        rw [filterMap_cons_none kept, List.find?_eq_none]
        intro e' member
        obtain ⟨e₀, member₀, sieved⟩ := mem_filterMap.mp member
        have other : key e' ≠ k := by
          rw [same e₀ e' sieved]
          intro same'
          exact alone (mem_map.mpr ⟨e₀, member₀, same'.trans here.symm⟩)
        simp [other]
      | some e' =>
        rw [filterMap_cons_some kept,
          List.find?_cons_of_pos (by simp [same e e' kept, here])]
    · rw [List.find?_cons_of_neg (by simp [here])]
      cases kept : g e with
      | none => rw [filterMap_cons_none kept, ih later]
      | some e' =>
        rw [filterMap_cons_some kept,
          List.find?_cons_of_neg (by simp [same e e' kept, here]), ih later]

omit [DecidableEq Index] in
theorem find_sieve (distinct : Distinct key t) (same : ∀ e e', g e = some e' → key e' = key e)
    (k : Key) : find hash key (sieve t g) k = (find hash key t k).bind g :=
  find_filterMap same k (distinct (hash k))

end Sieve

end Buckets
