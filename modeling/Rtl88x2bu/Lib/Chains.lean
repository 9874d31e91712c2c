import Mathlib

/-!
# A pool of slots on hash chains

A fixed set of slots, each on a free list or on the chain that the hash of its key selects, seen as
a map from keys to slots.
-/

namespace Chains

open List Function

/-- The free list, the chains, and the keys of the slots. -/
structure Table (Slot Key Index : Type) where
  free : List Slot
  chain : Index → List Slot
  key : Slot → Key

variable {Slot Key Index : Type} {hash : Key → Index} {t : Table Slot Key Index} {s : Slot}
  {k : Key}

/-- Every slot is in one place, and no two slots in use have the same key. -/
structure Table.Sound (hash : Key → Index) (t : Table Slot Key Index) : Prop where
  placed : ∀ s i, s ∈ t.chain i ↔ s ∉ t.free ∧ i = hash (t.key s)
  free_nodup : t.free.Nodup
  chain_nodup : ∀ i, (t.chain i).Nodup
  key_injective : ∀ s s', s ∉ t.free → s' ∉ t.free → t.key s = t.key s' → s = s'

section

variable (hash t k)

/-- No slot in use has the key. -/
def Table.Absent : Prop :=
  ∀ s, s ∉ t.free → t.key s ≠ k

def Table.find [DecidableEq Key] : Option Slot :=
  (t.chain (hash k)).find? fun s => decide (t.key s = k)

/-- The first free slot goes to the end of the chain of its key. -/
def Table.attach [DecidableEq Slot] [DecidableEq Index] (s : Slot) (k : Key) :
    Table Slot Key Index where
  free := t.free.tail
  chain := Function.update t.chain (hash k) (t.chain (hash k) ++ [s])
  key := Function.update t.key s k

/-- A slot goes to the end of the free list. -/
def Table.detach [DecidableEq Slot] (s : Slot) : Table Slot Key Index where
  free := t.free ++ [s]
  chain := fun i => (t.chain i).erase s
  key := t.key

end

namespace Table.Sound

theorem empty {slots : List Slot} (nodup : slots.Nodup) (all : ∀ s, s ∈ slots) (key : Slot → Key) :
    Sound hash { free := slots, chain := fun _ => [], key } where
  placed := fun s i => by simp [all s]
  free_nodup := nodup
  chain_nodup := fun _ => nodup_nil
  key_injective := fun s _ used => absurd (all s) used

/-- The table is a map from keys to slots. -/
theorem find_eq_some_iff [DecidableEq Key] (sound : t.Sound hash) :
    t.find hash k = some s ↔ s ∉ t.free ∧ t.key s = k := by
  unfold Table.find
  constructor
  · intro found
    have same : t.key s = k := by simpa using List.find?_some found
    have here := (sound.placed s _).mp (mem_of_find?_eq_some found)
    exact ⟨here.1, same⟩
  · rintro ⟨used, rfl⟩
    have here : s ∈ t.chain (hash (t.key s)) := (sound.placed s _).mpr ⟨used, rfl⟩
    cases found : (t.chain (hash (t.key s))).find? (fun s' => decide (t.key s' = t.key s)) with
    | none =>
      have missed := List.find?_eq_none.mp found s here
      simp at missed
    | some s' =>
      have same : t.key s' = t.key s := by simpa using List.find?_some found
      have used' := ((sound.placed s' _).mp (mem_of_find?_eq_some found)).1
      exact congrArg some (sound.key_injective s' s used' used same)

variable [DecidableEq Slot]

theorem attach [DecidableEq Index] (sound : t.Sound hash) {rest : List Slot}
    (first : t.free = s :: rest) (absent : t.Absent k) : (t.attach hash s k).Sound hash := by
  have free : (t.attach hash s k).free = rest := by simp [Table.attach, first]
  have nodup : (s :: rest).Nodup := first ▸ sound.free_nodup
  have s_free : s ∈ t.free := by simp [first]
  have s_used : s ∉ rest := (nodup_cons.mp nodup).1
  have own : (t.attach hash s k).key s = k := update_self ..
  have others : ∀ s', s' ≠ s → (t.attach hash s k).key s' = t.key s' := fun s' other =>
    update_of_ne other ..
  have still : ∀ s', s' ≠ s → (s' ∈ rest ↔ s' ∈ t.free) := by
    intro s' other
    simp [first, other]
  constructor
  · intro s' i
    rw [free]
    have chain : s' ∈ (t.attach hash s k).chain i ↔
        s' ∈ t.chain i ∨ (i = hash k ∧ s' = s) := by
      by_cases here : i = hash k
      · subst here
        simp [Table.attach]
      · simp [Table.attach, here]
    rw [chain, sound.placed]
    by_cases same : s' = s
    · subst same
      simp [own, s_free, s_used]
    · rw [others s' same, still s' same]
      simp [same]
  · rw [free]
    exact (nodup_cons.mp nodup).2
  · intro i
    by_cases here : i = hash k
    · subst here
      have fresh : s ∉ t.chain (hash k) := fun member =>
        ((sound.placed s _).mp member).1 s_free
      simp only [Table.attach, update_self]
      exact (sound.chain_nodup _).append (nodup_singleton s) (by simpa using fresh)
    · simpa [Table.attach, here] using sound.chain_nodup i
  · intro s₁ s₂ used₁ used₂ same
    rw [free] at used₁ used₂
    by_cases first₁ : s₁ = s <;> by_cases first₂ : s₂ = s
    · rw [first₁, first₂]
    · rw [first₁, own, others s₂ first₂] at same
      exact absurd same.symm (absent s₂ (mt (still s₂ first₂).mpr used₂))
    · rw [first₂, own, others s₁ first₁] at same
      exact absurd same (absent s₁ (mt (still s₁ first₁).mpr used₁))
    · rw [others s₁ first₁, others s₂ first₂] at same
      exact sound.key_injective s₁ s₂ (mt (still s₁ first₁).mpr used₁)
        (mt (still s₂ first₂).mpr used₂) same

theorem detach (sound : t.Sound hash) (used : s ∉ t.free) : (t.detach s).Sound hash := by
  have free : ∀ s', s' ∉ (t.detach s).free ↔ s' ∉ t.free ∧ s' ≠ s := by
    intro s'
    simp [Table.detach]
  constructor
  · intro s' i
    rw [free]
    simp only [Table.detach]
    rw [(sound.chain_nodup i).mem_erase_iff, sound.placed]
    tauto
  · simp only [Table.detach]
    exact sound.free_nodup.append (nodup_singleton s) (by simpa using used)
  · intro i
    exact (sound.chain_nodup i).erase s
  · intro s₁ s₂ used₁ used₂ same
    exact sound.key_injective s₁ s₂ ((free s₁).mp used₁).1 ((free s₂).mp used₂).1 same

end Table.Sound

section Count

variable [Fintype Slot] [DecidableEq Slot]

def Table.inUse (t : Table Slot Key Index) : Finset Slot :=
  Finset.univ.filter (· ∉ t.free)

@[simp]
theorem mem_inUse : s ∈ t.inUse ↔ s ∉ t.free := by
  simp [Table.inUse]

theorem inUse_attach [DecidableEq Index] (sound : t.Sound hash) {rest : List Slot}
    (first : t.free = s :: rest) : (t.attach hash s k).inUse = insert s t.inUse := by
  have nodup : (s :: rest).Nodup := first ▸ sound.free_nodup
  have s_used : s ∉ rest := (nodup_cons.mp nodup).1
  ext s'
  by_cases same : s' = s
  · subst same
    simp [Table.attach, first, s_used]
  · simp [Table.attach, first, same]

theorem inUse_detach : (t.detach s).inUse = t.inUse.erase s := by
  ext s'
  simp [Table.detach, and_comm]

end Count

end Chains
