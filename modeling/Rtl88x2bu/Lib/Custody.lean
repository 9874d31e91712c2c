import Mathlib

/-!
# Custody of pooled items

An item carries the links of its list, so putting it on one list takes it off the list it was on.
`Partition` says that every item of the pool is in one place, once.
-/

namespace Custody

variable {Item Place : Type*}

/-- Every item of the pool is in one place, once. -/
structure Partition (pool : List Item) (held : Place → List Item) : Prop where
  once : ∀ p, (held p).Nodup
  apart : ∀ {p q}, p ≠ q → List.Disjoint (held p) (held q)
  covers : ∀ x, x ∈ pool ↔ ∃ p, x ∈ held p

variable {pool : List Item} {held held' : Place → List Item}

section Relocate
variable [DecidableEq Item] [DecidableEq Place]

theorem filter_ne_self {x : Item} {xs : List Item} (absent : x ∉ xs) : xs.filter (· ≠ x) = xs := by
  apply List.filter_eq_self.mpr
  intro other member
  simpa using ne_of_mem_of_not_mem member absent

/-- An item is put at the end of a list. -/
def relocate (target : Place) (x : Item) (held : Place → List Item) : Place → List Item := fun p =>
  (held p).filter (· ≠ x) ++ if p = target then [x] else []

theorem mem_relocate {target p : Place} {x y : Item} :
    y ∈ relocate target x held p ↔ (y ∈ held p ∧ y ≠ x) ∨ (y = x ∧ p = target) := by
  unfold relocate
  split_ifs with arrived <;> simp [arrived]

theorem Partition.relocate (part : Partition pool held) (target : Place) {x : Item}
    (member : x ∈ pool) : Partition pool (relocate target x held) := by
  constructor
  case once =>
    intro p
    have rest : ((held p).filter (· ≠ x)).Nodup := (part.once p).filter _
    unfold Custody.relocate
    split_ifs
    · apply List.nodup_append.mpr
      refine ⟨rest, List.nodup_singleton x, ?_⟩
      intro a inRest b isNew same
      have absent := (List.mem_filter.mp inRest).2
      rw [same, List.mem_singleton.mp isNew] at absent
      simp at absent
    · simpa using rest
  case apart =>
    intro p q different y inP inQ
    rcases mem_relocate.mp inP with ⟨heldP, other⟩ | ⟨same, atP⟩
    · rcases mem_relocate.mp inQ with ⟨heldQ, _⟩ | ⟨same, _⟩
      · exact part.apart different heldP heldQ
      · exact other same
    · rcases mem_relocate.mp inQ with ⟨_, other⟩ | ⟨_, atQ⟩
      · exact other same
      · exact different (atP.trans atQ.symm)
  case covers =>
    intro y
    by_cases same : y = x
    · subst same
      exact ⟨fun _ => ⟨target, mem_relocate.mpr (.inr ⟨rfl, rfl⟩)⟩, fun _ => member⟩
    · rw [part.covers y]
      apply exists_congr
      intro p
      simp [mem_relocate, same]

end Relocate

end Custody
