import Mathlib

/-!
# Exclusive slots

The map is right when it marks exactly the slots that are held and no slot has two owners.
-/

namespace Slots

/-- The map marks what is held, and no slot has two owners. -/
structure Exclusive {Owner : Type} (marked : Finset ℕ) (held : Owner → Finset ℕ) : Prop where
  marked_iff : ∀ n, n ∈ marked ↔ ∃ o, n ∈ held o
  unique : ∀ n o o', n ∈ held o → n ∈ held o' → o = o'

variable {Owner : Type} {marked marked' added taken : Finset ℕ} {held : Owner → Finset ℕ}

namespace Exclusive

theorem empty : Exclusive ∅ fun _ : Owner => ∅ :=
  ⟨fun n => by simp, fun n o o' here => by simp at here⟩

/-- An owner that takes a new set of slots, of which some are marked, leaves the map right exactly
when it gives up none of its slots, every slot that it takes is marked, and those that are new to
it were free. -/
theorem put_iff [DecidableEq Owner] (right : Exclusive marked held) (o : Owner)
    (added_sub : added ⊆ taken) :
    Exclusive (marked ∪ added) (Function.update held o taken) ↔
      held o ⊆ taken ∧ taken ⊆ marked ∪ added ∧ Disjoint (taken \ held o) marked := by
  have own : Function.update held o taken o = taken := Function.update_self ..
  have others : ∀ o', o' ≠ o → Function.update held o taken o' = held o' := fun o' other =>
    Function.update_of_ne other ..
  constructor
  · intro after
    refine ⟨fun n held_n => ?_, fun n taken_n => ?_, Finset.disjoint_left.mpr fun n new old => ?_⟩
    · have marked_n : n ∈ marked ∪ added :=
        Finset.mem_union_left _ ((right.marked_iff n).mpr ⟨o, held_n⟩)
      obtain ⟨o', held'⟩ := (after.marked_iff n).mp marked_n
      by_cases same : o' = o
      · rwa [same, own] at held'
      · rw [others o' same] at held'
        exact absurd (right.unique n o' o held' held_n) same
    · exact (after.marked_iff n).mpr ⟨o, by rwa [own]⟩
    · obtain ⟨taken_n, not_held⟩ := Finset.mem_sdiff.mp new
      obtain ⟨o', held'⟩ := (right.marked_iff n).mp old
      have other : o' ≠ o := by
        rintro rfl
        exact not_held held'
      exact other (after.unique n o' o (by rwa [others o' other]) (by rwa [own]))
  · rintro ⟨kept, covered, free⟩
    -- a slot that `o` takes is not another owner's
    have apart : ∀ n o', o' ≠ o → n ∈ taken → n ∉ held o' := by
      intro n o' other taken_n held'
      have marked_n := (right.marked_iff n).mpr ⟨o', held'⟩
      by_cases held_n : n ∈ held o
      · exact other (right.unique n o' o held' held_n)
      · exact Finset.disjoint_left.mp free (Finset.mem_sdiff.mpr ⟨taken_n, held_n⟩) marked_n
    constructor
    · intro n
      constructor
      · intro marked_n
        rcases Finset.mem_union.mp marked_n with old | new
        · obtain ⟨o', held'⟩ := (right.marked_iff n).mp old
          by_cases same : o' = o
          · exact ⟨o, by rw [own]; exact kept (same ▸ held')⟩
          · exact ⟨o', by rwa [others o' same]⟩
        · exact ⟨o, by rw [own]; exact added_sub new⟩
      · rintro ⟨o', held'⟩
        by_cases same : o' = o
        · rw [same, own] at held'
          exact covered held'
        · rw [others o' same] at held'
          exact Finset.mem_union_left _ ((right.marked_iff n).mpr ⟨o', held'⟩)
    · intro n o₁ o₂ held₁ held₂
      by_cases first : o₁ = o <;> by_cases second : o₂ = o
      · rw [first, second]
      · rw [first, own] at held₁
        rw [others o₂ second] at held₂
        exact absurd held₂ (apart n o₂ second held₁)
      · rw [second, own] at held₂
        rw [others o₁ first] at held₁
        exact absurd held₁ (apart n o₁ first held₂)
      · rw [others o₁ first] at held₁
        rw [others o₂ second] at held₂
        exact right.unique n o₁ o₂ held₁ held₂

/-- Some owners go, and what they held is no longer marked. -/
theorem drop {held' : Owner → Finset ℕ} (right : Exclusive marked held) (gone : Owner → Prop)
    (left : ∀ n, n ∈ marked' ↔ n ∈ marked ∧ ∀ o, gone o → n ∉ held o)
    (dropped : ∀ o, gone o → held' o = ∅) (kept : ∀ o, ¬ gone o → held' o = held o) :
    Exclusive marked' held' := by
  have still : ∀ n o, n ∈ held' o ↔ ¬ gone o ∧ n ∈ held o := by
    intro n o
    by_cases isGone : gone o
    · simp [dropped o isGone, isGone]
    · simp [kept o isGone, isGone]
  constructor
  · intro n
    rw [left, right.marked_iff]
    constructor
    · rintro ⟨⟨o, held_n⟩, not_gone⟩
      exact ⟨o, (still n o).mpr ⟨fun isGone => not_gone o isGone held_n, held_n⟩⟩
    · rintro ⟨o, held_n⟩
      obtain ⟨stays, held_n⟩ := (still n o).mp held_n
      refine ⟨⟨o, held_n⟩, fun o' isGone held_n' => ?_⟩
      exact stays (right.unique n o o' held_n held_n' ▸ isGone)
  · intro n o o' held_n held_n'
    exact right.unique n o o' ((still n o).mp held_n).2 ((still n o').mp held_n').2

end Exclusive

end Slots
