import Mathlib

/-!
# Tables of parts

An operation on a table is described by the labelled steps that it makes each part take; what every
allowed step of a part keeps, the operation keeps.
-/

namespace Table

variable {Key Part Label : Type}

/-- Every part of the table has the property. -/
def All (P : Key → Part → Prop) (table : Key → Option Part) : Prop :=
  ∀ k p, table k = some p → P k p

/-- The tables have the same keys, and each part has taken allowed steps. -/
def Moves (step : Key → Label → Part → Part → Prop) (allowed : Key → Label → Prop)
    (table table' : Key → Option Part) : Prop :=
  ∀ k, Option.Rel (Relation.ReflTransGen fun p p' => ∃ l, allowed k l ∧ step k l p p')
    (table k) (table' k)

variable {step : Key → Label → Part → Part → Prop} {allowed more : Key → Label → Prop}
  {table table' table'' : Key → Option Part} {P : Key → Part → Prop} {k : Key}

namespace Moves

theorem refl (table : Key → Option Part) : Moves step allowed table table := by
  intro k
  cases table k with
  | none => exact .none
  | some p => exact .some .refl

theorem trans (first : Moves step allowed table table')
    (second : Moves step allowed table' table'') : Moves step allowed table table'' := by
  intro k
  have first := first k
  have second := second k
  generalize table k = before at first
  generalize table' k = middle at first second
  generalize table'' k = after at second
  cases first with
  | none =>
    cases second
    exact .none
  | some earlier =>
    cases second with
    | some later => exact .some (earlier.trans later)

theorem update [DecidableEq Key] {key : Key} {change : Part → Part}
    (ok : ∀ p, table key = some p → ∃ l, allowed key l ∧ step key l p (change p)) :
    Moves step allowed table (Function.update table key ((table key).map change)) := by
  intro k
  by_cases here : k = key
  · subst here
    rw [Function.update_self]
    cases found : table k with
    | none => exact .none
    | some p => exact .some (.single (ok p found))
  · rw [Function.update_of_ne here]
    exact refl table k

section

variable (moves : Moves step allowed table table')
include moves

/-- What holds of each allowed step, if it is reflexive and transitive, holds of the parts. -/
theorem rel {R : Part → Part → Prop} (refl : ∀ p, R p p)
    (trans : ∀ {p p' p''}, R p p' → R p' p'' → R p p'')
    (each : ∀ l p p', allowed k l → step k l p p' → R p p') :
    Option.Rel R (table k) (table' k) := by
  have moves := moves k
  generalize table k = before at moves
  generalize table' k = after at moves
  cases moves with
  | none => exact .none
  | some steps =>
    refine .some ?_
    induction steps with
    | refl => exact refl _
    | tail _ last ih =>
      obtain ⟨l, ok, last⟩ := last
      exact trans ih (each l _ _ ok last)

theorem mono (wider : ∀ k l, allowed k l → more k l) : Moves step more table table' := fun k =>
  moves.rel (fun _ => .refl) .trans fun l _ _ ok last => .single ⟨l, wider k l ok, last⟩

theorem map_eq {View : Type} (view : Part → View)
    (same : ∀ l p p', allowed k l → step k l p p' → view p' = view p) :
    (table' k).map view = (table k).map view := by
  have related := moves.rel (k := k) (R := fun p p' => view p' = view p) (fun _ => rfl)
    (fun first second => second.trans first) same
  generalize table k = before at related
  generalize table' k = after at related
  cases related with
  | none => rfl
  | some same => exact congrArg some same

theorem isSome_eq (k : Key) : (table' k).isSome = (table k).isSome := by
  have same := moves.map_eq (k := k) (fun _ => ()) fun _ _ _ _ _ => rfl
  rw [← Option.isSome_map (f := fun _ => ()), same, Option.isSome_map]

end

end Moves

/-- What every allowed step keeps, the operation keeps. -/
theorem All.moves (all : All P table) (moves : Moves step allowed table table')
    (kept : ∀ k l p p', allowed k l → step k l p p' → P k p → P k p') : All P table' := by
  intro k p' found
  have related := moves.rel (k := k) (R := fun p p' => P k p → P k p') (fun _ => id)
    (fun first second => second ∘ first) (kept k)
  rw [found] at related
  generalize before : table k = part at related
  cases related with
  | some stays => exact stays (all k _ before)

theorem All.remove [DecidableEq Key] (all : All P table) (key : Key) :
    All P (Function.update table key none) := by
  intro k p found
  by_cases here : k = key
  · subst here
    rw [Function.update_self] at found
    cases found
  · rw [Function.update_of_ne here] at found
    exact all k p found

end Table
