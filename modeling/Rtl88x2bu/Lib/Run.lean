import Mathlib

/-!
# Runs of an event-driven machine

A run takes any finite number of events, each allowed in the state it is taken in.
-/

namespace Run

variable {State Event : Type}

/-- The states reached from `start` by events that are allowed when they happen. -/
inductive Reachable (step : State → Event → State) (allowed : State → Event → Prop)
    (start : State) : State → Prop
  | start : Reachable step allowed start start
  | next {s : State} (e : Event) :
      Reachable step allowed start s → allowed s e → Reachable step allowed start (step s e)

variable {step : State → Event → State} {allowed : State → Event → Prop} {start s : State}
variable {motive : State → Prop} {events : List Event}

@[elab_as_elim]
theorem Reachable.invariant (reached : Reachable step allowed start s) (initial : motive start)
    (kept : ∀ s e, motive s → allowed s e → motive (step s e)) : motive s := by
  induction reached with
  | start => exact initial
  | next e _ ok ih => exact kept _ e ih ok

/-- Every event of a list is allowed when its turn comes. -/
def Allows (step : State → Event → State) (allowed : State → Event → Prop) :
    State → List Event → Prop
  | _, [] => True
  | s, e :: events => allowed s e ∧ Allows step allowed (step s e) events

theorem allows_of_forall {P : Event → Prop} (all : ∀ e ∈ events, P e) (s : State) :
    Allows step (fun _ e => P e) s events := by
  induction events generalizing s with
  | nil => trivial
  | cons e events ih =>
    obtain ⟨here, later⟩ := List.forall_mem_cons.mp all
    exact ⟨here, ih later _⟩

theorem Reachable.append (reached : Reachable step allowed start s)
    (allows : Allows step allowed s events) :
    Reachable step allowed start (events.foldl step s) := by
  induction events generalizing s with
  | nil => exact reached
  | cons e events ih => exact ih (reached.next e allows.1) allows.2

/-- A property holds in every state that a list of events leads through, the first and the last
included. -/
def Always (step : State → Event → State) (motive : State → Prop) : State → List Event → Prop
  | s, [] => motive s
  | s, e :: events => motive s ∧ Always step motive (step s e) events

theorem always_of_invariant {invariant : State → Prop} (allows : Allows step allowed s events)
    (start : invariant s) (kept : ∀ s e, invariant s → allowed s e → invariant (step s e))
    (implies : ∀ s, invariant s → motive s) : Always step motive s events := by
  induction events generalizing s with
  | nil => exact implies s start
  | cons e events ih => exact ⟨implies s start, ih allows.2 (kept s e start allows.1)⟩

/-- If a step loses a property exactly by a bad event, a run keeps it exactly by avoiding those.
`known` is what holds as long as the property does. -/
theorem always_iff_allows (known : State → Prop) {bad : State → Event → Prop}
    (allows : Allows step allowed s events) (start : known s)
    (kept : ∀ s e, known s → allowed s e → motive s → motive (step s e) → known (step s e))
    (exact : ∀ s e, known s → allowed s e → motive s → (motive (step s e) ↔ ¬ bad s e))
    (initial : motive s) :
    Always step motive s events ↔ Allows step (fun s e => ¬ bad s e) s events := by
  induction events generalizing s with
  | nil => exact iff_of_true initial trivial
  | cons e events ih =>
    obtain ⟨ok, later⟩ := allows
    have here := exact s e start ok initial
    have next : motive (step s e) → (Always step motive (step s e) events ↔ _) := fun held =>
      ih later (kept s e start ok initial held) held
    constructor
    · rintro ⟨-, always⟩
      have held : motive (step s e) := by
        cases events with
        | nil => exact always
        | cons => exact always.1
      exact ⟨here.mp held, (next held).mp always⟩
    · rintro ⟨good, avoids⟩
      exact ⟨initial, (next (here.mpr good)).mpr avoids⟩

/-- The invariant rule for a loop over a list whose body may give up: `motive` relates the elements
already consumed to the state of the loop. -/
@[elab_as_elim]
theorem foldlM_invariant {Item : Type} {body : State → Item → Option State}
    {motive : List Item → State → Prop} {start s : State} {items : List Item}
    (finished : items.foldlM body start = some s) (initial : motive [] start)
    (kept : ∀ consumed s item s', motive consumed s → body s item = some s' →
      motive (consumed ++ [item]) s') : motive items s := by
  -- the induction is on what is left, so the elements consumed so far are generalised
  have rest : ∀ (left consumed : List Item) (current : State), motive consumed current →
      left.foldlM body current = some s → motive (consumed ++ left) s := by
    intro left
    induction left with
    | nil =>
      intro consumed current holds done
      cases done
      simpa using holds
    | cons item left ih =>
      intro consumed current holds done
      rw [List.foldlM_cons] at done
      cases stepped : body current item with
      | none => simp [stepped] at done
      | some next =>
        simp only [stepped, Option.bind_eq_bind, Option.bind_some] at done
        have holds' := ih (consumed ++ [item]) next (kept _ _ _ _ holds stepped) done
        simpa using holds'
  exact rest items [] start initial finished

end Run
