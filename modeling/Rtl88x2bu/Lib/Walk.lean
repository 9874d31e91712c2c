import Mathlib

/-!
# Searches that follow lengths

A search stops where nothing more is to be read, ends at a hit, and otherwise moves on by a distance
that it reads. What it finds does not depend on how many rounds it is given, as long as they reach
to the end.
-/

namespace Walk

variable {more hit : ℕ → Bool} {next : ℕ → ℕ} {bound fuel p q : ℕ}

/-- How a search ends. -/
inductive Outcome
  | found (p : ℕ)
  | missing
  | endless
  deriving DecidableEq

/-- The search from a position, with so many rounds. -/
def search (more hit : ℕ → Bool) (next : ℕ → ℕ) : ℕ → ℕ → Outcome
  | 0, _ => .endless
  | fuel + 1, p =>
    if more p then
      if hit p then .found p else search more hit next fuel (next p)
    else .missing

/-- Every position that the search looks at passes a test. -/
def checked (more hit ok : ℕ → Bool) (next : ℕ → ℕ) : ℕ → ℕ → Bool
  | 0, _ => true
  | fuel + 1, p =>
    ok p && if more p then if hit p then true else checked more hit ok next fuel (next p) else true

/-- The search from `p` comes to `q`. -/
inductive Visits (more hit : ℕ → Bool) (next : ℕ → ℕ) : ℕ → ℕ → Prop
  | here (p : ℕ) : Visits more hit next p p
  | there {p q : ℕ} : more p = true → hit p = false → Visits more hit next (next p) q →
      Visits more hit next p q

theorem Visits.eq_or_next (visits : Visits more hit next p q) :
    q = p ∨ more p = true ∧ hit p = false ∧ Visits more hit next (next p) q := by
  cases visits with
  | here => exact .inl rfl
  | there reads misses later => exact .inr ⟨reads, misses, later⟩

theorem Visits.le (forward : ∀ p, p ≤ next p) (visits : Visits more hit next p q) : p ≤ q := by
  induction visits with
  | here => exact le_rfl
  | there _ _ _ ih => exact (forward _).trans ih

/-! ## A search that does not move -/

theorem Visits.eq_of_stuck (stuck : next p = p) (visits : Visits more hit next p q) : q = p := by
  induction visits with
  | here => rfl
  | there _ _ _ ih =>
    have moved := ih (by rw [stuck, stuck])
    rw [moved, stuck]

theorem search_of_stuck (reads : more p = true) (misses : hit p = false) (stuck : next p = p)
    (fuel : ℕ) : search more hit next fuel p = .endless := by
  induction fuel with
  | zero => rfl
  | succ fuel ih => rw [search, reads, misses, stuck]; exact ih

/-! ## Any number of rounds -/

/-- The check of all positions, however many rounds it takes. -/
theorem forall_checked_iff (ok : ℕ → Bool) :
    (∀ fuel, checked more hit ok next fuel p = true) ↔
      ∀ q, Visits more hit next p q → ok q = true := by
  constructor
  · intro all q visits
    induction visits with
    | here p =>
      have first := all 1
      rw [checked, Bool.and_eq_true] at first
      exact first.1
    | there reads misses _ ih =>
      apply ih
      intro fuel
      have later := all (fuel + 1)
      rw [checked, reads, misses, Bool.and_eq_true] at later
      exact later.2
  · intro all fuel
    induction fuel generalizing p with
    | zero => rfl
    | succ fuel ih =>
      have here := all p (.here p)
      cases reads : more p with
      | false => simp [checked, reads, here]
      | true =>
        cases misses : hit p with
        | true => simp [checked, reads, misses, here]
        | false =>
          have later := ih fun q visits => all q (.there reads misses visits)
          simp [checked, reads, misses, here, later]

theorem exists_search_eq_found_iff :
    (∃ fuel, search more hit next fuel p = .found q) ↔
      Visits more hit next p q ∧ more q = true ∧ hit q = true := by
  constructor
  · rintro ⟨fuel, found⟩
    induction fuel generalizing p with
    | zero => cases found
    | succ fuel ih =>
      cases reads : more p with
      | false => simp [search, reads] at found
      | true =>
        cases misses : hit p with
        | true =>
          have same : p = q := by simpa [search, reads, misses] using found
          subst same
          exact ⟨.here p, reads, misses⟩
        | false =>
          obtain ⟨visits, more, hits⟩ := ih (by simpa [search, reads, misses] using found)
          exact ⟨.there reads misses visits, more, hits⟩
  · rintro ⟨visits, reads, hits⟩
    induction visits with
    | here p => exact ⟨1, by simp [search, reads, hits]⟩
    | there first misses _ ih =>
      obtain ⟨fuel, found⟩ := ih reads hits
      exact ⟨fuel + 1, by simpa [search, first, misses] using found⟩

/-! ## Enough rounds -/

section

variable (bounded : ∀ p, more p = true → p < bound)
  (forward : ∀ p, more p = true → hit p = false → p ≤ next p) (enough : bound - p < fuel)

include bounded forward enough

/-- The positions of a search are checked with a bounded number of rounds. -/
theorem checked_iff (ok : ℕ → Bool) :
    checked more hit ok next fuel p = true ↔ ∀ q, Visits more hit next p q → ok q = true := by
  refine ⟨fun checks q visits => ?_, fun all => forall_checked_iff ok |>.mpr all fuel⟩
  induction visits generalizing fuel with
  | here p =>
    obtain ⟨fuel, rfl⟩ := Nat.exists_eq_add_one.mpr (Nat.zero_lt_of_lt enough)
    exact (Bool.and_eq_true_iff.mp checks).1
  | @there p q reads misses later ih =>
    obtain ⟨fuel, rfl⟩ := Nat.exists_eq_add_one.mpr (Nat.zero_lt_of_lt enough)
    rw [checked, reads, misses, Bool.and_eq_true] at checks
    by_cases stuck : next p = p
    · rw [stuck] at later
      rw [later.eq_of_stuck stuck]
      exact checks.1
    · have inside := bounded p reads
      have moved := forward p reads misses
      exact ih (by omega) checks.2

/-- What a search with enough rounds finds is the hit that it comes to. -/
theorem search_eq_found_iff :
    search more hit next fuel p = .found q ↔
      Visits more hit next p q ∧ more q = true ∧ hit q = true := by
  refine ⟨fun found => exists_search_eq_found_iff.mp ⟨fuel, found⟩, ?_⟩
  rintro ⟨visits, goes, hits⟩
  induction visits generalizing fuel with
  | here p =>
    obtain ⟨fuel, rfl⟩ := Nat.exists_eq_add_one.mpr (Nat.zero_lt_of_lt enough)
    rw [search, goes, hits]
    rfl
  | @there p q reads misses later ih =>
    obtain ⟨fuel, rfl⟩ := Nat.exists_eq_add_one.mpr (Nat.zero_lt_of_lt enough)
    rw [search, reads, misses]
    by_cases stuck : next p = p
    · rw [stuck] at later
      rw [later.eq_of_stuck stuck, misses] at hits
      exact nomatch hits
    · have inside := bounded p reads
      have moved := forward p reads misses
      exact ih (by omega) goes hits

end

theorem Visits.endless (visits : Visits more hit next p q) (reads : more q = true)
    (misses : hit q = false) (stuck : next q = q) (fuel : ℕ) :
    search more hit next fuel p = .endless := by
  induction visits generalizing fuel with
  | here p => exact search_of_stuck reads misses stuck fuel
  | there first other _ ih =>
    cases fuel with
    | zero => rfl
    | succ fuel =>
      rw [search, first, other]
      exact ih reads misses stuck fuel

/-- A search that always moves ends. -/
theorem search_ne_endless (bounded : ∀ p, more p = true → p < bound)
    (forward : ∀ q, Visits more hit next p q → more q = true → hit q = false → q < next q)
    (enough : bound - p < fuel) : search more hit next fuel p ≠ .endless := by
  induction fuel generalizing p with
  | zero => exact absurd enough (Nat.not_lt_zero _)
  | succ fuel ih =>
    cases reads : more p with
    | false => simp [search, reads]
    | true =>
      cases misses : hit p with
      | true => simp [search, reads, misses]
      | false =>
        have inside := bounded p reads
        have moved := forward p (.here p) reads misses
        have rest := ih (fun q visits => forward q (.there reads misses visits)) (by omega)
        simpa [search, reads, misses] using rest

theorem search_eq_endless_iff (bounded : ∀ p, more p = true → p < bound)
    (forward : ∀ p, more p = true → hit p = false → p ≤ next p) (enough : bound - p < fuel) :
    search more hit next fuel p = .endless ↔
      ∃ q, Visits more hit next p q ∧ more q = true ∧ hit q = false ∧ next q = q := by
  constructor
  · intro endless
    by_contra moves
    refine search_ne_endless bounded (fun q visits reads misses => ?_) enough endless
    refine lt_of_le_of_ne (forward q reads misses) fun stuck => ?_
    exact moves ⟨q, visits, reads, misses, stuck.symm⟩
  · rintro ⟨q, visits, reads, misses, stuck⟩
    exact visits.endless reads misses stuck fuel

end Walk
