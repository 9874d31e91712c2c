import Mathlib

/-!
# Selection sort in place

The entries `0 .. n` of an array are brought into an order of non-increasing keys.
-/

namespace SelectionSort

variable {α κ : Type*} [LinearOrder κ] (key : α → κ)

variable (n : ℕ) (a : ℕ → α) (count : ℕ)

/-- The first place with the greatest key among `pos` and the `count` places from `j` on. -/
def best (a : ℕ → α) : ℕ → ℕ → ℕ → ℕ
  | 0, pos, _ => pos
  | count + 1, pos, j => best a count (if key (a pos) < key (a j) then j else pos) (j + 1)

/-- The outer loop over `count` places from `i` on, of an array of `n` entries. The flag tells
whether anything was exchanged. -/
def passes (n : ℕ) : ℕ → ℕ → Bool × (ℕ → α) → Bool × (ℕ → α)
  | 0, _, s => s
  | count + 1, i, (moved, a) =>
    let pos := best key a (n - (i + 1)) i (i + 1)
    if pos ≠ i then passes n count (i + 1) (true, a ∘ Equiv.swap i pos)
    else passes n count (i + 1) (moved, a)

/-- The sorted array, and whether anything was exchanged. -/
def sort : Bool × (ℕ → α) :=
  passes key n (n - 1) 0 (false, a)

/-- The first `i` entries have their final values: no entry behind one of them has a greater key. -/
def Placed (i : ℕ) (a : ℕ → α) : Prop :=
  ∀ k < i, ∀ l, k < l → l < n → key (a l) ≤ key (a k)

theorem best_mem (pos j : ℕ) : best key a count pos j = pos ∨ j ≤ best key a count pos j ∧ best key
    a count pos j < j + count := by
  induction count generalizing pos j with
  | zero => exact .inl rfl
  | succ count ih =>
    rw [best]
    rcases ih (if key (a pos) < key (a j) then j else pos) (j + 1) with stays | ⟨from_, below⟩
    · rw [stays]
      split
      · exact .inr ⟨le_rfl, by omega⟩
      · exact .inl rfl
    · exact .inr ⟨by omega, by omega⟩

theorem key_le_best (pos j : ℕ) : key (a pos) ≤ key (a (best key a count pos j)) := by
  induction count generalizing pos j with
  | zero => exact le_rfl
  | succ count ih =>
    rw [best]
    apply le_trans _ (ih _ _)
    split
    next less => exact less.le
    · exact le_rfl

theorem best_greatest (pos j : ℕ) :
    ∀ k, j ≤ k → k < j + count → key (a k) ≤ key (a (best key a count pos j)) := by
  induction count generalizing pos j with
  | zero =>
    intro k from_ below
    omega
  | succ count ih =>
    intro k from_ below
    rw [best]
    -- the first place is compared now, the others by the rest of the loop
    rcases from_.eq_or_lt with rfl | later
    · apply le_trans _ (key_le_best key a _ _ _)
      split
      · exact le_rfl
      next not_less => exact not_lt.mp not_less
    · exact ih _ _ k later (by omega)

variable {key} in
theorem Placed.step {a : ℕ → α} {n i : ℕ} (placed : Placed key n i a) (inside : i < n) :
    Placed key n (i + 1) (a ∘ Equiv.swap i (best key a (n - (i + 1)) i (i + 1))) := by
  have member := best_mem key a (n - (i + 1)) i (i + 1)
  have own := key_le_best key a (n - (i + 1)) i (i + 1)
  have greatest := best_greatest key a (n - (i + 1)) i (i + 1)
  generalize best key a (n - (i + 1)) i (i + 1) = pos at member own greatest ⊢
  intro k below l behind l_inside
  simp only [Function.comp_apply]
  rcases Nat.lt_succ_iff_lt_or_eq.mp below with before | rfl
  · -- an entry in front of `i` stays, and so does the set of those behind it
    have fixed : Equiv.swap i pos k = k := Equiv.swap_apply_of_ne_of_ne (by omega) (by omega)
    rw [fixed]
    apply placed k before
    all_goals
      rw [Equiv.swap_apply_def]
      split_ifs <;> omega
  · rw [Equiv.swap_apply_left]
    rw [Equiv.swap_apply_def]
    split_ifs with first second
    · omega
    · exact own
    · exact greatest l (by omega) (by omega)

/-- Each pass places an entry and only exchanges entries. -/
theorem passes_spec (i : ℕ) (s : Bool × (ℕ → α)) (fits : i + count < n ∨ count = 0)
    (placed : Placed key n i s.2) : Placed key n (i + count) (passes key n count i s).2 ∧ ∃ places :
    Equiv.Perm ℕ, (∀ k, n ≤ k → places k = k) ∧ (passes key n count i s).2 = s.2 ∘ places := by
  induction count generalizing i s with
  | zero => exact ⟨placed, Equiv.refl ℕ, fun k _ => rfl, rfl⟩
  | succ count ih =>
    obtain ⟨moved, a⟩ := s
    have inside : i < n := by omega
    have next := placed.step inside
    have member := best_mem key a (n - (i + 1)) i (i + 1)
    rw [passes]
    simp only
    generalize best key a (n - (i + 1)) i (i + 1) = pos at next member ⊢
    rw [show i + (count + 1) = i + 1 + count by omega]
    by_cases same : pos = i
    · subst same
      rw [Equiv.swap_self] at next
      rw [if_neg (not_not.mpr rfl)]
      exact ih (pos + 1) (moved, a) (by omega) next
    · rw [if_pos same]
      obtain ⟨sorted, places, fixed, through⟩ :=
        ih (i + 1) (true, a ∘ Equiv.swap i pos) (by omega) next
      refine ⟨sorted, places.trans (Equiv.swap i pos), fun k behind => ?_, by rw [through]; rfl⟩
      rw [Equiv.trans_apply, fixed k behind]
      exact Equiv.swap_apply_of_ne_of_ne (by omega) (by omega)

theorem sort_ordered :
    ∀ k l, k < l → l < n → key ((sort key n a).2 l) ≤ key ((sort key n a).2 k) := by
  intro k l behind inside
  have placed := (passes_spec key n (n - 1) 0 (false, a) (by omega)
    fun k none => absurd none (Nat.not_lt_zero k)).1
  exact placed k (by omega) l behind inside

theorem sort_perm : ((List.range n).map (sort key n a).2).Perm ((List.range n).map a) := by
  obtain ⟨places, fixed, through⟩ := (passes_spec key n (n - 1) 0 (false, a)
    (by omega) fun k none => absurd none (Nat.not_lt_zero k)).2
  have stays : ∀ k, places k < n ↔ k < n := by
    intro k
    constructor
    · intro below
      by_contra behind
      rw [fixed k (by omega)] at below
      exact behind below
    · intro below
      by_contra behind
      have again := places.injective (fixed (places k) (by omega))
      omega
  rw [sort, through, ← List.map_map]
  apply List.Perm.map
  rw [List.perm_ext_iff_of_nodup (List.nodup_range.map places.injective) List.nodup_range]
  intro k
  simp only [List.mem_map, List.mem_range]
  constructor
  · rintro ⟨l, below, rfl⟩
    exact (stays l).mpr below
  · intro below
    refine ⟨places.symm k, ?_, places.apply_symm_apply k⟩
    rw [← stays, places.apply_symm_apply]
    exact below

end SelectionSort
