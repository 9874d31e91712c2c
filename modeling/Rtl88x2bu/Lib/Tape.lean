import Mathlib

/-!
# Memories written from the front

A memory that starts blank and is only ever extended, and a scanner that reads the records in it.
-/

namespace Tape

open List Function Option

variable {α : Type} {blank : α} {mem : ℕ → α} {base : ℕ}
variable {cells : List α} {i : ℕ}

/-- The cells from the front on, and blanks behind them. -/
def image (blank : α) (cells : List α) : ℕ → α :=
  fun i => cells.getD i blank

/-- The memory has the cells at `base`. -/
def Holds (mem : ℕ → α) : ℕ → List α → Prop
  | _, [] => True
  | base, c :: cells => mem base = c ∧ Holds mem (base + 1) cells

theorem holds_append {first second : List α} :
    Holds mem base (first ++ second) ↔
      Holds mem base first ∧ Holds mem (base + first.length) second := by
  induction first generalizing base with
  | nil => simp [Holds]
  | cons c first ih =>
    have next : base + 1 + first.length = base + (first.length + 1) := by omega
    simp only [cons_append, Holds, ih, length_cons, next, and_assoc]

theorem holds_iff : Holds mem base cells ↔ ∀ i, ∀ c ∈ cells[i]?, mem (base + i) = c := by
  induction cells generalizing base with
  | nil => simp [Holds]
  | cons c cells ih =>
    rw [Holds, ih]
    constructor
    · rintro ⟨here, later⟩ i d there
      cases i with
      | zero =>
        have same : c = d := by simpa using there
        exact here.trans same
      | succ i =>
        have found := later i d (by simpa using there)
        rwa [Nat.add_assoc, Nat.add_comm 1 i] at found
    · intro all
      refine ⟨all 0 c (by simp), fun i d there => ?_⟩
      have found := all (i + 1) d (by simpa using there)
      rwa [Nat.add_assoc, Nat.add_comm 1 i]

theorem holds_shift : Holds (fun i => mem (base + i)) 0 cells ↔ Holds mem base cells := by
  rw [holds_iff, holds_iff]
  simp only [Nat.zero_add]

theorem holds_image (cells : List α) : Holds (image blank cells) 0 cells := by
  rw [holds_iff]
  intro i c there
  have found : cells[i]? = some c := there
  rw [Nat.zero_add, image, getD_eq_getElem?_getD, found, getD_some]

theorem image_of_length_le (beyond : cells.length ≤ i) : image blank cells i = blank := by
  rw [image, getD_eq_getElem?_getD, List.getElem?_eq_none beyond, getD_none]

section

variable (mem base cells)

theorem update_image (c : α) :
    Function.update (image blank cells) cells.length c = image blank (cells ++ [c]) := by
  funext i
  rcases Nat.lt_trichotomy i cells.length with before | rfl | after
  · rw [update_of_ne before.ne, image, image, getD_append _ _ _ _ before]
  · rw [update_self, image, getD_append_right _ _ _ _ le_rfl, Nat.sub_self]
    rfl
  · have beyond : (cells ++ [c]).length ≤ i := by
      rw [length_append, length_singleton]
      omega
    rw [update_of_ne after.ne', image_of_length_le after.le, image_of_length_le beyond]

/-- The `n` cells from `base` on. -/
def window (n : ℕ) : List α :=
  (List.range n).map fun i => mem (base + i)

/-- The cells are written at `base`. -/
def paste : ℕ → α :=
  fun i => if base ≤ i ∧ i < base + cells.length then cells.getD (i - base) (mem i) else mem i

@[simp] theorem length_window (n : ℕ) : (window mem base n).length = n := by
  rw [window, length_map, length_range]

end

theorem Holds.window_eq (holds : Holds mem base cells) {n : ℕ} (length : n = cells.length) :
    window mem base n = cells := by
  subst length
  apply ext_getElem?
  intro i
  cases there : cells[i]? with
  | none =>
    have beyond := List.getElem?_eq_none_iff.mp there
    exact List.getElem?_eq_none (by rw [length_window]; exact beyond)
  | some c =>
    obtain ⟨inside, -⟩ := List.getElem?_eq_some_iff.mp there
    rw [window, List.getElem?_map, List.getElem?_range inside, map_some,
      holds_iff.mp holds i c there]

theorem holds_window {base' : ℕ} (n : ℕ) (same : base = base') :
    Holds mem base (window mem base' n) := by
  subst same
  rw [holds_iff]
  intro i c there
  obtain ⟨inside, value⟩ := List.getElem?_eq_some_iff.mp there
  rw [← value]
  simp only [window, getElem_map, getElem_range]

theorem paste_of_lt (before : i < base) : paste mem base cells i = mem i :=
  if_neg fun both => absurd both.1 (not_le.mpr before)

theorem paste_of_le (after : base + cells.length ≤ i) : paste mem base cells i = mem i :=
  if_neg fun both => absurd both.2 (not_lt.mpr after)

section

variable (mem base cells)

theorem paste_nil : paste mem base [] = mem := by
  funext i
  exact if_neg fun both => absurd both.2 (not_lt.mpr both.1)

theorem paste_snoc (c : α) :
    Function.update (paste mem base cells) (base + cells.length) c =
      paste mem base (cells ++ [c]) := by
  funext i
  have longer : (cells ++ [c]).length = cells.length + 1 := length_append
  rcases Nat.lt_trichotomy i (base + cells.length) with before | rfl | after
  · rw [update_of_ne before.ne]
    by_cases inside : base ≤ i
    · rw [paste, paste, if_pos ⟨inside, before⟩, if_pos ⟨inside, by omega⟩,
        getD_append _ _ _ _ (by omega)]
    · rw [paste_of_lt (by omega), paste_of_lt (by omega)]
  · rw [update_self, paste, if_pos ⟨by omega, by omega⟩, Nat.add_sub_cancel_left,
      getD_append_right _ _ _ _ le_rfl, Nat.sub_self]
    rfl
  · rw [update_of_ne after.ne', paste_of_le after.le, paste_of_le (by omega)]

theorem paste_append (first second : List α) :
    paste (paste mem base first) (base + first.length) second =
      paste mem base (first ++ second) := by
  induction second using List.reverseRecOn with
  | nil => rw [paste_nil, append_nil]
  | append_singleton second c ih =>
    rw [← paste_snoc, ih, ← append_assoc, ← paste_snoc, length_append, Nat.add_assoc]

theorem holds_paste : Holds (paste mem base cells) base cells := by
  rw [holds_iff]
  intro i c there
  obtain ⟨inside, -⟩ := List.getElem?_eq_some_iff.mp there
  have found : cells[i]? = some c := there
  rw [paste, if_pos ⟨by omega, by omega⟩, Nat.add_sub_cancel_left, getD_eq_getElem?_getD, found,
    getD_some]

end

theorem Holds.paste {patch : List α} (holds : Holds mem base cells) {start : ℕ}
    (apart : base + cells.length ≤ start ∨ start + patch.length ≤ base) :
    Holds (paste mem start patch) base cells := by
  rw [holds_iff] at holds ⊢
  intro i c there
  obtain ⟨inside, -⟩ := List.getElem?_eq_some_iff.mp there
  rw [← holds i c there]
  rcases apart with before | after
  · exact paste_of_lt (by omega)
  · exact paste_of_le (by omega)

theorem Holds.move (holds : Holds mem base cells) {n : ℕ} (short : cells.length ≤ n) (dst : ℕ) :
    Holds (Tape.paste mem dst (window mem base n)) dst cells := by
  rw [holds_iff] at holds ⊢
  intro i c there
  obtain ⟨inside, -⟩ := List.getElem?_eq_some_iff.mp there
  have copied : (window mem base n)[i]? = some (mem (base + i)) := by
    rw [window, List.getElem?_map, List.getElem?_range (by omega), map_some]
  rw [Tape.paste, length_window, if_pos ⟨by omega, by omega⟩, Nat.add_sub_cancel_left,
    getD_eq_getElem?_getD, copied, getD_some, holds i c there]

section

variable {mem' : ℕ → α} {n : ℕ}

theorem window_congr (same : ∀ i, base ≤ i → i < base + n → mem' i = mem i) :
    window mem' base n = window mem base n := by
  apply map_congr_left
  intro i inside
  have bound := mem_range.mp inside
  exact same (base + i) (by omega) (by omega)

theorem window_paste {start : ℕ} {cells : List α}
    (apart : base + n ≤ start ∨ start + cells.length ≤ base) :
    window (paste mem start cells) base n = window mem base n := by
  apply window_congr
  intro i from_base below
  rcases apart with before | after
  · exact paste_of_lt (by omega)
  · exact paste_of_le (by omega)

section

variable (mem base n)

theorem window_add (m n : ℕ) :
    window mem base (m + n) = window mem base m ++ window mem (base + m) n := by
  simp only [window, List.range_add, List.map_append, List.map_map, Function.comp_def,
    Nat.add_assoc]

theorem window_cons : window mem base (n + 1) = mem base :: window mem (base + 1) n := by
  rw [Nat.add_comm, window_add]
  rfl

theorem drop_window (k n : ℕ) : (window mem base n).drop k = window mem (base + k) (n - k) := by
  rcases Nat.le_total k n with inside | beyond
  · obtain ⟨m, rfl⟩ := Nat.exists_eq_add_of_le inside
    rw [window_add, Nat.add_sub_cancel_left]
    exact drop_left' (length_window ..)
  · rw [Nat.sub_eq_zero_of_le beyond, drop_of_length_le (by rw [length_window]; exact beyond)]
    rfl

end

theorem window_image {cells : List α} (fits : base + n ≤ cells.length) :
    window (image blank cells) base n = (cells.drop base).take n := by
  have holds : Holds (image blank cells) 0
      (cells.take base ++ ((cells.drop base).take n ++ (cells.drop base).drop n)) := by
    rw [take_append_drop, take_append_drop]
    exact holds_image cells
  have place : 0 + (cells.take base).length = base := by
    rw [Nat.zero_add, length_take]
    omega
  have part := (holds_append.mp (holds_append.mp holds).2).1
  rw [place] at part
  apply part.window_eq
  rw [length_take, length_drop]
  omega

end

section Scan

variable {Record State Result : Type} {encode : Record → List α} {apply : State → Record → State}

/-- A scanner that takes each record takes them all. -/
theorem scan_records (scan : ℕ → ℕ → State → Option Result) (limit : ℕ)
    (takes : ∀ (r : Record) (fuel base : ℕ) (s : State), Holds mem base (encode r) →
      base + (encode r).length ≤ limit →
      scan (fuel + 1) base s = scan fuel (base + (encode r).length) (apply s r))
    (records : List Record) (fuel : ℕ) (s : State)
    (holds : Holds mem base (records.flatMap encode))
    (fits : base + (records.flatMap encode).length ≤ limit) :
    scan (fuel + records.length) base s =
      scan fuel (base + (records.flatMap encode).length) (records.foldl apply s) := by
  induction records generalizing base s with
  | nil => rfl
  | cons r records ih =>
    rw [flatMap_cons] at holds fits ⊢
    obtain ⟨here, later⟩ := holds_append.mp holds
    rw [length_append] at fits ⊢
    rw [length_cons, ← Nat.add_assoc, takes r _ _ _ here (by omega),
      ih _ later (by omega), Nat.add_assoc, foldl_cons]

end Scan

end Tape
