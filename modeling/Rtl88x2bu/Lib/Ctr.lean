import Mathlib

/-!
# Counter mode

A text is combined block by block with a keystream whose blocks depend on their number only.
-/

namespace Ctr

open List

variable {α : Type} {op : α → α → α} {size : ℕ} {ks : ℕ → List α}

/-- The text from block `k` on, of which `n` blocks are whole. -/
def run (op : α → α → α) (size : ℕ) (ks : ℕ → List α) : ℕ → ℕ → List α → List α
  | 0, k, text => List.zipWith op (ks k) text
  | n + 1, k, text =>
    List.zipWith op (ks k) (text.take size) ++ run op size ks n (k + 1) (text.drop size)

/-- The whole text. -/
def apply (op : α → α → α) (size : ℕ) (ks : ℕ → List α) (text : List α) : List α :=
  run op size ks (text.length / size) 0 text

/-- A loop over the blocks of a text, with a state that gives each its key, is counter mode. -/
theorem eq_run {σ : Type} {loop : ℕ → σ → List α → List α} {key : σ → List α} {next : σ → σ}
    (empty : ∀ s, loop 0 s [] = [])
    (rest : ∀ s text, text ≠ [] → loop 0 s text = List.zipWith op (key s) text)
    (whole : ∀ n s text, loop (n + 1) s text =
      List.zipWith op (key s) (text.take size) ++ loop n (next s) (text.drop size))
    (s : σ) (n k : ℕ) (text : List α) :
    loop n (next^[k] s) text = run op size (fun k => key (next^[k] s)) n k text := by
  induction n generalizing k text with
  | zero =>
    rw [run]
    cases text with
    | nil => rw [empty, zipWith_nil_right]
    | cons x text => exact rest _ _ (cons_ne_nil x text)
  | succ n ih =>
    rw [run, whole, ← ih, Function.iterate_succ_apply']

theorem zipWith_cancel (cancel : ∀ k x, op k (op k x) = x) (key text : List α)
    (long : text.length ≤ key.length) : List.zipWith op key (List.zipWith op key text) = text := by
  induction text generalizing key with
  | nil => simp
  | cons x text ih =>
    cases key with
    | nil => simp at long
    | cons k key =>
      have rest := ih key (by simpa using long)
      simp [cancel, rest]

section

variable (blocks : ∀ k, (ks k).length = size)

include blocks

theorem length_run (n k : ℕ) (text : List α) (whole : n * size ≤ text.length)
    (rest : text.length ≤ (n + 1) * size) : (run op size ks n k text).length = text.length := by
  induction n generalizing k text with
  | zero =>
    rw [run, length_zipWith, blocks]
    omega
  | succ n ih =>
    have step : (n + 1) * size = n * size + size := Nat.succ_mul n size
    have step' : (n + 1 + 1) * size = (n + 1) * size + size := Nat.succ_mul (n + 1) size
    rw [run, length_append, length_zipWith, blocks, length_take,
      ih _ _ (by rw [length_drop]; omega) (by rw [length_drop]; omega), length_drop]
    omega

theorem run_run (cancel : ∀ k x, op k (op k x) = x) (n k : ℕ) (text : List α)
    (whole : n * size ≤ text.length) (rest : text.length ≤ (n + 1) * size) :
    run op size ks n k (run op size ks n k text) = text := by
  induction n generalizing k text with
  | zero =>
    rw [run, run]
    exact zipWith_cancel cancel _ _ (by rw [blocks]; omega)
  | succ n ih =>
    have step : (n + 1) * size = n * size + size := Nat.succ_mul n size
    have step' : (n + 1 + 1) * size = (n + 1) * size + size := Nat.succ_mul (n + 1) size
    have first : (List.zipWith op (ks k) (text.take size)).length = size := by
      rw [length_zipWith, blocks, length_take]
      omega
    rw [run, run, take_append_of_le_length first.ge, take_of_length_le first.le,
      drop_append_of_le_length first.ge, drop_of_length_le first.le, nil_append,
      zipWith_cancel cancel _ _ (by rw [blocks, length_take]; omega),
      ih _ _ (by rw [length_drop]; omega) (by rw [length_drop]; omega),
      take_append_drop]

variable (positive : 0 < size)

include positive

omit blocks in
theorem blocks_le (text : List α) :
    text.length / size * size ≤ text.length ∧ text.length ≤ (text.length / size + 1) * size := by
  refine ⟨Nat.div_mul_le_self _ _, ?_⟩
  have bound := Nat.lt_mul_div_succ text.length positive
  rw [Nat.mul_comm] at bound
  exact bound.le

theorem length_apply (text : List α) : (apply op size ks text).length = text.length :=
  length_run blocks _ _ _ (blocks_le positive text).1 (blocks_le positive text).2

theorem apply_apply (cancel : ∀ k x, op k (op k x) = x) (text : List α) :
    apply op size ks (apply op size ks text) = text := by
  have length : (apply op size ks text).length = text.length := length_apply blocks positive text
  rw [apply, length]
  exact run_run blocks cancel _ _ _ (blocks_le positive text).1 (blocks_le positive text).2

end

end Ctr
