import Mathlib

/-!
# Stream ciphers

A generator gives a key for each symbol and its next state; the text may be taken in pieces.
-/

namespace Stream

variable {α σ : Type} {op : α → α → α} {next : σ → α × σ}

/-- The text, combined with the keys, and the state after it. -/
def crypt (op : α → α → α) (next : σ → α × σ) : List α → σ → List α × σ
  | [], s => ([], s)
  | x :: text, s =>
    let key := next s
    let rest := crypt op next text key.2
    (op x key.1 :: rest.1, rest.2)

@[simp]
theorem length_crypt (text : List α) (s : σ) : (crypt op next text s).1.length = text.length := by
  induction text generalizing s with
  | nil => rfl
  | cons x text ih => rw [crypt, List.length_cons, ih, List.length_cons]

theorem crypt_append (front back : List α) (s : σ) :
    crypt op next (front ++ back) s =
      ((crypt op next front s).1 ++ (crypt op next back (crypt op next front s).2).1,
        (crypt op next back (crypt op next front s).2).2) := by
  induction front generalizing s with
  | nil => rfl
  | cons x front ih =>
    rw [List.cons_append, crypt, ih]
    rfl

/-- The same keys give the text back. -/
theorem crypt_crypt (cancel : ∀ x key, op (op x key) key = x) (text : List α) (s : σ) :
    crypt op next (crypt op next text s).1 s = (text, (crypt op next text s).2) := by
  induction text generalizing s with
  | nil => rfl
  | cons x text ih =>
    simp only [crypt]
    rw [ih, cancel]

end Stream
