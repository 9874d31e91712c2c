import Mathlib

/-!
# Queues with redundant accounts

A family of queues, each counted by itself and all counted together, with a service list of the keys
whose queue has something in it.
-/

namespace QueueBook

/-- The queues and what is kept about them. -/
structure Book (Key Item : Type) where
  queue : Key → List Item
  count : Key → ℤ
  total : ℤ
  active : List Key

variable {Key Item : Type} {b b' : Book Key Item}

/-- The accounts are right. -/
structure Book.Balanced [Fintype Key] (b : Book Key Item) : Prop where
  count : ∀ k, b.count k = (b.queue k).length
  total : b.total = ∑ k, b.count k
  active : ∀ k, k ∈ b.active ↔ b.queue k ≠ []
  nodup : b.active.Nodup

theorem Book.Balanced.empty [Fintype Key] (queue : ∀ k, b.queue k = []) (count : ∀ k, b.count k = 0)
    (total : b.total = 0) (active : b.active = []) : b.Balanced where
  count k := by rw [count, queue]; rfl
  total := by rw [total, Finset.sum_eq_zero fun k _ => count k]
  active k := by simp [active, queue]
  nodup := by simp [active]

variable [DecidableEq Key] {k : Key} {items : List Item}

/-- The queue of `k` becomes `items`, and the accounts are changed by the difference. -/
structure Requeued (k : Key) (items : List Item) (b b' : Book Key Item) : Prop where
  queue : b'.queue = Function.update b.queue k items
  count : b'.count =
    Function.update b.count k (b.count k + (items.length - (b.queue k).length))
  total : b'.total = b.total + (items.length - (b.queue k).length)
  active : ∀ j, j ∈ b'.active ↔ if j = k then items ≠ [] else j ∈ b.active
  nodup : b.active.Nodup → b'.active.Nodup

variable [Fintype Key]

theorem sum_update_add (count : Key → ℤ) (k : Key) (delta : ℤ) :
    ∑ j, Function.update count k (count k + delta) j = (∑ j, count j) + delta := by
  have single : Function.update count k (count k + delta) = count + Pi.single k delta := by
    funext j
    by_cases here : j = k
    · subst here
      simp
    · simp [here]
  rw [single]
  simp only [Pi.add_apply, Finset.sum_add_distrib, Finset.sum_pi_single', Finset.mem_univ, if_true]

theorem Book.Balanced.requeued (balanced : b.Balanced) (requeued : Requeued k items b b') :
    b'.Balanced where
  count j := by
    rw [requeued.count, requeued.queue]
    by_cases here : j = k
    · subst here
      rw [Function.update_self, Function.update_self, balanced.count j]
      omega
    · rw [Function.update_of_ne here, Function.update_of_ne here, balanced.count j]
  total := by rw [requeued.total, requeued.count, sum_update_add, balanced.total]
  active j := by
    rw [requeued.active, requeued.queue]
    by_cases here : j = k
    · subst here
      rw [if_pos rfl, Function.update_self]
    · rw [if_neg here, Function.update_of_ne here, balanced.active j]
  nodup := requeued.nodup balanced.nodup

end QueueBook
