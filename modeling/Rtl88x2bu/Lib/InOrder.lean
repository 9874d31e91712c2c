import Mathlib

/-!
# In-order delivery

A buffer receives items at integer positions, in any order, and delivers them in increasing order:
`next` is the first position that has neither been delivered nor given up, and every held item lies
after it and within `size` of it. What has been delivered, followed by what is held, is one
increasing stream in which no item is more than `reach` beyond the one before it.
-/

namespace InOrder

open List

variable {α : Type} {size reach : ℤ}

variable (start : ℤ) (queue : List (ℤ × α))

/-- The next item is later, but not too far away. -/
def Follows (reach : ℤ) (x y : ℤ × α) : Prop := x.1 < y.1 ∧ y.1 ≤ x.1 + reach

/-- The buffer, with what it has delivered. -/
structure Buffer (α : Type) (size reach : ℤ) where
  next : ℤ
  delivered : List (ℤ × α)
  held : List (ℤ × α)
  chain : (delivered ++ held).IsChain (Follows reach)
  below : ∀ x ∈ delivered, x.1 < next
  inside : ∀ x ∈ held, next < x.1 ∧ x.1 < next + size
  linked : held = [] → ∀ x ∈ delivered.getLast?, next ≤ x.1 + reach

theorem isChain_insert {R : α → α → Prop} {x : α} {l r : List α} (chain : (l ++ r).IsChain R)
    (left : ∀ y ∈ l.getLast?, R y x) (right : ∀ z ∈ r.head?, R x z) : (l ++ x :: r).IsChain R := by
  obtain ⟨front, back, _⟩ := isChain_append.mp chain
  rw [isChain_append, isChain_cons]
  exact ⟨front, ⟨right, back⟩, by rintro y last _ ⟨⟩; exact left y last⟩

theorem mem_insert {x y : α} {l r : List α} (member : y ∈ l ++ x :: r) : y ∈ l ++ r ∨ y = x := by
  simp only [mem_append, mem_cons] at member ⊢
  tauto

/-- Nothing is held or delivered. -/
def Buffer.empty (next : ℤ) : Buffer α size reach where
  next := next
  delivered := []
  held := []
  chain := .nil
  below := by simp
  inside := by simp
  linked := by simp

/-- The new start, what goes out, and what stays. -/
structure Released (α : Type) where
  next : ℤ
  out : List (ℤ × α)
  rest : List (ℤ × α)

/-- Release the items up to `start`, and those that follow without a gap. -/
def release (start : ℤ) : List (ℤ × α) → Released α
  | [] => ⟨start, [], []⟩
  | x :: queue =>
    if start < x.1 then ⟨start, [], x :: queue⟩
    else
      let later := release (if x.1 = start then start + 1 else start) queue
      { later with out := x :: later.out }

theorem release_append : (release start queue).out ++ (release start queue).rest = queue := by
  fun_induction release start queue with
  | case1 => rfl
  | case2 => rfl
  | case3 start x queue _ later ih => exact congrArg (x :: ·) ih

theorem release_out_of_rest_nil {start : ℤ} {queue : List (ℤ × α)}
    (empty : (release start queue).rest = []) : (release start queue).out = queue := by
  simpa [empty] using release_append start queue

theorem le_release_next : start ≤ (release start queue).next := by
  fun_induction release start queue with
  | case1 => exact le_rfl
  | case2 => exact le_rfl
  | case3 start x queue _ later ih =>
    refine le_trans ?_ ih
    split <;> omega

theorem release_out_lt : ∀ x ∈ (release start queue).out, x.1 < (release start queue).next := by
  fun_induction release start queue with
  | case1 => simp
  | case2 => simp
  | case3 start x queue reached later ih =>
    intro y member
    rcases mem_cons.mp member with rfl | member
    · -- the start only grows behind the first item
      have grown := le_release_next (if y.1 = start then start + 1 else start) queue
      refine lt_of_lt_of_le ?_ grown
      split <;> omega
    · exact ih y member

theorem release_rest_gt (sorted : queue.Pairwise (·.1 < ·.1)) :
    ∀ x ∈ (release start queue).rest, (release start queue).next < x.1 := by
  fun_induction release start queue with
  | case1 => simp
  | case2 start x queue early =>
    intro y member
    rcases mem_cons.mp member with rfl | member
    · exact early
    · exact early.trans (rel_of_pairwise_cons sorted member)
  | case3 start x queue _ later ih => exact ih sorted.of_cons

theorem release_next_le {start bound : ℤ} {queue : List (ℤ × α)} (started : start ≤ bound)
    (bounded : ∀ x ∈ queue, x.1 < bound) : (release start queue).next ≤ bound := by
  fun_induction release start queue with
  | case1 => exact started
  | case2 => exact started
  | case3 start x queue _ later ih =>
    have first := bounded x (by simp)
    refine ih ?_ fun y member => bounded y (mem_cons_of_mem x member)
    split <;> omega

/-- The window start once an item at `p` has arrived: past it, or far enough to keep it inside. -/
def startAfter (size next p : ℤ) : ℤ :=
  if p = next then next + 1 else if next + size ≤ p then p + 1 - size else next

theorem startAfter_window {next p : ℤ} (positive : 0 < size) (late : next ≤ p) :
    next ≤ startAfter size next p ∧ startAfter size next p ≤ p + 1 ∧
      p < startAfter size next p + size := by
  unfold startAfter
  split_ifs <;> omega

namespace Buffer

variable (b : Buffer α size reach) {x : ℤ × α} {l r : List (ℤ × α)}

theorem held_chain : b.held.IsChain (Follows reach) :=
  (isChain_append.mp b.chain).2.1

theorem sorted_of_chain {stream : List (ℤ × α)} (chain : stream.IsChain (Follows reach)) :
    stream.Pairwise (·.1 < ·.1) := by
  have increasing : stream.IsChain fun x y => x.1 < y.1 := chain.imp fun _ _ follows => follows.1
  have : IsTrans (ℤ × α) fun x y => x.1 < y.1 := ⟨fun _ _ _ => lt_trans⟩
  exact isChain_iff_pairwise.mp increasing

theorem release_caughtUp {start : ℤ} {queue : List (ℤ × α)} (sorted : queue.Pairwise (·.1 < ·.1))
    (reaches : ∃ x ∈ queue, start ≤ x.1 + 1) (empty : (release start queue).rest = []) :
    ∀ x ∈ (release start queue).out.getLast?, x.1 + 1 = (release start queue).next := by
  intro x last
  have all := release_out_of_rest_nil empty
  obtain ⟨y, member, near⟩ := reaches
  -- the last item of a sorted queue is the largest
  have atMost : ∀ z ∈ queue, z.1 ≤ x.1 := by
    rw [all] at last
    obtain ⟨init, rfl⟩ := List.getLast?_eq_some_iff.mp last
    intro z inQueue
    rcases mem_append.mp inQueue with inInit | isLast
    · exact ((pairwise_append.mp sorted).2.2 z inInit x (by simp)).le
    · rw [mem_singleton.mp isLast]
  have upper : (release start queue).next ≤ x.1 + 1 := by
    have := atMost y member
    exact release_next_le (by omega) fun z inQueue => by have := atMost z inQueue; omega
  have lower := release_out_lt start queue x (mem_of_getLast? last)
  omega

private theorem settled_last {delivered queue : List (ℤ × α)} {start : ℤ}
    (chain : (delivered ++ queue).IsChain (Follows reach))
    (reaches : ∃ x ∈ queue, start ≤ x.1 + 1) (empty : (release start queue).rest = []) :
    ∀ x ∈ (delivered ++ (release start queue).out).getLast?,
      x.1 + 1 = (release start queue).next := by
  have all := release_out_of_rest_nil empty
  obtain ⟨y, member, _⟩ := id reaches
  rw [List.getLast?_append_of_ne_nil _ (by rw [all]; exact ne_nil_of_mem member)]
  exact release_caughtUp (sorted_of_chain (isChain_append.mp chain).2.1) reaches empty

/-- When nothing is held the window starts right after the last delivered item. -/
def CaughtUp : Prop :=
  b.held = [] → ∀ x ∈ b.delivered.getLast?, x.1 + 1 = b.next

/-- The queue takes the place of what is held, and what it can release is delivered. -/
def settle (start : ℤ) (queue : List (ℤ × α)) (room : 0 < reach)
    (chain : (b.delivered ++ queue).IsChain (Follows reach))
    (below : ∀ x ∈ b.delivered, x.1 < start)
    (window : ∀ x ∈ queue, x.1 < start + size)
    (reaches : ∃ x ∈ queue, start ≤ x.1 + 1) : Buffer α size reach where
  next := (release start queue).next
  delivered := b.delivered ++ (release start queue).out
  held := (release start queue).rest
  chain := by rwa [List.append_assoc, release_append]
  below := by
    intro x member
    rcases List.mem_append.mp member with old | released
    · exact (below x old).trans_le (le_release_next start queue)
    · exact release_out_lt start queue x released
  inside := by
    intro x member
    have sorted := sorted_of_chain (List.isChain_append.mp chain).2.1
    have queued : x ∈ queue := by
      rw [← release_append start queue]
      exact List.mem_append_right _ member
    have grown := le_release_next start queue
    have near := window x queued
    exact ⟨release_rest_gt start queue sorted x member, by omega⟩
  linked := by
    intro empty x last
    have := settled_last chain reaches empty x last
    omega

theorem settle_caughtUp {start : ℤ} {queue : List (ℤ × α)}
    {room chain below window reaches} :
    (b.settle start queue room chain below window reaches).CaughtUp :=
  settled_last chain reaches

/-- An item has a place between the held items `l` and `r`. -/
structure Fits (x : ℤ × α) (l r : List (ℤ × α)) : Prop where
  held : b.held = l ++ r
  before : ∀ y ∈ l, y.1 < x.1
  after : ∀ y ∈ r, x.1 < y.1
  late : b.next ≤ x.1
  near : x.1 < b.next + reach
  joined : b.held = [] → ∀ y ∈ b.delivered.getLast?, x.1 ≤ y.1 + reach

/-- One step of the buffer: the window moves forward and deliveries are only added. -/
structure Step (b' : Buffer α size reach) : Prop where
  forward : b.next ≤ b'.next
  bounded : b'.next ≤ b.next + reach
  extended : b.delivered <+: b'.delivered

theorem Step.refl (room : 0 ≤ reach) : b.Step b :=
  ⟨le_rfl, by omega, prefix_rfl⟩

section

variable (positive : 0 < size) (small : size ≤ reach)
include positive small

omit positive in
variable {b} in
theorem Fits.chain (fits : b.Fits x l r) :
    (b.delivered ++ (l ++ x :: r)).IsChain (Follows reach) := by
  have stream := b.chain
  rw [fits.held, ← append_assoc] at stream
  rw [← append_assoc]
  apply isChain_insert stream
  · intro y last
    rcases eq_nil_or_concat' l with rfl | ⟨init, z, rfl⟩
    · -- nothing is held before the item, so it follows the last delivered one
      rw [append_nil] at last
      have passed := b.below y (mem_of_getLast? last)
      refine ⟨passed.trans_le fits.late, ?_⟩
      cases queue : r with
      | nil => exact fits.joined (by simp [fits.held, queue]) y last
      | cons z rest =>
        -- the item goes in between two that were linked
        have link := (isChain_append.mp b.chain).2.2 y last z (by simp [fits.held, queue])
        have := fits.after z (by simp [queue])
        have := link.2
        omega
    · -- the item before it is held, so both lie between `next` and `next + reach`
      rw [← append_assoc, List.getLast?_concat] at last
      obtain rfl := Option.some.inj last
      have := (b.inside z (by simp [fits.held])).1
      have := fits.near
      exact ⟨fits.before z (by simp), by omega⟩
  · intro z first
    have member := mem_of_mem_head? first
    have window := b.inside z (fits.held ▸ mem_append_right l member)
    have := fits.late
    exact ⟨fits.after z member, by omega⟩

omit positive small in
variable {b} in
theorem Fits.mem {y : ℤ × α} (fits : b.Fits x l r) (member : y ∈ l ++ x :: r) :
    y ∈ b.held ∨ y = x := by
  rw [fits.held]
  exact mem_insert member

/-- An item that fits arrives. -/
def accept (fits : b.Fits x l r) : Buffer α size reach :=
  b.settle (startAfter size b.next x.1) (l ++ x :: r) (positive.trans_le small) (fits.chain small)
    (fun y member =>
      (b.below y member).trans_le (startAfter_window positive fits.late).1)
    (by
      have window := startAfter_window positive fits.late
      intro y member
      rcases fits.mem member with old | rfl
      · have := (b.inside y old).2
        omega
      · exact window.2.2)
    ⟨x, by simp, (startAfter_window positive fits.late).2.1⟩

theorem accept_caughtUp (fits : b.Fits x l r) : (b.accept positive small fits).CaughtUp :=
  b.settle_caughtUp

theorem accept_step (fits : b.Fits x l r) : b.Step (b.accept positive small fits) := by
  have window := startAfter_window positive fits.late
  have near := fits.near
  refine ⟨window.1.trans (le_release_next _ _), ?_, prefix_append _ _⟩
  apply release_next_le (by omega)
  intro y member
  rcases fits.mem member with old | rfl
  · have := (b.inside y old).2
    omega
  · exact near

/-- Give up on what is missing before the first held item. -/
def flush (first : b.held = x :: r) : Buffer α size reach :=
  b.settle x.1 b.held (positive.trans_le small) b.chain
    (fun y member => (b.below y member).trans (b.inside x (by simp [first])).1)
    (fun y member => by
      have := b.inside y member
      have := b.inside x (by simp [first])
      omega)
    ⟨x, by simp [first], by omega⟩

theorem flush_caughtUp (first : b.held = x :: r) : (b.flush positive small first).CaughtUp :=
  b.settle_caughtUp

theorem flush_step (first : b.held = x :: r) : b.Step (b.flush positive small first) := by
  have window := b.inside x (by simp [first])
  refine ⟨window.1.le.trans (le_release_next _ _), ?_, prefix_append _ _⟩
  apply release_next_le (by omega)
  intro y member
  have := b.inside y member
  omega

end

/-- What has been delivered is forgotten. -/
def forget : Buffer α size reach where
  next := b.next
  delivered := []
  held := b.held
  chain := b.held_chain
  below := by simp
  inside := b.inside
  linked := by simp

/-- Move the window forward to a position before every held item. -/
def advance (start : ℤ) (forward : b.next ≤ start)
    (kept : ∀ x ∈ b.held, start < x.1)
    (linked : b.held = [] → ∀ x ∈ b.delivered.getLast?, start ≤ x.1 + reach) :
    Buffer α size reach where
  next := start
  delivered := b.delivered
  held := b.held
  chain := b.chain
  below x member := (b.below x member).trans_le forward
  inside x member := ⟨kept x member, by have := (b.inside x member).2; omega⟩
  linked := linked

end Buffer

end InOrder
