import Mathlib

/-!
# Chains threaded through their cells

Each cell has the address of the link that reaches it, so that it can be taken out without a walk.
An access to a cell that is not allocated, or through a null pointer, has no result.
-/

namespace Threaded

open List Function Option

/-- The address of a link: a head, or the link of a cell. -/
inductive Link (Index Ptr : Type)
  | head (i : Index)
  | next (p : Ptr)
  deriving DecidableEq

/-- A cell of a chain. -/
structure Cell (Index Ptr Entry : Type) where
  entry : Entry
  next : Option Ptr
  pprev : Option (Link Index Ptr)

/-- The heads and the allocated cells. -/
structure Heap (Index Ptr Entry : Type) where
  head : Index → Option Ptr
  cell : Ptr → Option (Cell Index Ptr Entry)

variable {Index Ptr Entry : Type}

namespace Heap

variable (h : Heap Index Ptr Entry)

variable (p : Ptr) (c : Option (Cell Index Ptr Entry))

/-- The contents of a link. -/
def load : Link Index Ptr → Option (Option Ptr)
  | .head i => some (h.head i)
  | .next p => (h.cell p).map Cell.next

def pprev : Option (Option (Link Index Ptr)) :=
  (h.cell p).map Cell.pprev

def entry : Option Entry :=
  (h.cell p).map Cell.entry

section Observed

variable {h} {p : Ptr}

theorem cell_of_load {n : Option Ptr} (loaded : h.load (.next p) = some n) :
    ∃ c, h.cell p = some c ∧ c.next = n := by
  obtain ⟨c, there, rfl⟩ := map_eq_some_iff.mp loaded
  exact ⟨c, there, rfl⟩

theorem load_of_cell {c : Cell Index Ptr Entry} (there : h.cell p = some c) :
    h.load (.next p) = some c.next :=
  congrArg (Option.map Cell.next) there

theorem pprev_of_cell {c : Cell Index Ptr Entry} (there : h.cell p = some c) :
    h.pprev p = some c.pprev :=
  congrArg (Option.map Cell.pprev) there

end Observed

/-! ## Operations -/

/-- The first cell from here on whose entry is looked for, by a walk of so many steps. -/
def search (hit : Entry → Bool) : ℕ → Option Ptr → Option (Option Ptr)
  | _, none => some none
  | 0, some _ => none
  | fuel + 1, some p => do
    let c ← h.cell p
    if hit c.entry then some (some p) else search hit fuel c.next

section Cells

variable [DecidableEq Ptr]

/-- A cell is written or taken away. -/
def put : Heap Index Ptr Entry :=
  { h with cell := Function.update h.cell p c }

def modify (p : Ptr) (f : Cell Index Ptr Entry → Cell Index Ptr Entry) :
    Option (Heap Index Ptr Entry) :=
  (h.cell p).map fun c => h.put p (some (f c))

def free : Option (Heap Index Ptr Entry) :=
  (h.cell p).map fun _ => h.put p none

def amend (f : Entry → Entry) : Option (Heap Index Ptr Entry) :=
  h.modify p fun c => { c with entry := f c.entry }

/-- The address of the link goes into the cell behind it, if there is one. -/
def point : Option Ptr → Option (Link Index Ptr) → Option (Heap Index Ptr Entry)
  | none, _ => some h
  | some q, l => h.modify q fun c => { c with pprev := l }

variable {h} {p : Ptr}

theorem load_put_of_ne {l : Link Index Ptr} (other : l ≠ .next p)
    (c : Option (Cell Index Ptr Entry)) : (h.put p c).load l = h.load l := by
  cases l with
  | head i => rfl
  | next r =>
    have apart : r ≠ p := fun same => other (congrArg Link.next same)
    simp [load, put, apart]

theorem cell_put_of_ne {q : Ptr} (other : q ≠ p) (c : Option (Cell Index Ptr Entry)) :
    (h.put p c).cell q = h.cell q :=
  update_of_ne other _ _

theorem pprev_put_of_ne {q : Ptr} (other : q ≠ p) (c : Option (Cell Index Ptr Entry)) :
    (h.put p c).pprev q = h.pprev q :=
  congrArg (Option.map Cell.pprev) (cell_put_of_ne other c)

theorem entry_put_of_ne {q : Ptr} (other : q ≠ p) (c : Option (Cell Index Ptr Entry)) :
    (h.put p c).entry q = h.entry q :=
  congrArg (Option.map Cell.entry) (cell_put_of_ne other c)

@[simp] theorem cell_put_self : (h.put p c).cell p = c :=
  update_self _ _ _

/-- What `point` changes. -/
structure Pointed (h : Heap Index Ptr Entry) (q : Option Ptr) (l : Option (Link Index Ptr))
    (h' : Heap Index Ptr Entry) : Prop where
  load : ∀ l', h'.load l' = h.load l'
  pprev : ∀ r, h'.pprev r = if q = some r then some l else h.pprev r
  entry : ∀ r, h'.entry r = h.entry r

theorem exists_point {q : Option Ptr} (there : ∀ r, q = some r → h.pprev r ≠ none)
    (l : Option (Link Index Ptr)) : ∃ h', h.point q l = some h' ∧ h.Pointed q l h' := by
  cases q with
  | none => exact ⟨h, rfl, fun _ => rfl, fun _ => by simp, fun _ => rfl⟩
  | some p =>
    obtain ⟨b, back⟩ := ne_none_iff_exists'.mp (there p rfl)
    obtain ⟨c, cell, -⟩ := map_eq_some_iff.mp back
    refine ⟨h.put p (some { c with pprev := l }), by simp [point, modify, cell], ?_, ?_, ?_⟩
    · intro l'
      by_cases same : l' = .next p
      · simp [same, load, cell]
      · exact load_put_of_ne same _
    · intro r
      by_cases same : r = p
      · simp [same, Heap.pprev]
      · simp [pprev_put_of_ne same, Ne.symm same]
    · intro r
      by_cases same : r = p
      · simp [same, Heap.entry, cell]
      · exact entry_put_of_ne same _

/-- What `amend` changes. -/
structure Amended (h : Heap Index Ptr Entry) (p : Ptr) (f : Entry → Entry)
    (h' : Heap Index Ptr Entry) : Prop where
  load : ∀ l, h'.load l = h.load l
  pprev : ∀ r, h'.pprev r = h.pprev r
  own : h'.entry p = (h.entry p).map f
  entry : ∀ r, r ≠ p → h'.entry r = h.entry r

theorem exists_amend (there : h.pprev p ≠ none) (f : Entry → Entry) :
    ∃ h', h.amend p f = some h' ∧ h.Amended p f h' := by
  obtain ⟨b, back⟩ := ne_none_iff_exists'.mp there
  obtain ⟨c, cell, -⟩ := map_eq_some_iff.mp back
  refine ⟨h.put p (some { c with entry := f c.entry }), by simp [amend, modify, cell], ?_,
    ?_, ?_, ?_⟩
  · intro l
    by_cases same : l = .next p
    · simp [same, load, cell]
    · exact load_put_of_ne same _
  · intro r
    by_cases same : r = p
    · simp [same, Heap.pprev, cell]
    · exact pprev_put_of_ne same _
  · simp [Heap.entry, cell]
  · intro r other
    exact entry_put_of_ne other _

end Cells

variable [DecidableEq Index] [DecidableEq Ptr]

/-- A link is set. -/
def store : Link Index Ptr → Option Ptr → Option (Heap Index Ptr Entry)
  | .head i, q => some { h with head := Function.update h.head i q }
  | .next p, q => h.modify p fun c => { c with next := q }

/-- A cell is put in front of a chain. -/
def link (i : Index) : Option (Heap Index Ptr Entry) := do
  let h ← h.store (.next p) (h.head i)
  let next ← h.load (.next p)
  let h ← h.point next (some (.next p))
  let h ← h.store (.head i) (some p)
  h.point (some p) (some (.head i))

/-- A cell is taken out of its chain. -/
def unlink : Option (Heap Index Ptr Entry) := do
  let c ← h.cell p
  let l ← c.pprev
  let h ← h.store l c.next
  let c ← h.cell p
  let h ← h.point c.next c.pprev
  h.modify p fun c => { c with next := none, pprev := none }

/-- A cell is taken out and freed. -/
def remove : Option (Heap Index Ptr Entry) := do
  let h ← h.unlink p
  h.free p

/-! ## What the operations change -/

variable {h} {p : Ptr}

/-- What `store` changes. -/
structure Stored (h : Heap Index Ptr Entry) (l : Link Index Ptr) (q : Option Ptr)
    (h' : Heap Index Ptr Entry) : Prop where
  load : ∀ l', h'.load l' = if l' = l then some q else h.load l'
  pprev : ∀ r, h'.pprev r = h.pprev r
  entry : ∀ r, h'.entry r = h.entry r

theorem exists_store {l : Link Index Ptr} (there : h.load l ≠ none) (q : Option Ptr) :
    ∃ h', h.store l q = some h' ∧ h.Stored l q h' := by
  cases l with
  | head i =>
    refine ⟨_, rfl, ⟨fun l' => ?_, fun _ => rfl, fun _ => rfl⟩⟩
    cases l' with
    | head j => by_cases same : j = i <;> simp [load, same]
    | next r => simp [load]
  | next p =>
    obtain ⟨n, loaded⟩ := ne_none_iff_exists'.mp there
    obtain ⟨c, cell, -⟩ := cell_of_load loaded
    refine ⟨h.put p (some { c with next := q }), by simp [store, modify, cell], ?_, ?_, ?_⟩
    · intro l'
      by_cases same : l' = .next p
      · simp [same, load]
      · rw [load_put_of_ne same, if_neg same]
    · intro r
      by_cases same : r = p
      · simp [same, Heap.pprev, cell]
      · exact pprev_put_of_ne same _
    · intro r
      by_cases same : r = p
      · simp [same, Heap.entry, cell]
      · exact entry_put_of_ne same _

/-- A cell that was reached through `l` and led to `nxt` has been taken out. -/
structure Removed (h : Heap Index Ptr Entry) (p : Ptr) (l : Link Index Ptr) (nxt : Option Ptr)
    (h' : Heap Index Ptr Entry) : Prop where
  bridged : h'.load l = some nxt
  load : ∀ l', l' ≠ l → l' ≠ .next p → h'.load l' = h.load l'
  pointed : ∀ q, nxt = some q → h'.pprev q = some (some l)
  pprev : ∀ q, q ≠ p → nxt ≠ some q → h'.pprev q = h.pprev q
  entry : ∀ q, q ≠ p → h'.entry q = h.entry q
  gone : h'.cell p = none

theorem exists_remove {l : Link Index Ptr} {nxt : Option Ptr} (back : h.pprev p = some (some l))
    (ahead : h.load (.next p) = some nxt) (other : l ≠ .next p) (there : h.load l ≠ none)
    (follows : ∀ q, nxt = some q → q ≠ p ∧ h.pprev q ≠ none) :
    ∃ h', h.remove p = some h' ∧ h.Removed p l nxt h' := by
  obtain ⟨c, cell, rfl⟩ := cell_of_load ahead
  have front : c.pprev = some l := some.inj ((pprev_of_cell cell).symm.trans back)
  obtain ⟨h₁, stored, spec₁⟩ := exists_store there c.next
  obtain ⟨c₁, cell₁, next₁⟩ : ∃ c₁, h₁.cell p = some c₁ ∧ c₁.next = c.next := by
    apply cell_of_load
    rw [spec₁.load, if_neg (Ne.symm other), ahead]
  have front₁ : c₁.pprev = some l :=
    some.inj ((pprev_of_cell cell₁).symm.trans ((spec₁.pprev p).trans back))
  have follows₁ (r : Ptr) (found : c.next = some r) : h₁.pprev r ≠ none := by
    rw [spec₁.pprev]
    exact (follows r found).2
  obtain ⟨h₂, pointed, spec₂⟩ := exists_point follows₁ (some l)
  obtain ⟨c₂, cell₂, -⟩ : ∃ c₂, h₂.cell p = some c₂ ∧ c₂.next = c.next := by
    apply cell_of_load
    rw [spec₂.load, load_of_cell cell₁, next₁]
  refine ⟨h₂.put p none, ?_, ?_⟩
  · simp [remove, unlink, cell, front, stored, cell₁, next₁, front₁, pointed, modify, cell₂,
      free, put]
  constructor
  case bridged => rw [load_put_of_ne other, spec₂.load, spec₁.load, if_pos rfl]
  case load =>
    intro l' apart apart'
    rw [load_put_of_ne apart', spec₂.load, spec₁.load, if_neg apart]
  case pointed =>
    intro q found
    rw [pprev_put_of_ne (follows q found).1, spec₂.pprev, if_pos found]
  case pprev =>
    intro q apart missed
    rw [pprev_put_of_ne apart, spec₂.pprev, if_neg missed, spec₁.pprev]
  case entry =>
    intro q apart
    rw [entry_put_of_ne apart, spec₂.entry, spec₁.entry]
  case gone => exact cell_put_self none

/-- A new cell is the first of its chain. -/
structure Inserted (h : Heap Index Ptr Entry) (p : Ptr) (e : Entry) (i : Index)
    (h' : Heap Index Ptr Entry) : Prop where
  first : h'.load (.head i) = some (some p)
  next : h'.load (.next p) = some (h.head i)
  load : ∀ l, l ≠ .head i → l ≠ .next p → h'.load l = h.load l
  back : h'.pprev p = some (some (.head i))
  pointed : ∀ q, h.head i = some q → h'.pprev q = some (some (.next p))
  pprev : ∀ q, q ≠ p → h.head i ≠ some q → h'.pprev q = h.pprev q
  own : h'.entry p = some e
  entry : ∀ q, q ≠ p → h'.entry q = h.entry q

theorem exists_insert {i : Index} (apart : h.head i ≠ some p)
    (follows : ∀ q, h.head i = some q → h.pprev q ≠ none) (c : Cell Index Ptr Entry) :
    ∃ h', (h.put p (some c)).link p i = some h' ∧ h.Inserted p c.entry i h' := by
  have there : (h.put p (some c)).load (.next p) ≠ none := by simp [load]
  obtain ⟨h₁, stored, spec₁⟩ := exists_store there (h.head i)
  have ne_of_follows {q : Ptr} (found : h.head i = some q) : q ≠ p := by
    rintro rfl
    exact apart found
  have follows₁ (q : Ptr) (found : h.head i = some q) : h₁.pprev q ≠ none := by
    rw [spec₁.pprev, pprev_put_of_ne (ne_of_follows found)]
    exact follows q found
  obtain ⟨h₂, pointed, spec₂⟩ := exists_point follows₁ (some (.next p))
  obtain ⟨h₃, headed, spec₃⟩ :=
    @exists_store _ _ _ h₂ _ _ (.head i) (some_ne_none _) (some p)
  have allocated (r : Ptr) (self : some p = some r) : h₃.pprev r ≠ none := by
    cases self
    rw [spec₃.pprev, spec₂.pprev, if_neg apart, spec₁.pprev]
    simp [Heap.pprev]
  obtain ⟨h₄, fronted, spec₄⟩ := exists_point allocated (some (.head i))
  refine ⟨h₄, ?_, ?_⟩
  · have reread : h₁.load (.next p) = some (h.head i) := by rw [spec₁.load, if_pos rfl]
    change ((h.put p (some c)).store (.next p) (h.head i)).bind _ = _
    simp [stored, reread, pointed, headed, fronted]
  constructor
  case first => rw [spec₄.load, spec₃.load, if_pos rfl]
  case next => rw [spec₄.load, spec₃.load, if_neg (by simp), spec₂.load, spec₁.load, if_pos rfl]
  case load =>
    intro l front self
    rw [spec₄.load, spec₃.load, if_neg front, spec₂.load, spec₁.load, if_neg self,
      load_put_of_ne self]
  case back => rw [spec₄.pprev, if_pos rfl]
  case pointed =>
    intro q found
    have other : some p ≠ some q := fun same => ne_of_follows found (some.inj same).symm
    rw [spec₄.pprev, if_neg other, spec₃.pprev, spec₂.pprev, if_pos found]
  case pprev =>
    intro q other missed
    have other' : some p ≠ some q := fun same => other (some.inj same).symm
    rw [spec₄.pprev, if_neg other', spec₃.pprev, spec₂.pprev, if_neg missed, spec₁.pprev,
      pprev_put_of_ne other]
  case own =>
    rw [spec₄.entry, spec₃.entry, spec₂.entry, spec₁.entry]
    simp [Heap.entry]
  case entry =>
    intro q other
    rw [spec₄.entry, spec₃.entry, spec₂.entry, spec₁.entry, entry_put_of_ne other]

/-! ## Chains -/

/-- The cells behind a link, each with the address of the link that reaches it. -/
def Reaches (h : Heap Index Ptr Entry) : Link Index Ptr → List Ptr → Prop
  | l, [] => h.load l = some none
  | l, p :: ps => h.load l = some (some p) ∧ h.pprev p = some (some l) ∧ Reaches h (.next p) ps

section Reaches

omit [DecidableEq Index] [DecidableEq Ptr]

variable {l : Link Index Ptr} {ps : List Ptr} {h' : Heap Index Ptr Entry}

theorem Reaches.load_eq (reaches : h.Reaches l ps) : h.load l = some ps.head? := by
  cases ps with
  | nil => exact reaches
  | cons p ps => exact reaches.1

/-- A link reaches one list of cells. -/
theorem Reaches.unique {ps' : List Ptr} (reaches : h.Reaches l ps) (reaches' : h.Reaches l ps') :
    ps = ps' := by
  induction ps generalizing l ps' with
  | nil =>
    have first := some.inj (reaches.load_eq.symm.trans reaches'.load_eq)
    exact (List.head?_eq_none_iff.mp first.symm).symm
  | cons p ps ih =>
    have first := some.inj (reaches.load_eq.symm.trans reaches'.load_eq)
    cases ps' with
    | nil => cases first
    | cons p' ps' =>
      cases first
      rw [ih reaches.2.2 reaches'.2.2]

theorem Reaches.tail {ks rest : List Ptr} (reaches : h.Reaches l (ks ++ p :: rest)) :
    h.Reaches (.next p) rest := by
  induction ks generalizing l with
  | nil => exact reaches.2.2
  | cons k ks ih => exact ih reaches.2.2

theorem Reaches.back {q : Ptr} (reaches : h.Reaches l ps) (mem : q ∈ ps) :
    ∃ l', h.pprev q = some (some l') ∧ h.load l' = some (some q) ∧
      (l' = l ∨ ∃ r ∈ ps, l' = .next r) := by
  induction ps generalizing l with
  | nil => cases mem
  | cons k ks ih =>
    rcases mem_cons.mp mem with rfl | later
    · exact ⟨l, reaches.2.1, reaches.1, .inl rfl⟩
    · obtain ⟨l', back, loaded, rfl | ⟨r, there, rfl⟩⟩ := ih reaches.2.2 later
      · exact ⟨_, back, loaded, .inr ⟨k, mem_cons_self, rfl⟩⟩
      · exact ⟨_, back, loaded, .inr ⟨r, mem_cons_of_mem k there, rfl⟩⟩

theorem Reaches.allocated {q : Ptr} (reaches : h.Reaches l ps) (mem : q ∈ ps) :
    h.pprev q ≠ none := by
  obtain ⟨l', back, -⟩ := reaches.back mem
  rw [back]
  exact some_ne_none _

theorem Reaches.frame (reaches : h.Reaches l ps) (first : h'.load l = h.load l)
    (loads : ∀ q ∈ ps, h'.load (.next q) = h.load (.next q))
    (pprevs : ∀ q ∈ ps, h'.pprev q = h.pprev q) : h'.Reaches l ps := by
  induction ps generalizing l with
  | nil => exact first.trans reaches
  | cons p ps ih =>
    refine ⟨first.trans reaches.1, (pprevs p mem_cons_self).trans reaches.2.1, ?_⟩
    exact ih reaches.2.2 (loads p mem_cons_self)
      (fun q mem => loads q (mem_cons_of_mem p mem))
      (fun q mem => pprevs q (mem_cons_of_mem p mem))

/-- A walk along a chain is a search in the list. -/
theorem Reaches.search_eq (reaches : h.Reaches l ps) (hit : Entry → Bool) {fuel : ℕ}
    (enough : ps.length ≤ fuel) :
    h.search hit fuel ps.head? = some (ps.find? fun q => (h.entry q).any hit) := by
  induction ps generalizing l fuel with
  | nil => rw [List.head?_nil, search, List.find?_nil]
  | cons p ps ih =>
    obtain ⟨fuel, rfl⟩ : ∃ n, fuel = n + 1 := ⟨fuel - 1, by rw [length_cons] at enough; omega⟩
    obtain ⟨c, cell, next⟩ := cell_of_load reaches.2.2.load_eq
    have own : h.entry p = some c.entry := congrArg (Option.map Cell.entry) cell
    have rest := ih reaches.2.2 (Nat.le_of_succ_le_succ enough)
    simp only [List.head?_cons, search, cell, next, bind_eq_bind, bind_some,
      List.find?_cons, own, any_some, rest]
    cases hit c.entry with
    | true => rfl
    | false => rfl

/-- The induction is on the cells in front of the one that is taken out: their links stay as they
are, but for the last. -/
theorem Reaches.removed {l₀ : Link Index Ptr} {nxt : Option Ptr} {ks rest : List Ptr}
    (reaches : h.Reaches l₀ (ks ++ p :: rest)) (nodup : (ks ++ p :: rest).Nodup)
    (outside : ∀ q ∈ ks ++ p :: rest, l₀ ≠ .next q) (back : h.pprev p = some (some l))
    (ahead : h.load (.next p) = some nxt) (removed : h.Removed p l nxt h') :
    h'.Reaches l₀ (ks ++ rest) := by
  induction ks generalizing l₀ with
  | nil =>
    obtain ⟨-, front, behind⟩ := reaches
    cases back.symm.trans front
    have bridged := removed.bridged
    cases some.inj (ahead.symm.trans behind.load_eq)
    cases rest with
    | nil => exact bridged
    | cons q rest =>
      refine ⟨bridged, removed.pointed q rfl, ?_⟩
      simp only [nil_append, nodup_cons, mem_cons, not_or] at nodup
      obtain ⟨⟨p_ne_q, p_notMem⟩, q_notMem, -⟩ := nodup
      have load_kept {r : Ptr} (mem : r ∈ q :: rest) (other : r ≠ p) :
          h'.load (.next r) = h.load (.next r) :=
        removed.load _ (outside r (mem_cons_of_mem p mem)).symm (by simpa using other)
      apply behind.2.2.frame
      · exact load_kept mem_cons_self (Ne.symm p_ne_q)
      · intro r mem
        exact load_kept (mem_cons_of_mem q mem) (fun same => p_notMem (same ▸ mem))
      · intro r mem
        apply removed.pprev r (fun same => p_notMem (same ▸ mem))
        intro same
        exact q_notMem (some.inj same ▸ mem)
  | cons k ks ih =>
    obtain ⟨first, front, behind⟩ := reaches
    rw [cons_append, nodup_cons] at nodup
    obtain ⟨k_notMem, nodup⟩ := nodup
    have p_mem : p ∈ ks ++ p :: rest := mem_append_right ks mem_cons_self
    have nxt_eq : nxt = rest.head? := some.inj (ahead.symm.trans behind.tail.load_eq)
    refine ⟨?_, ?_, ?_⟩
    · -- the link of the cell that goes is behind the first one
      rw [removed.load l₀ ?_ (outside p (mem_cons_of_mem k p_mem)), first]
      rintro rfl
      obtain ⟨l', back', -, rfl | ⟨r, mem, rfl⟩⟩ := behind.back p_mem
      · cases back.symm.trans back'
        exact outside k mem_cons_self rfl
      · cases back.symm.trans back'
        exact outside r (mem_cons_of_mem k mem) rfl
    · rw [removed.pprev k, front]
      · rintro rfl
        exact k_notMem p_mem
      · intro same
        have mem : k ∈ rest := mem_of_mem_head? (nxt_eq ▸ same)
        exact k_notMem (mem_append_right ks (mem_cons_of_mem p mem))
    · apply ih behind nodup
      intro q mem same
      cases same
      exact k_notMem mem

theorem Reaches.removed_elsewhere {l₀ : Link Index Ptr} {nxt : Option Ptr}
    (reaches : h.Reaches l₀ ps) (removed : h.Removed p l nxt h') (first : l₀ ≠ l)
    (first' : l₀ ≠ .next p) (front : ∀ q ∈ ps, .next q ≠ l) (self : p ∉ ps)
    (behind : ∀ q ∈ ps, nxt ≠ some q) : h'.Reaches l₀ ps := by
  apply reaches.frame
  · exact removed.load _ first first'
  · intro q mem
    apply removed.load _ (front q mem)
    rintro ⟨⟩
    exact self mem
  · intro q mem
    apply removed.pprev q _ (behind q mem)
    rintro rfl
    exact self mem

theorem Reaches.inserted {e : Entry} {i : Index} (reaches : h.Reaches (.head i) ps)
    (nodup : ps.Nodup) (unused : p ∉ ps) (inserted : h.Inserted p e i h') :
    h'.Reaches (.head i) (p :: ps) := by
  refine ⟨inserted.first, inserted.back, ?_⟩
  have first : h.head i = ps.head? := some.inj reaches.load_eq
  have next := inserted.next
  rw [first] at next
  cases ps with
  | nil => exact next
  | cons q qs =>
    have load_kept {r : Ptr} (mem : r ∈ q :: qs) : h'.load (.next r) = h.load (.next r) := by
      apply inserted.load _ (by simp)
      rintro ⟨⟩
      exact unused mem
    refine ⟨next, inserted.pointed q first, reaches.2.2.frame (load_kept mem_cons_self) ?_ ?_⟩
    · exact fun r mem => load_kept (mem_cons_of_mem q mem)
    · intro r mem
      apply inserted.pprev r
      · rintro rfl
        exact unused (mem_cons_of_mem q mem)
      · rw [first]
        rintro ⟨⟩
        exact (nodup_cons.mp nodup).1 mem

theorem Reaches.inserted_elsewhere {e : Entry} {i j : Index} (reaches : h.Reaches (.head j) ps)
    (inserted : h.Inserted p e i h') (other : j ≠ i) (unused : p ∉ ps)
    (behind : ∀ q ∈ ps, h.head i ≠ some q) : h'.Reaches (.head j) ps := by
  apply reaches.frame
  · exact inserted.load _ (by simpa using other) (by simp)
  · intro q mem
    apply inserted.load _ (by simp)
    rintro ⟨⟩
    exact unused mem
  · intro q mem
    apply inserted.pprev q _ (behind q mem)
    rintro rfl
    exact unused mem

end Reaches

/-- The cells are those of the chains, and each is on one of them once. -/
structure Shaped (h : Heap Index Ptr Entry) (chain : Index → List Ptr) : Prop where
  reaches : ∀ i, h.Reaches (.head i) (chain i)
  nodup : ∀ i, (chain i).Nodup
  apart : ∀ {i j p}, p ∈ chain i → p ∈ chain j → i = j
  owned : ∀ p, h.pprev p ≠ none → ∃ i, p ∈ chain i

namespace Shaped

variable {chain : Index → List Ptr} {h' : Heap Index Ptr Entry}

omit [DecidableEq Index] [DecidableEq Ptr] in
theorem empty :
    Shaped (⟨fun _ => none, fun _ => none⟩ : Heap Index Ptr Entry) (fun _ => []) where
  reaches := fun _ => rfl
  nodup := fun _ => nodup_nil
  apart := nofun
  owned := fun _ some => absurd rfl some

omit [DecidableEq Index] [DecidableEq Ptr] in
theorem head_eq (shaped : h.Shaped chain) (i : Index) : h.head i = (chain i).head? :=
  some.inj (shaped.reaches i).load_eq

omit [DecidableEq Index] [DecidableEq Ptr] in
theorem amended {f : Entry → Entry} (shaped : h.Shaped chain) (amended : h.Amended p f h') :
    h'.Shaped chain where
  reaches := fun i => (shaped.reaches i).frame (amended.load _) (fun _ _ => amended.load _)
    (fun _ _ => amended.pprev _)
  nodup := shaped.nodup
  apart := shaped.apart
  owned := fun q there => shaped.owned q (amended.pprev q ▸ there)

section Remove

variable {i : Index} {ks rest : List Ptr}

omit [DecidableEq Ptr] in
theorem mem_update (shaped : h.Shaped chain) (place : chain i = ks ++ p :: rest) (j : Index)
    (q : Ptr) : q ∈ Function.update chain i (ks ++ rest) j ↔ q ∈ chain j ∧ q ≠ p := by
  by_cases same : j = i
  · subst same
    have nodup := shaped.nodup j
    rw [place, nodup_append, nodup_cons] at nodup
    obtain ⟨-, ⟨p_notMem, -⟩, disjoint⟩ := nodup
    have p_notMem' : p ∉ ks := fun mem => disjoint p mem p mem_cons_self rfl
    rw [update_self, place]
    simp only [mem_append, mem_cons]
    constructor
    · rintro (mem | mem)
      · exact ⟨.inl mem, fun same => p_notMem' (same ▸ mem)⟩
      · exact ⟨.inr (.inr mem), fun same => p_notMem (same ▸ mem)⟩
    · rintro ⟨mem | rfl | mem, other⟩
      · exact .inl mem
      · exact absurd rfl other
      · exact .inr mem
  · rw [update_of_ne same]
    refine (and_iff_left_of_imp ?_).symm
    rintro mem rfl
    exact same (shaped.apart mem (place ▸ mem_append_right ks mem_cons_self))

omit [DecidableEq Index] [DecidableEq Ptr] in
theorem neighbours (shaped : h.Shaped chain) (place : chain i = ks ++ p :: rest) :
    h.load (.next p) = some rest.head? ∧ (∀ q, rest.head? = some q → q ∈ chain i ∧ q ≠ p) ∧
      ∃ l, h.pprev p = some (some l) ∧ h.load l = some (some p) ∧ l ≠ .next p ∧
        (l = .head i ∨ ∃ r ∈ chain i, l = .next r) := by
  have reaches := shaped.reaches i
  have nodup := shaped.nodup i
  rw [place] at reaches nodup ⊢
  have p_notMem : p ∉ rest := (nodup_cons.mp (nodup_append.mp nodup).2.1).1
  have ahead : h.load (.next p) = some rest.head? := reaches.tail.load_eq
  obtain ⟨l, back, reached, origin⟩ :=
    reaches.back (mem_append_right ks mem_cons_self : p ∈ ks ++ p :: rest)
  refine ⟨ahead, ?_, l, back, reached, ?_, origin⟩
  · intro q found
    have mem := mem_of_mem_head? found
    exact ⟨mem_append_right ks (mem_cons_of_mem p mem), fun same => p_notMem (same ▸ mem)⟩
  · -- a cell whose link leads to itself would be on the chain twice
    rintro rfl
    have looped : rest.head? = some p := some.inj (ahead.symm.trans reached)
    exact p_notMem (mem_of_mem_head? looped)

/-- Removing a cell succeeds and takes it off its chain. -/
theorem remove (shaped : h.Shaped chain) (place : chain i = ks ++ p :: rest) :
    ∃ h', h.remove p = some h' ∧ h'.Shaped (Function.update chain i (ks ++ rest)) ∧
      h'.entry p = none ∧ ∀ q, q ≠ p → h'.entry q = h.entry q := by
  obtain ⟨ahead, behind, l, back, reached, self, origin⟩ := shaped.neighbours place
  have p_mem : p ∈ chain i := place ▸ mem_append_right ks mem_cons_self
  have follows (q : Ptr) (found : rest.head? = some q) : q ≠ p ∧ h.pprev q ≠ none :=
    ⟨(behind q found).2, (shaped.reaches i).allocated (behind q found).1⟩
  obtain ⟨h', done, removed⟩ := exists_remove back ahead self (by rw [reached]; simp) follows
  refine ⟨h', done, ?_, congrArg (Option.map Cell.entry) removed.gone, removed.entry⟩
  constructor
  case reaches =>
    intro j
    by_cases same : j = i
    · subst same
      rw [update_self]
      have reaches := shaped.reaches j
      have nodup := shaped.nodup j
      rw [place] at reaches nodup
      exact reaches.removed nodup (fun _ _ => by simp) back ahead removed
    · -- the other chains have no cell or link in common with this one
      rw [update_of_ne same]
      have elsewhere {q : Ptr} (mem : q ∈ chain i) : q ∉ chain j :=
        fun mem' => same (shaped.apart mem' mem)
      apply (shaped.reaches j).removed_elsewhere removed
      · rintro rfl
        rcases origin with origin | ⟨r, -, origin⟩
        · exact same (Link.head.inj origin)
        · cases origin
      · simp
      · rintro q mem rfl
        rcases origin with origin | ⟨r, there, origin⟩
        · cases origin
        · cases origin
          exact elsewhere there mem
      · exact elsewhere p_mem
      · exact fun q mem found => elsewhere (behind q found).1 mem
  case nodup =>
    intro j
    by_cases same : j = i
    · subst same
      rw [update_self]
      have nodup := shaped.nodup j
      rw [place] at nodup
      exact nodup.sublist (List.Sublist.append_left (sublist_cons_self p rest) ks)
    · rw [update_of_ne same]
      exact shaped.nodup j
  case apart =>
    intro j k q mem mem'
    exact shaped.apart ((shaped.mem_update place j q).mp mem).1
      ((shaped.mem_update place k q).mp mem').1
  case owned =>
    intro q there
    have other : q ≠ p := by
      rintro rfl
      exact there (congrArg (Option.map Cell.pprev) removed.gone)
    have before : h.pprev q ≠ none := by
      by_cases found : rest.head? = some q
      · exact (follows q found).2
      · rw [← removed.pprev q other found]
        exact there
    obtain ⟨j, mem⟩ := shaped.owned q before
    exact ⟨j, (shaped.mem_update place j q).mpr ⟨mem, other⟩⟩

end Remove

omit [DecidableEq Ptr] in
theorem mem_update_cons {i j : Index} {q : Ptr} :
    q ∈ Function.update chain i (p :: chain i) j ↔ q ∈ chain j ∨ (q = p ∧ j = i) := by
  by_cases same : j = i
  · subst same
    rw [update_self, mem_cons, or_comm]
    simp only [and_true]
  · rw [update_of_ne same]
    simp only [same, and_false, or_false]

/-- Inserting succeeds and puts the cell in front. -/
theorem insert (shaped : h.Shaped chain) (fresh : h.cell p = none) (c : Cell Index Ptr Entry)
    (i : Index) :
    ∃ h', (h.put p (some c)).link p i = some h' ∧
      h'.Shaped (Function.update chain i (p :: chain i)) ∧ h.Inserted p c.entry i h' := by
  have unused (j : Index) : p ∉ chain j := by
    intro mem
    exact (shaped.reaches j).allocated mem (congrArg (Option.map Cell.pprev) fresh)
  have head_mem {q : Ptr} (found : h.head i = some q) : q ∈ chain i :=
    mem_of_mem_head? ((shaped.head_eq i).symm.trans found)
  obtain ⟨h', done, inserted⟩ :=
    @exists_insert _ _ _ h _ _ p i (fun found => unused i (head_mem found))
    (fun q found => (shaped.reaches i).allocated (head_mem found)) c
  refine ⟨h', done, ?_, inserted⟩
  constructor
  case reaches =>
    intro j
    by_cases same : j = i
    · subst same
      rw [update_self]
      exact (shaped.reaches j).inserted (shaped.nodup j) (unused j) inserted
    · rw [update_of_ne same]
      apply (shaped.reaches j).inserted_elsewhere inserted same (unused j)
      intro q mem found
      exact same (shaped.apart mem (head_mem found))
  case nodup =>
    intro j
    by_cases same : j = i
    · subst same
      rw [update_self]
      exact nodup_cons.mpr ⟨unused j, shaped.nodup j⟩
    · rw [update_of_ne same]
      exact shaped.nodup j
  case apart =>
    intro j k q mem mem'
    rw [mem_update_cons] at mem mem'
    rcases mem with mem | ⟨rfl, rfl⟩
    · rcases mem' with mem' | ⟨rfl, rfl⟩
      · exact shaped.apart mem mem'
      · exact absurd mem (unused j)
    · rcases mem' with mem' | ⟨-, rfl⟩
      · exact absurd mem' (unused k)
      · rfl
  case owned =>
    intro q there
    by_cases self : q = p
    · exact ⟨i, mem_update_cons.mpr (.inr ⟨self, rfl⟩)⟩
    by_cases found : h.head i = some q
    · exact ⟨i, mem_update_cons.mpr (.inl (head_mem found))⟩
    · rw [inserted.pprev q self found] at there
      obtain ⟨j, mem⟩ := shaped.owned q there
      exact ⟨j, mem_update_cons.mpr (.inl mem)⟩

end Shaped

end Heap

end Threaded
