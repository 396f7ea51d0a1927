import Mathlib.Data.List.Nodup
import Mathlib.Data.List.Perm.Subperm
import Mathlib.Logic.Function.Basic

/-!
# A heap with uninitialised contents

`malloc` is a parameter: it chooses an address that is not in use, and the new
object starts with whatever that memory held before. A `Slot` remembers whether
it has been written since. `Segment` is a list linked through one field;
`Chain` is one that ends in the null pointer.
-/

namespace Memory

universe u v

abbrev Addr := Nat

/-- A pointer; `none` is the null pointer. -/
abbrev Ptr := Option Addr

inductive Slot (α : Type u)
  | prior (v : α)
  | written (v : α)
  deriving DecidableEq, Repr

def Slot.get : Slot α → α
  | .prior v | .written v => v

def Slot.Written : Slot α → Prop
  | .prior _ => False
  | .written _ => True

/-- Objects at their addresses; all of them lie below `bound`. -/
structure Heap (α : Type u) where
  cell : Addr → Option α
  bound : Addr
  live_lt : ∀ a v, cell a = some v → a < bound

/-- An allocator: where the next object goes and what its memory holds. -/
structure Malloc (α : Type u) (β : Type v) where
  addr : Heap α → Addr
  fresh : ∀ h : Heap α, h.cell (addr h) = none
  prior : Heap α → β

/-- The allocator that never uses an address twice. -/
def Malloc.bump (b : β) : Malloc α β where
  addr h := h.bound
  fresh h := by
    cases hc : h.cell h.bound with
    | none => rfl
    | some v => exact absurd (h.live_lt _ v hc) (Nat.lt_irrefl _)
  prior _ := b

def Heap.empty : Heap α := ⟨fun _ => none, 0, fun _ _ h => nomatch h⟩

def Heap.set (h : Heap α) (a : Addr) (v : α) : Heap α where
  cell := Function.update h.cell a (some v)
  bound := max h.bound (a + 1)
  live_lt b w hb := by
    by_cases hba : b = a
    · subst hba
      exact Nat.lt_of_lt_of_le (Nat.lt_succ_self b) (Nat.le_max_right _ _)
    · rw [Function.update_of_ne hba] at hb
      exact Nat.lt_of_lt_of_le (h.live_lt b w hb) (Nat.le_max_left _ _)

def Heap.free (h : Heap α) (a : Addr) : Heap α where
  cell := Function.update h.cell a none
  bound := h.bound
  live_lt b w hb := by
    by_cases hba : b = a
    · subst hba
      simp at hb
    · rw [Function.update_of_ne hba] at hb
      exact h.live_lt b w hb

def Heap.malloc (h : Heap α) (M : Malloc α β) (raw : β → α) : Addr × Heap α :=
  (M.addr h, h.set (M.addr h) (raw (M.prior h)))

/-- A write through a pointer; `none` if it points to no object. -/
def Heap.modify (h : Heap α) (a : Addr) (f : α → α) : Option (Heap α) :=
  (h.cell a).map fun v => h.set a (f v)

@[simp] theorem set_cell_self (h : Heap α) (a : Addr) (v : α) : (h.set a v).cell a = some v :=
  Function.update_self ..

theorem set_cell_of_ne (h : Heap α) (v : α) (hb : b ≠ a) : (h.set a v).cell b = h.cell b :=
  Function.update_of_ne hb ..

theorem free_cell_of_ne (h : Heap α) (hb : b ≠ a) : (h.free a).cell b = h.cell b :=
  Function.update_of_ne hb ..

@[simp] theorem set_set (h : Heap α) (a : Addr) (v w : α) : (h.set a v).set a w = h.set a w := by
  simp [Heap.set, Function.update_idem]

theorem set_of_cell {h : Heap α} (hc : h.cell a = some v) : h.set a v = h := by
  have hcell : Function.update h.cell a (some v) = h.cell := by rw [← hc, Function.update_eq_self]
  have hbound : max h.bound (a + 1) = h.bound := Nat.max_eq_left (h.live_lt a v hc)
  simp only [Heap.set, hcell, hbound]

theorem modify_some {h : Heap α} (hc : h.cell a = some v) (f : α → α) :
    h.modify a f = some (h.set a (f v)) := by
  simp [Heap.modify, hc]

@[simp] theorem modify_set (h : Heap α) (a : Addr) (v : α) (f : α → α) :
    (h.set a v).modify a f = some (h.set a (f v)) := by
  rw [modify_some (set_cell_self h a v), set_set]

-- ---------------------------------------------------------------------------
-- Linked lists
-- ---------------------------------------------------------------------------

/-- Following `link` from `p` visits the objects of the list and arrives at `q`. -/
inductive Segment (h : Heap α) (link : α → Slot Ptr) : Ptr → List (Addr × α) → Ptr → Prop
  | nil : Segment h link p [] p
  | cons : h.cell a = some v → link v = .written q → Segment h link q l r →
      Segment h link (some a) ((a, v) :: l) r

def Chain (h : Heap α) (link : α → Slot Ptr) (p : Ptr) (l : List (Addr × α)) : Prop :=
  Segment h link p l none

section
variable {h h' : Heap α} {link : α → Slot Ptr} {l : List (Addr × α)} {p q : Ptr}

theorem Segment.snoc (hs : Segment h link p l (some a)) (hc : h.cell a = some v)
    (hv : link v = .written q) : Segment h link p (l ++ [(a, v)]) q := by
  generalize hr : some a = r at hs
  induction hs with
  | nil =>
    subst hr
    exact .cons hc hv .nil
  | cons hc' hv' _ ih => exact .cons hc' hv' (ih hr)

theorem Segment.live (hs : Segment h link p l q) : ∀ x ∈ l, h.cell x.1 = some x.2 := by
  induction hs with
  | nil => exact fun _ hx => nomatch hx
  | cons hc _ _ ih =>
    intro x hx
    rcases List.mem_cons.mp hx with rfl | hx
    · exact hc
    · exact ih x hx

theorem Segment.frame (hs : Segment h link p l q)
    (hcell : ∀ a ∈ l.map Prod.fst, h'.cell a = h.cell a) : Segment h' link p l q := by
  induction hs with
  | nil => exact .nil
  | cons hc hv _ ih =>
    simp only [List.map_cons, List.forall_mem_cons] at hcell
    exact .cons (hcell.1.trans hc) hv (ih hcell.2)

theorem Segment.fresh_not_mem (hs : Segment h link p l q) (ha : h.cell a = none) :
    a ∉ l.map Prod.fst := by
  intro hmem
  obtain ⟨x, hx, rfl⟩ := List.mem_map.mp hmem
  rw [hs.live x hx] at ha
  cases ha

theorem Segment.frame_set (hs : Segment h link p l q) (ha : a ∉ l.map Prod.fst) (v : α) :
    Segment (h.set a v) link p l q :=
  hs.frame fun _ hb => set_cell_of_ne h v fun he => ha (he ▸ hb)

theorem Segment.frame_free (hs : Segment h link p l q) (ha : a ∉ l.map Prod.fst) :
    Segment (h.free a) link p l q :=
  hs.frame fun _ hb => free_cell_of_ne h fun he => ha (he ▸ hb)

theorem chain_nil_iff : Chain h link p [] ↔ p = none := by
  constructor
  · rintro ⟨⟩
    rfl
  · rintro rfl
    exact .nil

theorem chain_cons_iff : Chain h link p ((a, v) :: l) ↔
    p = some a ∧ h.cell a = some v ∧ ∃ q, link v = .written q ∧ Chain h link q l := by
  constructor
  · generalize hx : (a, v) :: l = l'
    rintro (_ | ⟨hc, hv, hs⟩)
    · cases hx
    · cases hx
      exact ⟨rfl, hc, _, hv, hs⟩
  · rintro ⟨rfl, hc, q, hv, hs⟩
    exact .cons hc hv hs

theorem chain_head (hl : Chain h link p l) : p = (l.map Prod.fst).head? := by
  cases l with
  | nil => exact chain_nil_iff.1 hl
  | cons x l => exact (chain_cons_iff.1 hl).1

theorem chain_unique (hl : Chain h link p l) (hl' : Chain h link p l') : l = l' := by
  unfold Chain at hl hl'
  generalize hn : (none : Ptr) = r at hl
  induction hl generalizing l' with
  | nil =>
    subst hn
    cases hl'
    rfl
  | cons hc hv _ ih =>
    subst hn
    cases hl' with
    | cons hc' hv' hs' =>
      obtain rfl := Option.some.inj (hc.symm.trans hc')
      cases hv.symm.trans hv'
      rw [ih hs' rfl]

theorem chain_suffix (hl : Chain h link p l) (hx : x ∈ l) :
    ∃ l₁ l₂, l = l₁ ++ x :: l₂ ∧ Chain h link (some x.1) (x :: l₂) := by
  unfold Chain at hl
  generalize hn : (none : Ptr) = r at hl
  induction hl with
  | nil => cases hx
  | @cons a v q l r hc hv hs ih =>
    subst hn
    rcases List.mem_cons.mp hx with rfl | hx
    · exact ⟨[], l, rfl, .cons hc hv hs⟩
    · obtain ⟨l₁, l₂, hl, hch⟩ := ih hx rfl
      exact ⟨(a, v) :: l₁, l₂, by rw [hl, List.cons_append], hch⟩

theorem chain_head_not_mem (hl : Chain h link p ((a, v) :: l)) : a ∉ l.map Prod.fst := by
  intro hmem
  obtain ⟨x, hx, hxa⟩ := List.mem_map.mp hmem
  have htail := hl
  cases htail with
  | cons hc hv hs =>
    obtain ⟨l₁, l₂, rfl, hch⟩ := chain_suffix hs hx
    rw [hxa] at hch
    have heq := congrArg List.length (chain_unique hl hch)
    simp only [List.length_cons, List.length_append] at heq
    omega

theorem chain_nodup (hl : Chain h link p l) : (l.map Prod.fst).Nodup := by
  induction l generalizing p with
  | nil => exact List.nodup_nil
  | cons x l ih =>
    cases hl with
    | cons hc hv hs => exact List.nodup_cons.mpr ⟨chain_head_not_mem (.cons hc hv hs), ih hs⟩

theorem chain_push (hl : Chain h link p l) (ha : a ∉ l.map Prod.fst) (hv : link v = .written p) :
    Chain (h.set a v) link (some a) ((a, v) :: l) :=
  .cons (set_cell_self h a v) hv (hl.frame_set ha v)

theorem chain_length_le (hl : Chain h link p l) : l.length ≤ h.bound := by
  have hsub : l.map Prod.fst ⊆ List.range h.bound := by
    intro a ha
    obtain ⟨x, hx, rfl⟩ := List.mem_map.mp ha
    exact List.mem_range.mpr (h.live_lt _ _ (hl.live x hx))
  simpa using (List.subperm_of_subset (chain_nodup hl) hsub).length_le

end

end Memory
