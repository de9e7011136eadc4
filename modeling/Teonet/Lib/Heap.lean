import Teonet.Lib.FinMap

/-! # Heaps

Memory blocks under addresses that are given out in order and never given out twice, so a pointer
to a block that was freed can be told from a pointer to a live one: `get` finds nothing under it.
`alloc`, `update` and `free` have one lemma each that says what a later `get` returns. -/

/-- Blocks of type `ν`; no block lies at or above `next`. -/
structure Heap (ν : Type) where
  blocks : FinMap ℕ ν
  next : ℕ
  fresh : ∀ a, next ≤ a → blocks.get a = none

namespace Heap

variable {ν : Type}

/-- The heap without blocks. -/
def empty : Heap ν where
  blocks := FinMap.empty
  next := 0
  fresh a _ := FinMap.get_empty a

/-- The block at an address, if it is live. -/
def get (h : Heap ν) (a : ℕ) : Option ν := h.blocks.get a

/-- `malloc`: the new block lies at `h.next`. -/
def alloc (h : Heap ν) (v : ν) : Heap ν where
  blocks := h.blocks.add h.next v
  next := h.next + 1
  fresh a ha := by
    rw [FinMap.get_add_of_ne _ (by omega)]
    exact h.fresh a (by omega)

/-- Change a live block. -/
def update (h : Heap ν) (a : ℕ) (f : ν → ν) : Heap ν where
  blocks := h.blocks.modify a f
  next := h.next
  fresh b hb := by
    rw [FinMap.get_modify]
    split
    · rename_i h'
      rw [← h', h.fresh b hb]
      rfl
    · exact h.fresh b hb

/-- `free`. -/
def free (h : Heap ν) (a : ℕ) : Heap ν where
  blocks := h.blocks.remove a
  next := h.next
  fresh b hb := by
    rw [FinMap.get_remove, h.fresh b hb]
    exact ite_self _

@[simp] theorem get_empty (a : ℕ) : (empty : Heap ν).get a = none := FinMap.get_empty a

theorem get_alloc (h : Heap ν) (v : ν) (a : ℕ) :
    (h.alloc v).get a = if a = h.next then some v else h.get a :=
  FinMap.get_add _ _ _ _

@[simp] theorem get_alloc_self (h : Heap ν) (v : ν) : (h.alloc v).get h.next = some v := by
  rw [get_alloc, if_pos rfl]

theorem get_update (h : Heap ν) (a b : ℕ) (f : ν → ν) :
    (h.update a f).get b = if b = a then (h.get a).map f else h.get b :=
  FinMap.get_modify _ _ _ _

theorem get_free (h : Heap ν) (a b : ℕ) :
    (h.free a).get b = if b = a then none else h.get b :=
  FinMap.get_remove _ _ _

@[simp] theorem get_next (h : Heap ν) : h.get h.next = none := h.fresh h.next le_rfl

theorem lt_next_of_get {h : Heap ν} {a : ℕ} {v : ν} (hv : h.get a = some v) : a < h.next := by
  by_contra hle
  rw [get, h.fresh a (by omega)] at hv
  cases hv

/-- A new block is none of the live ones. -/
theorem ne_next_of_get {h : Heap ν} {a : ℕ} {v : ν} (hv : h.get a = some v) : a ≠ h.next :=
  Nat.ne_of_lt (lt_next_of_get hv)

theorem get_alloc_of_get {h : Heap ν} {a : ℕ} {v : ν} (hv : h.get a = some v) (w : ν) :
    (h.alloc w).get a = some v := by
  rw [get_alloc, if_neg (ne_next_of_get hv), hv]

end Heap
