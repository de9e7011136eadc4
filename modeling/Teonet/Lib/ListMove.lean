import Mathlib.Data.List.InsertIdx
import Mathlib.Tactic.Common

/-! # A member moves to another place

`move l f t` takes the member at index `f` out of the list and puts it in at index `t`.  The list that
comes of it has the same members (`perm_move`), and the others keep their order (`eraseIdx_move`).
`move_up` and `move_down` say which part of the list is shifted by one place. -/

namespace ListMove

variable {α : Type}

/-- The member at index `f` is taken out and put in at index `t`. -/
def move (l : List α) (f t : ℕ) : List α :=
  match l[f]? with
  | none => l
  | some x => (l.eraseIdx f).insertIdx t x

theorem move_of_lt {l : List α} {f : ℕ} (hf : f < l.length) (t : ℕ) :
    move l f t = (l.eraseIdx f).insertIdx t (l.get ⟨f, hf⟩) := by
  rw [move, List.getElem?_eq_getElem hf]
  rfl

theorem insertIdx_length_append (p r : List α) (x : α) :
    (p ++ r).insertIdx p.length x = p ++ x :: r := by
  induction p with
  | nil => rfl
  | cons y p ih => rw [List.cons_append, List.length_cons, List.insertIdx_succ_cons, ih]; rfl

theorem eraseIdx_length_append (p r : List α) (x : α) :
    (p ++ x :: r).eraseIdx p.length = p ++ r := by
  rw [List.eraseIdx_append_of_length_le (Nat.le_refl _), Nat.sub_self]
  rfl

theorem getElem?_length_append (p r : List α) (x : α) : (p ++ x :: r)[p.length]? = some x := by
  rw [List.getElem?_append_right (Nat.le_refl _), Nat.sub_self]
  rfl

/-- To a place behind its own: the members on the way go one place to the left. -/
theorem move_up (p q r : List α) (x : α) :
    move (p ++ x :: (q ++ r)) p.length (p.length + q.length) = p ++ (q ++ x :: r) := by
  unfold move
  simp only [getElem?_length_append]
  rw [eraseIdx_length_append, ← List.append_assoc, ← List.length_append, insertIdx_length_append,
    List.append_assoc]

/-- To a place before its own: the members on the way go one place to the right. -/
theorem move_down (p q r : List α) (x : α) :
    move (p ++ (q ++ x :: r)) (p.length + q.length) p.length = p ++ x :: (q ++ r) := by
  unfold move
  rw [← List.append_assoc, ← List.length_append]
  simp only [getElem?_length_append]
  rw [eraseIdx_length_append, List.append_assoc, insertIdx_length_append]

theorem perm_move {l : List α} {f t : ℕ} (hf : f < l.length) (ht : t < l.length) :
    (move l f t).Perm l := by
  have hsplit : l = l.take f ++ l.get ⟨f, hf⟩ :: l.drop (f + 1) := by
    conv_lhs => rw [← List.take_append_drop f l, List.drop_eq_getElem_cons hf]
    rfl
  have hins : (move l f t).Perm (l.get ⟨f, hf⟩ :: l.eraseIdx f) := by
    rw [move_of_lt hf]
    apply List.perm_insertIdx
    rw [List.length_eraseIdx_of_lt hf]
    omega
  refine hins.trans ?_
  rw [List.eraseIdx_eq_take_drop_succ]
  conv_rhs => rw [hsplit]
  exact List.perm_middle.symm

/-- The other members keep their order. -/
theorem eraseIdx_move {l : List α} {f : ℕ} (hf : f < l.length) (t : ℕ) :
    (move l f t).eraseIdx t = l.eraseIdx f := by
  rw [move_of_lt hf, List.eraseIdx_insertIdx_self]

/-- A list by two of its places. -/
theorem exists_split {l : List α} {i j : ℕ} (hij : i < j) (hj : j < l.length) :
    ∃ p x q y r, l = p ++ x :: (q ++ y :: r) ∧ p.length = i ∧ i + q.length + 1 = j := by
  have hi : i < l.length := Nat.lt_trans hij hj
  refine ⟨l.take i, l.get ⟨i, hi⟩, (l.drop (i + 1)).take (j - i - 1), l.get ⟨j, hj⟩, l.drop (j + 1),
    ?_, List.length_take_of_le (Nat.le_of_lt hi), ?_⟩
  · have hrest : l.drop (i + 1) =
        (l.drop (i + 1)).take (j - i - 1) ++ l.get ⟨j, hj⟩ :: l.drop (j + 1) := by
      conv_lhs => rw [← List.take_append_drop (j - i - 1) (l.drop (i + 1))]
      rw [List.drop_drop, show i + 1 + (j - i - 1) = j by omega, List.drop_eq_getElem_cons hj]
      rfl
    rw [← hrest]
    conv_lhs => rw [← List.take_append_drop i l, List.drop_eq_getElem_cons hi]
    rfl
  · rw [List.length_take, List.length_drop]
    omega

end ListMove
