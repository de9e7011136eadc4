import Mathlib.Data.List.DropRight
import Mathlib.Data.List.TakeWhile
import Mathlib.Tactic.Common

/-! # Sections of a text

A section begins at a letter `o` and goes on through the next letter `c`, or to the end of the text
if there is none; a letter `o` inside of a section begins nothing.  `cut` leaves the sections out.

A program does this with one bit of state, which says whether it is inside of a section: `kept` are
the letters that it keeps and `state` is the bit behind them.  `kept_eq_cut` says that this is right,
and `state_eq_false_iff` when the last section is closed. -/

namespace Sections

variable {α : Type} [DecidableEq α] {o c : α}

/-- What lies behind the first `c`. -/
def behind (c : α) (l : List α) : List α := (l.dropWhile (· ≠ c)).tail

theorem length_behind_le (c : α) (l : List α) : (behind c l).length ≤ l.length := by
  have h := (List.dropWhile_suffix (· ≠ c) (l := l)).length_le
  rw [behind, List.length_tail]
  omega

/-- The text without its sections. -/
def cut (o c : α) : List α → List α
  | [] => []
  | x :: l => if x = o then cut o c (behind c l) else x :: cut o c l
termination_by l => l.length
decreasing_by
  · have := length_behind_le c l
    simp only [List.length_cons]
    omega
  · simp

/-- Each section has its end. -/
def AllClosed (o c : α) (l : List α) : Prop := ∀ a b, l = a ++ o :: b → c ∈ b

/-- The bit behind a letter. -/
def next (o c : α) (inside : Bool) (x : α) : Bool := if inside then x ≠ c else x = o

/-- The bit behind a text. -/
def state (o c : α) (inside : Bool) (l : List α) : Bool := l.foldl (next o c) inside

/-- The letters that are kept. -/
def kept (o c : α) : Bool → List α → List α
  | _, [] => []
  | inside, x :: l =>
    if inside = false ∧ x ≠ o then x :: kept o c (next o c inside x) l
    else kept o c (next o c inside x) l

theorem behind_cons (c x : α) (l : List α) :
    behind c (x :: l) = if x = c then l else behind c l := by
  rw [behind, List.dropWhile_cons]
  by_cases hx : x = c
  · simp [hx]
  · simp [hx, behind]

/-! ### The scan -/

theorem kept_append (inside : Bool) (l m : List α) :
    kept o c inside (l ++ m) = kept o c inside l ++ kept o c (state o c inside l) m := by
  induction l generalizing inside with
  | nil => rfl
  | cons x l ih =>
    rw [List.cons_append, kept, kept, ih]
    split_ifs <;> rfl

theorem state_append (inside : Bool) (l m : List α) :
    state o c inside (l ++ m) = state o c (state o c inside l) m := List.foldl_append

/-- Inside of a section nothing is kept up to its end. -/
theorem kept_true (l : List α) : kept o c true l = kept o c false (behind c l) := by
  induction l with
  | nil => rfl
  | cons x l ih =>
    rw [kept, if_neg (by simp), next, if_pos rfl, behind_cons]
    by_cases hx : x = c
    · simp [hx]
    · simp [hx, ih]

/-- The scan keeps the text without its sections. -/
theorem kept_eq_cut (l : List α) : kept o c false l = cut o c l := by
  fun_induction cut o c l with
  | case1 => rfl
  | case2 l ih =>
    rw [kept, if_neg (by simp), next, if_neg (by simp), decide_eq_true rfl, kept_true, ih]
  | case3 x l hx ih =>
    rw [kept, if_pos ⟨rfl, hx⟩, next, if_neg (by simp), decide_eq_false hx, ih]

theorem length_kept_le (inside : Bool) (l : List α) :
    (kept o c inside l).length ≤ l.length := by
  induction l generalizing inside with
  | nil => exact le_rfl
  | cons x l ih =>
    have h := ih (next o c inside x)
    rw [kept]
    split_ifs
    · simpa using h
    · rw [List.length_cons]
      omega

theorem not_mem_kept (inside : Bool) (l : List α) : o ∉ kept o c inside l := by
  induction l generalizing inside with
  | nil => exact List.not_mem_nil
  | cons x l ih =>
    rw [kept]
    split_ifs with hx
    · exact List.not_mem_cons_of_ne_of_not_mem (Ne.symm hx.2) (ih _)
    · exact ih _

/-- The scan keeps no letter that the text does not have. -/
theorem kept_subset (inside : Bool) (l : List α) : kept o c inside l ⊆ l := by
  induction l generalizing inside with
  | nil => exact List.Subset.refl _
  | cons x l ih =>
    rw [kept]
    split_ifs
    · exact List.cons_subset_cons x (ih _)
    · exact List.subset_cons_of_subset x (ih _)

theorem length_cut_le (o c : α) (l : List α) : (cut o c l).length ≤ l.length :=
  kept_eq_cut (o := o) (c := c) l ▸ length_kept_le false l

theorem not_mem_cut (o c : α) (l : List α) : o ∉ cut o c l :=
  kept_eq_cut (o := o) (c := c) l ▸ not_mem_kept false l

theorem cut_subset (o c : α) (l : List α) : cut o c l ⊆ l :=
  kept_eq_cut (o := o) (c := c) l ▸ kept_subset false l

/-! ### The end of the last section -/

/-- Without the closing letter a section goes on. -/
theorem state_true_of_not_mem {l : List α} (h : c ∉ l) : state o c true l = true := by
  induction l with
  | nil => rfl
  | cons x l ih =>
    obtain ⟨hx, hl⟩ := not_or.mp fun hmem => h (List.mem_cons.mpr hmem)
    rw [state, List.foldl_cons, next, if_pos rfl, decide_eq_true (Ne.symm hx)]
    exact ih hl

theorem kept_true_of_not_mem {l : List α} (h : c ∉ l) : kept o c true l = [] := by
  have hbehind : behind c l = [] := by
    rw [behind, List.dropWhile_eq_nil_iff.mpr, List.tail_nil]
    intro x hx
    have hne : x ≠ c := fun he => h (he ▸ hx)
    simpa using hne
  rw [kept_true, hbehind, kept]

/-- Behind an `o` without a `c` the scan is inside of a section. -/
theorem state_of_open (hne : o ≠ c) {b : List α} (hb : c ∉ b) (inside : Bool) (a : List α) :
    state o c inside (a ++ o :: b) = true := by
  have hnext : next o c (state o c inside a) o = true := by
    unfold next
    split_ifs <;> simp [hne]
  rw [state_append, state, List.foldl_cons, hnext]
  exact state_true_of_not_mem hb

/-- Nothing is kept from an `o` without a `c` on. -/
theorem kept_of_open (hne : o ≠ c) {b : List α} (hb : c ∉ b) (inside : Bool) (a : List α) :
    kept o c inside (a ++ o :: b) = kept o c inside a := by
  have hnext : next o c (state o c inside a) o = true := by
    unfold next
    split_ifs <;> simp [hne]
  rw [kept_append, kept, if_neg (by simp), hnext, kept_true_of_not_mem hb, List.append_nil]

/-- A scan that ends inside of a section has come to an `o` without a `c`. -/
theorem exists_open_of_state {inside : Bool} {l : List α} (h : state o c inside l = true) :
    (inside = true ∧ c ∉ l) ∨ ∃ a b, l = a ++ o :: b ∧ c ∉ b := by
  induction l generalizing inside with
  | nil => exact .inl ⟨h, List.not_mem_nil⟩
  | cons x l ih =>
    rw [state, List.foldl_cons] at h
    rcases ih h with ⟨hnext, hl⟩ | ⟨a, b, rfl, hb⟩
    · cases inside with
      | true =>
        have hx : x ≠ c := by simpa [next] using hnext
        exact .inl ⟨rfl, List.not_mem_cons_of_ne_of_not_mem hx.symm hl⟩
      | false =>
        have hx : x = o := by simpa [next] using hnext
        exact .inr ⟨[], l, by rw [hx, List.nil_append], hl⟩
    · exact .inr ⟨x :: a, b, rfl, hb⟩

/-- The scan of a text ends outside of its sections exactly when they are closed. -/
theorem state_eq_false_iff (hne : o ≠ c) (l : List α) :
    state o c false l = false ↔ AllClosed o c l := by
  constructor
  · rintro h a b rfl
    by_contra hb
    rw [state_of_open hne hb] at h
    cases h
  · intro h
    by_contra hstate
    rcases exists_open_of_state (Bool.not_eq_false _ ▸ hstate) with ⟨hfalse, -⟩ | ⟨a, b, hl, hb⟩
    · cases hfalse
    · exact hb (h a b hl)

end Sections
