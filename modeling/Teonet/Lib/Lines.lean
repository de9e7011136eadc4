import Mathlib.Data.List.TakeWhile
import Mathlib.Tactic.Common

/-! # Lines

`parts sep l` are the lines of a list that a separator ends, and what stands behind the last
separator; `lines sep l` are all of them.  `parts_append` is the law for two lists one behind the
other: the unfinished line of the first goes on in the first line of the second.

A reader may drop items from the lines and keep only some lines (`texts`).  Two parts read one after
the other give what both give together, unless the cut between them lies in a line of which both
sides are kept (`Cut`): `texts_append` and `length_texts_append`. -/

namespace Lines

variable {α : Type} [DecidableEq α] {sep : α} {l m : List α}

/-- The lines that a separator ends, and the unfinished line. -/
def parts (sep : α) : List α → List (List α) × List α
  | [] => ([], [])
  | a :: l =>
    if a = sep then ([] :: (parts sep l).1, (parts sep l).2)
    else match (parts sep l).1 with
      | [] => ([], a :: (parts sep l).2)
      | f :: r => ((a :: f) :: r, (parts sep l).2)

/-- The unfinished line. -/
def unfinished (sep : α) (l : List α) : List α := (parts sep l).2

/-- Finished lines with an unfinished one, which counts if it is not empty. -/
def close (p : List (List α) × List α) : List (List α) := p.1 ++ if p.2 = [] then [] else [p.2]

/-- All lines. -/
def lines (sep : α) (l : List α) : List (List α) := close (parts sep l)

/-- The first line, without what ends it. -/
def firstLine (sep : α) (l : List α) : List α := l.takeWhile (· ≠ sep)

/-- What stands behind the first line. -/
def afterFirst (sep : α) (l : List α) : List α := (l.dropWhile (· ≠ sep)).drop 1

@[simp] theorem lines_nil : lines sep [] = [] := rfl

/-- The lines hold everything but the separators. -/
theorem flatten_lines (sep : α) (l : List α) : (lines sep l).flatten = l.filter (· ≠ sep) := by
  have hclose : ∀ p : List (List α) × List α, (close p).flatten = p.1.flatten ++ p.2 := by
    intro p
    unfold close
    split_ifs with h <;> simp [h]
  rw [lines, hclose]
  induction l with
  | nil => rfl
  | cons a l ih =>
    rw [parts]
    by_cases ha : a = sep
    · simpa [ha] using ih
    · rw [if_neg ha, List.filter_cons_of_pos (by simpa using ha), ← ih]
      cases (parts sep l).1 <;> rfl

theorem parts_append (sep : α) (l m : List α) :
    parts sep (l ++ m) = match (parts sep m).1 with
      | [] => ((parts sep l).1, (parts sep l).2 ++ (parts sep m).2)
      | f :: r => ((parts sep l).1 ++ ((parts sep l).2 ++ f) :: r, (parts sep m).2) := by
  induction l with
  | nil =>
    rw [List.nil_append]
    cases h : (parts sep m).1 <;> simp [parts, ← h]
  | cons a l ih =>
    rw [List.cons_append, parts, ih, parts]
    by_cases ha : a = sep
    · simp only [if_pos ha]
      cases (parts sep m).1 <;> rfl
    · simp only [if_neg ha]
      cases (parts sep m).1 <;> cases (parts sep l).1 <;> rfl

theorem firstLine_cons_of_ne {a : α} (h : a ≠ sep) :
    firstLine sep (a :: l) = a :: firstLine sep l :=
  List.takeWhile_cons_of_pos (by simpa using h)

theorem afterFirst_cons_of_ne {a : α} (h : a ≠ sep) :
    afterFirst sep (a :: l) = afterFirst sep l :=
  congrArg (List.drop 1) (List.dropWhile_cons_of_pos (by simpa using h))

/-- A list that is not empty has a first line. -/
theorem lines_eq_cons (sep : α) (h : l ≠ []) :
    lines sep l = firstLine sep l :: lines sep (afterFirst sep l) := by
  induction l with
  | nil => exact absurd rfl h
  | cons a l ih =>
    by_cases ha : a = sep
    · subst ha
      simp [lines, firstLine, afterFirst, parts, close]
    · rw [firstLine_cons_of_ne ha, afterFirst_cons_of_ne ha]
      by_cases hl : l = []
      · subst hl
        simp [lines, firstLine, afterFirst, parts, close, ha]
      · have hrest := ih hl
        rw [lines] at hrest ⊢
        rw [parts, if_neg ha]
        generalize parts sep l = p at hrest ⊢
        obtain ⟨d, t⟩ := p
        cases d with
        | nil =>
          dsimp only [close] at hrest ⊢
          rw [List.nil_append] at hrest ⊢
          split_ifs at hrest with ht
          obtain ⟨hline, hmore⟩ := List.cons.inj hrest
          rw [if_neg (List.cons_ne_nil _ _), ← hline, ← hmore]
        | cons f r =>
          obtain ⟨hline, hmore⟩ := List.cons.inj hrest
          rw [← hline, ← hmore]
          rfl

theorem afterFirst_suffix (sep : α) (l : List α) : afterFirst sep l <:+ l :=
  (List.drop_suffix 1 _).trans (List.dropWhile_suffix _)

theorem length_afterFirst_lt (h : l ≠ []) : (afterFirst sep l).length < l.length := by
  have hle := (List.dropWhile_suffix (l := l) (fun a => decide (a ≠ sep))).length_le
  have hpos := List.length_pos_iff.mpr h
  rw [afterFirst, List.length_drop]
  omega

/-- Behind a finished line a list starts with a new one. -/
theorem lines_append_of_finished (h : unfinished sep l = []) (m : List α) :
    lines sep (l ++ m) = lines sep l ++ lines sep m := by
  unfold lines
  unfold unfinished at h
  rw [parts_append, h]
  obtain ⟨d, t⟩ := parts sep m
  cases d <;> simp [close, h]

/-- An unfinished line goes on. -/
theorem lines_append_of_unfinished (h : unfinished sep l ≠ []) (hm : m ≠ []) :
    lines sep l = (parts sep l).1 ++ [unfinished sep l] ∧
      lines sep (l ++ m) = (parts sep l).1 ++
        (unfinished sep l ++ firstLine sep m) :: lines sep (afterFirst sep m) := by
  refine ⟨congrArg ((parts sep l).1 ++ ·) (if_neg h), ?_⟩
  have hfirst := lines_eq_cons sep hm
  rw [lines] at hfirst ⊢
  rw [parts_append]
  generalize parts sep m = p at hfirst ⊢
  obtain ⟨d, t⟩ := p
  cases d with
  | nil =>
    dsimp only [close] at hfirst ⊢
    rw [List.nil_append] at hfirst
    split_ifs at hfirst with ht
    obtain ⟨hline, hmore⟩ := List.cons.inj hfirst
    rw [← hline, ← hmore, if_neg (by simp [ht])]
    rfl
  | cons f r =>
    obtain ⟨hline, hmore⟩ := List.cons.inj hfirst
    rw [← hline, ← hmore]
    simp [close, unfinished]

/-! ### The lines that a reader keeps -/

/-- The lines without the items that `p` drops, those of them that `keep` keeps. -/
def texts (p : α → Bool) (keep : List α → Bool) (sep : α) (l : List α) : List (List α) :=
  ((lines sep l).map (List.filter p)).filter keep

/-- A line is kept as soon as a part of it is, and only empty lines are not kept. -/
structure Keeps (keep : List α → Bool) : Prop where
  append : ∀ x y, keep (x ++ y) = (keep x || keep y)
  eq_nil : ∀ x, keep x = false → x = []

/-- The cut between two parts lies in a line of which both sides are kept. -/
def Cut (p : α → Bool) (keep : List α → Bool) (sep : α) (l m : List α) : Prop :=
  unfinished sep l ≠ [] ∧ m ≠ [] ∧ keep ((unfinished sep l).filter p) = true ∧
    keep ((firstLine sep m).filter p) = true

instance Cut.decidable (p : α → Bool) (keep : List α → Bool) (sep : α) (l m : List α) :
    Decidable (Cut p keep sep l m) := by
  unfold Cut
  infer_instance

variable {p : α → Bool} {keep : List α → Bool}

omit [DecidableEq α] in
theorem filter_keep_append (hkeep : Keeps keep) {x y : List α}
    (h : ¬ (keep x = true ∧ keep y = true)) :
    [x ++ y].filter keep = [x].filter keep ++ [y].filter keep := by
  cases hx : keep x with
  | false =>
    obtain rfl := hkeep.eq_nil x hx
    have hnone : [([] : List α)].filter keep = [] := List.filter_cons_of_neg (by simp [hx])
    rw [List.nil_append, hnone, List.nil_append]
  | true =>
    have hy : keep y = false := by simpa [hx] using h
    obtain rfl := hkeep.eq_nil y hy
    have hnone : [([] : List α)].filter keep = [] := List.filter_cons_of_neg (by simp [hy])
    rw [List.append_nil, hnone, List.append_nil]

theorem texts_eq_append {d r : List (List α)} {x : List α} (h : lines sep l = d ++ x :: r) :
    texts p keep sep l = (d.map (List.filter p)).filter keep ++
      ([x.filter p].filter keep ++ (r.map (List.filter p)).filter keep) := by
  rw [texts, h, List.map_append, List.filter_append, List.map_cons]
  exact congrArg (_ ++ ·) (List.filter_append [x.filter p] (r.map (List.filter p)))

/-- The texts of an unfinished line, of a part behind it, and of both together. -/
theorem texts_of_unfinished (p : α → Bool) (keep : List α → Bool) (h : unfinished sep l ≠ [])
    (hm : m ≠ []) :
    ∃ before after : List (List α),
      texts p keep sep l = before ++ [(unfinished sep l).filter p].filter keep ∧
      texts p keep sep m = [(firstLine sep m).filter p].filter keep ++ after ∧
      texts p keep sep (l ++ m) = before ++
        ([(unfinished sep l).filter p ++ (firstLine sep m).filter p].filter keep ++ after) := by
  obtain ⟨hl, hlm⟩ := lines_append_of_unfinished h hm
  refine ⟨((parts sep l).1.map (List.filter p)).filter keep,
    ((lines sep (afterFirst sep m)).map (List.filter p)).filter keep, ?_, ?_, ?_⟩
  · rw [texts_eq_append hl, List.map_nil, List.filter_nil, List.append_nil]
  · exact texts_eq_append (d := []) (lines_eq_cons sep hm)
  · rw [texts_eq_append hlm, List.filter_append]

/-- **No cut**: the parts give what both give together. -/
theorem texts_append (hkeep : Keeps keep) (h : ¬ Cut p keep sep l m) :
    texts p keep sep (l ++ m) = texts p keep sep l ++ texts p keep sep m := by
  by_cases hu : unfinished sep l = []
  · unfold texts
    rw [lines_append_of_finished hu, List.map_append, List.filter_append]
  by_cases hm : m = []
  · subst hm
    simp [texts]
  obtain ⟨before, after, hl, hr, hlm⟩ := texts_of_unfinished p keep hu hm
  rw [hl, hr, hlm, filter_keep_append hkeep fun hk => h ⟨hu, hm, hk⟩]
  simp only [List.append_assoc]

/-- **A cut**: the parts give one line more than both give together. -/
theorem length_texts_append (hkeep : Keeps keep) (h : Cut p keep sep l m) :
    (texts p keep sep (l ++ m)).length + 1 =
      (texts p keep sep l).length + (texts p keep sep m).length := by
  obtain ⟨hu, hm, hleft, hright⟩ := h
  have hboth : keep ((unfinished sep l).filter p ++ (firstLine sep m).filter p) = true := by
    rw [hkeep.append, hleft]
    rfl
  obtain ⟨before, after, hl, hr, hlm⟩ := texts_of_unfinished p keep hu hm
  rw [hl, hr, hlm, List.filter_cons_of_pos hleft, List.filter_cons_of_pos hright,
    List.filter_cons_of_pos hboth]
  simp only [List.length_append, List.length_cons, List.filter_nil, List.length_nil]
  omega

/-- The parts never give less. -/
theorem length_texts_append_le (hkeep : Keeps keep) (p : α → Bool) (sep : α) (l m : List α) :
    (texts p keep sep (l ++ m)).length ≤
      (texts p keep sep l).length + (texts p keep sep m).length := by
  by_cases h : Cut p keep sep l m
  · have := length_texts_append hkeep h
    omega
  · rw [texts_append hkeep h, List.length_append]

end Lines
