import Mathlib.Algebra.BigOperators.Group.List.Basic
import Mathlib.Algebra.GroupWithZero.Nat
import Mathlib.Data.List.Induction
import Mathlib.Tactic.Common
import Mathlib.Tactic.SplitIfs

/-! # Pieces of a list

`pieces` splits off the pieces of a list that end at the first `n` separators, and leaves the rest;
`split` goes on to the end.  A piece can be empty: at the beginning of the list, and between two
separators (`nil_not_mem_pieces_iff`).

With one separator the pieces are joined by `List.intercalate`. -/

namespace Pieces

variable {α : Type} (p : α → Bool)

/-- The pieces before the first `n` separators and the rest; `cur` is the beginning of a piece. -/
def pieces : List α → ℕ → List α → List (List α) × List α
  | cur, _, [] => ([], cur)
  | cur, 0, c :: l => ([], cur ++ c :: l)
  | cur, n + 1, c :: l =>
    if p c then
      let r := pieces [] n l
      (cur :: r.1, r.2)
    else pieces (cur ++ [c]) (n + 1) l

/-- All pieces. -/
def split (l : List α) : List (List α) :=
  let r := pieces p [] l.length l
  r.1 ++ [r.2]

/-- The place behind some pieces and their separators. -/
def behind (ps : List (List α)) : ℕ := (ps.map fun piece => piece.length + 1).sum

/-- The first `n` separators come right behind a letter that is none. -/
def Spaced (n : ℕ) (cur l : List α) : Prop :=
  ∀ u c v, l = u ++ c :: v → p c → u.countP p < n → ∃ d ∈ (cur ++ u).getLast?, ¬p d

variable {p}

theorem pieces_zero (cur l : List α) : pieces p cur 0 l = ([], cur ++ l) := by
  cases l with
  | nil => rw [pieces, List.append_nil]
  | cons c l => rfl

theorem length_pieces (cur : List α) (n : ℕ) (l : List α) :
    (pieces p cur n l).1.length = min n (l.countP p) := by
  induction l generalizing cur n with
  | nil => simp [pieces]
  | cons c l ih =>
    cases n with
    | zero => simp [pieces]
    | succ n =>
      rw [pieces]
      by_cases hc : p c
      · rw [if_pos hc, List.length_cons, ih, List.countP_cons_of_pos hc, Nat.add_min_add_right]
      · rw [if_neg hc, ih, List.countP_cons_of_neg hc]

/-- The pieces and the rest have letters of the list only. -/
theorem subset_of_mem_pieces {cur : List α} {n : ℕ} {l piece : List α}
    (h : piece ∈ (pieces p cur n l).1 ++ [(pieces p cur n l).2]) : piece ⊆ cur ++ l := by
  induction l generalizing cur n with
  | nil =>
    have hpiece : piece = cur := by simpa [pieces] using h
    rw [hpiece, List.append_nil]
    exact List.Subset.refl cur
  | cons c l ih =>
    cases n with
    | zero =>
      have hpiece : piece = cur ++ c :: l := by simpa [pieces] using h
      rw [hpiece]
      exact List.Subset.refl _
    | succ n =>
      rw [pieces] at h
      split_ifs at h with hc
      · rcases List.mem_cons.mp h with rfl | h
        · exact List.subset_append_left _ _
        · have hsub := ih h
          rw [List.nil_append] at hsub
          exact fun b hb => List.mem_append_right _ (List.mem_cons_of_mem _ (hsub hb))
      · have hsub := ih h
        rwa [List.append_assoc, List.singleton_append] at hsub

theorem behind_cons (piece : List α) (ps : List (List α)) :
    behind (piece :: ps) = (piece.length + 1) + behind ps := List.sum_cons

theorem behind_append (ps qs : List (List α)) : behind (ps ++ qs) = behind ps + behind qs := by
  rw [behind, List.map_append, List.sum_append]
  rfl

theorem behind_singleton (piece : List α) : behind [piece] = piece.length + 1 := List.sum_singleton

theorem behind_map {f : List α → List α} (hf : ∀ piece, (f piece).length = piece.length)
    (ps : List (List α)) : behind (ps.map f) = behind ps := by
  rw [behind, List.map_map]
  exact congrArg List.sum (List.map_congr_left fun piece _ => congrArg (· + 1) (hf piece))

/-- The rest begins behind the pieces. -/
theorem pieces_rest (cur : List α) (n : ℕ) (l : List α) :
    behind (pieces p cur n l).1 ≤ (cur ++ l).length ∧
      (pieces p cur n l).2 = (cur ++ l).drop (behind (pieces p cur n l).1) := by
  induction l generalizing cur n with
  | nil => exact ⟨Nat.zero_le _, (List.append_nil cur).symm⟩
  | cons c l ih =>
    cases n with
    | zero => exact ⟨Nat.zero_le _, rfl⟩
    | succ n =>
      rw [pieces]
      by_cases hc : p c
      · obtain ⟨hle, hrest⟩ := ih [] n
        rw [List.nil_append] at hle hrest
        have hdrop (k : ℕ) : (cur ++ c :: l).drop (cur.length + 1 + k) = l.drop k := by
          rw [Nat.add_assoc, List.drop_length_add_append, Nat.add_comm, List.drop_succ_cons]
        rw [if_pos hc, behind_cons, hrest, hdrop, List.length_append, List.length_cons]
        exact ⟨by omega, rfl⟩
      · rw [if_neg hc]
        have hcur := ih (cur ++ [c]) (n + 1)
        rwa [List.append_assoc, List.singleton_append] at hcur

theorem spaced_cons_of_neg {n : ℕ} {cur l : List α} {c : α} (hc : ¬p c) :
    Spaced p n cur (c :: l) ↔ Spaced p n (cur ++ [c]) l := by
  constructor
  · intro h u d v hl hd hn
    have hbehind := h (c :: u) d v (by rw [hl]; rfl) hd (by rwa [List.countP_cons_of_neg hc])
    rwa [List.append_assoc, List.singleton_append]
  · intro h u d v hl hd hn
    cases u with
    | nil =>
      obtain ⟨rfl, rfl⟩ := List.cons.inj hl
      exact absurd hd hc
    | cons e u =>
      obtain ⟨rfl, rfl⟩ := List.cons.inj hl
      rw [List.countP_cons_of_neg hc] at hn
      have hbehind := h u d v rfl hd hn
      rwa [List.append_assoc, List.singleton_append] at hbehind

theorem spaced_cons_of_pos {n : ℕ} {cur l : List α} {c : α} (hc : p c) :
    Spaced p (n + 1) cur (c :: l) ↔ (∃ d ∈ cur.getLast?, ¬p d) ∧ Spaced p n [] l := by
  have hlast (u : List α) : (∃ d ∈ (cur ++ c :: u).getLast?, ¬p d) ↔
      ∃ d ∈ u.getLast?, ¬p d := by
    cases u using List.reverseRecOn with
    | nil => simp [hc]
    | append_singleton u e =>
      rw [← List.cons_append, ← List.append_assoc, List.getLast?_concat, List.getLast?_concat]
  constructor
  · intro h
    refine ⟨?_, fun u d v hl hd hn => ?_⟩
    · have hfirst := h [] c l rfl hc (Nat.succ_pos n)
      rwa [List.append_nil] at hfirst
    · have hbehind := h (c :: u) d v (by rw [hl]; rfl) hd
        (by rw [List.countP_cons_of_pos hc]; omega)
      exact (hlast u).mp hbehind
  · rintro ⟨hcur, h⟩ u d v hl hd hn
    cases u with
    | nil => rwa [List.append_nil]
    | cons e u =>
      obtain ⟨rfl, rfl⟩ := List.cons.inj hl
      rw [List.countP_cons_of_pos hc] at hn
      exact (hlast u).mpr (h u d v rfl hd (by omega))

/-- No piece is empty. -/
theorem nil_not_mem_pieces_iff {cur : List α} (hcur : ∀ d ∈ cur, ¬p d) (n : ℕ) (l : List α) :
    [] ∉ (pieces p cur n l).1 ↔ Spaced p n cur l := by
  induction l generalizing cur n with
  | nil => exact iff_of_true List.not_mem_nil fun u c v h => by simp at h
  | cons c l ih =>
    cases n with
    | zero => exact iff_of_true List.not_mem_nil fun u d v _ _ h => absurd h (Nat.not_lt_zero _)
    | succ n =>
      rw [pieces]
      by_cases hc : p c
      · rw [if_pos hc, spaced_cons_of_pos hc, List.mem_cons, not_or, ih (by simp)]
        refine and_congr_left fun _ => ?_
        cases cur using List.reverseRecOn with
        | nil => simp
        | append_singleton cur d => simpa using hcur d (by simp)
      · rw [if_neg hc, spaced_cons_of_neg hc]
        refine ih (fun d hd => ?_) (n + 1)
        rcases List.mem_append.mp hd with hd | hd
        · exact hcur d hd
        · exact List.mem_singleton.mp hd ▸ hc

/-! ### One separator -/

/-- The pieces and the rest joined give the list. -/
theorem intercalate_pieces {sep : α} (hp : ∀ c, p c → c = sep) (cur : List α) (n : ℕ)
    (l : List α) :
    [sep].intercalate ((pieces p cur n l).1 ++ [(pieces p cur n l).2]) = cur ++ l := by
  induction l generalizing cur n with
  | nil => simp [pieces]
  | cons c l ih =>
    cases n with
    | zero => simp [pieces]
    | succ n =>
      rw [pieces]
      by_cases hc : p c
      · rw [if_pos hc, List.cons_append, List.intercalate_cons_of_ne_nil (by simp), ih, hp c hc,
          List.nil_append, List.append_assoc, List.singleton_append]
      · rw [if_neg hc, ih, List.append_assoc, List.singleton_append]

theorem intercalate_split {sep : α} (hp : ∀ c, p c → c = sep) (l : List α) :
    [sep].intercalate (split p l) = l := intercalate_pieces hp [] l.length l

theorem subset_of_mem_split {l piece : List α} (h : piece ∈ split p l) : piece ⊆ l :=
  subset_of_mem_pieces h

theorem length_split (l : List α) : (split p l).length = l.countP p + 1 := by
  rw [split, List.length_append, length_pieces, Nat.min_eq_right List.countP_le_length]
  rfl

theorem behind_split (l : List α) : behind (split p l) = l.length + 1 := by
  obtain ⟨hle, hrest⟩ := pieces_rest (p := p) [] l.length l
  rw [List.nil_append] at hle hrest
  rw [split, behind_append, behind_singleton, hrest, List.length_drop]
  omega

theorem length_lt_behind {ps : List (List α)} {piece : List α} (h : piece ∈ ps) :
    piece.length < behind ps := by
  induction ps with
  | nil => cases h
  | cons first ps ih =>
    rw [behind_cons]
    rcases List.mem_cons.mp h with rfl | h
    · omega
    · have := ih h
      omega

theorem map_intersperse {α β : Type} (f : α → β) (sep : α) (l : List α) :
    (l.intersperse sep).map f = (l.map f).intersperse (f sep) := by
  induction l with
  | nil => rfl
  | cons c l ih =>
    cases l with
    | nil => rfl
    | cons d l =>
      rw [List.intersperse_cons_cons, List.map_cons, List.map_cons, ih]
      rfl

theorem intercalate_map {β : Type} (g : α → β) (sep : α) (ps : List (List α)) :
    [g sep].intercalate (ps.map (List.map g)) = ([sep].intercalate ps).map g := by
  rw [List.intercalate, List.intercalate, List.map_flatten, map_intersperse]
  rfl

/-- Pieces of the same lengths are joined to the same list only if they are the same. -/
theorem intercalate_map_inj {β : Type} {f g : List α → List β} (sep : β) {ps : List (List α)}
    (hlen : ∀ piece ∈ ps, (f piece).length = (g piece).length) :
    [sep].intercalate (ps.map f) = [sep].intercalate (ps.map g) ↔
      ∀ piece ∈ ps, f piece = g piece := by
  induction ps with
  | nil => simp
  | cons piece ps ih =>
    obtain ⟨hpiece, hps⟩ := List.forall_mem_cons.mp hlen
    rw [List.forall_mem_cons, ← ih hps]
    cases ps with
    | nil => simp
    | cons piece' ps =>
      rw [List.map_cons, List.map_cons, List.map_cons, List.map_cons, List.intercalate_cons_cons,
        List.intercalate_cons_cons, List.append_assoc, List.append_assoc]
      constructor
      · intro h
        obtain ⟨h₁, h₂⟩ := List.append_inj h hpiece
        exact ⟨h₁, List.append_cancel_left h₂⟩
      · rintro ⟨h₁, h₂⟩
        rw [h₁, h₂]

theorem mem_intercalate {sep : α} {ps : List (List α)} (h : 2 ≤ ps.length) :
    sep ∈ [sep].intercalate ps := by
  rcases ps with - | ⟨piece, - | ⟨piece', ps⟩⟩
  · simp at h
  · simp at h
  · rw [List.intercalate_cons_cons]
    simp

end Pieces
