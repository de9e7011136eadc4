import Mathlib.Data.List.TakeWhile
import Mathlib.Tactic.Common

/-! # Words with a common prefix in sorted lists

In the dictionary order the words that begin with `p` follow each other.  A scan of a sorted list
that starts at the first word not below `p ++ [bot]`, where `bot` is the least letter, and goes on
as long as the words begin with `p`, meets all of them but `p` itself (`takeWhile_dropWhile`). -/

namespace PrefixRange

variable {α : Type} [LT α] [LE α] [Std.IsLinearOrder α] [Std.LawfulOrderLT α]
  {bot : α} {p a b : List α}

/-- A longer word with the prefix is not below the prefix with the least letter behind it. -/
theorem append_bot_le (hbot : ∀ c : α, bot ≤ c) (h : p <+: a) (hne : a ≠ p) :
    p ++ [bot] ≤ a := by
  obtain ⟨t, rfl⟩ := h
  cases t with
  | nil => exact absurd (List.append_nil p) hne
  | cons c t =>
    refine List.append_left_le (List.cons_le_cons_iff.mpr ?_)
    by_cases hc : bot = c
    · exact .inr ⟨hc, List.nil_le t⟩
    · refine .inl (Std.lt_of_le_of_ne (hbot c) hc)

/-- The prefix itself is below. -/
theorem not_append_bot_le (p : List α) (bot : α) : ¬p ++ [bot] ≤ p := by
  induction p with
  | nil => exact fun h => h (List.nil_lt_cons _ _)
  | cons c p ih =>
    rw [List.cons_append, List.cons_le_cons_iff]
    rintro (h | ⟨-, h⟩)
    · exact Std.lt_irrefl h
    · exact ih h

/-- Between the least longer word and a word with the prefix all words have it. -/
theorem prefix_of_le (h : p ++ [bot] ≤ a) (hab : a ≤ b) (hb : p <+: b) : p <+: a := by
  induction p generalizing a b with
  | nil => exact List.nil_prefix
  | cons c p ih =>
    obtain ⟨t, rfl⟩ := hb
    cases a with
    | nil => exact absurd (List.nil_lt_cons _ _) h
    | cons x a =>
      rw [List.cons_append, List.cons_le_cons_iff] at h hab
      rcases h with hlt | ⟨rfl, hle⟩
      · rcases hab with hlt' | ⟨rfl, -⟩
        · exact absurd (Std.lt_trans hlt hlt') Std.lt_irrefl
        · exact absurd hlt Std.lt_irrefl
      · rcases hab with hlt' | ⟨-, hle'⟩
        · exact absurd hlt' Std.lt_irrefl
        · rw [List.cons_prefix_cons]
          exact ⟨rfl, ih hle hle' (List.prefix_append p t)⟩

/-- Where the scan starts, no word is below. -/
theorem le_of_mem_dropWhile {κ : Type} (word : κ → List α) [DecidableLT α] [DecidableEq α]
    {q : List α} {l : List κ} (hl : l.Pairwise fun i j => word i ≤ word j) {i : κ}
    (hi : i ∈ l.dropWhile fun i => word i < q) : q ≤ word i := by
  induction l with
  | nil => cases hi
  | cons j l ih =>
    obtain ⟨hj, hl⟩ := List.pairwise_cons.mp hl
    by_cases hlt : word j < q
    · rw [List.dropWhile_cons, if_pos (decide_eq_true hlt)] at hi
      exact ih hl hi
    · rw [List.dropWhile_cons, if_neg (by simpa using hlt)] at hi
      rcases List.mem_cons.mp hi with rfl | hi
      · exact hlt
      · exact List.le_trans hlt (hj i hi)

/-- **The scan** meets the longer words with the prefix, in their order. -/
theorem takeWhile_dropWhile {κ : Type} (word : κ → List α) [DecidableLT α] [DecidableEq α]
    (hbot : ∀ c : α, bot ≤ c) {l : List κ} (hl : l.Pairwise fun i j => word i ≤ word j) :
    (l.dropWhile fun i => word i < p ++ [bot]).takeWhile (fun i => p <+: word i) =
      l.filter fun i => p <+: word i ∧ word i ≠ p := by
  induction l with
  | nil => rfl
  | cons i l ih =>
    obtain ⟨hi, hl⟩ := List.pairwise_cons.mp hl
    by_cases hlt : word i < p ++ [bot]
    · have hnot : ¬(p <+: word i ∧ word i ≠ p) := fun h => append_bot_le hbot h.1 h.2 hlt
      rw [List.dropWhile_cons, if_pos (decide_eq_true hlt), ih hl, List.filter_cons_of_neg]
      simpa using hnot
    · rw [List.dropWhile_cons, if_neg (by simpa using hlt)]
      have hle : ∀ j ∈ l, p ++ [bot] ≤ word j := fun j hj => List.le_trans hlt (hi j hj)
      have hne : ∀ j, p ++ [bot] ≤ word j → word j ≠ p := by
        intro j hj he
        exact not_append_bot_le p bot (he ▸ hj)
      by_cases hp : p <+: word i
      · have hrest : (l.dropWhile fun j => word j < p ++ [bot]) = l := by
          refine List.dropWhile_eq_self_iff.mpr fun hpos => ?_
          simpa using hle _ (List.getElem_mem hpos)
        rw [List.takeWhile_cons_of_pos (by simpa using hp), List.filter_cons_of_pos, ← ih hl, hrest]
        simpa using ⟨hp, hne i hlt⟩
      · -- no word behind this one has the prefix either
        rw [List.takeWhile_cons_of_neg (by simpa using hp), eq_comm, List.filter_eq_nil_iff]
        intro j hj hpj
        have hpj' : p <+: word j ∧ word j ≠ p := by simpa using hpj
        rcases List.mem_cons.mp hj with rfl | hj
        · exact hp hpj'.1
        · exact hp (prefix_of_le hlt (hi j hj) hpj'.1)

end PrefixRange
