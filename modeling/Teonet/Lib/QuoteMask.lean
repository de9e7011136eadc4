import Mathlib.Data.List.Basic
import Mathlib.Tactic.Common

/-! # Letters between quotes

A program that splits a text at some letters, but not between quotes, can replace the letters between
quotes first and put them back in the pieces.  `mask` replaces the letter `f` by `t` wherever it lies
between an opening and a closing quote; a quote without a partner opens nothing.

A letter that does not occur in the text can be put back: `mask_mask` for the text as a whole, and
`mask_eq_map_iff` says for which pieces of it all letters are put back. -/

namespace QuoteMask

variable {α : Type} [DecidableEq α] {q f t : α}

/-- What lies between `u` and `v` lies between two quotes, when `n` quotes came before. -/
def Quoted (q : α) (n : ℕ) (u v : List α) : Prop := (n + u.count q) % 2 = 1 ∧ q ∈ v

/-- A letter between quotes. -/
def HasQuoted (q f : α) (n : ℕ) (l : List α) : Prop := ∃ u v, l = u ++ f :: v ∧ Quoted q n u v

/-- All these letters are between quotes. -/
def AllQuoted (q f : α) (n : ℕ) (l : List α) : Prop := ∀ u v, l = u ++ f :: v → Quoted q n u v

/-- The number of quotes behind a letter. -/
def next (q : α) (n : ℕ) (c : α) : ℕ := if c = q then n + 1 else n

/-- The letters `f` between quotes become `t`; `n` quotes came before. -/
def mask (q f t : α) : ℕ → List α → List α
  | _, [] => []
  | n, c :: l => (if c = f ∧ n % 2 = 1 ∧ q ∈ l then t else c) :: mask q f t (next q n c) l

/-! ### Places -/

theorem quoted_cons {n : ℕ} {c : α} {u v : List α} :
    Quoted q n (c :: u) v ↔ Quoted q (next q n c) u v := by
  have hcount : n + (c :: u).count q = next q n c + u.count q := by
    by_cases hc : c = q
    · rw [hc, List.count_cons_self, next, if_pos rfl]
      omega
    · rw [List.count_cons_of_ne hc, next, if_neg hc]
  rw [Quoted, hcount, Quoted]

theorem hasQuoted_cons {n : ℕ} {c : α} {l : List α} :
    HasQuoted q f n (c :: l) ↔
      (c = f ∧ n % 2 = 1 ∧ q ∈ l) ∨ HasQuoted q f (next q n c) l := by
  constructor
  · rintro ⟨u, v, hl, hq⟩
    cases u with
    | nil =>
      obtain ⟨rfl, rfl⟩ := List.cons.inj hl
      exact .inl ⟨rfl, hq⟩
    | cons d u =>
      obtain ⟨rfl, rfl⟩ := List.cons.inj hl
      exact .inr ⟨u, v, rfl, quoted_cons.mp hq⟩
  · rintro (⟨rfl, hn, hq⟩ | ⟨u, v, rfl, hq⟩)
    · exact ⟨[], l, rfl, hn, hq⟩
    · exact ⟨c :: u, v, rfl, quoted_cons.mpr hq⟩

theorem allQuoted_nil (q f : α) (n : ℕ) : AllQuoted q f n [] := fun u v h => by simp at h

theorem allQuoted_cons {n : ℕ} {c : α} {l : List α} :
    AllQuoted q f n (c :: l) ↔
      (c = f → n % 2 = 1 ∧ q ∈ l) ∧ AllQuoted q f (next q n c) l := by
  constructor
  · intro h
    refine ⟨fun hc => h [] l (by rw [hc]; rfl), fun u v hl => ?_⟩
    exact quoted_cons.mp (h (c :: u) v (by rw [hl]; rfl))
  · rintro ⟨hc, h⟩ u v hl
    cases u with
    | nil =>
      obtain ⟨rfl, rfl⟩ := List.cons.inj hl
      exact hc rfl
    | cons d u =>
      obtain ⟨rfl, rfl⟩ := List.cons.inj hl
      exact quoted_cons.mpr (h u v rfl)

theorem not_hasQuoted_of_not_mem {n : ℕ} {l : List α} (h : f ∉ l) : ¬HasQuoted q f n l := by
  rintro ⟨u, v, rfl, -⟩
  exact h (by simp)

/-! ### What is replaced -/

theorem length_mask (q f t : α) (n : ℕ) (l : List α) : (mask q f t n l).length = l.length := by
  induction l generalizing n with
  | nil => rfl
  | cons c l ih => rw [mask, List.length_cons, List.length_cons, ih]

theorem mem_of_mem_mask {n : ℕ} {l : List α} {c : α} (h : c ∈ mask q f t n l) (hc : c ≠ t) :
    c ∈ l := by
  induction l generalizing n with
  | nil => exact h
  | cons d l ih =>
    rw [mask] at h
    rcases List.mem_cons.mp h with h | h
    · split_ifs at h
      · exact absurd h hc
      · exact h ▸ List.mem_cons_self
    · exact List.mem_cons_of_mem _ (ih h)

theorem next_ite (hf : f ≠ q) (ht : t ≠ q) (n : ℕ) {c : α} {p : Prop} [Decidable p]
    (hc : p → c = f) : next q n (if p then t else c) = next q n c := by
  split_ifs with hp
  · rw [next, next, if_neg ht, if_neg (hc hp ▸ hf)]
  · rfl

/-- The quotes stay. -/
theorem mem_mask_iff (hf : f ≠ q) (ht : t ≠ q) (n : ℕ) (l : List α) :
    q ∈ mask q f t n l ↔ q ∈ l := by
  induction l generalizing n with
  | nil => rfl
  | cons c l ih =>
    rw [mask, List.mem_cons, List.mem_cons, ih]
    refine or_congr_left ?_
    split_ifs with hc
    · rw [hc.1]
      exact iff_of_false (Ne.symm ht) (Ne.symm hf)
    · rfl

/-- The letters that were replaced can be put back. -/
theorem mask_mask (hf : f ≠ q) (ht : t ≠ q) (n : ℕ) {l : List α} (hl : t ∉ l) :
    mask q t f n (mask q f t n l) = l := by
  induction l generalizing n with
  | nil => rfl
  | cons c l ih =>
    obtain ⟨hc, hl⟩ := not_or.mp (fun h => hl (List.mem_cons.mpr h))
    rw [mask, mask, next_ite hf ht n And.left, ih _ hl]
    have hmem := mem_mask_iff hf ht (next q n c) l
    split_ifs with hp hback hback
    · rw [hp.1]
    · exact absurd ⟨rfl, hp.2.1, hmem.mpr hp.2.2⟩ hback
    · exact absurd hback.1 (Ne.symm hc)
    · rfl

/-- Without the places the letters can be put back too. -/
theorem map_mask (n : ℕ) {l : List α} (hl : t ∉ l) :
    (mask q f t n l).map (fun c => if c = t then f else c) = l := by
  induction l generalizing n with
  | nil => rfl
  | cons c l ih =>
    obtain ⟨hc, hl⟩ := not_or.mp (fun h => hl (List.mem_cons.mpr h))
    rw [mask, List.map_cons, ih _ hl]
    congr 1
    by_cases hp : c = f ∧ n % 2 = 1 ∧ q ∈ l
    · rw [if_pos hp, if_pos rfl, hp.1]
    · rw [if_neg hp, if_neg (Ne.symm hc)]

theorem mem_mask_self_iff (n : ℕ) {l : List α} (hl : t ∉ l) :
    t ∈ mask q f t n l ↔ HasQuoted q f n l := by
  induction l generalizing n with
  | nil => exact iff_of_false List.not_mem_nil (not_hasQuoted_of_not_mem List.not_mem_nil)
  | cons c l ih =>
    obtain ⟨hc, hl⟩ := not_or.mp (fun h => hl (List.mem_cons.mpr h))
    rw [mask, List.mem_cons, ih _ hl, hasQuoted_cons]
    refine or_congr_left ?_
    by_cases hp : c = f ∧ n % 2 = 1 ∧ q ∈ l
    · rw [if_pos hp]
      exact iff_of_true rfl hp
    · rw [if_neg hp]
      exact iff_of_false hc hp

/-- Behind the first letter that is replaced there is a quote. -/
theorem length_takeWhile_mask {n : ℕ} {l : List α} (h : HasQuoted q f n l) :
    ((mask q f t n l).takeWhile (· ≠ t)).length + 2 ≤ l.length := by
  induction l generalizing n with
  | nil => exact absurd h (not_hasQuoted_of_not_mem List.not_mem_nil)
  | cons c l ih =>
    rw [mask]
    by_cases hp : c = f ∧ n % 2 = 1 ∧ q ∈ l
    · have hpos := List.length_pos_of_mem hp.2.2
      rw [if_pos hp, List.takeWhile_cons_of_neg (by simp), List.length_cons, List.length_nil]
      omega
    · have hle := ih ((hasQuoted_cons.mp h).resolve_left hp)
      have hcons : ((c :: mask q f t (next q n c) l).takeWhile (· ≠ t)).length ≤
          ((mask q f t (next q n c) l).takeWhile (· ≠ t)).length + 1 := by
        rw [List.takeWhile_cons]
        split
        · exact Nat.le_refl _
        · exact Nat.zero_le _
      rw [if_neg hp, List.length_cons]
      omega

/-- Without a letter between quotes nothing changes. -/
theorem mask_eq_self (n : ℕ) {l : List α} (h : ¬HasQuoted q f n l) : mask q f t n l = l := by
  induction l generalizing n with
  | nil => rfl
  | cons c l ih =>
    obtain ⟨hc, hl⟩ := not_or.mp (fun h' => h (hasQuoted_cons.mpr h'))
    rw [mask, if_neg hc, ih _ hl]

/-- Everywhere the letter is replaced exactly if it is between quotes everywhere. -/
theorem mask_eq_map_iff (hft : f ≠ t) (n : ℕ) (l : List α) :
    mask q f t n l = l.map (fun c => if c = f then t else c) ↔ AllQuoted q f n l := by
  induction l generalizing n with
  | nil => exact iff_of_true rfl (allQuoted_nil q f n)
  | cons c l ih =>
    rw [mask, List.map_cons, List.cons.injEq, ih, allQuoted_cons]
    refine and_congr_left fun _ => ?_
    by_cases hc : c = f
    · rw [if_pos hc]
      by_cases hp : n % 2 = 1 ∧ q ∈ l
      · rw [if_pos ⟨hc, hp⟩]
        exact iff_of_true rfl fun _ => hp
      · rw [if_neg fun h => hp h.2, hc]
        exact iff_of_false hft fun h => hp (h rfl)
    · rw [if_neg fun h => hc h.1, if_neg hc]
      exact iff_of_true rfl fun h => absurd h hc

end QuoteMask
