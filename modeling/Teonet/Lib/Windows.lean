import Mathlib.Data.List.Basic
import Mathlib.Tactic.Ring

/-! # Windows of a list

`window k l i` is the `i`-th piece of `l` when it is cut into pieces of `k` elements; the last
piece may be shorter.  `windowCount k n` pieces cover a list of `n` elements.  Joined in order,
the first windows give back the list as far as they reach (`flatten_map_window`). -/

namespace Windows

variable {α : Type}

/-- The `i`-th piece of `k` elements. -/
def window (k : ℕ) (l : List α) (i : ℕ) : List α := (l.drop (k * i)).take k

/-- How many pieces of `k` elements cover `n` elements. -/
def windowCount (k n : ℕ) : ℕ := n / k + if n % k ≠ 0 then 1 else 0

theorem window_length (k : ℕ) (l : List α) (i : ℕ) :
    (window k l i).length = min k (l.length - k * i) := by
  rw [window, List.length_take, List.length_drop]

theorem take_append_window (k : ℕ) (l : List α) (i : ℕ) :
    l.take (k * i) ++ window k l i = l.take (k * (i + 1)) := by
  rw [window, Nat.mul_add, Nat.mul_one, List.take_add]

theorem flatten_map_window (k : ℕ) (l : List α) :
    ∀ n : ℕ, ((List.range n).map (window k l)).flatten = l.take (k * n)
  | 0 => by simp
  | n + 1 => by
      rw [List.range_succ, List.map_append, List.flatten_append, flatten_map_window k l n]
      simp only [List.map_cons, List.map_nil, List.flatten_cons, List.flatten_nil,
        List.append_nil]
      exact take_append_window k l n

theorem le_mul_windowCount {k : ℕ} (hk : 0 < k) (n : ℕ) : n ≤ k * windowCount k n := by
  have hdiv := Nat.div_add_mod n k
  have hmod := Nat.mod_lt n hk
  unfold windowCount
  by_cases h : n % k ≠ 0
  · rw [if_pos h, Nat.mul_add]
    omega
  · rw [if_neg h, Nat.mul_add]
    omega

/-- A window that is counted starts inside the list. -/
theorem mul_lt_of_lt_windowCount {k : ℕ} {n i : ℕ} (h : i < windowCount k n) :
    k * i < n := by
  have hdiv := Nat.div_add_mod n k
  unfold windowCount at h
  by_cases hr : n % k ≠ 0
  · rw [if_pos hr] at h
    have hle : k * i ≤ k * (n / k) := Nat.mul_le_mul_left k (by omega)
    omega
  · rw [if_neg hr] at h
    have hk : 0 < k := by
      rcases Nat.eq_zero_or_pos k with rfl | hpos
      · simp at h
      · exact hpos
    have hlt : k * i < k * (n / k) := Nat.mul_lt_mul_of_pos_left (by omega) hk
    omega

theorem windowCount_le {k m n : ℕ} (h : n ≤ k * m) : windowCount k n ≤ m := by
  by_contra hlt
  exact absurd (mul_lt_of_lt_windowCount (not_le.mp hlt)) (not_lt.mpr h)

/-- The windows before the last one are full. -/
theorem window_length_of_succ_lt {k : ℕ} {l : List α} {i : ℕ}
    (h : i + 1 < windowCount k l.length) : (window k l i).length = k := by
  have hlt := mul_lt_of_lt_windowCount h
  rw [window_length, Nat.mul_add, Nat.mul_one] at *
  omega

end Windows
