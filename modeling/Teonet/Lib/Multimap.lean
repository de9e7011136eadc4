import Mathlib.Data.List.Basic
import Mathlib.Tactic.SplitIfs

/-! # Multimaps

A multimap is the list of its records, and several records may have the same key.  `lastIdx` is the
place of the last record of a key and `lastValue` its value; the records before it are hidden.
`exists_of_lastIdx` splits a multimap at that place.  `lastValue_set` and `lastValue_concat` say
what writing the last record, and adding one, make of the values, `filter_eraseIdx` what the removal
of one leaves. -/

namespace Multimap

variable {κ δ : Type} [DecidableEq κ] {k k' : κ} {l : List (κ × δ)}

/-- The place of the last record of a key. -/
def lastIdx (k : κ) : List (κ × δ) → Option ℕ
  | [] => none
  | r :: l =>
    match lastIdx k l with
    | some i => some (i + 1)
    | none => if r.1 = k then some 0 else none

/-- The value of the last record of a key. -/
def lastValue (k : κ) : List (κ × δ) → Option δ
  | [] => none
  | r :: l => (lastValue k l).or (if r.1 = k then some r.2 else none)

/-- The number of records of a key. -/
def count (k : κ) (l : List (κ × δ)) : ℕ := l.countP (·.1 = k)

theorem lastIdx_eq_none_iff : lastIdx k l = none ↔ ∀ r ∈ l, r.1 ≠ k := by
  induction l with
  | nil => simp [lastIdx]
  | cons r l ih =>
    rw [lastIdx, List.forall_mem_cons, ← ih]
    cases lastIdx k l <;> simp

theorem lastValue_eq_none_iff : lastValue k l = none ↔ ∀ r ∈ l, r.1 ≠ k := by
  induction l with
  | nil => simp [lastValue]
  | cons r l ih =>
    rw [lastValue, Option.or_eq_none_iff, ih, List.forall_mem_cons, and_comm]
    simp

theorem lastValue_append (k : κ) (l m : List (κ × δ)) :
    lastValue k (l ++ m) = (lastValue k m).or (lastValue k l) := by
  induction l with
  | nil => simp [lastValue]
  | cons r l ih => rw [List.cons_append, lastValue, ih, lastValue, Option.or_assoc]

/-- **The last record** of a key, with those before it and those behind it. -/
theorem exists_of_lastIdx {i : ℕ} (h : lastIdx k l = some i) :
    ∃ front d back, l = front ++ (k, d) :: back ∧ front.length = i ∧ lastValue k back = none := by
  induction l generalizing i with
  | nil => cases h
  | cons r l ih =>
    rw [lastIdx] at h
    cases hl : lastIdx k l with
    | some j =>
      rw [hl] at h
      obtain rfl := Option.some.inj h
      obtain ⟨front, d, back, rfl, rfl, hback⟩ := ih hl
      exact ⟨r :: front, d, back, rfl, rfl, hback⟩
    | none =>
      rw [hl] at h
      dsimp only at h
      split_ifs at h with hr
      obtain rfl := Option.some.inj h
      exact ⟨[], r.2, l, by rw [← hr]; rfl, rfl,
        lastValue_eq_none_iff.mpr (lastIdx_eq_none_iff.mp hl)⟩

theorem lastValue_split {front back : List (κ × δ)} {d : δ} (h : lastValue k back = none) (k' : κ) :
    lastValue k' (front ++ (k, d) :: back) =
      if k' = k then some d else lastValue k' (front ++ back) := by
  rw [lastValue_append, lastValue, lastValue_append]
  by_cases hk : k' = k
  · subst hk
    simp [h]
  · rw [if_neg (Ne.symm hk), if_neg hk, Option.or_none]

/-- The record at the last place of a key. -/
theorem getElem?_lastIdx {i : ℕ} (h : lastIdx k l = some i) :
    ∃ d, l[i]? = some (k, d) ∧ lastValue k l = some d := by
  obtain ⟨front, d, back, rfl, rfl, hback⟩ := exists_of_lastIdx h
  refine ⟨d, by simp, ?_⟩
  rw [lastValue_split hback, if_pos rfl]

theorem lastValue_of_lastIdx_none (h : lastIdx k l = none) : lastValue k l = none :=
  lastValue_eq_none_iff.mpr (lastIdx_eq_none_iff.mp h)

/-- The last record of a key is written. -/
theorem lastValue_set {i : ℕ} (h : lastIdx k l = some i) (d : δ) (k' : κ) :
    lastValue k' (l.set i (k, d)) = if k' = k then some d else lastValue k' l := by
  obtain ⟨front, d', back, rfl, rfl, hback⟩ := exists_of_lastIdx h
  rw [List.set_append_right _ _ (Nat.le_refl _), Nat.sub_self, List.set_cons_zero,
    lastValue_split hback, lastValue_split hback]
  split_ifs <;> rfl

/-- A record is added. -/
theorem lastValue_concat (k : κ) (d : δ) (l : List (κ × δ)) (k' : κ) :
    lastValue k' (l ++ [(k, d)]) = if k' = k then some d else lastValue k' l := by
  rw [lastValue_split rfl, List.append_nil]

/-- All records of a key are removed. -/
theorem lastValue_filter (k : κ) (l : List (κ × δ)) (k' : κ) :
    lastValue k' (l.filter (·.1 ≠ k)) = if k' = k then none else lastValue k' l := by
  induction l with
  | nil => simp [lastValue]
  | cons r l ih =>
    by_cases hr : r.1 = k
    · rw [List.filter_cons_of_neg (by simpa using hr), ih, lastValue]
      split_ifs with hk hk' <;> simp_all
    · rw [List.filter_cons_of_pos (by simpa using hr), lastValue, ih, lastValue]
      split_ifs with hk hk' <;> simp_all

/-- Removing a record of a key leaves the records of the other keys. -/
theorem filter_eraseIdx {i : ℕ} (h : lastIdx k l = some i) :
    (l.eraseIdx i).filter (·.1 ≠ k) = l.filter (·.1 ≠ k) ∧
      count k (l.eraseIdx i) + 1 = count k l := by
  obtain ⟨front, d, back, rfl, rfl, -⟩ := exists_of_lastIdx h
  rw [List.eraseIdx_append_of_length_le (Nat.le_refl _), Nat.sub_self, List.eraseIdx_cons_zero]
  constructor
  · simp
  · simp [count, Nat.add_assoc]

theorem filter_of_lastIdx_none (h : lastIdx k l = none) : l.filter (·.1 ≠ k) = l :=
  List.filter_eq_self.mpr fun r hr => by simpa using lastIdx_eq_none_iff.mp h r hr

end Multimap
