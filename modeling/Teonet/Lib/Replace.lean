import Mathlib.Data.List.Basic
import Mathlib.Tactic.Common

/-! # Replacing the places of a word

`cut` finds the first place of a word in a list, and `replaceAll` puts another word there and goes
on behind it.  The two rules `replaceAll_append` and `replaceAll_cons` read the result off from left
to right: a word at the front is replaced, and a letter at which the word does not stand stays. -/

namespace Replace

variable {α : Type} [DecidableEq α] {needle into before behind s : List α} {c : α}

/-- What stands before the first place of the word, and what stands behind it. -/
def cut (needle : List α) : List α → Option (List α × List α)
  | [] => if needle = [] then some ([], []) else none
  | c :: s =>
    if needle <+: c :: s then some ([], (c :: s).drop needle.length)
    else (cut needle s).map fun r => (c :: r.1, r.2)

theorem eq_append_of_cut (h : cut needle s = some (before, behind)) :
    s = before ++ needle ++ behind := by
  induction s generalizing before with
  | nil =>
    rw [cut] at h
    split at h
    · cases h
      simp_all
    · cases h
  | cons c s ih =>
    rw [cut] at h
    split at h
    · rename_i hprefix
      cases h
      rw [List.nil_append]
      exact (List.prefix_iff_eq_append.mp hprefix).symm
    · obtain ⟨⟨before', behind'⟩, hcut, he⟩ := Option.map_eq_some_iff.mp h
      cases he
      rw [ih hcut]
      rfl

theorem cut_append (hne : needle ≠ []) (s : List α) : cut needle (needle ++ s) = some ([], s) := by
  cases needle with
  | nil => exact absurd rfl hne
  | cons c needle =>
    rw [List.cons_append, cut, ← List.cons_append, if_pos (List.prefix_append _ _),
      List.drop_left]

theorem cut_cons (h : ¬needle <+: c :: s) :
    cut needle (c :: s) = (cut needle s).map fun r => (c :: r.1, r.2) := by
  rw [cut, if_neg h]

/-- Replace every place of a word, from left to right.  (The empty word has no end of places, and is
not replaced.) -/
def replaceAll (needle into s : List α) : List α :=
  match cut needle s with
  | none => s
  | some (before, behind) =>
    if behind.length < s.length then before ++ into ++ replaceAll needle into behind else s
termination_by s.length

theorem replaceAll_of_cut_none (h : cut needle s = none) : replaceAll needle into s = s := by
  rw [replaceAll, h]

theorem replaceAll_of_cut (hne : needle ≠ []) (h : cut needle s = some (before, behind)) :
    replaceAll needle into s = before ++ into ++ replaceAll needle into behind := by
  have hlen : behind.length < s.length := by
    have hpos := List.length_pos_of_ne_nil hne
    rw [eq_append_of_cut h, List.length_append, List.length_append]
    omega
  rw [replaceAll, h]
  exact if_pos hlen

theorem replaceAll_nil (hne : needle ≠ []) (into : List α) : replaceAll needle into [] = [] :=
  replaceAll_of_cut_none (if_neg hne)

/-- The word at the front is replaced. -/
theorem replaceAll_append (hne : needle ≠ []) (into s : List α) :
    replaceAll needle into (needle ++ s) = into ++ replaceAll needle into s := by
  rw [replaceAll_of_cut hne (cut_append hne s), List.nil_append]

/-- A letter at which the word does not stand stays. -/
theorem replaceAll_cons (h : ¬needle <+: c :: s) (into : List α) :
    replaceAll needle into (c :: s) = c :: replaceAll needle into s := by
  have hne : needle ≠ [] := by
    rintro rfl
    exact h List.nil_prefix
  have hcons := cut_cons h
  cases hcut : cut needle s with
  | none =>
    rw [hcut] at hcons
    rw [replaceAll_of_cut_none hcut, replaceAll_of_cut_none hcons]
  | some r =>
    obtain ⟨before, behind⟩ := r
    rw [hcut] at hcons
    rw [replaceAll_of_cut hne hcut, replaceAll_of_cut hne hcons]
    rfl

end Replace
