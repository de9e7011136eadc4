import Mathlib.Logic.Function.Basic
import Mathlib.Tactic.Common

/-! # Directories

A directory has members, each with a name or without one, and an index from names to members.
Members enter without a name, leave, and are named; naming writes the index but never takes an
entry out of it.  `Consistent` says that the index is the inverse of the names.  Entering and
leaving keep it (`Consistent.enter`, `Consistent.leave`), and so does a login of a member that has
no other name (`Consistent.login`); a login of a member that has one always breaks it
(`not_consistent_login`). -/

/-- Members `κ` with names `ν`: for each member its name, if it has one, and for each name its
member. -/
structure Directory (κ ν : Type) where
  member : κ → Option (Option ν)
  owner : ν → Option κ

namespace Directory

variable {κ ν : Type}

theorem ext {d e : Directory κ ν} (hm : ∀ k, d.member k = e.member k)
    (ho : ∀ n, d.owner n = e.owner n) : d = e := by
  cases d; cases e
  congr
  · exact funext hm
  · exact funext ho

/-- The index is the inverse of the names. -/
def Consistent (d : Directory κ ν) : Prop :=
  ∀ n k, d.owner n = some k ↔ d.member k = some (some n)

/-- No two members have the same name. -/
theorem Consistent.unique {d : Directory κ ν} (h : d.Consistent) {k k' : κ} {n : ν}
    (hk : d.member k = some (some n)) (hk' : d.member k' = some (some n)) : k = k' :=
  Option.some.inj (((h n k).mpr hk).symm.trans ((h n k').mpr hk'))

variable [DecidableEq κ]

/-- A new member, without a name. -/
def enter (d : Directory κ ν) (k : κ) : Directory κ ν :=
  { d with member := Function.update d.member k (some none) }

theorem Consistent.enter {d : Directory κ ν} (h : d.Consistent) {k : κ} (hk : d.member k = none) :
    (d.enter k).Consistent := by
  intro n k'
  unfold Directory.enter
  dsimp only
  by_cases heq : k' = k
  · subst heq
    rw [Function.update_self, h n k', hk]
    simp
  · rw [Function.update_of_ne heq]
    exact h n k'

variable [DecidableEq ν]

/-- A member leaves, and its name leaves the index. -/
def leave (d : Directory κ ν) (k : κ) : Directory κ ν where
  member := Function.update d.member k none
  owner := match (d.member k).join with
    | some n => Function.update d.owner n none
    | none => d.owner

/-- A member is given a name, which the index points to it from then on. -/
def rename (d : Directory κ ν) (k : κ) (n : ν) : Directory κ ν where
  member := Function.update d.member k (some (some n))
  owner := Function.update d.owner n (some k)

/-- A member is given a name; another member that has it must leave. -/
def login (d : Directory κ ν) (k : κ) (n : ν) : Directory κ ν :=
  match d.owner n with
  | some k' => if k' = k then d.rename k n else (d.leave k').rename k n
  | none => d.rename k n

theorem Consistent.leave {d : Directory κ ν} (h : d.Consistent) (k : κ) :
    (d.leave k).Consistent := by
  intro n k'
  have howner : (d.leave k).owner n = some k' ↔ d.owner n = some k' ∧ k' ≠ k := by
    unfold Directory.leave
    dsimp only
    cases hk : (d.member k).join with
    | some m =>
      dsimp only
      have hm : d.owner m = some k := (h m k).mpr (Option.join_eq_some_iff.mp hk)
      by_cases hn : n = m
      · subst hn
        rw [Function.update_self, hm]
        simp only [reduceCtorEq, Option.some.injEq, false_iff, not_and, not_not]
        exact fun heq => heq.symm
      · rw [Function.update_of_ne hn]
        refine ⟨fun ho => ⟨ho, fun heq => hn ?_⟩, fun ho => ho.1⟩
        subst heq
        have hname := (h n k').mp ho
        rw [(h m k').mp hm] at hname
        exact (Option.some.inj (Option.some.inj hname)).symm
    | none =>
      refine ⟨fun ho => ⟨ho, fun heq => ?_⟩, fun ho => ho.1⟩
      subst heq
      rw [(h n k').mp ho] at hk
      cases hk
  rw [howner, h n k']
  unfold Directory.leave
  dsimp only
  by_cases heq : k' = k
  · subst heq
    rw [Function.update_self]
    simp
  · rw [Function.update_of_ne heq]
    simp [heq]

/-- Naming keeps the index right when nobody else has the name and the member has no other. -/
theorem Consistent.rename {d : Directory κ ν} (h : d.Consistent) {k : κ} {n : ν}
    (hk : d.member k = some none ∨ d.member k = some (some n))
    (hn : d.owner n = none ∨ d.owner n = some k) : (d.rename k n).Consistent := by
  intro m k'
  unfold Directory.rename
  dsimp only
  by_cases hm : m = n
  · subst hm
    rw [Function.update_self]
    by_cases heq : k' = k
    · rw [heq, Function.update_self]
      exact ⟨fun _ => rfl, fun _ => rfl⟩
    · rw [Function.update_of_ne heq, ← h m k']
      rcases hn with hn | hn
      · rw [hn]
        simp [Ne.symm heq]
      · rw [hn]
  · rw [Function.update_of_ne hm]
    by_cases heq : k' = k
    · subst heq
      rw [Function.update_self, h m k']
      rcases hk with hk | hk
      · rw [hk]
        simp [Ne.symm hm]
      · rw [hk]
    · rw [Function.update_of_ne heq]
      exact h m k'

theorem leave_of_absent {d : Directory κ ν} {k : κ} (h : d.member k = none) : d.leave k = d := by
  apply ext
  · intro k'
    show Function.update d.member k none k' = d.member k'
    rw [← h, Function.update_eq_self]
  · intro n
    unfold leave
    rw [h]
    rfl

theorem leave_member_of_ne (d : Directory κ ν) {k k' : κ} (h : k' ≠ k) :
    (d.leave k).member k' = d.member k' :=
  Function.update_of_ne h _ _

/-- Leaving takes the member's name out of the index. -/
theorem leave_owner {d : Directory κ ν} {k : κ} {n : ν}
    (h : d.member k = some (some n)) : (d.leave k).owner n = none := by
  unfold leave
  rw [h]
  exact Function.update_self _ _ _

/-- A login lets nobody in … -/
theorem login_member_eq_none (d : Directory κ ν) {k k' : κ} {n : ν} (hne : k' ≠ k)
    (h : d.member k' = none) : (d.login k n).member k' = none := by
  unfold login rename
  cases d.owner n with
  | none => exact (Function.update_of_ne hne _ _).trans h
  | some m =>
    dsimp only
    split
    · exact (Function.update_of_ne hne _ _).trans h
    · refine (Function.update_of_ne hne _ _).trans ?_
      show Function.update d.member m none k' = none
      rw [Function.update_apply, h, ite_self]

/-- … and another member that has the name does not stay. -/
theorem login_member_owner (d : Directory κ ν) {k k' : κ} {n : ν} (hne : k' ≠ k)
    (h : d.owner n = some k') : (d.login k n).member k' = none := by
  unfold login rename
  rw [h]
  dsimp only
  rw [if_neg hne]
  exact (Function.update_of_ne hne _ _).trans (Function.update_self _ _ _)

/-- **A login keeps the index right** when the member has no name yet, or has this one. -/
theorem Consistent.login {d : Directory κ ν} (h : d.Consistent) {k : κ} {n : ν}
    (hk : d.member k = some none ∨ d.member k = some (some n)) : (d.login k n).Consistent := by
  unfold Directory.login
  cases ho : d.owner n with
  | none => exact h.rename hk (Or.inl ho)
  | some k' =>
    dsimp only
    split
    · rename_i heq
      exact h.rename hk (Or.inr (heq ▸ ho))
    · rename_i hne
      apply (h.leave k').rename
      · rw [d.leave_member_of_ne (Ne.symm hne)]
        exact hk
      · exact Or.inl (leave_owner ((h n k').mp ho))

/-- **A login of a member that has another name breaks the index**: its old name still points to
it. -/
theorem not_consistent_login {d : Directory κ ν} (h : d.Consistent) {k : κ} {m n : ν}
    (hk : d.member k = some (some m)) (hne : m ≠ n) : ¬ (d.login k n).Consistent := by
  intro hc
  have howner : (d.login k n).owner m = some k := by
    have hm : d.owner m = some k := (h m k).mpr hk
    unfold login rename
    cases ho : d.owner n with
    | none => exact (Function.update_of_ne hne _ _).trans hm
    | some k' =>
      dsimp only
      split
      · exact (Function.update_of_ne hne _ _).trans hm
      · have hmember := (h n k').mp ho
        refine (Function.update_of_ne hne _ _).trans ?_
        unfold leave
        rw [hmember]
        exact (Function.update_of_ne hne _ _).trans hm
  have hname : (d.login k n).member k = some (some n) := by
    unfold login rename
    cases d.owner n with
    | none => exact Function.update_self _ _ _
    | some k' =>
      dsimp only
      split
      · exact Function.update_self _ _ _
      · exact Function.update_self _ _ _
  rw [hc m k, hname] at howner
  exact hne (Option.some.inj (Option.some.inj howner)).symm

end Directory
