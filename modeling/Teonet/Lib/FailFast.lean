import Mathlib.Data.List.Basic
import Mathlib.Tactic.SplitIfs

/-! # Fail-fast iterators

An iterator that is fail-fast notices that its collection was changed behind its back and then has
no further element.  `iterate` is a loop over such an iterator whose body may change the collection,
so it ends behind the first element for which the body does (`visited`).

`map_iterate` gives the output of a loop whose body does the same for an element in every state of an
invariant, `iterate_induction` what the loop preserves, and `iterate_of_changes` its last state.
`forall_mem_visited_iff` says when the loop comes to all the elements that it is meant for. -/

namespace FailFast

variable {α σ ω ω' : Type}

/-- The elements that the loop comes to. -/
def visited (changes : α → Bool) : List α → List α
  | [] => []
  | a :: l => if changes a then [a] else a :: visited changes l

/-- The loop; the body returns the state, its output, and whether it has changed the collection. -/
def iterate (body : σ → α → σ × List ω × Bool) : List α → σ → σ × List ω
  | [], s => (s, [])
  | a :: l, s =>
    let r := body s a
    if r.2.2 then (r.1, r.2.1)
    else
      let r' := iterate body l r.1
      (r'.1, r.2.1 ++ r'.2)

variable {body : σ → α → σ × List ω × Bool} {changes : α → Bool} {l : List α} {s : σ} {a : α}

theorem visited_sublist (changes : α → Bool) : ∀ l : List α, (visited changes l).Sublist l
  | [] => .refl []
  | a :: l => by
      rw [visited]
      split_ifs
      · exact (List.nil_sublist l).cons_cons a
      · exact (visited_sublist changes l).cons_cons a

theorem iterate_cons_of_changes (h : (body s a).2.2 = true) :
    iterate body (a :: l) s = ((body s a).1, (body s a).2.1) := if_pos h

theorem iterate_cons_of_not_changes (h : (body s a).2.2 = false) :
    iterate body (a :: l) s =
      ((iterate body l (body s a).1).1, (body s a).2.1 ++ (iterate body l (body s a).1).2) :=
  if_neg (by rw [h]; decide)

/-- **The output** of the loop, as seen through `f`. -/
theorem map_iterate {I : σ → Prop} {f : ω → ω'} {out : α → List ω'}
    (hbody : ∀ s, I s → ∀ a, (body s a).2.1.map f = out a ∧ (body s a).2.2 = changes a ∧
      (changes a = false → I (body s a).1)) :
    ∀ (l : List α) (s : σ), I s → (iterate body l s).2.map f = (visited changes l).flatMap out
  | [], _, _ => rfl
  | a :: l, s, hs => by
      obtain ⟨hout, hflag, hnext⟩ := hbody s hs a
      rw [visited]
      cases hc : changes a with
      | true =>
        rw [iterate_cons_of_changes (hflag.trans hc), if_pos rfl, hout, List.flatMap_singleton]
      | false =>
        rw [iterate_cons_of_not_changes (hflag.trans hc), if_neg (by decide), List.map_append, hout,
          map_iterate hbody l _ (hnext hc), List.flatMap_cons]

/-- What the body preserves. -/
theorem iterate_induction {P : σ → Prop} (hbody : ∀ s a, P s → P (body s a).1) :
    ∀ (l : List α) (s : σ), P s → P (iterate body l s).1
  | [], _, hs => hs
  | a :: l, s, hs => by
      cases hc : (body s a).2.2 with
      | true =>
        rw [iterate_cons_of_changes hc]
        exact hbody s a hs
      | false =>
        rw [iterate_cons_of_not_changes hc]
        exact iterate_induction hbody l _ (hbody s a hs)

/-- **The last state**, where the loop comes to an element that changes the collection. -/
theorem iterate_of_changes {I : σ → Prop}
    (hbody : ∀ s, I s → ∀ a, (body s a).2.2 = changes a ∧ (changes a = false → I (body s a).1))
    (ha : changes a = true) :
    ∀ (l : List α) (s : σ), I s → a ∈ visited changes l →
      ∃ s', I s' ∧ (iterate body l s).1 = (body s' a).1
  | b :: l, s, hs, hmem => by
      obtain ⟨hflag, hnext⟩ := hbody s hs b
      rw [visited] at hmem
      cases hc : changes b with
      | true =>
        rw [hc, if_pos rfl, List.mem_singleton] at hmem
        subst hmem
        rw [iterate_cons_of_changes (hflag.trans hc)]
        exact ⟨s, hs, rfl⟩
      | false =>
        rw [hc, if_neg (by decide), List.mem_cons] at hmem
        rw [iterate_cons_of_not_changes (hflag.trans hc)]
        refine iterate_of_changes hbody ha l _ (hnext hc) (hmem.resolve_left ?_)
        rintro rfl
        rw [ha] at hc
        cases hc

/-- **All that are due are visited** exactly if none of them follows one that changes the
collection. -/
theorem forall_mem_visited_iff (changes : α → Bool) (due : α → Prop) (hnodup : l.Nodup) :
    (∀ a ∈ l, due a → a ∈ visited changes l) ↔
      l.Pairwise fun a b => changes a = true → ¬ due b := by
  induction l with
  | nil => simp
  | cons a l ih =>
    obtain ⟨ha, hl⟩ := List.nodup_cons.mp hnodup
    rw [List.pairwise_cons, ← ih hl, visited]
    cases hc : changes a with
    | true =>
      rw [if_pos rfl]
      constructor
      · intro h
        have hnot : ∀ b ∈ l, ¬ due b := by
          intro b hb hdueb
          have hba := List.mem_singleton.mp (h b (List.mem_cons_of_mem a hb) hdueb)
          exact ha (hba ▸ hb)
        exact ⟨fun b hb _ => hnot b hb, fun b hb hdueb => absurd hdueb (hnot b hb)⟩
      · rintro ⟨hnot, -⟩ b hb hdueb
        rcases List.mem_cons.mp hb with rfl | hb
        · exact List.mem_singleton_self b
        · exact absurd hdueb (hnot b hb rfl)
    | false =>
      rw [if_neg (by decide)]
      constructor
      · intro h
        refine ⟨fun b hb hfalse => absurd hfalse (by decide), fun b hb hdueb => ?_⟩
        have hmem := h b (List.mem_cons_of_mem a hb) hdueb
        refine (List.mem_cons.mp hmem).resolve_left ?_
        rintro rfl
        exact ha hb
      · rintro ⟨-, h⟩ b hb hdueb
        rcases List.mem_cons.mp hb with rfl | hb
        · exact List.mem_cons_self
        · exact List.mem_cons_of_mem a (h b hb hdueb)

/-- What the output has about one element, if nothing else in it is about this element. -/
theorem count_flatMap [DecidableEq α] [BEq ω'] [LawfulBEq ω'] {out : α → List ω'} {c : ω'}
    (hout : ∀ b, b ≠ a → c ∉ out b) {v : List α} (hnodup : v.Nodup) :
    (v.flatMap out).count c = if a ∈ v then (out a).count c else 0 := by
  induction v with
  | nil => simp
  | cons b v ih =>
    obtain ⟨hb, hv⟩ := List.nodup_cons.mp hnodup
    rw [List.flatMap_cons, List.count_append, ih hv]
    by_cases hba : b = a
    · subst hba
      rw [if_neg hb, if_pos List.mem_cons_self, Nat.add_zero]
    · have hmem : a ∈ b :: v ↔ a ∈ v := by simp [Ne.symm hba]
      rw [List.count_eq_zero_of_not_mem (hout b hba), Nat.zero_add]
      simp only [hmem]

end FailFast
