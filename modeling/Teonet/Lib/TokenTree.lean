import Mathlib.Data.List.Basic
import Mathlib.Data.List.Pairwise
import Mathlib.Tactic.Common

/-! # Documents of tokens

A document is a tree of tokens: a value is a leaf, an array of values, or an object, of which each
member has a key and a value.  `tokens` is the list in which a parser gives the tokens, every one
before those that lie in it.  `places` finds the members of an object in this list. -/

namespace TokenTree

variable {T : Type}

mutual

/-- A value. -/
inductive Value (T : Type)
  | leaf (t : T)
  | arr (t : T) (items : Items T)
  | obj (t : T) (members : Members T)

/-- The values of an array. -/
inductive Items (T : Type)
  | nil
  | cons (value : Value T) (rest : Items T)

/-- The members of an object. -/
inductive Members (T : Type)
  | nil
  | cons (key : T) (value : Value T) (rest : Members T)

end

mutual

/-- The tokens of a value. -/
def Value.tokens : Value T → List T
  | .leaf t => [t]
  | .arr t items => t :: items.tokens
  | .obj t members => t :: members.tokens

/-- The tokens of the values of an array. -/
def Items.tokens : Items T → List T
  | .nil => []
  | .cons value rest => value.tokens ++ rest.tokens

/-- The tokens of the members of an object. -/
def Members.tokens : Members T → List T
  | .nil => []
  | .cons key value rest => key :: (value.tokens ++ rest.tokens)

end

/-- The token of a value itself. -/
def Value.root : Value T → T
  | .leaf t => t
  | .arr t _ => t
  | .obj t _ => t

/-- The members of an object whose tokens start at the place `n`: the key, the value and the place
of the value. -/
def Members.places : Members T → ℕ → List (T × Value T × ℕ)
  | .nil, _ => []
  | .cons key value rest, n => (key, value, n + 1) :: rest.places (n + 1 + value.tokens.length)

theorem Value.tokens_eq (v : Value T) : ∃ rest, v.tokens = v.root :: rest := by
  cases v with
  | leaf t => exact ⟨[], by rw [tokens, root]⟩
  | arr t items => exact ⟨items.tokens, by rw [tokens, root]⟩
  | obj t members => exact ⟨members.tokens, by rw [tokens, root]⟩

theorem Value.length_tokens_pos (v : Value T) : 0 < v.tokens.length := by
  obtain ⟨rest, h⟩ := v.tokens_eq
  rw [h]
  exact Nat.succ_pos _

/-- A member lies where `places` says: its key directly before its value. -/
theorem Members.of_mem_places : ∀ {m : Members T} {n : ℕ} {key : T} {v : Value T} {p : ℕ},
    (key, v, p) ∈ m.places n → ∃ i, p = n + i + 1 ∧ m.tokens[i]? = some key ∧
      m.tokens[i + 1]? = some v.root
  | .nil, _, _, _, _, h => by cases h
  | .cons k w rest, n, key, v, p, h => by
      rw [places, List.mem_cons] at h
      obtain ⟨l, hl⟩ := w.tokens_eq
      rcases h with h | h
      · obtain ⟨rfl, rfl, rfl⟩ := h
        refine ⟨0, rfl, by rw [tokens]; rfl, ?_⟩
        rw [tokens, hl]
        rfl
      · have hget : ∀ j, (Members.cons k w rest).tokens[1 + w.tokens.length + j]? =
            rest.tokens[j]? := fun j => by
          have hj : 1 + w.tokens.length + j = w.tokens.length + j + 1 := by omega
          rw [tokens, hj, List.getElem?_cons_succ, List.getElem?_append_right (by omega),
            Nat.add_sub_cancel_left]
        obtain ⟨i, rfl, hkey, hroot⟩ := of_mem_places h
        exact ⟨1 + w.tokens.length + i, by omega, (hget i).trans hkey, (hget (i + 1)).trans hroot⟩

/-- No value is a key of the same object. -/
theorem Members.pairwise_places : ∀ (m : Members T) (n : ℕ),
    (m.places n).Pairwise fun a b => a.2.2 + 2 ≤ b.2.2
  | .nil, _ => List.Pairwise.nil
  | .cons key value rest, n => by
      rw [places, List.pairwise_cons]
      refine ⟨?_, rest.pairwise_places _⟩
      rintro ⟨k, v, p⟩ h
      obtain ⟨i, rfl, -, -⟩ := of_mem_places h
      have hpos := value.length_tokens_pos
      show n + 1 + 2 ≤ n + 1 + value.tokens.length + i + 1
      omega

theorem Members.places_apart {m : Members T} {n : ℕ} {a b : T × Value T × ℕ}
    (ha : a ∈ m.places n) (hb : b ∈ m.places n) (hne : a ≠ b) :
    a.2.2 + 2 ≤ b.2.2 ∨ b.2.2 + 2 ≤ a.2.2 := by
  have hpair : (m.places n).Pairwise fun a b => a.2.2 + 2 ≤ b.2.2 ∨ b.2.2 + 2 ≤ a.2.2 :=
    (m.pairwise_places n).imp Or.inl
  have hsymm : Std.Symm fun a b : T × Value T × ℕ => a.2.2 + 2 ≤ b.2.2 ∨ b.2.2 + 2 ≤ a.2.2 :=
    ⟨fun _ _ h => h.symm⟩
  exact hpair.forall ha hb hne

end TokenTree
