import Mathlib.Data.List.Basic
import Teonet.Lib.Runs

/-! # Two values that take turns

`Alternates x y l` says that `x` and `y` take turns in `l`, and `x` comes first.  `Turns x y b l c`
says more: where `b` tells whether `x` was the last one before `l`, `c` tells it after `l`.  It
composes along lists, so a system that keeps "`x` was the last one" in step with a property of its
state gives out `x` and `y` in turns (`Turns.run`). -/

namespace Alternation

variable {α : Type}

/-- The values `x` and `y` take turns, and `x` comes first. -/
def Alternates (x y : α) : List α → Prop
  | [] => True
  | e :: l => e = x ∧ Alternates y x l

/-- The values take turns: `x` comes first, or `y` when `x` was the last one before.  The second
truth value says whether `x` is the last one then. -/
def Turns (x y : α) : Bool → List α → Bool → Prop
  | b, [], c => b = c
  | false, e :: l, c => e = x ∧ Turns x y true l c
  | true, e :: l, c => e = y ∧ Turns x y false l c

variable {x y : α} {b c d : Bool} {l l' : List α}

theorem Turns.refl (b : Bool) : Turns x y b [] b := rfl

theorem Turns.first : Turns x y false [x] true := ⟨rfl, rfl⟩

theorem Turns.second : Turns x y true [y] false := ⟨rfl, rfl⟩

theorem Turns.append (h : Turns x y b l c) (h' : Turns x y c l' d) : Turns x y b (l ++ l') d := by
  induction l generalizing b with
  | nil =>
    obtain rfl : b = c := h
    exact h'
  | cons e l ih =>
    cases b with
    | false => exact ⟨h.1, ih h.2⟩
    | true => exact ⟨h.1, ih h.2⟩

theorem Turns.alternates : ∀ {b : Bool} {l : List α} {c : Bool}, Turns x y b l c →
    if b then Alternates y x l else Alternates x y l
  | b, [], _, _ => by cases b <;> trivial
  | false, _ :: _, _, h => ⟨h.1, h.2.alternates⟩
  | true, _ :: _, _, h => ⟨h.1, h.2.alternates⟩

/-- Where `x` is the last one after the list and was not before, it is the last of the list. -/
theorem Turns.getLast? : ∀ {b : Bool} {l : List α}, Turns x y b l true →
    l.getLast? = some x ∨ (l = [] ∧ b = true)
  | _, [], h => Or.inr ⟨rfl, h⟩
  | false, e :: l, h => by
      left
      rcases h.2.getLast? with hlast | ⟨rfl, -⟩
      · rw [List.getLast?_cons, hlast]
        rfl
      · rw [h.1]
        rfl
  | true, e :: l, h => by
      left
      rcases h.2.getLast? with hlast | ⟨-, hfalse⟩
      · rw [List.getLast?_cons, hlast]
        rfl
      · cases hfalse

/-- **Turns of a run**: where each step that meets the condition gives out `x` and `y` in turns, in
step with a property of the state, the run does. -/
theorem Turns.run {σ ε : Type} {step : σ → ε → σ → Prop} (f : σ → ε → σ × List α) (on : σ → Bool)
    (inv : σ → Prop) (hstep : ∀ s e t, inv s → step s e t →
      t = (f s e).1 ∧ inv t ∧ Turns x y (on s) (f s e).2 (on t))
    {s t : σ} {es : List ε} (h : Runs.Run step s es t) (hs : inv s) :
    Turns x y (on s) (Runs.outputs f s es) (on t) := by
  induction h with
  | nil s => exact Turns.refl _
  | cons hfirst _ ih =>
    obtain ⟨rfl, ht, hturns⟩ := hstep _ _ _ hs hfirst
    exact hturns.append (ih ht)

end Alternation
