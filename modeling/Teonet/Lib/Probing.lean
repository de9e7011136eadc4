import Mathlib.Data.Fintype.Card
import Mathlib.Data.Fintype.EquivFin
import Mathlib.Data.Nat.ModEq
import Mathlib.Logic.Function.Basic

/-! # Open addressing

A table of `n` slots, each empty or with an element, where the slots for an element are tried from
its home on in steps of a fixed size.  A step size that is coprime to `n` takes the walk through all
slots (`exists_walk`).

`Probed` is the invariant: on the way from the home of an element to its slot there is no empty slot.
A lookup may stop at the first empty slot (`Probed.home_ne`), an element can be stored there
(`Probed.store`), and an element is taken out by moving later ones back into the hole that it leaves.
Seen from an empty slot the walk is a line, and no element lies before its home (`Probed.line`), so the
hole and the slots behind it that were looked at are an interval: `Hole` is the invariant of that
loop, kept when an element stays (`Hole.skip`) and when it is moved (`Hole.move`), and at the next
empty slot the table is as it should be (`Hole.probed`). -/

namespace Probing

variable {α : Type} {n s : ℕ}

/-! ### Walks -/

/-- The slot after `k` steps from `h`. -/
def walk (n s h k : ℕ) : ℕ := (h + k * s) % n

theorem walk_lt (hn : 0 < n) (s h k : ℕ) : walk n s h k < n := Nat.mod_lt _ hn

theorem walk_zero {h : ℕ} (hh : h < n) (s : ℕ) : walk n s h 0 = h := by
  rw [walk, Nat.zero_mul, Nat.add_zero, Nat.mod_eq_of_lt hh]

theorem walk_succ (n s h k : ℕ) : walk n s h (k + 1) = (walk n s h k + s) % n := by
  rw [walk, walk, Nat.mod_add_mod, Nat.succ_mul, Nat.add_assoc]

theorem walk_walk (n s h j k : ℕ) : walk n s (walk n s h j) k = walk n s h (j + k) := by
  rw [walk, walk, walk, Nat.mod_add_mod, Nat.add_mul, Nat.add_assoc]

/-- After `n` steps the walk is back. -/
theorem walk_self {h : ℕ} (hh : h < n) (s : ℕ) : walk n s h n = h := by
  rw [walk, Nat.mul_comm, Nat.add_mul_mod_self_right, Nat.mod_eq_of_lt hh]

/-- **A walk meets no slot twice**. -/
theorem walk_inj (hs : Nat.Coprime n s) {h j k : ℕ} (hj : j < n) (hk : k < n)
    (heq : walk n s h j = walk n s h k) : j = k := by
  have hmul : j * s ≡ k * s [MOD n] := Nat.ModEq.add_left_cancel' h heq
  have hmod : j ≡ k [MOD n] := Nat.ModEq.cancel_right_of_coprime hs hmul
  exact Nat.ModEq.eq_of_lt_of_lt hmod hj hk

/-- **A walk meets every slot**. -/
theorem exists_walk (hs : Nat.Coprime n s) (h : ℕ) {i : ℕ} (hi : i < n) :
    ∃ k < n, walk n s h k = i := by
  have hn : 0 < n := Nat.zero_lt_of_lt hi
  have hinj : Function.Injective fun k : Fin n => (⟨walk n s h k, walk_lt hn s h k⟩ : Fin n) :=
    fun j k heq => Fin.ext (walk_inj hs j.isLt k.isLt (congrArg Fin.val heq))
  obtain ⟨k, hk⟩ := Finite.injective_iff_surjective.mp hinj ⟨i, hi⟩
  exact ⟨k, k.isLt, congrArg Fin.val hk⟩

/-! ### The invariant -/

/-- The slots from the home of an element to its own are taken. -/
def Probed (n s : ℕ) (home : α → ℕ) (t : ℕ → Option α) : Prop :=
  ∀ i < n, ∀ e, t i = some e →
    ∃ k < n, walk n s (home e) k = i ∧ ∀ j < k, t (walk n s (home e) j) ≠ none

variable {home : α → ℕ} {t : ℕ → Option α}

/-- What stands in no slot of its walk up to an empty one stands nowhere. -/
theorem Probed.home_ne (h : Probed n s home t) {start k : ℕ}
    (hempty : t (walk n s start k) = none) {i : ℕ} (hi : i < n) {e : α} (he : t i = some e)
    (hmiss : ∀ j < k, t (walk n s start j) ≠ some e) : home e ≠ start := by
  rintro rfl
  obtain ⟨j, -, rfl, hfull⟩ := h i hi e he
  rcases Nat.lt_trichotomy j k with hlt | rfl | hgt
  · exact hmiss j hlt he
  · rw [hempty] at he
    cases he
  · exact hfull k hgt hempty

/-- An element can be stored in the first empty slot of its walk. -/
theorem Probed.store (h : Probed n s home t) {e : α} {k : ℕ} (hk : k < n)
    (hfull : ∀ j < k, t (walk n s (home e) j) ≠ none) :
    Probed n s home (Function.update t (walk n s (home e) k) (some e)) := by
  have hkeep : ∀ i, t i ≠ none →
      Function.update t (walk n s (home e) k) (some e) i ≠ none := by
    intro i hi
    by_cases hik : i = walk n s (home e) k
    · rw [hik, Function.update_self]
      exact Option.some_ne_none e
    · rwa [Function.update_of_ne hik]
  intro i hi e' he'
  by_cases hik : i = walk n s (home e) k
  · rw [hik, Function.update_self] at he'
    obtain rfl := Option.some.inj he'
    exact ⟨k, hk, hik.symm, fun j hj => hkeep _ (hfull j hj)⟩
  · rw [Function.update_of_ne hik] at he'
    obtain ⟨k', hk', hwalk, hfull'⟩ := h i hi e' he'
    exact ⟨k', hk', hwalk, fun j hj => hkeep _ (hfull' j hj)⟩

/-- An element may take the place of another one with the same home. -/
theorem Probed.replace (h : Probed n s home t) {i : ℕ} {e e' : α} (hi : i < n) (he : t i = some e)
    (hhome : home e' = home e) : Probed n s home (Function.update t i (some e')) := by
  obtain ⟨k, hk, rfl, hfull⟩ := h i hi e he
  rw [← hhome] at hfull ⊢
  exact h.store hk hfull

/-! ### The table as a line -/

/-- The slots of a table in the order of the walk from an empty one. -/
structure Line (n s : ℕ) (home : α → ℕ) (t : ℕ → Option α) (free : ℕ) : Prop where
  coprime : Nat.Coprime n s
  free_lt : free < n
  home_lt : ∀ e, home e < n
  empty : t free = none

variable {free : ℕ}

/-- How far the home of an element lies behind the empty slot. -/
noncomputable def place (n s : ℕ) (home : α → ℕ) (free : ℕ) (e : α) : ℕ :=
  if h : ∃ k < n, walk n s free k = home e then h.choose else 0

theorem Line.walk_place (h : Line n s home t free) (e : α) :
    place n s home free e < n ∧ walk n s free (place n s home free e) = home e := by
  have hex := exists_walk h.coprime free (h.home_lt e)
  rw [place, dif_pos hex]
  exact hex.choose_spec

/-- **No element lies before its home**, and the slots between are taken. -/
theorem Probed.line (h : Probed n s home t) (hline : Line n s home t free) {c : ℕ} (hc : c < n)
    {e : α} (he : t (walk n s free c) = some e) :
    0 < place n s home free e ∧ place n s home free e ≤ c ∧
      ∀ j, place n s home free e ≤ j → j ≤ c → t (walk n s free j) ≠ none := by
  obtain ⟨hd, hwalk⟩ := hline.walk_place e
  have hn : 0 < n := Nat.zero_lt_of_lt hc
  obtain ⟨k, hk, hki, hfull⟩ := h _ (walk_lt hn s free c) e he
  generalize place n s home free e = d at hd hwalk
  rw [← hwalk, walk_walk] at hki
  have hempty : ∀ j, walk n s free j = free → t (walk n s free j) = none := by
    intro j hj
    rw [hj, hline.empty]
  have hfull' : ∀ j < k, t (walk n s free (d + j)) ≠ none := by
    intro j hj
    rw [← walk_walk, hwalk]
    exact hfull j hj
  have hback : ¬ n ≤ d + k := by
    intro hle
    rcases Nat.eq_or_lt_of_le hle with heq | hlt
    · rw [← heq, walk_self hline.free_lt] at hki
      rw [hempty c hki.symm] at he
      cases he
    · refine hfull' (n - d) (by omega) (hempty _ ?_)
      rw [Nat.add_sub_cancel' hd.le, walk_self hline.free_lt]
  have hdc : d + k = c := walk_inj hline.coprime (by omega) hc hki
  have hpos : 0 < d := by
    rcases Nat.eq_zero_or_pos d with rfl | hpos
    · rcases Nat.eq_zero_or_pos k with rfl | hkpos
      · have hzero : walk n s free c = free := by
          rw [← hdc]
          exact walk_zero hline.free_lt s
        rw [hempty c hzero] at he
        cases he
      · exact absurd (hempty 0 (walk_zero hline.free_lt s)) (hfull' 0 hkpos)
    · exact hpos
  refine ⟨hpos, by omega, fun j hdj hjc => ?_⟩
  rcases Nat.eq_or_lt_of_le hjc with rfl | hlt
  · rw [he]
    exact Option.some_ne_none e
  · have hj := hfull' (j - d) (by omega)
    rwa [Nat.add_sub_cancel' hdj] at hj

/-! ### Taking out -/

/-- There is a hole at `q`, and the slots behind it have been looked at up to `x`: nothing in them has
its home before the hole. -/
structure Hole (n s : ℕ) (home : α → ℕ) (free : ℕ) (t : ℕ → Option α) (q x : ℕ) : Prop where
  pos : 0 < q
  lt : q < x
  le : x ≤ n
  hole : t (walk n s free q) = none
  line : ∀ c < n, ∀ e, t (walk n s free c) = some e → 0 < place n s home free e ∧
    place n s home free e ≤ c ∧
    ∀ j, place n s home free e ≤ j → j ≤ c → j ≠ q → t (walk n s free j) ≠ none
  seen : ∀ c, q < c → c < x → ∀ e, t (walk n s free c) = some e → q < place n s home free e
  full : ∀ j, q < j → j < x → t (walk n s free j) ≠ none

/-- An element is taken out. -/
theorem Probed.hole (h : Probed n s home t) (hline : Line n s home t free) {q : ℕ} (hq : q < n)
    {e : α} (he : t (walk n s free q) = some e) :
    Hole n s home free (Function.update t (walk n s free q) none) q (q + 1) where
  pos := by
    obtain ⟨hpos, hle, -⟩ := h.line hline hq he
    omega
  lt := Nat.lt_succ_self q
  le := hq
  hole := Function.update_self ..
  line c hc e' he' := by
    have hcq : walk n s free c ≠ walk n s free q := by
      intro heq
      rw [heq, Function.update_self] at he'
      cases he'
    rw [Function.update_of_ne hcq] at he'
    obtain ⟨hpos, hle, hfull⟩ := h.line hline hc he'
    refine ⟨hpos, hle, fun j hdj hjc hjq => ?_⟩
    have hwalk : walk n s free j ≠ walk n s free q :=
      fun heq => hjq (walk_inj hline.coprime (by omega) hq heq)
    rw [Function.update_of_ne hwalk]
    exact hfull j hdj hjc
  seen c hqc hcx := absurd hqc (by omega)
  full j hqj hjx := absurd hqj (by omega)

variable {q x : ℕ}

/-- The element behind the hole stays where its home does not lie before the hole. -/
theorem Hole.skip (h : Hole n s home free t q x) (hx : x < n) {e : α}
    (he : t (walk n s free x) = some e) (hhome : q < place n s home free e) :
    Hole n s home free t q (x + 1) where
  pos := h.pos
  lt := Nat.lt_succ_of_lt h.lt
  le := hx
  hole := h.hole
  line := h.line
  seen c hqc hcx e' he' := by
    rcases Nat.lt_succ_iff_lt_or_eq.mp hcx with hlt | rfl
    · exact h.seen c hqc hlt e' he'
    · obtain rfl := Option.some.inj (he.symm.trans he')
      exact hhome
  full j hqj hjx := by
    rcases Nat.lt_succ_iff_lt_or_eq.mp hjx with hlt | rfl
    · exact h.full j hqj hlt
    · rw [he]
      exact Option.some_ne_none e

/-- The element behind the hole is moved into it where its home lies before the hole. -/
theorem Hole.move (h : Hole n s home free t q x) (hline : Line n s home t free) (hx : x < n) {e : α}
    (he : t (walk n s free x) = some e) (hhome : place n s home free e ≤ q) :
    Hole n s home free
      (Function.update (Function.update t (walk n s free q) (some e)) (walk n s free x) none)
      x (x + 1) := by
  have hlt := h.lt
  have hinj : ∀ {j k}, j < n → k < n → j ≠ k → walk n s free j ≠ walk n s free k :=
    fun hj hk hne heq => hne (walk_inj hline.coprime hj hk heq)
  have hother : ∀ j < n, j ≠ q → j ≠ x →
      Function.update (Function.update t (walk n s free q) (some e)) (walk n s free x) none
        (walk n s free j) = t (walk n s free j) := by
    intro j hj hjq hjx
    rw [Function.update_of_ne (hinj hj hx hjx), Function.update_of_ne (hinj hj (by omega) hjq)]
  have hmoved : Function.update (Function.update t (walk n s free q) (some e)) (walk n s free x) none
      (walk n s free q) = some e := by
    rw [Function.update_of_ne (hinj (by omega) hx (by omega)), Function.update_self]
  have htaken : ∀ j < n, j ≠ x → (j ≠ q → t (walk n s free j) ≠ none) →
      Function.update (Function.update t (walk n s free q) (some e)) (walk n s free x) none
        (walk n s free j) ≠ none := by
    intro j hj hjx hfull
    by_cases hjq : j = q
    · rw [hjq, hmoved]
      exact Option.some_ne_none e
    · rw [hother j hj hjq hjx]
      exact hfull hjq
  obtain ⟨hpos, hle, hfull⟩ := h.line x hx e he
  refine ⟨by omega, Nat.lt_succ_self x, hx, Function.update_self .., ?_, ?_, ?_⟩
  · intro c hc e' he'
    by_cases hcx : c = x
    · rw [hcx, Function.update_self] at he'
      cases he'
    · by_cases hcq : c = q
      · rw [hcq, hmoved] at he'
        obtain rfl := Option.some.inj he'
        refine ⟨hpos, by omega, fun j hdj hjc hjx => htaken j (by omega) hjx fun hjq => ?_⟩
        exact hfull j hdj (by omega) hjq
      · rw [hother c hc hcq hcx] at he'
        obtain ⟨hpos', hle', hfull'⟩ := h.line c hc e' he'
        exact ⟨hpos', hle', fun j hdj hjc hjx =>
          htaken j (by omega) hjx fun hjq => hfull' j hdj hjc hjq⟩
  · intro c hxc hcx
    omega
  · intro j hxj hjx
    omega

/-- At the next empty slot nothing is left to be moved. -/
theorem Hole.probed (h : Hole n s home free t q x) (hline : Line n s home t free)
    (hempty : t (walk n s free x) = none) : Probed n s home t := by
  intro i hi e he
  obtain ⟨c, hc, rfl⟩ := exists_walk hline.coprime free hi
  obtain ⟨hpos, hle, hfull⟩ := h.line c hc e he
  have hlt := h.lt
  have hgap : q < place n s home free e ∨ c < q := by
    rcases Nat.lt_trichotomy c q with hcq | rfl | hqc
    · exact .inr hcq
    · rw [h.hole] at he
      cases he
    · rcases Nat.lt_trichotomy c x with hcx | rfl | hxc
      · exact .inl (h.seen c hqc hcx e he)
      · rw [hempty] at he
        cases he
      · by_contra hno
        exact hfull x (by omega) (by omega) (by omega) hempty
  obtain ⟨-, hwalk⟩ := hline.walk_place e
  refine ⟨c - place n s home free e, by omega, ?_, fun j hj => ?_⟩
  · rw [← hwalk, walk_walk, Nat.add_sub_cancel' hle]
  · rw [← hwalk, walk_walk]
    exact hfull _ (by omega) (by omega) (by omega)

/-- The empty slot stays. -/
theorem Hole.walk_ne_free (h : Hole n s home free t q x) (hline : Line n s home t free) (hq : q < n) :
    walk n s free q ≠ free := by
  intro heq
  have hzero := walk_inj hline.coprime hq (Nat.zero_lt_of_lt hq)
    (heq.trans (walk_zero hline.free_lt s).symm)
  exact absurd hzero h.pos.ne'

end Probing
