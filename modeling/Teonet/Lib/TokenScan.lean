import Mathlib.Data.List.Basic
import Mathlib.Data.Nat.Find
import Mathlib.Logic.Function.Basic
import Mathlib.Tactic.Common

/-! # Key loops over a flat list of tokens

A parser that gives the tokens of a document as a flat list leaves it to its user to find the values
that belong to some keys.  `scan` is the loop that programs write for it: a token that is one of the
keys is taken together with the token behind it, and every other token is passed over, whatever it is
in the document.  A `Look` says for which keys the loop still looks: with `Look.again` for all, with
`Look.once` for those that were not taken before.

The loop is described without its state: `taken` are the places of the tokens that are taken as keys,
and by `scan_eq` a key has the place behind the last place taken for it.  A document has its own
places of keys; `exact_scan_iff` and `exact_scan_once_iff` say for which documents the loop finds the
values that belong to these, and never looks behind the last token. -/

namespace TokenScan

variable {F : Type} [DecidableEq F]

/-- For which keys a loop looks that has found some. -/
structure Look (F : Type) where
  wants : (F → Bool) → F → Bool

/-- A key is taken again. -/
def Look.again : Look F := ⟨fun _ _ => true⟩

/-- A key is taken once. -/
def Look.once : Look F := ⟨fun found f => !found f⟩

/-- A token is a key that the loop still looks for; `s` are the places of the values so far. -/
def keyAt (look : Look F) (named : ℕ → Option F) (s : F → Option ℕ) (i : ℕ) : Option F :=
  (named i).filter fun f => look.wants (fun g => (s g).isSome) f

/-- The loop from the place `i` on, over `n` tokens: the places of the values, and whether the place
behind the last token was looked at. -/
def scan (look : Look F) (named : ℕ → Option F) (i : ℕ) :
    ℕ → (F → Option ℕ) → (F → Option ℕ) × Bool
  | 0, s => (s, false)
  | n + 1, s =>
    match keyAt look named s i with
    | none => scan look named (i + 1) n s
    | some f =>
      match n with
      | 0 => (Function.update s f (some (i + 1)), true)
      | n + 1 => scan look named (i + 2) n (Function.update s f (some (i + 1)))

/-- Whether a key is that of one of some places. -/
def foundAt (named : ℕ → Option F) (l : List ℕ) (f : F) : Bool := l.any fun j => named j = some f

/-- The places below `i` that are taken as keys, from the place 1 on. -/
def taken (look : Look F) (named : ℕ → Option F) : ℕ → List ℕ
  | 0 => []
  | i + 1 =>
    let before := taken look named i
    match named i with
    | none => before
    | some f =>
      if i ≠ 0 ∧ i - 1 ∉ before ∧ look.wants (foundAt named before) f then before ++ [i] else before

/-- The last place of a list that has the key. -/
def lastOf (named : ℕ → Option F) (l : List ℕ) (f : F) : Option ℕ :=
  (l.filter fun i => named i = some f).getLast?

/-- The places of the values for the places that are taken. -/
def values (look : Look F) (named : ℕ → Option F) (i : ℕ) (f : F) : Option ℕ :=
  (lastOf named (taken look named i) f).map (· + 1)

variable {look : Look F} {named : ℕ → Option F} {f : F} {i : ℕ}

theorem lt_of_mem_taken : ∀ {i j : ℕ}, j ∈ taken look named i → 1 ≤ j ∧ j < i
  | 0, _, h => by cases h
  | i + 1, j, h => by
      rw [taken] at h
      split at h
      · have hj := lt_of_mem_taken h
        omega
      · split at h
        · rename_i hnew
          rcases List.mem_append.mp h with hold | hlast
          · have hj := lt_of_mem_taken hold
            omega
          · have hj := List.mem_singleton.mp hlast
            omega
        · have hj := lt_of_mem_taken h
          omega

theorem lastOf_eq_none_iff {l : List ℕ} :
    lastOf named l f = none ↔ ∀ j ∈ l, named j ≠ some f := by
  rw [lastOf, List.getLast?_eq_none_iff, List.filter_eq_nil_iff]
  simp

/-- The keys with a value are those of the places that are taken. -/
theorem isSome_values (look : Look F) (named : ℕ → Option F) (i : ℕ) :
    (fun f => (values look named i f).isSome) = foundAt named (taken look named i) := by
  funext f
  rw [values, Option.isSome_map, Bool.eq_iff_iff, ← not_iff_not, Bool.not_eq_true, Bool.not_eq_true,
    Option.isSome_eq_false_iff, Option.isNone_iff_eq_none, lastOf_eq_none_iff, foundAt,
    List.any_eq_false]
  simp

theorem lastOf_concat (l : List ℕ) (i : ℕ) (g : F) :
    lastOf named (l ++ [i]) g = if named i = some g then some i else lastOf named l g := by
  unfold lastOf
  rw [List.filter_append]
  by_cases h : named i = some g
  · simp [h]
  · simp [h]

/-- A token that is no key, or no longer looked for, is not taken. -/
theorem taken_of_keyAt_none (h : keyAt look named (values look named i) i = none) :
    taken look named (i + 1) = taken look named i := by
  rw [taken]
  cases hf : named i with
  | none => rfl
  | some f =>
    rw [keyAt, isSome_values, hf, Option.filter_some] at h
    split_ifs at h with hlook
    exact if_neg fun hnew => hlook hnew.2.2

/-- A key that is looked for is taken, if the token before it is not. -/
theorem taken_of_keyAt (hi : i ≠ 0) (hfree : i - 1 ∉ taken look named i)
    (h : keyAt look named (values look named i) i = some f) :
    named i = some f ∧ taken look named (i + 1) = taken look named i ++ [i] := by
  rw [keyAt, isSome_values] at h
  obtain ⟨hf, hlook⟩ := Option.filter_eq_some_iff.mp h
  refine ⟨hf, ?_⟩
  rw [taken, hf]
  exact if_pos ⟨hi, hfree, hlook⟩

/-- The token behind a key is not taken. -/
theorem taken_succ_of_mem (hi : i ∈ taken look named (i + 1)) :
    taken look named (i + 2) = taken look named (i + 1) := by
  rw [taken]
  cases named (i + 1) with
  | none => rfl
  | some f =>
    dsimp only
    rw [if_neg fun hnew => hnew.2.1 hi]

/-- The places of the values after a key was taken. -/
theorem values_of_taken (hf : named i = some f)
    (h : taken look named (i + 1) = taken look named i ++ [i]) :
    values look named (i + 1) = Function.update (values look named i) f (some (i + 1)) := by
  funext g
  rw [values, h, lastOf_concat, hf]
  by_cases hg : g = f
  · subst hg
    rw [if_pos rfl, Function.update_self]
    rfl
  · rw [if_neg fun he => hg (Option.some.inj he).symm, Function.update_of_ne hg]
    rfl

/-- **The loop**: from a place behind one that is not taken it goes on to the values of the places
that are taken, and looks behind the last token exactly if this token is taken. -/
theorem scan_eq (look : Look F) (named : ℕ → Option F) (n : ℕ) :
    ∀ i, i ≠ 0 → i - 1 ∉ taken look named i →
      scan look named i n (values look named i) =
        (values look named (i + n), decide (n ≠ 0 ∧ i + n - 1 ∈ taken look named (i + n))) := by
  induction n using Nat.strongRecOn with
  | _ n ih =>
    intro i hi hfree
    match n with
    | 0 => rfl
    | n + 1 =>
      have hnext : ∀ {m}, i + 1 + m = i + (m + 1) := by omega
      rw [scan]
      cases hkey : keyAt look named (values look named i) i with
      | none =>
        have htaken := taken_of_keyAt_none hkey
        have hvalues : values look named (i + 1) = values look named i := by
          unfold values
          rw [htaken]
        have hfree' : i ∉ taken look named (i + 1) := fun h => by
          rw [htaken] at h
          exact absurd (lt_of_mem_taken h).2 (Nat.lt_irrefl i)
        dsimp only
        rw [← hvalues, ih n (by omega) (i + 1) (by omega) hfree', hnext]
        cases n with
        | zero => simp [hfree']
        | succ n => simp
      | some f =>
        obtain ⟨hf, htaken⟩ := taken_of_keyAt hi hfree hkey
        have hmem : i ∈ taken look named (i + 1) := by
          rw [htaken]
          exact List.mem_append_right _ (List.mem_singleton_self i)
        have hvalues := values_of_taken hf htaken
        cases n with
        | zero =>
          dsimp only
          rw [← hvalues]
          simp [hmem]
        | succ n =>
          have hskip := taken_succ_of_mem hmem
          have hvalues' : values look named (i + 2) = values look named (i + 1) := by
            unfold values
            rw [hskip]
          have hfree' : i + 2 - 1 ∉ taken look named (i + 2) := fun h => by
            rw [hskip] at h
            exact absurd (lt_of_mem_taken h).2 (Nat.lt_irrefl (i + 1))
          dsimp only
          rw [← hvalues, ← hvalues', ih n (by omega) (i + 2) (by omega) hfree']
          have hend : i + 2 + n = i + (n + 1 + 1) := by omega
          rw [hend]
          cases n with
          | zero => simpa using hfree'
          | succ n => simp

/-- The loop from the start. -/
theorem scan_start (look : Look F) (named : ℕ → Option F) (n : ℕ) :
    scan look named 1 n (fun _ => none) =
      (values look named (n + 1), decide (n ∈ taken look named (n + 1))) := by
  have h0 : taken look named 1 = [] := by
    rw [taken]
    cases named 0 <;> simp [taken]
  have hvalues : values look named 1 = fun _ => none := by
    funext f
    rw [values, h0]
    rfl
  have h := scan_eq look named n 1 (by decide) (by simp [h0])
  rw [hvalues, Nat.add_comm 1 n, Nat.add_sub_cancel] at h
  rw [h]
  congr 1
  refine decide_eq_decide.mpr (and_iff_right_of_imp ?_)
  rintro hmem rfl
  exact absurd (lt_of_mem_taken hmem).1 (by decide)

/-- When no key is looked for any more, the loop changes nothing. -/
theorem scan_of_done {s : F → Option ℕ} (h : ∀ f, look.wants (fun g => (s g).isSome) f = false)
    (n : ℕ) : ∀ i, scan look named i n s = (s, false) := by
  induction n with
  | zero => exact fun i => rfl
  | succ n ih =>
    intro i
    have hkey : keyAt look named s i = none :=
      Option.filter_eq_none_iff.mpr fun f _ => by rw [h f]; exact Bool.false_ne_true
    rw [scan, hkey]
    exact ih (i + 1)

/-! ### The places that are taken -/

/-- The place is taken as a key. -/
def Taken (look : Look F) (named : ℕ → Option F) (i : ℕ) : Prop := i ∈ taken look named (i + 1)

instance (look : Look F) (named : ℕ → Option F) (i : ℕ) : Decidable (Taken look named i) :=
  inferInstanceAs (Decidable (i ∈ taken look named (i + 1)))

theorem taken_succ (look : Look F) (named : ℕ → Option F) (i : ℕ) :
    taken look named (i + 1) = taken look named i ∨
      taken look named (i + 1) = taken look named i ++ [i] := by
  rw [taken]
  cases named i with
  | none => exact .inl rfl
  | some f =>
    dsimp only
    split
    · exact .inr rfl
    · exact .inl rfl

theorem mem_taken_iff (look : Look F) (named : ℕ → Option F) (j : ℕ) :
    ∀ i, j ∈ taken look named i ↔ j < i ∧ Taken look named j
  | 0 => by simp [taken]
  | i + 1 => by
      have ih := mem_taken_iff look named j i
      by_cases hj : j = i
      · subst hj
        simp [Taken]
      · have hold : j ∈ taken look named (i + 1) ↔ j ∈ taken look named i := by
          rcases taken_succ look named i with h | h <;> simp [h, hj]
        rw [hold, ih]
        constructor
        · exact fun h => ⟨by omega, h.2⟩
        · exact fun h => ⟨by omega, h.2⟩

/-- A place is taken if it has a key that is still looked for, and the place before it is not. -/
theorem taken_iff (look : Look F) (named : ℕ → Option F) (i : ℕ) :
    Taken look named i ↔ i ≠ 0 ∧ ¬ Taken look named (i - 1) ∧ ∃ f, named i = some f ∧
      look.wants (fun g => decide (∃ j < i, Taken look named j ∧ named j = some g)) f := by
  have hself : i ∉ taken look named i := fun h => Nat.lt_irrefl i (lt_of_mem_taken h).2
  have hfound : foundAt named (taken look named i) =
      fun g => decide (∃ j < i, Taken look named j ∧ named j = some g) := by
    funext g
    rw [foundAt, Bool.eq_iff_iff, List.any_eq_true, decide_eq_true_iff]
    simp only [mem_taken_iff, decide_eq_true_eq, and_assoc]
  unfold Taken
  rw [taken]
  cases hf : named i with
  | none => simp [hself]
  | some f =>
    have hbefore : i ≠ 0 → (i - 1 ∈ taken look named i ↔ i - 1 ∈ taken look named (i - 1 + 1)) :=
      fun hi => by rw [Nat.sub_add_cancel (Nat.pos_of_ne_zero hi)]
    dsimp only
    rw [hfound]
    by_cases hnew : i ≠ 0 ∧ i - 1 ∉ taken look named i ∧
        look.wants (fun g => decide (∃ j < i, Taken look named j ∧ named j = some g)) f
    · rw [if_pos hnew]
      refine iff_of_true (List.mem_append_right _ (List.mem_singleton_self i)) ⟨hnew.1, ?_, ?_⟩
      · rw [← hbefore hnew.1]
        exact hnew.2.1
      · exact ⟨f, rfl, hnew.2.2⟩
    · rw [if_neg hnew]
      refine iff_of_false hself ?_
      rintro ⟨hi, hprev, g, hg, hlook⟩
      obtain rfl := Option.some.inj hg
      rw [← hbefore hi] at hprev
      exact hnew ⟨hi, hprev, hlook⟩

/-- With `once` a place is taken for a key that no place before it is taken for. -/
theorem taken_once_iff (named : ℕ → Option F) (i : ℕ) :
    Taken .once named i ↔ i ≠ 0 ∧ ¬ Taken .once named (i - 1) ∧ ∃ f, named i = some f ∧
      ∀ j < i, Taken .once named j → named j ≠ some f := by
  rw [taken_iff]
  refine and_congr_right fun _ => and_congr_right fun _ => exists_congr fun f =>
    and_congr_right fun _ => ?_
  rw [Look.once, Bool.not_eq_true', decide_eq_false_iff_not]
  exact ⟨fun h j hj ht hf => h ⟨j, hj, ht, hf⟩, fun h ⟨j, hj, ht, hf⟩ => h j hj ht hf⟩

/-- The last place taken for a key. -/
theorem lastOf_taken_eq_some_iff {i j : ℕ} :
    lastOf named (taken look named i) f = some j ↔
      j < i ∧ Taken look named j ∧ named j = some f ∧
        ∀ k < i, Taken look named k → named k = some f → k ≤ j := by
  induction i with
  | zero => simp [taken, lastOf]
  | succ i ih =>
    have hself : i ∉ taken look named i := fun h => Nat.lt_irrefl i (lt_of_mem_taken h).2
    rcases taken_succ look named i with h | h
    · have hi : ¬ Taken look named i := fun hmem => hself (by rwa [Taken, h] at hmem)
      rw [h, ih]
      constructor
      · rintro ⟨hj, ht, hf, hmax⟩
        refine ⟨by omega, ht, hf, fun k hk hkt hkf => ?_⟩
        exact hmax k (Nat.lt_of_le_of_ne (by omega) fun he => hi (he ▸ hkt)) hkt hkf
      · rintro ⟨hj, ht, hf, hmax⟩
        refine ⟨Nat.lt_of_le_of_ne (by omega) fun he => hi (he ▸ ht), ht, hf, fun k hk => ?_⟩
        exact hmax k (by omega)
    · have hi : Taken look named i := by
        rw [Taken, h]
        exact List.mem_append_right _ (List.mem_singleton_self i)
      rw [h, lastOf_concat]
      split_ifs with hf
      · constructor
        · rintro he
          obtain rfl := Option.some.inj he
          exact ⟨by omega, hi, hf, fun k hk _ _ => by omega⟩
        · rintro ⟨hj, -, -, hmax⟩
          have hle := hmax i (by omega) hi hf
          rw [show j = i by omega]
      · rw [ih]
        constructor
        · rintro ⟨hj, ht, hjf, hmax⟩
          refine ⟨by omega, ht, hjf, fun k hk hkt hkf => ?_⟩
          exact hmax k (Nat.lt_of_le_of_ne (by omega) fun he => hf (he ▸ hkf)) hkt hkf
        · rintro ⟨hj, ht, hjf, hmax⟩
          refine ⟨Nat.lt_of_le_of_ne (by omega) fun he => hf (he ▸ hjf), ht, hjf, fun k hk => ?_⟩
          exact hmax k (by omega)

theorem values_eq_some_iff {i p : ℕ} :
    values look named i f = some p ↔ ∃ j, p = j + 1 ∧ j < i ∧ Taken look named j ∧
      named j = some f ∧ ∀ k < i, Taken look named k → named k = some f → k ≤ j := by
  rw [values, Option.map_eq_some_iff]
  constructor
  · rintro ⟨j, hj, rfl⟩
    exact ⟨j, rfl, lastOf_taken_eq_some_iff.mp hj⟩
  · rintro ⟨j, rfl, hj⟩
    exact ⟨j, lastOf_taken_eq_some_iff.mpr hj, rfl⟩

theorem values_eq_none_iff {i : ℕ} :
    values look named i f = none ↔ ∀ j < i, Taken look named j → named j ≠ some f := by
  rw [values, Option.map_eq_none_iff, lastOf_eq_none_iff]
  exact ⟨fun h j hj ht => h j ((mem_taken_iff look named j i).mpr ⟨hj, ht⟩),
    fun h j hmem => h j (lt_of_mem_taken hmem).2 ((mem_taken_iff look named j i).mp hmem).2⟩

/-! ### The keys of a document -/

/-- The values found are those behind keys `K` of the document, every key that occurs there has been
found, and the place behind the last token has not been looked at. -/
def Exact (named : ℕ → Option F) (K : List ℕ) (r : (F → Option ℕ) × Bool) : Prop :=
  (∀ f p, r.1 f = some p → ∃ j ∈ K, named j = some f ∧ p = j + 1) ∧
    (∀ f, r.1 f = none → ∀ j ∈ K, named j ≠ some f) ∧ r.2 = false

/-- The number of tokens directly before a place that have a key, from the place 1 on. -/
def run (named : ℕ → Option F) : ℕ → ℕ
  | 0 => 0
  | i + 1 => if i ≠ 0 ∧ (named i).isSome then run named i + 1 else 0

/-- Without `once` every other token of a run of keys is taken. -/
theorem taken_iff_even_run (named : ℕ → Option F) (i : ℕ) :
    Taken .again named i ↔ i ≠ 0 ∧ (named i).isSome ∧ run named i % 2 = 0 := by
  have hagain : ∀ i, Taken .again named i ↔
      i ≠ 0 ∧ ¬ Taken .again named (i - 1) ∧ (named i).isSome := fun i => by
    rw [taken_iff, Option.isSome_iff_exists]
    simp [Look.again]
  induction i with
  | zero => exact iff_of_false (fun h => ((hagain 0).mp h).1 rfl) fun h => h.1 rfl
  | succ i ih =>
    rw [hagain, Nat.add_sub_cancel, not_congr ih, run]
    by_cases hi : i ≠ 0 ∧ (named i).isSome
    · rw [if_pos hi]
      simp only [hi.1, hi.2, ne_eq, not_false_eq_true, true_and, Nat.succ_ne_zero]
      rw [and_comm]
      exact and_congr_right fun _ => by omega
    · rw [if_neg hi]
      simp only [ne_eq, Nat.succ_ne_zero, not_false_eq_true, true_and, Nat.zero_mod, and_true]
      exact and_iff_right fun h => hi ⟨h.1, h.2.1⟩

/-- The loop is exact if every key it takes is followed by, or is, one of the document, and every key
of the document is taken somewhere there. -/
theorem exact_scan (look : Look F) (named : ℕ → Option F) {K : List ℕ} {n : ℕ}
    (hK : ∀ j ∈ K, j < n) :
    Exact named K (scan look named 1 n fun _ => none) ↔
      (∀ i ≤ n, ∀ f, Taken look named i → named i = some f →
        ∃ j ∈ K, i ≤ j ∧ Taken look named j ∧ named j = some f) ∧
      ∀ i ∈ K, ∀ f, named i = some f → ∃ j ∈ K, Taken look named j ∧ named j = some f := by
  have hlast : n ∈ taken look named (n + 1) ↔ Taken look named n := Iff.rfl
  rw [scan_start, Exact]
  simp only [decide_eq_false_iff_not, hlast]
  constructor
  · rintro ⟨hsome, hnone, -⟩
    have hfound : ∀ f i, i < n + 1 → Taken look named i → named i = some f →
        ∃ j ∈ K, i ≤ j ∧ Taken look named j ∧ named j = some f := by
      intro f i hi ht hf
      cases hv : values look named (n + 1) f with
      | none => exact absurd hf (values_eq_none_iff.mp hv i hi ht)
      | some p =>
        obtain ⟨j, hj, hjf, hp⟩ := hsome f p hv
        obtain ⟨k, hk, -, htk, -, hmax⟩ := values_eq_some_iff.mp hv
        obtain rfl : k = j := by omega
        exact ⟨k, hj, hmax i hi ht hf, htk, hjf⟩
    refine ⟨fun i hi f => hfound f i (by omega), fun i hi f hf => ?_⟩
    cases hv : values look named (n + 1) f with
    | none => exact absurd hf (hnone f hv i hi)
    | some p =>
      obtain ⟨j, hj, hjf, hp⟩ := hsome f p hv
      obtain ⟨k, hk, -, htk, -, -⟩ := values_eq_some_iff.mp hv
      obtain rfl : k = j := by omega
      exact ⟨k, hj, htk, hjf⟩
  · rintro ⟨htaken, hkeys⟩
    refine ⟨fun f p hv => ?_, fun f hv i hi hf => ?_, fun ht => ?_⟩
    · obtain ⟨j, rfl, hj, ht, hf, hmax⟩ := values_eq_some_iff.mp hv
      obtain ⟨k, hk, hle, htk, hkf⟩ := htaken j (by omega) f ht hf
      have hge := hmax k (by have := hK k hk; omega) htk hkf
      obtain rfl : k = j := by omega
      exact ⟨k, hk, hkf, rfl⟩
    · obtain ⟨j, hj, htj, hjf⟩ := hkeys i hi f hf
      have hlt := hK j hj
      exact values_eq_none_iff.mp hv j (by omega) htj hjf
    · obtain ⟨-, -, f, hf, -⟩ := (taken_iff look named n).mp ht
      obtain ⟨j, hj, hle, -, -⟩ := htaken n (by omega) f ht hf
      have hlt := hK j hj
      omega

/-- Of the tokens with a key that have an even number of such tokens directly before them, the last
one of every key is one of the document, and there is one for every key of the document. -/
def LastIsFound (named : ℕ → Option F) (K : List ℕ) (n : ℕ) : Prop :=
  (∀ i ≤ n, ∀ f, i ≠ 0 → named i = some f → run named i % 2 = 0 →
    ∃ j ∈ K, i ≤ j ∧ named j = some f ∧ run named j % 2 = 0) ∧
  ∀ i ∈ K, ∀ f, named i = some f → ∃ j ∈ K, named j = some f ∧ run named j % 2 = 0

/-- **The loop that takes a key again** is exact if the last key of the document is found for every
key that a token has. -/
theorem exact_scan_iff {K : List ℕ} {n : ℕ} (hK : ∀ j ∈ K, j ≠ 0 ∧ j < n) :
    Exact named K (scan .again named 1 n fun _ => none) ↔ LastIsFound named K n := by
  have htaken : ∀ {i f}, i ≠ 0 → named i = some f →
      (Taken .again named i ↔ run named i % 2 = 0) := fun {i f} hi hf => by
    rw [taken_iff_even_run, hf]
    simp [hi]
  rw [exact_scan .again named fun j hj => (hK j hj).2]
  constructor
  · rintro ⟨h1, h2⟩
    refine ⟨fun i hi f hpos hf he => ?_, fun i hi f hf => ?_⟩
    · obtain ⟨j, hj, hle, ht, hjf⟩ := h1 i hi f ((htaken hpos hf).mpr he) hf
      exact ⟨j, hj, hle, hjf, (htaken (hK j hj).1 hjf).mp ht⟩
    · obtain ⟨j, hj, ht, hjf⟩ := h2 i hi f hf
      exact ⟨j, hj, hjf, (htaken (hK j hj).1 hjf).mp ht⟩
  · rintro ⟨h1, h2⟩
    refine ⟨fun i hi f ht hf => ?_, fun i hi f hf => ?_⟩
    · have hpos := ((taken_iff .again named i).mp ht).1
      obtain ⟨j, hj, hle, hjf, he⟩ := h1 i hi f hpos hf ((htaken hpos hf).mp ht)
      exact ⟨j, hj, hle, (htaken (hK j hj).1 hjf).mpr he, hjf⟩
    · obtain ⟨j, hj, hjf, he⟩ := h2 i hi f hf
      exact ⟨j, hj, (htaken (hK j hj).1 hjf).mpr he, hjf⟩

/-! ### Keys that are taken once -/

/-- The first key of the document with its name. -/
def IsFirst (named : ℕ → Option F) (K : List ℕ) (i : ℕ) : Prop :=
  i ∈ K ∧ ∃ f, named i = some f ∧ ∀ j ∈ K, named j = some f → i ≤ j

/-- Every token with a key stands at or behind the first one of the document, or directly behind the
first one of some key. -/
def FirstIsFound (named : ℕ → Option F) (K : List ℕ) (n : ℕ) : Prop :=
  ∀ i ≤ n, i ≠ 0 → ∀ f, named i = some f →
    (∃ j ∈ K, j ≤ i ∧ named j = some f) ∨ IsFirst named K (i - 1)

/-- With `once` no two places are taken for one key. -/
theorem eq_of_taken {i j : ℕ} (hi : Taken .once named i) (hj : Taken .once named j)
    (hif : named i = some f) (hjf : named j = some f) : i = j := by
  have hle : ∀ {i j}, Taken .once named i → Taken .once named j → named i = some f →
      named j = some f → i ≤ j := fun {i j} hi hj hif hjf => by
    obtain ⟨-, -, g, hg, hnew⟩ := (taken_once_iff named i).mp hi
    obtain rfl := Option.some.inj (hif.symm.trans hg)
    exact Nat.le_of_not_lt fun hlt => hnew j hlt hj hjf
  exact Nat.le_antisymm (hle hi hj hif hjf) (hle hj hi hjf hif)

theorem exists_isFirst {K : List ℕ} {j : ℕ} (hj : j ∈ K) (hf : named j = some f) :
    ∃ k ≤ j, named k = some f ∧ IsFirst named K k := by
  have hex : ∃ k, k ∈ K ∧ named k = some f := ⟨j, hj, hf⟩
  obtain ⟨hmem, hkf⟩ := Nat.find_spec hex
  refine ⟨Nat.find hex, Nat.find_min' hex ⟨hj, hf⟩, hkf, hmem, f, hkf, fun i hi hif => ?_⟩
  exact Nat.find_min' hex ⟨hi, hif⟩

/-- If the keys of the document are found first, they are what is taken. -/
theorem taken_iff_isFirst {K : List ℕ} {n : ℕ} (hK : ∀ j ∈ K, j ≠ 0 ∧ j < n ∧ j - 1 ∉ K)
    (h : FirstIsFound named K n) (i : ℕ) (hi : i ≤ n) :
    Taken .once named i ↔ IsFirst named K i := by
  induction i using Nat.strongRecOn with
  | _ i ih =>
    rw [taken_once_iff]
    constructor
    · rintro ⟨hpos, hprev, f, hf, hnew⟩
      rcases h i hi hpos f hf with ⟨j, hj, hle, hjf⟩ | hbehind
      · obtain ⟨k, hk, hkf, hfirst⟩ := exists_isFirst hj hjf
        rcases Nat.lt_or_ge k i with hlt | hge
        · exact absurd hkf (hnew k hlt ((ih k hlt (by omega)).mpr hfirst))
        · obtain rfl : k = i := by omega
          exact hfirst
      · exact absurd ((ih (i - 1) (by omega) (by omega)).mpr hbehind) hprev
    · rintro ⟨hmem, f, hf, hmin⟩
      have hpos := hK i hmem
      refine ⟨hpos.1, fun hprev => ?_, f, hf, fun j hj ht hjf => ?_⟩
      · exact hpos.2.2 ((ih (i - 1) (by omega) (by omega)).mp hprev).1
      · have hle := hmin j ((ih j hj (by omega)).mp ht).1 hjf
        omega

/-- **The loop that takes a key once** is exact if the first key of the document is found first for
every key that a token has. -/
theorem exact_scan_once_iff {K : List ℕ} {n : ℕ} (hK : ∀ j ∈ K, j ≠ 0 ∧ j < n ∧ j - 1 ∉ K) :
    Exact named K (scan .once named 1 n fun _ => none) ↔ FirstIsFound named K n := by
  rw [exact_scan .once named fun j hj => (hK j hj).2.1]
  constructor
  · rintro ⟨htaken, hkeys⟩
    -- a key is taken at most once, so every place that is taken is one of the document
    have hmem : ∀ {j}, j ≤ n → Taken .once named j → j ∈ K := fun {j} hj ht => by
      obtain ⟨-, -, f, hf, -⟩ := (taken_once_iff named j).mp ht
      obtain ⟨k, hk, -, htk, hkf⟩ := htaken j hj f ht hf
      rwa [eq_of_taken ht htk hf hkf]
    have hfirst : ∀ {j}, j ≤ n → Taken .once named j → IsFirst named K j := fun {j} hj ht => by
      obtain ⟨-, -, f, hf, -⟩ := (taken_once_iff named j).mp ht
      refine ⟨hmem hj ht, f, hf, fun k hk hkf => Nat.le_of_not_lt fun hlt => ?_⟩
      have hkt : Taken .once named k := by
        refine (taken_once_iff named k).mpr ⟨(hK k hk).1, fun hprev => ?_, f, hkf, ?_⟩
        · exact (hK k hk).2.2 (hmem (by omega) hprev)
        · intro i hi hit hif
          have he := eq_of_taken hit ht hif hf
          omega
      have he := eq_of_taken hkt ht hkf hf
      omega
    intro i hi hpos f hf
    by_cases ht : Taken .once named i
    · exact .inl ⟨i, hmem hi ht, Nat.le_refl i, hf⟩
    · by_cases hprev : Taken .once named (i - 1)
      · exact .inr (hfirst (by omega) hprev)
      · left
        by_contra hnone
        refine ht ((taken_once_iff named i).mpr ⟨hpos, hprev, f, hf, fun j hj htj hjf => ?_⟩)
        exact hnone ⟨j, hmem (by omega) htj, by omega, hjf⟩
  · intro h
    have htaken := taken_iff_isFirst hK h
    refine ⟨fun i hi f ht hf => ?_, fun i hi f hf => ?_⟩
    · exact ⟨i, ((htaken i hi).mp ht).1, Nat.le_refl i, ht, hf⟩
    · obtain ⟨k, hk, hkf, hfirst⟩ := exists_isFirst hi hf
      have hlt := (hK i hi).2.1
      exact ⟨k, hfirst.1, (htaken k (by omega)).mpr hfirst, hkf⟩

end TokenScan
