import Mathlib.Data.List.Basic
import Mathlib.Algebra.Group.Nat.Defs
import Mathlib.Tactic.Ring
import Mathlib.Tactic.NormNum

/-! # Decimal numbers as text

`ofNat` and `ofInt` are what `%u` and `%d` print, and `value` is the number that a text of digits
stands for, with leading zeros or without.  `value_ofNat` is the round trip.  Texts of digits that
are equally long are ordered like their numbers (`lt_iff_value_lt`), and a longer text has no
leading zero exactly when its number is larger than every shorter one: `value_lt` and
`pow_le_of_lt_length` say it from both sides. -/

namespace Decimal

/-- A decimal digit. -/
def IsDigit (c : UInt8) : Prop := 48 ≤ c ∧ c ≤ 57

instance (c : UInt8) : Decidable (IsDigit c) := inferInstanceAs (Decidable (_ ∧ _))

/-- The number that a digit stands for. -/
def digitValue (c : UInt8) : ℕ := c.toNat - 48

/-- The number that a text of digits stands for. -/
def value : List UInt8 → ℕ
  | [] => 0
  | c :: s => digitValue c * 10 ^ s.length + value s

/-- The decimal notation of a number: digits, at least one. -/
def IsDecimal (s : List UInt8) : Prop := s ≠ [] ∧ ∀ c ∈ s, IsDigit c

-- The digits are those of the text, not all bytes that could be in it.
instance (s : List UInt8) : Decidable (IsDecimal s) :=
  @instDecidableAnd (s ≠ []) _ inferInstance (List.decidableBAll IsDigit s)

/-- `%u`. -/
def ofNat (n : ℕ) : List UInt8 := (Nat.toDigits 10 n).map fun c => UInt8.ofNat c.toNat

/-- `%d`. -/
def ofInt : ℤ → List UInt8
  | .ofNat n => ofNat n
  | .negSucc n => 45 :: ofNat (n + 1)

/-! ### Texts of digits -/

theorem IsDigit.toNat {c : UInt8} (h : IsDigit c) : 48 ≤ c.toNat ∧ c.toNat ≤ 57 :=
  ⟨UInt8.le_iff_toNat_le.mp h.1, UInt8.le_iff_toNat_le.mp h.2⟩

theorem digitValue_lt {c : UInt8} (h : IsDigit c) : digitValue c < 10 := by
  have hc := h.toNat
  unfold digitValue
  omega

theorem value_append (s t : List UInt8) : value (s ++ t) = value s * 10 ^ t.length + value t := by
  induction s with
  | nil => simp [value]
  | cons c s ih =>
    rw [List.cons_append, value, value, ih, List.length_append, pow_add]
    ring

theorem value_lt {s : List UInt8} (h : ∀ c ∈ s, IsDigit c) : value s < 10 ^ s.length := by
  induction s with
  | nil => simp [value]
  | cons c s ih =>
    have hc := digitValue_lt (h c List.mem_cons_self)
    have hs := ih fun d hd => h d (List.mem_cons_of_mem c hd)
    calc value (c :: s) = digitValue c * 10 ^ s.length + value s := rfl
      _ < digitValue c * 10 ^ s.length + 10 ^ s.length := by omega
      _ = (digitValue c + 1) * 10 ^ s.length := by ring
      _ ≤ 10 * 10 ^ s.length := Nat.mul_le_mul_right _ hc
      _ = 10 ^ (c :: s).length := by rw [List.length_cons, pow_succ']

/-- **Equally long texts** are ordered like their numbers. -/
theorem lt_iff_value_lt {s t : List UInt8} (hs : ∀ c ∈ s, IsDigit c) (ht : ∀ c ∈ t, IsDigit c)
    (hlen : s.length = t.length) : s < t ↔ value s < value t := by
  induction s generalizing t with
  | nil =>
    obtain rfl : t = [] := List.length_eq_zero_iff.mp hlen.symm
    simp
  | cons c s ih =>
    cases t with
    | nil => simp at hlen
    | cons d t =>
      have hlen' : s.length = t.length := by simpa using hlen
      have hs' : ∀ c ∈ s, IsDigit c := fun e he => hs e (List.mem_cons_of_mem c he)
      have ht' : ∀ c ∈ t, IsDigit c := fun e he => ht e (List.mem_cons_of_mem d he)
      have hlow := value_lt hs'
      have hlow' := value_lt ht'
      have hc := (hs c List.mem_cons_self).toNat
      have hd := (ht d List.mem_cons_self).toNat
      rw [List.cons_lt_cons_iff, value, value, hlen', ih hs' ht' hlen', UInt8.lt_iff_toNat_lt,
        ← UInt8.toNat_inj, digitValue, digitValue]
      rw [hlen'] at hlow
      rcases lt_trichotomy c.toNat d.toNat with hlt | heq | hgt
      · have hmul := Nat.mul_le_mul_right (10 ^ t.length)
          (show c.toNat - 48 + 1 ≤ d.toNat - 48 by omega)
        rw [add_mul, one_mul] at hmul
        exact iff_of_true (.inl hlt) (by omega)
      · rw [heq]
        simp
      · have hmul := Nat.mul_le_mul_right (10 ^ t.length)
          (show d.toNat - 48 + 1 ≤ c.toNat - 48 by omega)
        rw [add_mul, one_mul] at hmul
        exact iff_of_false (by omega) (by omega)

/-! ### Printed numbers -/

theorem digit_of_lt {d : ℕ} (h : d < 10) :
    IsDigit (UInt8.ofNat (Nat.digitChar d).toNat) ∧
      digitValue (UInt8.ofNat (Nat.digitChar d).toNat) = d := by
  revert d
  decide

theorem ofNat_of_lt {n : ℕ} (h : n < 10) : ofNat n = [UInt8.ofNat (Nat.digitChar n).toNat] := by
  rw [ofNat, Nat.toDigits_of_lt_base h]
  rfl

theorem ofNat_of_le {n : ℕ} (h : 10 ≤ n) :
    ofNat n = ofNat (n / 10) ++ [UInt8.ofNat (Nat.digitChar (n % 10)).toNat] := by
  rw [ofNat, Nat.toDigits_of_base_le (by decide) h, List.map_append]
  rfl

theorem isDigit_of_mem_ofNat (n : ℕ) : ∀ c ∈ ofNat n, IsDigit c := by
  induction n using Nat.strong_induction_on with
  | _ n ih =>
    intro c hc
    rcases Nat.lt_or_ge n 10 with h | h
    · rw [ofNat_of_lt h, List.mem_singleton] at hc
      rw [hc]
      exact (digit_of_lt h).1
    · rw [ofNat_of_le h, List.mem_append, List.mem_singleton] at hc
      rcases hc with hc | rfl
      · exact ih (n / 10) (by omega) c hc
      · exact (digit_of_lt (Nat.mod_lt n (by decide))).1

theorem ofNat_ne_nil (n : ℕ) : ofNat n ≠ [] := by
  rw [ofNat, ne_eq, List.map_eq_nil_iff]
  exact Nat.toDigits_ne_nil

/-- The round trip. -/
theorem value_ofNat (n : ℕ) : value (ofNat n) = n := by
  induction n using Nat.strong_induction_on with
  | _ n ih =>
    rcases Nat.lt_or_ge n 10 with h | h
    · rw [ofNat_of_lt h, value, (digit_of_lt h).2]
      simp [value]
    · rw [ofNat_of_le h, value_append, ih (n / 10) (by omega), value,
        (digit_of_lt (Nat.mod_lt n (by decide))).2]
      simp only [List.length_singleton, List.length_nil, pow_one, pow_zero, value]
      omega

theorem length_ofNat_le_iff {n k : ℕ} (h : 0 < k) : (ofNat n).length ≤ k ↔ n < 10 ^ k := by
  rw [ofNat, List.length_map]
  exact Nat.length_toDigits_le_iff (by decide) h

theorem length_ofNat_pos (n : ℕ) : 0 < (ofNat n).length := List.length_pos_iff.mpr (ofNat_ne_nil n)

/-- A printed number has no leading zero. -/
theorem pow_le_of_lt_length {n k : ℕ} (hk : 0 < k) (h : k < (ofNat n).length) : 10 ^ k ≤ n := by
  by_contra hlt
  exact absurd ((length_ofNat_le_iff hk).mpr (Nat.lt_of_not_le hlt)) (by omega)

theorem nul_not_mem_ofNat (n : ℕ) : (0 : UInt8) ∉ ofNat n := fun h =>
  absurd (isDigit_of_mem_ofNat n 0 h) (by decide)

end Decimal
