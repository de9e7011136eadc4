import Mathlib.Data.List.Basic
import Mathlib.Data.List.GetD
import Mathlib.Tactic.Common

/-! # Base64

`digits` turns three bytes into four digits of six bits; one or two bytes at the end give two or three
digits.  `encode` fills the last group up with `=`.  The length of the text is known from the number
of bytes alone (`length_encode`), and the text has no zero byte.

`decode` turns groups of four letters back into three bytes, where `=` counts as zero.  The bytes come
back with as many zero bytes behind them as the text has `=` at its end (`decode_encode`), and
`encode_ends` says how many that are. -/

namespace Base64

/-- The digits by value. -/
def alphabet : List UInt8 :=
  "ABCDEFGHIJKLMNOPQRSTUVWXYZabcdefghijklmnopqrstuvwxyz0123456789+/".toList.map
    fun c => UInt8.ofNat c.toNat

/-- The digit of a value below 64. -/
def digit (n : ℕ) : UInt8 := alphabet.getD n 0

/-- The digits of some bytes.  The bits that the last group lacks are zero. -/
def digits : List UInt8 → List UInt8
  | [] => []
  | [a] => [digit (a.toNat / 4), digit (a.toNat % 4 * 16)]
  | [a, b] =>
    [digit (a.toNat / 4), digit (a.toNat % 4 * 16 + b.toNat / 16), digit (b.toNat % 16 * 4)]
  | a :: b :: c :: l =>
    [digit (a.toNat / 4), digit (a.toNat % 4 * 16 + b.toNat / 16),
      digit (b.toNat % 16 * 4 + c.toNat / 64), digit (c.toNat % 64)] ++ digits l

/-- The digits with `=` up to a multiple of four. -/
def encode (l : List UInt8) : List UInt8 :=
  digits l ++ List.replicate ((4 - (digits l).length % 4) % 4) 61

theorem length_digits : ∀ l : List UInt8, (digits l).length = (4 * l.length + 2) / 3
  | [] => rfl
  | [_] => by simp [digits]
  | [_, _] => by simp [digits]
  | _ :: _ :: _ :: l => by
      rw [digits, List.length_append, length_digits l]
      simp only [List.length_cons, List.length_nil]
      omega

theorem length_encode (l : List UInt8) : (encode l).length = 4 * ((l.length + 2) / 3) := by
  rw [encode, List.length_append, List.length_replicate, length_digits]
  omega

theorem digit_ne_zero {n : ℕ} (h : n < 64) : digit n ≠ 0 := by
  have hall : ∀ n < 64, digit n ≠ 0 := by decide +kernel
  exact hall n h

theorem nul_not_mem_digits : ∀ l : List UInt8, (0 : UInt8) ∉ digits l
  | [] => List.not_mem_nil
  | [a] => by
      have ha := a.toNat_lt
      have h₁ := digit_ne_zero (n := a.toNat / 4) (by omega)
      have h₂ := digit_ne_zero (n := a.toNat % 4 * 16) (by omega)
      simp [digits, h₁.symm, h₂.symm]
  | [a, b] => by
      have ha := a.toNat_lt
      have hb := b.toNat_lt
      have h₁ := digit_ne_zero (n := a.toNat / 4) (by omega)
      have h₂ := digit_ne_zero (n := a.toNat % 4 * 16 + b.toNat / 16) (by omega)
      have h₃ := digit_ne_zero (n := b.toNat % 16 * 4) (by omega)
      simp [digits, h₁.symm, h₂.symm, h₃.symm]
  | a :: b :: c :: l => by
      have ha := a.toNat_lt
      have hb := b.toNat_lt
      have hc := c.toNat_lt
      have h₁ := digit_ne_zero (n := a.toNat / 4) (by omega)
      have h₂ := digit_ne_zero (n := a.toNat % 4 * 16 + b.toNat / 16) (by omega)
      have h₃ := digit_ne_zero (n := b.toNat % 16 * 4 + c.toNat / 64) (by omega)
      have h₄ := digit_ne_zero (n := c.toNat % 64) (by omega)
      simp [digits, h₁.symm, h₂.symm, h₃.symm, h₄.symm, nul_not_mem_digits l]

theorem nul_not_mem_encode (l : List UInt8) : (0 : UInt8) ∉ encode l := by
  simp [encode, nul_not_mem_digits l, List.mem_replicate]

/-! ### Groups -/

/-- The digits with letters `f` up to a multiple of four. -/
def fill (f : UInt8) (l : List UInt8) : List UInt8 :=
  digits l ++ List.replicate ((4 - (digits l).length % 4) % 4) f

theorem encode_eq_fill (l : List UInt8) : encode l = fill 61 l := rfl

theorem length_fill (f : UInt8) (l : List UInt8) : (fill f l).length = 4 * ((l.length + 2) / 3) := by
  rw [fill, List.length_append, List.length_replicate, length_digits]
  omega

theorem fill_nil (f : UInt8) : fill f [] = [] := rfl

theorem fill_single (f a : UInt8) :
    fill f [a] = [digit (a.toNat / 4), digit (a.toNat % 4 * 16), f, f] := rfl

theorem fill_pair (f a b : UInt8) :
    fill f [a, b] = [digit (a.toNat / 4), digit (a.toNat % 4 * 16 + b.toNat / 16),
      digit (b.toNat % 16 * 4), f] := rfl

theorem fill_triple (f a b c : UInt8) (l : List UInt8) :
    fill f (a :: b :: c :: l) =
      [digit (a.toNat / 4), digit (a.toNat % 4 * 16 + b.toNat / 16),
        digit (b.toNat % 16 * 4 + c.toNat / 64), digit (c.toNat % 64)] ++ fill f l := by
  have hlen : (digits (a :: b :: c :: l)).length % 4 = (digits l).length % 4 := by
    rw [digits, List.length_append]
    exact Nat.add_mod_left 4 _
  rw [fill, hlen, digits, List.append_assoc, fill]

/-- The value of a letter. -/
def value (c : UInt8) : ℕ := if c = 61 then 0 else alphabet.idxOf c

/-- The bytes of a text.  Letters behind the last whole group are left out. -/
def decode : List UInt8 → List UInt8
  | a :: b :: c :: d :: l =>
    [UInt8.ofNat (value a * 4 + value b / 16), UInt8.ofNat (value b % 16 * 16 + value c / 4),
      UInt8.ofNat (value c % 4 * 64 + value d)] ++ decode l
  | _ => []

/-- A letter of a text. -/
def IsLetter (c : UInt8) : Prop := c = 61 ∨ ∃ n < 64, c = digit n

theorem digit_ne_pad {n : ℕ} (h : n < 64) : digit n ≠ 61 := by
  have hall : ∀ n < 64, digit n ≠ 61 := by decide +kernel
  exact hall n h

theorem value_digit {n : ℕ} (h : n < 64) : value (digit n) = n := by
  have hall : ∀ n < 64, value (digit n) = n := by decide +kernel
  exact hall n h

theorem value_lt {c : UInt8} (h : IsLetter c) : value c < 64 := by
  rcases h with rfl | ⟨n, hn, rfl⟩
  · decide
  · rwa [value_digit hn]

/-- The text has letters only. -/
theorem isLetter_of_mem_encode : ∀ (l : List UInt8), ∀ c ∈ encode l, IsLetter c
  | [], c, h => absurd h List.not_mem_nil
  | [a], c, h => by
      have ha := a.toNat_lt
      rw [encode_eq_fill, fill_single] at h
      simp only [List.mem_cons, List.not_mem_nil, or_false] at h
      rcases h with rfl | rfl | rfl | rfl
      · exact .inr ⟨_, by omega, rfl⟩
      · exact .inr ⟨_, by omega, rfl⟩
      · exact .inl rfl
      · exact .inl rfl
  | [a, b], c, h => by
      have ha := a.toNat_lt
      have hb := b.toNat_lt
      rw [encode_eq_fill, fill_pair] at h
      simp only [List.mem_cons, List.not_mem_nil, or_false] at h
      rcases h with rfl | rfl | rfl | rfl
      · exact .inr ⟨_, by omega, rfl⟩
      · exact .inr ⟨_, by omega, rfl⟩
      · exact .inr ⟨_, by omega, rfl⟩
      · exact .inl rfl
  | x :: y :: z :: l, c, h => by
      have hx := x.toNat_lt
      have hy := y.toNat_lt
      have hz := z.toNat_lt
      rw [encode_eq_fill, fill_triple] at h
      simp only [List.mem_append, List.mem_cons, List.not_mem_nil, or_false] at h
      rcases h with (rfl | rfl | rfl | rfl) | h
      · exact .inr ⟨_, by omega, rfl⟩
      · exact .inr ⟨_, by omega, rfl⟩
      · exact .inr ⟨_, by omega, rfl⟩
      · exact .inr ⟨_, by omega, rfl⟩
      · exact isLetter_of_mem_encode l c h

theorem ofNat_eq {n : ℕ} {a : UInt8} (h : n = a.toNat) : UInt8.ofNat n = a := by
  rw [h, UInt8.ofNat_toNat]

/-- The bytes come back, with zero bytes up to a multiple of three. -/
theorem decode_encode : ∀ l : List UInt8,
    decode (encode l) = l ++ List.replicate ((3 - l.length % 3) % 3) 0
  | [] => rfl
  | [a] => by
      have ha := a.toNat_lt
      have h₁ := value_digit (n := a.toNat / 4) (by omega)
      have h₂ := value_digit (n := a.toNat % 4 * 16) (by omega)
      have hpad : value 61 = 0 := rfl
      rw [encode_eq_fill, fill_single, decode, h₁, h₂, hpad, ofNat_eq (a := a) (by omega),
        ofNat_eq (a := 0) (by simp), ofNat_eq (a := 0) (by simp)]
      rfl
  | [a, b] => by
      have ha := a.toNat_lt
      have hb := b.toNat_lt
      have h₁ := value_digit (n := a.toNat / 4) (by omega)
      have h₂ := value_digit (n := a.toNat % 4 * 16 + b.toNat / 16) (by omega)
      have h₃ := value_digit (n := b.toNat % 16 * 4) (by omega)
      have hpad : value 61 = 0 := rfl
      rw [encode_eq_fill, fill_pair, decode, h₁, h₂, h₃, hpad, ofNat_eq (a := a) (by omega),
        ofNat_eq (a := b) (by omega), ofNat_eq (a := 0) (by simp)]
      rfl
  | a :: b :: c :: l => by
      have ha := a.toNat_lt
      have hb := b.toNat_lt
      have hc := c.toNat_lt
      have h₁ := value_digit (n := a.toNat / 4) (by omega)
      have h₂ := value_digit (n := a.toNat % 4 * 16 + b.toNat / 16) (by omega)
      have h₃ := value_digit (n := b.toNat % 16 * 4 + c.toNat / 64) (by omega)
      have h₄ := value_digit (n := c.toNat % 64) (by omega)
      have ih := decode_encode l
      have hmod : (a :: b :: c :: l).length % 3 = l.length % 3 := Nat.add_mod_right _ 3
      rw [encode_eq_fill] at ih ⊢
      rw [fill_triple]
      simp only [List.cons_append, List.nil_append, decode, h₁, h₂, h₃, h₄, ih, hmod]
      rw [ofNat_eq (a := a) (by omega), ofNat_eq (a := b) (by omega), ofNat_eq (a := c) (by omega)]

theorem take_decode_encode (l : List UInt8) : (decode (encode l)).take l.length = l := by
  rw [decode_encode, List.take_left]

/-- The last two letters of a text. -/
theorem encode_ends : ∀ l : List UInt8, l ≠ [] → ∃ t x y, encode l = t ++ [x, y] ∧
    (y = 61 ↔ l.length % 3 ≠ 0) ∧ (x = 61 ↔ l.length % 3 = 1)
  | [], h => absurd rfl h
  | [a], _ =>
      ⟨[digit (a.toNat / 4), digit (a.toNat % 4 * 16)], 61, 61, fill_single 61 a, by simp, by simp⟩
  | [a, b], _ => by
      have hb := b.toNat_lt
      refine ⟨[digit (a.toNat / 4), digit (a.toNat % 4 * 16 + b.toNat / 16)], _, 61,
        fill_pair 61 a b, by simp, ?_⟩
      simp [digit_ne_pad (n := b.toNat % 16 * 4) (by omega)]
  | [a, b, c], _ => by
      have hb := b.toNat_lt
      have hc := c.toNat_lt
      refine ⟨[digit (a.toNat / 4), digit (a.toNat % 4 * 16 + b.toNat / 16)], _, _,
        fill_triple 61 a b c [], ?_, ?_⟩
      · simp [digit_ne_pad (n := c.toNat % 64) (by omega)]
      · simp [digit_ne_pad (n := b.toNat % 16 * 4 + c.toNat / 64) (by omega)]
  | a :: b :: c :: d :: l, _ => by
      obtain ⟨t, x, y, ht, hy, hx⟩ := encode_ends (d :: l) (List.cons_ne_nil _ _)
      have hmod : (a :: b :: c :: d :: l).length % 3 = (d :: l).length % 3 := Nat.add_mod_right _ 3
      rw [hmod, encode_eq_fill, fill_triple]
      rw [encode_eq_fill] at ht
      exact ⟨_, x, y, by rw [ht, ← List.append_assoc], hy, hx⟩

end Base64
