import Mathlib.Data.List.Basic
import Mathlib.Tactic.Ring
import Mathlib.Tactic.NormNum

/-! # Little-endian fields in byte buffers

A packet is a list of bytes.  `le w n` is the field of `w` bytes that holds the low `8 * w` bits
of `n`, least significant byte first; `getLe w b` reads such a field at the start of `b`.
`getLe_le_append` is the round trip: a field reads back modulo `256 ^ w`, whatever follows it.
`le_eq_le_iff` says when two fields are the same bytes. -/

namespace Bytes

/-- The `w` bytes of `n`, least significant first; higher bits are lost. -/
def le : ℕ → ℕ → List UInt8
  | 0, _ => []
  | w + 1, n => UInt8.ofNat n :: le w (n / 256)

/-- The number in the first `w` bytes; a byte that is not there counts as `0`. -/
def getLe : ℕ → List UInt8 → ℕ
  | 0, _ => 0
  | _ + 1, [] => 0
  | w + 1, b :: l => b.toNat + 256 * getLe w l

@[simp] theorem le_length : ∀ w n : ℕ, (le w n).length = w
  | 0, _ => rfl
  | w + 1, n => by rw [le, List.length_cons, le_length w]

theorem toNat_ofNat (n : ℕ) : (UInt8.ofNat n).toNat = n % 256 := by
  rw [UInt8.toNat_ofNat']

theorem getLe_le_append : ∀ (w n : ℕ) (l : List UInt8), getLe w (le w n ++ l) = n % 256 ^ w
  | 0, n, l => by rw [getLe, pow_zero, Nat.mod_one]
  | w + 1, n, l => by
      rw [le, List.cons_append, getLe, getLe_le_append w, toNat_ofNat, pow_succ', Nat.mod_mul]

theorem getLe_lt : ∀ (w : ℕ) (l : List UInt8), getLe w l < 256 ^ w
  | 0, _ => by simp [getLe]
  | w + 1, [] => by simp [getLe]
  | w + 1, b :: l => by
      have hb : b.toNat < 256 := b.toNat_lt
      have hl := getLe_lt w l
      rw [getLe, pow_succ]
      omega

/-- Two fields are the same bytes exactly when the numbers agree on the bits that fit. -/
theorem le_eq_le_iff (w m n : ℕ) : le w m = le w n ↔ m % 256 ^ w = n % 256 ^ w := by
  constructor
  · intro h
    rw [← getLe_le_append w m [], ← getLe_le_append w n [], h]
  · intro h
    induction w generalizing m n with
    | zero => rfl
    | succ w ih =>
        rw [pow_succ', Nat.mod_mul, Nat.mod_mul] at h
        have hm : m % 256 < 256 := Nat.mod_lt _ (by norm_num)
        have hn : n % 256 < 256 := Nat.mod_lt _ (by norm_num)
        have hlow : m % 256 = n % 256 := by omega
        have hhigh : m / 256 % 256 ^ w = n / 256 % 256 ^ w := by omega
        have hbyte : UInt8.ofNat m = UInt8.ofNat n := by
          apply UInt8.toNat_inj.mp
          rw [toNat_ofNat, toNat_ofNat, hlow]
        rw [le, le, hbyte, ih _ _ hhigh]

/-- A field is read from its own bytes only. -/
theorem getLe_append : ∀ (w : ℕ) (l r : List UInt8), w ≤ l.length →
    getLe w (l ++ r) = getLe w l
  | 0, _, _, _ => by simp [getLe]
  | w + 1, b :: l, r, h => by
      rw [List.cons_append, getLe, getLe, getLe_append w l r (by simpa using h)]

theorem getLe_take {w : ℕ} {l : List UInt8} (h : w ≤ l.length) : getLe w (l.take w) = getLe w l := by
  have hsplit := getLe_append w (l.take w) (l.drop w) (by rw [List.length_take]; omega)
  rw [List.take_append_drop] at hsplit
  exact hsplit.symm

/-! ### The 16-bit field -/

/-- The `uint16_t` field. -/
abbrev le16 (n : ℕ) : List UInt8 := le 2 n

/-- Reading a `uint16_t`. -/
abbrev getLe16 (b : List UInt8) : ℕ := getLe 2 b

theorem getLe16_lt (b : List UInt8) : getLe16 b < 65536 := getLe_lt 2 b

theorem getLe16_le16_append (n : ℕ) (l : List UInt8) :
    getLe16 (le16 n ++ l) = n % 65536 := getLe_le_append 2 n l

theorem getLe16_le16_append_of_lt {n : ℕ} (h : n < 65536) (l : List UInt8) :
    getLe16 (le16 n ++ l) = n := by
  rw [getLe16_le16_append, Nat.mod_eq_of_lt h]

theorem le16_eq_le16_iff (m n : ℕ) : le16 m = le16 n ↔ m % 65536 = n % 65536 :=
  le_eq_le_iff 2 m n

theorem drop_le16_append (n : ℕ) (l : List UInt8) : (le16 n ++ l).drop 2 = l :=
  List.drop_left' (le_length 2 n)

end Bytes
