import Mathlib.Data.List.Basic
import Mathlib.Tactic.Ring
import Mathlib.Tactic.NormNum

/-! # Padded block ciphers

A message is padded to whole blocks of `k` bytes with `n` copies of the byte `n`, where
`1 ≤ n ≤ k`; a whole block is added when the message already ends at a block boundary.
`unpad` checks the padding before it takes it off.  A `PaddedCipher k` is a cipher over padded
messages: decryption inverts encryption, and the length of a ciphertext is that of the padded
message.  `PaddedCipher.ofPermutation` builds one from any length-preserving permutation of the
padded messages. -/

namespace Pkcs7

/-- The number of padding bytes of a message of `n` bytes. -/
def padLen (k n : ℕ) : ℕ := k - n % k

/-- The padded message. -/
def pad (k : ℕ) (p : List UInt8) : List UInt8 :=
  p ++ List.replicate (padLen k p.length) (UInt8.ofNat (padLen k p.length))

/-- Check the padding and take it off. -/
def unpad (k : ℕ) (c : List UInt8) : Option (List UInt8) :=
  match c.getLast? with
  | none => none
  | some b =>
    if c.length % k = 0 ∧ 0 < b.toNat ∧ b.toNat ≤ k ∧
        c.drop (c.length - b.toNat) = List.replicate b.toNat b then
      some (c.take (c.length - b.toNat))
    else none

theorem padLen_pos {k : ℕ} (hk : 0 < k) (n : ℕ) : 0 < padLen k n :=
  Nat.sub_pos_of_lt (Nat.mod_lt n hk)

theorem padLen_le (k n : ℕ) : padLen k n ≤ k := Nat.sub_le _ _

theorem pad_length {k : ℕ} (hk : 0 < k) (p : List UInt8) :
    (pad k p).length = (p.length / k + 1) * k := by
  have hmod := Nat.mod_lt p.length hk
  have hdiv := Nat.div_add_mod p.length k
  rw [pad, List.length_append, List.length_replicate, padLen, Nat.add_mul, Nat.one_mul,
    Nat.mul_comm]
  omega

/-- **Padding comes off again**, for blocks whose length fits in a byte. -/
theorem unpad_pad {k : ℕ} (hk : 0 < k) (hk' : k < 256) (p : List UInt8) :
    unpad k (pad k p) = some p := by
  have hpos := padLen_pos hk p.length
  have hbyte : (UInt8.ofNat (padLen k p.length)).toNat = padLen k p.length := by
    rw [UInt8.toNat_ofNat', Nat.mod_eq_of_lt (lt_of_le_of_lt (padLen_le k _) hk')]
  have hlast : (pad k p).getLast? = some (UInt8.ofNat (padLen k p.length)) := by
    rw [pad, List.getLast?_append, List.getLast?_replicate, if_neg hpos.ne']
    rfl
  have hcut : (pad k p).length - padLen k p.length = p.length := by
    rw [pad, List.length_append, List.length_replicate, Nat.add_sub_cancel]
  have hlen : (pad k p).length % k = 0 := by
    rw [pad_length hk, Nat.mul_mod_left]
  have htake : (pad k p).take p.length = p := List.take_left' rfl
  have hdrop : (pad k p).drop p.length =
      List.replicate (padLen k p.length) (UInt8.ofNat (padLen k p.length)) :=
    List.drop_left' rfl
  rw [unpad, hlast]
  dsimp only
  rw [hbyte, hcut, hdrop, htake, if_pos ⟨hlen, hpos, padLen_le k _, rfl⟩]

end Pkcs7

/-- A cipher over messages padded to blocks of `k` bytes. -/
structure PaddedCipher (k : ℕ) where
  encrypt : List UInt8 → List UInt8
  decrypt : List UInt8 → Option (List UInt8)
  decrypt_encrypt : ∀ p, decrypt (encrypt p) = some p
  encrypt_length : ∀ p, (encrypt p).length = (p.length / k + 1) * k

namespace PaddedCipher

/-- The cipher that permutes the padded message. -/
def ofPermutation {k : ℕ} (hk : 0 < k) (hk' : k < 256) (enc dec : List UInt8 → List UInt8)
    (hinv : ∀ l, dec (enc l) = l) (hlen : ∀ l, (enc l).length = l.length) : PaddedCipher k where
  encrypt p := enc (Pkcs7.pad k p)
  decrypt c := Pkcs7.unpad k (dec c)
  decrypt_encrypt p := by rw [hinv, Pkcs7.unpad_pad hk hk']
  encrypt_length p := by rw [hlen, Pkcs7.pad_length hk]

theorem map_xor_map_xor (key : UInt8) (l : List UInt8) :
    (l.map (· ^^^ key)).map (· ^^^ key) = l := by
  induction l with
  | nil => rfl
  | cons b l ih =>
    rw [List.map_cons, List.map_cons, ih, UInt8.xor_assoc, UInt8.xor_self, UInt8.xor_zero]

/-- The cipher that masks every byte of the padded message. -/
def mask {k : ℕ} (hk : 0 < k) (hk' : k < 256) (key : UInt8) : PaddedCipher k :=
  ofPermutation hk hk' (fun l => l.map (· ^^^ key)) (fun l => l.map (· ^^^ key))
    (map_xor_map_xor key) (fun _ => List.length_map _)

end PaddedCipher
