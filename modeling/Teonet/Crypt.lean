import Teonet.Lib.Bytes
import Teonet.Lib.Pkcs7

/-! # Package encryption

`ksnEncryptPackage`, `ksnDecryptPackage` and `ksnCheckEncrypted` of `crypt.c`.  The cipher of the
cryptographic library is a parameter: `encrypt` and `decrypt` are `_encrypt` and `_decrypt` under
the network key, and `decrypt` is `none` where the library refuses the ciphertext.  An encrypted
package is the 16-bit length of the plaintext followed by the ciphertext.

`ksnDecryptPackage_encrypt` is the round trip for a cipher over padded blocks, and
`ksnCheckEncrypted_encrypt` says which encrypted packages the receiver recognises. -/

namespace Teonet

open Bytes

/-- `BLOCK_SIZE`. -/
def blockSize : ℕ := 16

/-- The values of a `size_t`. -/
def sizeMod : ℕ := 2 ^ 64

/-- `*encrypt_len` as `ksnEncryptPackage` computes it to size the buffer. -/
def encryptLen (packageLen : ℕ) : ℕ :=
  ((packageLen + 1) / blockSize + if (packageLen + 1) % blockSize ≠ 0 then 1 else 0) * blockSize

/-- `ksnEncryptPackage`. -/
def ksnEncryptPackage (encrypt : List UInt8 → List UInt8) (package : List UInt8) : List UInt8 :=
  le16 package.length ++ encrypt package

/-- `ksnDecryptPackage`, with the bytes that lie behind the package in its buffer: the decrypted
data with its `NUL` is written over the ciphertext.  Where nothing was decrypted the input comes
back as it is. -/
def ksnDecryptPackage (decrypt : List UInt8 → Option (List UInt8)) (package after : List UInt8) :
    List UInt8 × List UInt8 :=
  match decrypt (package.drop 2) with
  | some (b :: plain) =>
    (b :: plain, 0 :: (package ++ after).drop (2 + (plain.length + 1) + 1))
  | _ => (package, after)

/-- `ksnCheckEncrypted`: the length in front is positive and smaller than the package, and the
rest is whole blocks. -/
def ksnCheckEncrypted (package : List UInt8) : Bool :=
  decide (getLe16 package ≠ 0 ∧ getLe16 package < package.length ∧
    (package.length + sizeMod - 2) % sizeMod % blockSize = 0)

/-- The buffer holds exactly the ciphertext of a cipher over padded blocks. -/
theorem encryptLen_eq (packageLen : ℕ) :
    encryptLen packageLen = (packageLen / blockSize + 1) * blockSize := by
  unfold encryptLen blockSize
  by_cases h : (packageLen + 1) % 16 ≠ 0
  · rw [if_pos h]
    omega
  · rw [if_neg h]
    omega

theorem ksnEncryptPackage_length (c : PaddedCipher blockSize) (package : List UInt8) :
    (ksnEncryptPackage c.encrypt package).length = 2 + encryptLen package.length := by
  rw [ksnEncryptPackage, List.length_append, le_length, c.encrypt_length, encryptLen_eq]

theorem getLe16_ksnEncryptPackage (encrypt : List UInt8 → List UInt8) {package : List UInt8}
    (h : package.length < 65536) :
    getLe16 (ksnEncryptPackage encrypt package) = package.length :=
  getLe16_le16_append_of_lt h _

/-- **Decryption inverts encryption** on a package that is not empty. -/
theorem ksnDecryptPackage_encrypt (c : PaddedCipher blockSize) {package : List UInt8}
    (hne : package ≠ []) (after : List UInt8) :
    (ksnDecryptPackage c.decrypt (ksnEncryptPackage c.encrypt package) after).1 = package := by
  cases package with
  | nil => exact absurd rfl hne
  | cons b plain =>
    rw [ksnDecryptPackage, ksnEncryptPackage, drop_le16_append, c.decrypt_encrypt]

/-- **An encrypted package is recognised** when its length is positive and fits in 16 bits. -/
theorem ksnCheckEncrypted_encrypt (c : PaddedCipher blockSize) {package : List UInt8}
    (hne : package ≠ []) (hlt : package.length < 65536) :
    ksnCheckEncrypted (ksnEncryptPackage c.encrypt package) = true := by
  have hpos : package.length ≠ 0 := fun h => hne (List.length_eq_zero_iff.mp h)
  have hlen := ksnEncryptPackage_length c package
  rw [encryptLen_eq] at hlen
  simp only [ksnCheckEncrypted, getLe16_ksnEncryptPackage c.encrypt hlt, hlen, sizeMod,
    decide_eq_true_eq, blockSize]
  refine ⟨hpos, ?_, ?_⟩ <;> omega

/-- What a package decrypts to, or the package itself. -/
theorem ksnDecryptPackage_fst (decrypt : List UInt8 → Option (List UInt8))
    (package after : List UInt8) :
    (∃ b plain, decrypt (package.drop 2) = some (b :: plain) ∧
      (ksnDecryptPackage decrypt package after).1 = b :: plain) ∨
    ((decrypt (package.drop 2) = none ∨ decrypt (package.drop 2) = some []) ∧
      (ksnDecryptPackage decrypt package after).1 = package) := by
  unfold ksnDecryptPackage
  rcases decrypt (package.drop 2) with _ | _ | ⟨b, plain⟩
  · exact Or.inr ⟨Or.inl rfl, rfl⟩
  · exact Or.inr ⟨Or.inr rfl, rfl⟩
  · exact Or.inl ⟨b, plain, rfl, rfl⟩

end Teonet
