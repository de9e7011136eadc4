import Teonet.Lib.Block
import Teonet.Crypt

/-! # The buffers of the package encryption

`ksnEncryptPackage`, `ksnDecryptPackage` and `ksnCheckEncrypted` of `crypt.c` once more, over the
memory that they read and write: the output buffer of the caller or of `malloc`, the package that
is decrypted in place, and the temporary buffer of the decryption.  Every access is checked
against its block, and the result is `none` when one lies outside.

`ksnEncryptPackageIn_eq` and `ksnDecryptPackageIn_eq` connect the two translations;
`ksnDecryptPackageIn_encrypt` is the round trip in place. -/

namespace Teonet

open Block Bytes

/-! ### The functions over their memory -/

/-- `ksnEncryptPackage` under a cipher: the output buffer (`none` is `NULL`) after the call, and
`*encrypt_len`. -/
def ksnEncryptPackageIn (mem : Malloc) (encrypt : List UInt8 → List UInt8)
    (package : List UInt8) (buffer : Option (List UInt8)) : Option (List UInt8 × ℕ) := do
  let len := encryptLen package.length
  let buffer := buffer.getD (mem.block (len + 2))
  let buffer ← store buffer 0 (le16 package.length)
  let buffer ← store buffer 2 package
  let freeBufLen := len - package.length
  let buffer ← if freeBufLen ≠ 0 then
      store buffer (2 + package.length) (List.replicate freeBufLen 0)
    else some buffer
  let ciphertext := encrypt package
  let buffer ← store buffer 2 ciphertext
  some (buffer, ciphertext.length + 2)

/-- `_decrypt` into a buffer: the buffer after the call and the length of the plaintext, `0` when
the library refuses the ciphertext.  The library decrypts all blocks into the buffer, the padding
too, so the buffer needs the length of the ciphertext. -/
def decryptInto (decrypt : List UInt8 → Option (List UInt8)) (ciphertext buffer : List UInt8) :
    Option (List UInt8 × ℕ) :=
  if ciphertext.length ≤ buffer.length then
    match decrypt ciphertext with
    | some plaintext => (store buffer 0 plaintext).map fun b => (b, plaintext.length)
    | none => some (buffer, 0)
  else none

/-- `ksnDecryptPackage`: the package after the call, the offset of the returned pointer in it, and
`*decrypt_len`. -/
def ksnDecryptPackageIn (mem : Malloc) (decrypt : List UInt8 → Option (List UInt8))
    (package : List UInt8) : Option (List UInt8 × ℕ × ℕ) := do
  let _ ← bytesAt package 0 2
  let decrypted := mem.block (package.length - 2)
  let ciphertext ← bytesAt package 2 (package.length - 2)
  let (decrypted, decryptLen) ← decryptInto decrypt ciphertext decrypted
  if decryptLen ≠ 0 then
    let decrypted ← store decrypted decryptLen [0]
    let copied ← bytesAt decrypted 0 (decryptLen + 1)
    let package ← store package 2 copied
    some (package, 2, decryptLen)
  else some (package, 0, package.length)

/-- `ksnCheckEncrypted`. -/
def ksnCheckEncryptedIn (package : List UInt8) : Option Bool := do
  let field ← bytesAt package 0 2
  let decryptLen := getLe16 field
  some (decide (decryptLen ≠ 0 ∧ decryptLen < package.length ∧
    (package.length + sizeMod - 2) % sizeMod % blockSize = 0))

/-! ### Encryption -/

theorem encryptLen_free_pos (n : ℕ) : n < encryptLen n := by
  rw [encryptLen_eq, blockSize]
  omega

theorem encryptLen_le (n : ℕ) : encryptLen n ≤ n + 16 := by
  rw [encryptLen_eq, blockSize]
  omega

/-- No buffer, or one that is as large as the caller has to make it. -/
def EncryptBuffer (package : List UInt8) (buffer : Option (List UInt8)) : Prop :=
  ∀ b, buffer = some b → package.length + 18 ≤ b.length

/-- The four writes of the encryption, into a buffer with room for the length field and the
padded message. -/
theorem encrypt_writes {b ciphertext package : List UInt8} {free : ℕ}
    (hcipher : ciphertext.length = package.length + free)
    (hroom : package.length + free + 2 ≤ b.length) :
    ∃ b1 b2 b3 rest, store b 0 (le16 package.length) = some b1 ∧ store b1 2 package = some b2 ∧
      store b2 (2 + package.length) (List.replicate free 0) = some b3 ∧
      store b3 2 ciphertext = some (le16 package.length ++ ciphertext ++ rest) := by
  have h0 : store b 0 (le16 package.length) = some (le16 package.length ++ b.drop 2) :=
    store_zero (by rw [le_length]; omega)
  have h1 : store (le16 package.length ++ b.drop 2) 2 package =
      some (le16 package.length ++ (package ++ (b.drop 2).drop package.length)) :=
    store_append (le_length 2 _) (by rw [List.length_drop]; omega)
  rw [← List.append_assoc] at h1
  have h2 : store (le16 package.length ++ package ++ (b.drop 2).drop package.length)
      (2 + package.length) (List.replicate free 0) = some (le16 package.length ++ package ++
        (List.replicate free 0 ++ ((b.drop 2).drop package.length).drop free)) := by
    rw [store_append (by rw [List.length_append, le_length]) (by
      rw [List.length_replicate, List.length_drop, List.length_drop]
      omega), List.length_replicate]
  have h3 := store_append (a := le16 package.length) (m := package ++ (List.replicate free 0 ++
    ((b.drop 2).drop package.length).drop free)) (b := ciphertext) (le_length 2 _) (by
      simp only [hcipher, List.length_append, List.length_drop, List.length_replicate]
      omega)
  rw [← List.append_assoc, ← List.append_assoc (le16 package.length) ciphertext] at h3
  exact ⟨_, _, _, _, h0, h1, h2, h3⟩

/-- **Encryption stays inside the output buffer**, and what it leaves there is the encrypted
package. -/
theorem ksnEncryptPackageIn_eq (mem : Malloc) (c : PaddedCipher blockSize)
    {package : List UInt8} {buffer : Option (List UInt8)} (h : EncryptBuffer package buffer) :
    ∃ rest, ksnEncryptPackageIn mem c.encrypt package buffer =
      some (ksnEncryptPackage c.encrypt package ++ rest,
        (ksnEncryptPackage c.encrypt package).length) := by
  have hfree := encryptLen_free_pos package.length
  have hle := encryptLen_le package.length
  have hcipher : (c.encrypt package).length = encryptLen package.length := by
    rw [c.encrypt_length, encryptLen_eq]
  have hroom : encryptLen package.length + 2 ≤
      (buffer.getD (mem.block (encryptLen package.length + 2))).length := by
    cases buffer with
    | none => exact (mem.length_block _).ge
    | some b =>
      have := h b rfl
      simp only [Option.getD_some]
      omega
  obtain ⟨b1, b2, b3, rest, h0, h1, h2, h3⟩ :=
    @encrypt_writes _ (c.encrypt package) package (encryptLen package.length - package.length)
      (by omega) (by rw [Nat.add_sub_cancel' hfree.le]; exact hroom)
  refine ⟨rest, ?_⟩
  unfold ksnEncryptPackageIn
  simp only [Option.bind_eq_bind, h0, h1, Option.bind_some]
  rw [if_pos (by omega), h2, Option.bind_some, h3, Option.bind_some, ksnEncryptPackage,
    List.length_append, le_length, Nat.add_comm 2]

/-! ### Decryption -/

/-- The check reads the two bytes of the length field. -/
theorem ksnCheckEncryptedIn_eq {package : List UInt8} (h : 2 ≤ package.length) :
    ksnCheckEncryptedIn package = some (ksnCheckEncrypted package) := by
  have hfield : getLe16 (package.take 2) = getLe16 package := getLe_take h
  unfold ksnCheckEncryptedIn
  rw [bytesAt_eq (by omega), Option.bind_eq_bind, Option.bind_some, List.drop_zero]
  simp only [hfield, ksnCheckEncrypted]

/-- The writes of a successful decryption: the plaintext and its terminator in the temporary
buffer, and both over the ciphertext. -/
theorem decrypt_writes {temp package plaintext : List UInt8}
    (htemp : plaintext.length < temp.length) (hpackage : 2 + plaintext.length < package.length) :
    ∃ t1 t2, store temp 0 plaintext = some t1 ∧ store t1 plaintext.length [0] = some t2 ∧
      bytesAt t2 0 (plaintext.length + 1) = some (plaintext ++ [0]) ∧
      store package 2 (plaintext ++ [0]) = some (package.take 2 ++ (plaintext ++ [0] ++
        package.drop (2 + plaintext.length + 1))) := by
  have h1 : store temp 0 plaintext = some (plaintext ++ temp.drop plaintext.length) :=
    store_zero htemp.le
  have h2 : store (plaintext ++ temp.drop plaintext.length) plaintext.length [0] =
      some (plaintext ++ ([0] ++ (temp.drop plaintext.length).drop 1)) :=
    store_append rfl (by rw [List.length_drop]; exact Nat.le_sub_of_add_le' htemp)
  have h3 : bytesAt (plaintext ++ ([0] ++ (temp.drop plaintext.length).drop 1)) 0
      (plaintext.length + 1) = some (plaintext ++ [0]) := by
    rw [bytesAt_eq (by simp only [List.length_append, List.length_singleton]; omega),
      List.drop_zero, ← List.append_assoc, List.take_left' (by simp)]
  have hcut : (package.take 2).length = 2 := by
    rw [List.length_take]
    omega
  have h4 := store_append (m := package.drop 2) (b := plaintext ++ [0]) hcut (by
    simp only [List.length_append, List.length_singleton, List.length_drop]
    omega)
  rw [List.take_append_drop, List.drop_drop, List.length_append, List.length_singleton,
    ← Nat.add_assoc] at h4
  exact ⟨_, _, h1, h2, h3, h4⟩

section

variable (mem : Malloc) (decrypt : List UInt8 → Option (List UInt8)) {package : List UInt8}

/-- The call up to the plaintext: the length field and the ciphertext are read, and the temporary
buffer has room for what is decrypted. -/
theorem ksnDecryptPackageIn_eq_decryptInto (h : 2 ≤ package.length) :
    ksnDecryptPackageIn mem decrypt package =
      (decryptInto decrypt (package.drop 2) (mem.block (package.length - 2))).bind fun r =>
        if r.2 ≠ 0 then do
          let decrypted ← store r.1 r.2 [0]
          let copied ← bytesAt decrypted 0 (r.2 + 1)
          let package ← store package 2 copied
          some (package, 2, r.2)
        else some (package, 0, package.length) := by
  have hcipher : bytesAt package 2 (package.length - 2) = some (package.drop 2) := by
    rw [bytesAt_eq (by omega), List.take_of_length_le (by rw [List.length_drop])]
  unfold ksnDecryptPackageIn
  rw [bytesAt_eq (show 0 + 2 ≤ package.length by omega), hcipher]
  rfl

/-- What is decrypted is written over the ciphertext with a terminator. -/
theorem ksnDecryptPackageIn_some {plaintext : List UInt8}
    (hdec : decrypt (package.drop 2) = some plaintext) (hne : plaintext ≠ [])
    (hfit : 2 + plaintext.length < package.length) :
    ksnDecryptPackageIn mem decrypt package =
      some (package.take 2 ++ (plaintext ++ [0] ++ package.drop (2 + plaintext.length + 1)), 2,
        plaintext.length) := by
  have htemp : (mem.block (package.length - 2)).length = package.length - 2 := mem.length_block _
  have hpos : plaintext.length ≠ 0 := fun h => hne (List.length_eq_zero_iff.mp h)
  obtain ⟨t1, t2, h1, h2, h3, h4⟩ :=
    @decrypt_writes (mem.block (package.length - 2)) _ _ (by omega) hfit
  rw [ksnDecryptPackageIn_eq_decryptInto mem decrypt (by omega), decryptInto,
    if_pos (by rw [htemp, List.length_drop]), hdec]
  simp only [h1, Option.map_some, Option.bind_some]
  rw [if_pos hpos]
  simp only [h2, h3, h4, Option.bind_eq_bind, Option.bind_some]

/-- Where nothing is decrypted the package is returned as it is. -/
theorem ksnDecryptPackageIn_none (hlen : 2 ≤ package.length)
    (hdec : decrypt (package.drop 2) = none ∨ decrypt (package.drop 2) = some []) :
    ksnDecryptPackageIn mem decrypt package = some (package, 0, package.length) := by
  have htemp : (mem.block (package.length - 2)).length = package.length - 2 := mem.length_block _
  rw [ksnDecryptPackageIn_eq_decryptInto mem decrypt hlen, decryptInto,
    if_pos (by rw [htemp, List.length_drop])]
  rcases hdec with hnone | hnil
  · rw [hnone]
    rfl
  · have hstore : store (mem.block (package.length - 2)) 0 [] = some _ :=
      store_zero (Nat.zero_le _)
    simp only [hnil, hstore]
    rfl

/-- **Decryption stays inside the package and the temporary buffer** when the plaintext is shorter
than the ciphertext, and what it returns is the decrypted package. -/
theorem ksnDecryptPackageIn_eq (hlen : 2 ≤ package.length)
    (hshort : ∀ plaintext, decrypt (package.drop 2) = some plaintext →
      2 + plaintext.length < package.length) :
    ∃ package' ptr decryptLen, ksnDecryptPackageIn mem decrypt package =
        some (package', ptr, decryptLen) ∧
      ksnDecryptPackage decrypt package [] =
        ((package'.drop ptr).take decryptLen, package'.drop (ptr + decryptLen)) := by
  cases hdec : decrypt (package.drop 2) with
  | none =>
    refine ⟨_, _, _, ksnDecryptPackageIn_none mem decrypt hlen (Or.inl hdec), ?_⟩
    rw [ksnDecryptPackage, hdec]
    simp
  | some plaintext =>
    cases plaintext with
    | nil =>
      refine ⟨_, _, _, ksnDecryptPackageIn_none mem decrypt hlen (Or.inr hdec), ?_⟩
      rw [ksnDecryptPackage, hdec]
      simp
    | cons b plain =>
      have hcut : (package.take 2).length = 2 := by
        rw [List.length_take]
        omega
      have hresult : ksnDecryptPackage decrypt package [] =
          (b :: plain, [0] ++ package.drop (2 + (b :: plain).length + 1)) := by
        rw [ksnDecryptPackage, hdec, List.append_nil]
        rfl
      refine ⟨_, _, _, ksnDecryptPackageIn_some mem decrypt hdec (List.cons_ne_nil b plain)
        (hshort _ hdec), ?_⟩
      generalize package.drop (2 + (b :: plain).length + 1) = rest at hresult ⊢
      rw [hresult, ← List.drop_drop, List.drop_left' hcut, List.append_assoc,
        List.take_left' rfl, List.drop_left' rfl]

end

/-- **The round trip in place**: a package of `1` to `65535` bytes is encrypted inside its output
buffer, recognised, and decrypted in place to the same bytes with a terminator behind them. -/
theorem ksnDecryptPackageIn_encrypt (mem : Malloc) (c : PaddedCipher blockSize)
    (package : List UInt8) (buffer : Option (List UInt8)) (hbuffer : EncryptBuffer package buffer)
    (hpos : 1 ≤ package.length) (hlt : package.length ≤ 65535) :
    ∃ out encryptLen package',
      ksnEncryptPackageIn mem c.encrypt package buffer = some (out, encryptLen) ∧
      encryptLen ≤ out.length ∧
      ksnCheckEncryptedIn (out.take encryptLen) = some true ∧
      ksnDecryptPackageIn mem c.decrypt (out.take encryptLen) =
        some (package', 2, package.length) ∧
      bytesAt package' 2 package.length = some package ∧
      byteAt package' (2 + package.length) = some 0 := by
  obtain ⟨rest, hout⟩ := ksnEncryptPackageIn_eq mem c hbuffer
  have hne : package ≠ [] := List.length_pos_iff.mp hpos
  have hlen := ksnEncryptPackage_length c package
  have hfree := encryptLen_free_pos package.length
  have hdec : c.decrypt ((ksnEncryptPackage c.encrypt package).drop 2) = some package := by
    rw [ksnEncryptPackage, drop_le16_append, c.decrypt_encrypt]
  have hcut : ((ksnEncryptPackage c.encrypt package).take 2).length = 2 := by
    rw [List.length_take]
    omega
  have hrun := ksnDecryptPackageIn_some mem c.decrypt hdec hne (by omega)
  refine ⟨_, _, _, hout, by simp, ?_, (congrArg _ List.take_left).trans hrun, ?_, ?_⟩
  · rw [List.take_left, ksnCheckEncryptedIn_eq (by omega), ksnCheckEncrypted_encrypt c hne
      (by omega)]
  · rw [bytesAt_eq (by simp only [List.length_append, hcut]; omega), List.drop_left' hcut,
      List.append_assoc, List.take_left]
  · rw [byteAt, List.append_assoc, List.getElem?_append_right (by omega), hcut,
      Nat.add_sub_cancel_left, List.getElem?_append_right (le_refl _), Nat.sub_self]
    rfl

/-- A greeting in a buffer of the caller. -/
theorem ksnDecryptPackageIn_encrypt_greeting :
    ∃ out encryptLen package',
      ksnEncryptPackageIn ⟨fun n => List.replicate n 7, fun _ => List.length_replicate⟩
        (PaddedCipher.mask (by decide) (by decide) 90 : PaddedCipher blockSize).encrypt
        [72, 101, 108, 108, 111, 0] (some (List.replicate 24 9)) = some (out, encryptLen) ∧
      encryptLen ≤ out.length ∧
      ksnCheckEncryptedIn (out.take encryptLen) = some true ∧
      ksnDecryptPackageIn ⟨fun n => List.replicate n 7, fun _ => List.length_replicate⟩
        (PaddedCipher.mask (by decide) (by decide) 90 : PaddedCipher blockSize).decrypt
        (out.take encryptLen) = some (package', 2, [72, 101, 108, 108, 111, 0].length) ∧
      bytesAt package' 2 [72, 101, 108, 108, 111, 0].length = some [72, 101, 108, 108, 111, 0] ∧
      byteAt package' (2 + [72, 101, 108, 108, 111, 0].length) = some 0 :=
  ksnDecryptPackageIn_encrypt _ (PaddedCipher.mask (by decide) (by decide) 90)
    [72, 101, 108, 108, 111, 0] (some (List.replicate 24 9))
    (by rintro b hb; obtain rfl := Option.some.inj hb; decide) (by decide) (by decide)

end Teonet
