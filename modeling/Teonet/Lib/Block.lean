import Mathlib.Algebra.Group.Int.Defs
import Mathlib.Algebra.Group.Nat.Defs
import Mathlib.Data.List.TakeDrop
import Mathlib.Tactic.SplitIfs
import Teonet.Lib.CString

/-! # Blocks of memory

A block of memory is the list of its bytes.  An access outside the block is undefined in C, so it
is `none` here: a function over blocks that returns `some` has stayed inside them.  `byteAt` and
`bytesAt` read at an offset, `bytesBefore` reads the bytes that end at an offset, `strAt` is what a
string function reads at a pointer (the terminator has to lie in the block), and `store` writes.

`drop_eq_of_strAt` and `strAt_of_drop_eq` say which string lies where it was read, and
`store_append` what a write makes of a block that is known up to the place of the write.  A
`Malloc` is a source of new blocks, and an `IntConv` the conversion of a length to an `int`. -/

namespace Block

/-! ### Reads -/

/-- The byte at offset `i`. -/
def byteAt (m : List UInt8) (i : ℕ) : Option UInt8 := m[i]?

/-- The `n` bytes at offset `i`. -/
def bytesAt (m : List UInt8) (i n : ℕ) : Option (List UInt8) :=
  if i + n ≤ m.length then some ((m.drop i).take n) else none

/-- The `n` bytes that end at offset `e`. -/
def bytesBefore (m : List UInt8) (e n : ℕ) : Option (List UInt8) :=
  if n ≤ e then bytesAt m (e - n) n else none

/-- The C string at offset `i`. -/
def strAt (m : List UInt8) (i : ℕ) : Option CString :=
  if 0 ∈ m.drop i then some (CString.ofBuf (m.drop i)) else none

theorem byteAt_eq {m : List UInt8} {i : ℕ} (h : i < m.length) : byteAt m i = some (m.getD i 0) := by
  rw [byteAt, List.getElem?_eq_getElem h, List.getElem_eq_getD]

theorem bytesAt_eq {m : List UInt8} {i n : ℕ} (h : i + n ≤ m.length) :
    bytesAt m i n = some ((m.drop i).take n) := if_pos h

theorem strAt_eq {m : List UInt8} {i : ℕ} (h : 0 ∈ m.drop i) :
    strAt m i = some (CString.ofBuf (m.drop i)) := if_pos h

theorem bytesAt_isSome_iff (m : List UInt8) (i n : ℕ) :
    (bytesAt m i n).isSome ↔ i + n ≤ m.length := by
  unfold bytesAt
  split_ifs with h <;> simp [h]

theorem bytesAt_length {m b : List UInt8} {i n : ℕ} (h : bytesAt m i n = some b) :
    b.length = n := by
  unfold bytesAt at h
  split_ifs at h with hfit
  obtain rfl := Option.some.inj h
  rw [List.length_take, List.length_drop]
  omega

/-- The first byte of what lies at an offset. -/
theorem byteAt_of_drop_eq {m rest : List UInt8} {i : ℕ} {c : UInt8} (h : m.drop i = c :: rest) :
    byteAt m i = some c := by
  have hget := congrArg (·[0]?) h
  rwa [List.getElem?_drop, Nat.add_zero] at hget

/-- An offset behind which something lies is one in the block. -/
theorem lt_of_drop_eq {m rest : List UInt8} {i : ℕ} {c : UInt8} (h : m.drop i = c :: rest) :
    i < m.length := (List.getElem?_eq_some_iff.mp (byteAt_of_drop_eq h)).1

theorem drop_succ_eq {m rest : List UInt8} {i : ℕ} {c : UInt8} (h : m.drop i = c :: rest) :
    m.drop (i + 1) = rest := by
  rw [← List.drop_drop, h]
  rfl

/-- A byte of those that are read. -/
theorem byteAt_of_bytesAt {m b : List UInt8} {i n k : ℕ} (h : bytesAt m i n = some b)
    (hk : k < n) : byteAt m (i + k) = b[k]? := by
  unfold bytesAt at h
  split_ifs at h with hfit
  obtain rfl := Option.some.inj h
  rw [byteAt, List.getElem?_take_of_lt hk, List.getElem?_drop]

theorem bytesAt_append_left {a : List UInt8} {i n : ℕ} (h : i + n ≤ a.length) (m : List UInt8) :
    bytesAt (a ++ m) i n = bytesAt a i n := by
  rw [bytesAt_eq h, bytesAt_eq (by rw [List.length_append]; omega),
    List.drop_append_of_le_length (by omega), List.take_append_of_le_length]
  rw [List.length_drop]
  omega

theorem bytesBefore_isSome_iff {m : List UInt8} {e : ℕ} (he : e ≤ m.length) (n : ℕ) :
    (bytesBefore m e n).isSome ↔ n ≤ e := by
  unfold bytesBefore
  split_ifs with h
  · rw [bytesAt_isSome_iff]
    omega
  · simp [h]

/-- The string that was read lies at the offset. -/
theorem drop_eq_of_strAt {m : List UInt8} {i : ℕ} {s : CString} (h : strAt m i = some s) :
    m.drop i = s.toBuf ++ m.drop (i + s.length + 1) := by
  unfold strAt at h
  split_ifs at h with hmem
  obtain rfl := Option.some.inj h
  rw [Nat.add_assoc, ← List.drop_drop]
  exact (CString.toBuf_ofBuf_append hmem).symm

/-- A string that lies at the offset is read. -/
theorem strAt_of_drop_eq {m rest : List UInt8} {i : ℕ} {s : CString}
    (h : m.drop i = s.toBuf ++ rest) : strAt m i = some s := by
  rw [strAt, h, CString.ofBuf_toBuf_append, if_pos (by simp [CString.toBuf])]

/-- What is read at an offset are the bytes that lie there with a zero byte behind them. -/
theorem strAt_bytes_eq_iff {m t : List UInt8} {i : ℕ} :
    (strAt m i).map CString.bytes = some t ↔ 0 ∉ t ∧ t ++ [0] <+: m.drop i := by
  constructor
  · intro h
    obtain ⟨s, hs, rfl⟩ := Option.map_eq_some_iff.mp h
    exact ⟨s.noNul, drop_eq_of_strAt hs ▸ List.prefix_append _ _⟩
  · rintro ⟨ht, rest, hrest⟩
    rw [strAt_of_drop_eq (s := ⟨t, ht⟩) hrest.symm, Option.map_some]

/-- A block that ends with a zero byte holds a string at each of its offsets. -/
theorem strAt_append_nul {l : List UInt8} {i : ℕ} (h : i ≤ l.length) :
    strAt (l ++ [0]) i = some (CString.ofBuf (l.drop i)) := by
  have hdrop : (l ++ [0]).drop i = l.drop i ++ [0] := by
    rw [List.drop_append, Nat.sub_eq_zero_of_le h, List.drop_zero]
  rw [strAt, hdrop, if_pos (by simp), CString.ofBuf_append_nul]

/-- A zero byte at or behind the offset ends the string. -/
theorem mem_drop_of_getD {m : List UInt8} {i j : ℕ} (hij : i ≤ j) (hj : j < m.length)
    (h : m.getD j 0 = 0) : 0 ∈ m.drop i := by
  have hmem : (m.drop i)[j - i]? = some 0 := by
    rw [List.getElem?_drop, Nat.add_sub_cancel' hij, List.getElem?_eq_getElem hj,
      List.getElem_eq_getD 0, h]
  exact List.mem_of_getElem? hmem

/-! ### Writes -/

/-- The bytes `b` are written at offset `i`. -/
def store (m : List UInt8) (i : ℕ) (b : List UInt8) : Option (List UInt8) :=
  if i + b.length ≤ m.length then some (m.take i ++ (b ++ m.drop (i + b.length))) else none

theorem store_length {m m' b : List UInt8} {i : ℕ} (h : store m i b = some m') :
    m'.length = m.length := by
  unfold store at h
  split at h
  · next hfit =>
    obtain rfl := Option.some.inj h
    simp only [List.length_append, List.length_take, List.length_drop]
    omega
  · cases h

/-- A write behind a known part. -/
theorem store_append {a m b : List UInt8} {i : ℕ} (hi : a.length = i) (h : b.length ≤ m.length) :
    store (a ++ m) i b = some (a ++ (b ++ m.drop b.length)) := by
  subst hi
  rw [store, if_pos (by rw [List.length_append]; omega), List.take_left, List.drop_append,
    List.drop_eq_nil_of_le (by omega), List.nil_append, Nat.add_sub_cancel_left]

/-- A write at the start. -/
theorem store_zero {m b : List UInt8} (h : b.length ≤ m.length) :
    store m 0 b = some (b ++ m.drop b.length) := store_append (a := []) rfl h

/-- A write into the first part of a block. -/
theorem store_append_left {a b : List UInt8} {i : ℕ} (h : i + b.length ≤ a.length)
    (m : List UInt8) : ∃ a', store a i b = some a' ∧ store (a ++ m) i b = some (a' ++ m) := by
  refine ⟨a.take i ++ (b ++ a.drop (i + b.length)), if_pos h, ?_⟩
  rw [store, if_pos (by rw [List.length_append]; omega), List.take_append_of_le_length (by omega),
    List.drop_append_of_le_length h, List.append_assoc, List.append_assoc]

theorem store_eq {m b : List UInt8} {i : ℕ} (h : i + b.length ≤ m.length) :
    store m i b = some (m.take i ++ (b ++ m.drop (i + b.length))) := if_pos h

theorem store_nil {m : List UInt8} {i : ℕ} (h : i ≤ m.length) : store m i [] = some m := by
  rw [store_eq h, List.length_nil, Nat.add_zero, List.nil_append, List.take_append_drop]

/-- Behind a write the block is as it was. -/
theorem drop_store {m m' b : List UInt8} {i k : ℕ} (h : store m i b = some m')
    (hk : i + b.length ≤ k) : m'.drop k = m.drop k := by
  unfold store at h
  split_ifs at h with hfit
  obtain rfl := Option.some.inj h
  have hlen : (m.take i ++ b).length = i + b.length := by
    rw [List.length_append, List.length_take_of_le (by omega)]
  rw [← List.append_assoc, List.drop_append, List.drop_eq_nil_of_le (hlen ▸ hk), List.nil_append,
    List.drop_drop, hlen, Nat.add_sub_cancel' hk]

/-- One byte is written. -/
theorem byteAt_store {m m' : List UInt8} {i : ℕ} {v : UInt8} (h : store m i [v] = some m') (k : ℕ) :
    byteAt m' k = if k = i then some v else byteAt m k := by
  unfold store at h
  split_ifs at h with hfit
  obtain rfl := Option.some.inj h
  rw [List.length_singleton] at hfit ⊢
  have hset : m.take i ++ ([v] ++ m.drop (i + 1)) = m.set i v := by
    rw [List.set_eq_take_append_cons_drop, if_pos (by omega)]
    rfl
  rw [byteAt, hset, List.getElem?_set]
  by_cases hk : k = i
  · rw [if_pos hk, if_pos hk.symm, if_pos (by omega)]
  · rw [if_neg hk, if_neg (Ne.symm hk), byteAt]

/-- Two writes of which one lies behind the other are one. -/
theorem store_store {m m' a : List UInt8} {i : ℕ} (h : store m i a = some m') (b : List UInt8) :
    store m' (i + a.length) b = store m i (a ++ b) := by
  have hlen := store_length h
  have hdrop := drop_store (k := i + a.length + b.length) h (by omega)
  unfold store at h
  split_ifs at h with hfit
  have hm := Option.some.inj h
  have htake : m'.take (i + a.length) = m.take i ++ a := by
    rw [← hm, ← List.append_assoc, List.take_left']
    rw [List.length_append, List.length_take_of_le (by omega)]
  rw [store, store, hlen, List.length_append, ← Nat.add_assoc, htake, hdrop]
  simp only [List.append_assoc]

/-- What was written is read. -/
theorem bytesAt_store {m m' b : List UInt8} {i : ℕ} (h : store m i b = some m') :
    bytesAt m' i b.length = some b := by
  have hlen := store_length h
  unfold store at h
  split_ifs at h with hfit
  obtain rfl := Option.some.inj h
  have hi : (m.take i).length = i := List.length_take_of_le (by omega)
  rw [bytesAt_eq (by omega), List.drop_left' hi, List.take_left]

/-- The bytes before and behind a write stay as they are. -/
theorem bytesAt_store_of_apart {m m' b : List UInt8} {i j n : ℕ} (h : store m i b = some m')
    (hapart : j + n ≤ i ∨ i + b.length ≤ j) : bytesAt m' j n = bytesAt m j n := by
  have hlen := store_length h
  have hget (k : ℕ) (hk : k < i ∨ i + b.length ≤ k) : m'[k]? = m[k]? := by
    unfold store at h
    split_ifs at h with hfit
    obtain rfl := Option.some.inj h
    rcases hk with hk | hk
    · rw [List.getElem?_append_left (by rw [List.length_take]; omega), List.getElem?_take_of_lt hk]
    · have hi : (m.take i).length = i := List.length_take_of_le (by omega)
      rw [List.getElem?_append_right (by omega), hi, List.getElem?_append_right (by omega),
        List.getElem?_drop]
      congr 1
      omega
  unfold bytesAt
  rw [hlen]
  refine if_congr Iff.rfl (congrArg some (List.ext_getElem? fun k => ?_)) rfl
  by_cases hk : k < n
  · rw [List.getElem?_take_of_lt hk, List.getElem?_take_of_lt hk, List.getElem?_drop,
      List.getElem?_drop, hget (j + k) (by omega)]
  · rw [List.getElem?_take_eq_none (by omega), List.getElem?_take_eq_none (by omega)]

end Block

/-- What an allocator returns: a block of the size that was asked for, with any contents. -/
structure Malloc where
  block : ℕ → List UInt8
  length_block : ∀ n, (block n).length = n

/-- `realloc` to a larger size: the new bytes can hold anything. -/
def Malloc.realloc (mem : Malloc) (m : List UInt8) (n : ℕ) : List UInt8 :=
  m ++ (mem.block n).drop m.length

/-- The allocator that clears its blocks. -/
def Malloc.clear : Malloc where
  block n := List.replicate n 0
  length_block _ := List.length_replicate

/-- A string in a block of its own is read there if the block has room for it. -/
theorem Malloc.store_block (mem : Malloc) (n : ℕ) (s : CString) :
    (Block.store (mem.block n) 0 s.toBuf).bind (Block.strAt · 0) =
      if s.length < n then some s else none := by
  split_ifs with hn
  · rw [Block.store_zero (by rw [CString.toBuf_length, mem.length_block]; omega)]
    exact Block.strAt_of_drop_eq rfl
  · rw [Block.store, if_neg (by rw [CString.toBuf_length, mem.length_block]; omega)]
    rfl

/-- The conversion of a `size_t` to an `int`.  What becomes of a value that does not fit is up to the
implementation. -/
structure IntConv where
  toInt : ℕ → ℤ
  toInt_of_lt : ∀ {n}, n < 2 ^ 31 → toInt n = n
  le_toInt : ∀ n, -2 ^ 31 ≤ toInt n
  toInt_lt : ∀ n, toInt n < 2 ^ 31

/-- The conversion that gives `-1` for a value that does not fit. -/
def IntConv.minusOne : IntConv where
  toInt n := if n < 2 ^ 31 then n else -1
  toInt_of_lt h := if_pos h
  le_toInt n := by split_ifs <;> omega
  toInt_lt n := by split_ifs <;> omega

/-- The conversion that drops the high bits. -/
def IntConv.lowBits : IntConv where
  toInt n := ((n : ℤ) + 2 ^ 31) % 2 ^ 32 - 2 ^ 31
  toInt_of_lt h := by omega
  le_toInt n := by omega
  toInt_lt n := by omega
