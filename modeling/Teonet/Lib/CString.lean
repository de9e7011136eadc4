import Mathlib.Data.List.TakeWhile

/-! # NUL-terminated strings

A `CString` is the text of a C string: bytes of which none is `0`, so a name with an embedded
terminator cannot be built.  `ofBuf` is what the C library reads at a pointer into a buffer
(everything up to the first `0`), `toBuf` is the string as it lies in memory, and `take` is
`strncpy` into a buffer that keeps room for the terminator.  `ofBuf_toBuf_append` is the round
trip. -/

/-- The text of a C string. -/
structure CString where
  bytes : List UInt8
  noNul : (0 : UInt8) ∉ bytes
deriving DecidableEq, Repr

namespace CString

theorem ext {s t : CString} (h : s.bytes = t.bytes) : s = t := by
  cases s; cases t; cases h; rfl

/-- The string `""`. -/
def empty : CString := ⟨[], List.not_mem_nil⟩

/-- `strlen`. -/
def length (s : CString) : ℕ := s.bytes.length

/-- The bytes in memory, terminator included. -/
def toBuf (s : CString) : List UInt8 := s.bytes ++ [0]

/-- The string read at a pointer: the bytes before the first `0`. -/
def ofBuf (b : List UInt8) : CString where
  bytes := b.takeWhile (· ≠ 0)
  noNul h := by simpa using List.mem_takeWhile_imp h

/-- `strncpy` of at most `n` bytes. -/
def take (n : ℕ) (s : CString) : CString where
  bytes := s.bytes.take n
  noNul h := s.noNul (List.mem_of_mem_take h)

@[simp] theorem toBuf_length (s : CString) : s.toBuf.length = s.length + 1 := by
  simp [toBuf, length]

/-- Bytes without a terminator are part of what is read. -/
theorem bytes_ofBuf_append {l : List UInt8} (hl : (0 : UInt8) ∉ l) (m : List UInt8) :
    (ofBuf (l ++ m)).bytes = l ++ (ofBuf m).bytes := by
  unfold ofBuf
  apply List.takeWhile_append_of_pos
  intro b hb
  have hne : b ≠ 0 := fun h => hl (h ▸ hb)
  simpa using hne

theorem bytes_ofBuf_cons {c : UInt8} (hc : c ≠ 0) (l : List UInt8) :
    (ofBuf (c :: l)).bytes = c :: (ofBuf l).bytes :=
  bytes_ofBuf_append (l := [c]) (by simpa using hc.symm) l

/-- Bytes without a terminator are all read. -/
theorem bytes_ofBuf {l : List UInt8} (hl : (0 : UInt8) ∉ l) : (ofBuf l).bytes = l := by
  have h := bytes_ofBuf_append hl []
  rw [List.append_nil] at h
  exact h.trans (List.append_nil l)

theorem ofBuf_toBuf_append (s : CString) (l : List UInt8) : ofBuf (s.toBuf ++ l) = s := by
  apply ext
  rw [toBuf, List.append_assoc, bytes_ofBuf_append s.noNul]
  simp [ofBuf]

theorem ofBuf_toBuf (s : CString) : ofBuf s.toBuf = s := by
  have h := ofBuf_toBuf_append s []
  rwa [List.append_nil] at h

/-- Bytes without a terminator are read up to the one behind them. -/
theorem bytes_ofBuf_append_zero {l : List UInt8} (hl : (0 : UInt8) ∉ l) :
    (ofBuf (l ++ [0])).bytes = l :=
  congrArg bytes (ofBuf_toBuf ⟨l, hl⟩)

/-- A string with a terminator is followed by the bytes behind its terminator. -/
theorem toBuf_ofBuf_append {b : List UInt8} (h : 0 ∈ b) :
    (ofBuf b).toBuf ++ b.drop ((ofBuf b).length + 1) = b := by
  induction b with
  | nil => simp at h
  | cons x l ih =>
    by_cases hx : x = 0
    · subst hx
      rfl
    · have hl : 0 ∈ l := by simpa [Ne.symm hx] using h
      rw [toBuf, length, bytes_ofBuf_cons hx, List.length_cons, List.cons_append, List.cons_append,
        List.drop_succ_cons]
      exact congrArg (x :: ·) (ih hl)

/-- A zero byte behind a buffer changes nothing of the string in it. -/
theorem ofBuf_append_nul (b m : List UInt8) : ofBuf (b ++ 0 :: m) = ofBuf b := by
  apply ext
  show (b ++ 0 :: m).takeWhile (· ≠ 0) = b.takeWhile (· ≠ 0)
  induction b with
  | nil => rfl
  | cons x l ih => rw [List.cons_append, List.takeWhile_cons, List.takeWhile_cons, ih]

theorem take_of_length_le {n : ℕ} {s : CString} (h : s.length ≤ n) : s.take n = s :=
  ext (List.take_of_length_le h)

/-- The first bytes of a string with its terminator. -/
theorem ofBuf_take_toBuf (s : CString) (n : ℕ) : ofBuf (s.toBuf.take n) = s.take n := by
  by_cases hn : n ≤ s.length
  · have htake : s.toBuf.take n = (s.take n).bytes := by
      rw [toBuf, List.take_append_of_le_length hn]
      rfl
    rw [htake]
    exact ext (bytes_ofBuf (s.take n).noNul)
  · have htake : s.toBuf.take n = s.toBuf :=
      List.take_of_length_le (by rw [toBuf_length]; omega)
    rw [htake, ofBuf_toBuf, take_of_length_le (by omega)]

theorem length_take (n : ℕ) (s : CString) : (s.take n).length = min n s.length :=
  List.length_take

end CString
