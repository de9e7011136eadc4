import Mathlib.Algebra.Group.Int.Defs
import Mathlib.Algebra.Group.Nat.Defs
import Mathlib.Data.List.Basic
import Mathlib.Tactic.Common
import Teonet.Lib.Block

/-! # Texts that are put together in a buffer

A program that prints several texts one behind the other into a buffer adds up the results of
`snprintf`, which are the lengths that the texts would have had, and passes what remains of the size
of the buffer.  `build` is such a program: it has no result if it writes outside the buffer or if the
sum is no `int` any more.  When the sum is larger than the size, the remaining size wraps, and the
next write is outside (`snprintf_of_lt`).

`buildWith` is the same program for another way to print: `sprintf` is one that knows no size.  The
buffer holds the whole text if the text and its terminator fit into it (`buildWith_eq`), and a shorter
one otherwise (`eq_or_lt_of_buildWith`). -/

namespace TextBuffer

open Block

/-- The texts one behind the other. -/
def concat (l : List CString) : CString where
  bytes := l.flatMap CString.bytes
  noNul h := by
    obtain ⟨s, -, hs⟩ := List.mem_flatMap.mp h
    exact s.noNul hs

/-- `size - ptr`, computed as `size_t`. -/
def remaining (size ptr : ℕ) : ℕ := (((size : ℤ) - ptr) % 2 ^ 64).toNat

/-- `snprintf` of a text to offset `i` of a block, with a size of `n`. -/
def snprintf (m : List UInt8) (i n : ℕ) (text : CString) : Option (List UInt8) :=
  if n = 0 then some m else store m i (text.take (n - 1)).toBuf

/-- `ptr += snprintf(buf + ptr, size - ptr, ..)`, where `ptr` is an `int`. -/
def append (size : ℕ) (b : List UInt8 × ℕ) (text : CString) : Option (List UInt8 × ℕ) := do
  let m ← snprintf b.1 b.2 (remaining size b.2) text
  if b.2 + text.length < 2 ^ 31 then some (m, b.2 + text.length) else none

/-- All texts but the last are appended, and the last one is printed behind them. -/
def build (mem : Malloc) (size : ℕ) (texts : List CString) (last : CString) :
    Option (List UInt8) := do
  let b ← texts.foldlM (append size) (mem.block size, 0)
  snprintf b.1 b.2 (remaining size b.2) last

/-- `sprintf` of a text to offset `i` of a block. -/
def sprintf (m : List UInt8) (i : ℕ) (text : CString) : Option (List UInt8) := store m i text.toBuf

/-- `ptr += p(buf + ptr, ..)`, for a way to print at an offset. -/
def appendWith (p : List UInt8 → ℕ → CString → Option (List UInt8)) (b : List UInt8 × ℕ)
    (text : CString) : Option (List UInt8 × ℕ) := do
  let m ← p b.1 b.2 text
  if b.2 + text.length < 2 ^ 31 then some (m, b.2 + text.length) else none

/-- The texts printed one behind the other. -/
def buildWith (p : List UInt8 → ℕ → CString → Option (List UInt8)) (mem : Malloc) (size : ℕ)
    (texts : List CString) (last : CString) : Option (List UInt8) := do
  let b ← texts.foldlM (appendWith p) (mem.block size, 0)
  p b.1 b.2 last

/-- In a buffer of `size` bytes, a text with room for its terminator is printed as a whole, and nothing
changes the length of the buffer. -/
structure Prints (size : ℕ) (p : List UInt8 → ℕ → CString → Option (List UInt8)) : Prop where
  length_eq : ∀ {m m' i text}, p m i text = some m' → m'.length = m.length
  append_eq : ∀ {done rest : List UInt8} {text : CString}, done.length + rest.length = size →
    done.length + text.length < size →
      p (done ++ rest) done.length text =
        some (done ++ (text.toBuf ++ rest.drop (text.length + 1)))

theorem concat_cons_bytes (s : CString) (l : List CString) :
    (concat (s :: l)).bytes = s.bytes ++ (concat l).bytes := List.flatMap_cons

theorem concat_append_bytes (l l' : List CString) :
    (concat (l ++ l')).bytes = (concat l).bytes ++ (concat l').bytes := List.flatMap_append

theorem concat_length_cons (s : CString) (l : List CString) :
    (concat (s :: l)).length = s.length + (concat l).length := by
  rw [CString.length, concat_cons_bytes, List.length_append]
  rfl

theorem remaining_of_le {size ptr : ℕ} (h : ptr ≤ size) (hsize : size < 2 ^ 64) :
    remaining size ptr = size - ptr := by
  unfold remaining
  omega

/-- Behind the end of the buffer the remaining size wraps, and the write is outside. -/
theorem snprintf_of_lt {m : List UInt8} {ptr : ℕ} (h : m.length < ptr) (hptr : ptr < 2 ^ 31)
    (text : CString) : snprintf m ptr (remaining m.length ptr) text = none := by
  have hwrap : remaining m.length ptr ≠ 0 := by
    unfold remaining
    omega
  rw [snprintf, if_neg hwrap, store, if_neg]
  omega

theorem snprintf_length {m m' : List UInt8} {i n : ℕ} {text : CString}
    (h : snprintf m i n text = some m') : m'.length = m.length := by
  unfold snprintf at h
  split_ifs at h
  · rw [Option.some.inj h]
  · exact store_length h

theorem prints_sprintf (size : ℕ) : Prints size sprintf where
  length_eq h := store_length h
  append_eq hlength hroom := by
    rw [sprintf, store_append rfl (by rw [CString.toBuf_length]; omega), CString.toBuf_length]

theorem prints_snprintf {size : ℕ} (hsize : size < 2 ^ 64) :
    Prints size fun m i => snprintf m i (remaining size i) where
  length_eq h := snprintf_length h
  append_eq {done rest text} hlength hroom := by
    have hremaining : remaining size done.length = size - done.length :=
      remaining_of_le (by omega) hsize
    have htake : text.take (size - done.length - 1) = text :=
      CString.take_of_length_le (by omega)
    rw [hremaining, snprintf, if_neg (by omega), htake]
    exact (prints_sprintf size).append_eq hlength hroom

section
variable {size : ℕ} {p : List UInt8 → ℕ → CString → Option (List UInt8)}

/-- What the loop leaves, if there is room for all texts. -/
theorem foldlM_appendWith (hp : Prints size p) (texts : List CString) :
    ∀ (done rest : List UInt8), done.length + rest.length = size →
      done.length + (concat texts).length < size →
      done.length + (concat texts).length < 2 ^ 31 →
      ∃ rest', texts.foldlM (appendWith p) (done ++ rest, done.length) =
          some (done ++ (concat texts).bytes ++ rest', (done ++ (concat texts).bytes).length) ∧
        (done ++ (concat texts).bytes).length + rest'.length = size := by
  induction texts with
  | nil =>
    intro done rest hlength _ _
    exact ⟨rest, by simp [concat], by simpa [concat] using hlength⟩
  | cons text texts ih =>
    intro done rest hlength hroom hint
    rw [concat_length_cons] at hroom hint
    have hbytes : (done ++ text.bytes).length = done.length + text.length := List.length_append
    have hstep : appendWith p (done ++ rest, done.length) text =
        some ((done ++ text.bytes) ++ (0 :: rest.drop (text.length + 1)),
          (done ++ text.bytes).length) := by
      rw [appendWith, hp.append_eq hlength (by omega), hbytes]
      dsimp only [Option.bind_eq_bind, Option.bind_some]
      rw [if_pos (by omega), CString.toBuf]
      simp
    obtain ⟨rest', hrun, hrest⟩ := ih (done ++ text.bytes) (0 :: rest.drop (text.length + 1))
      (by rw [hbytes, List.length_cons, List.length_drop]; omega) (by omega) (by omega)
    refine ⟨rest', ?_, ?_⟩
    · rw [List.foldlM_cons, hstep]
      dsimp only [Option.bind_eq_bind, Option.bind_some]
      rw [hrun, concat_cons_bytes, List.append_assoc done]
    · rw [concat_cons_bytes, ← List.append_assoc]
      exact hrest

/-- What is known of any run of the loop. -/
theorem of_foldlM_appendWith (hp : Prints size p) {texts : List CString} :
    ∀ {b b' : List UInt8 × ℕ}, texts.foldlM (appendWith p) b = some b' → b.2 < 2 ^ 31 →
      b'.1.length = b.1.length ∧ b.2 + (concat texts).length < 2 ^ 31 := by
  induction texts with
  | nil =>
    intro b b' h hint
    obtain rfl := Option.some.inj h
    exact ⟨rfl, hint⟩
  | cons text texts ih =>
    intro b b' h _
    rw [List.foldlM_cons] at h
    obtain ⟨b₁, hstep, hrest⟩ := Option.bind_eq_some_iff.mp h
    obtain ⟨m, hm, hstep⟩ := Option.bind_eq_some_iff.mp hstep
    split_ifs at hstep with hint
    obtain rfl := Option.some.inj hstep
    obtain ⟨hlength, hsum⟩ := ih hrest hint
    refine ⟨hlength.trans (hp.length_eq hm), ?_⟩
    rw [concat_length_cons]
    dsimp only at hsum
    omega

/-- A text that is found in the buffer ends in it, and the lengths before the last are an `int` in
sum. -/
theorem of_buildWith (hp : Prints size p) {mem : Malloc} {texts : List CString} {last s : CString}
    (h : (buildWith p mem size texts last).bind (strAt · 0) = some s) :
    s.length < size ∧ (concat texts).length < 2 ^ 31 := by
  obtain ⟨m, hm, hstr⟩ := Option.bind_eq_some_iff.mp h
  obtain ⟨b, hb, hlast⟩ := Option.bind_eq_some_iff.mp hm
  obtain ⟨hlength, hsum⟩ := of_foldlM_appendWith hp hb (Nat.two_pow_pos 31)
  rw [Nat.zero_add] at hsum
  have hsizeof : m.length = size :=
    (hp.length_eq hlast).trans (hlength.trans (mem.length_block size))
  refine ⟨?_, hsum⟩
  -- the terminator lies in the buffer too
  have htext := congrArg List.length (drop_eq_of_strAt hstr)
  rw [List.length_append, CString.toBuf_length, List.drop_zero, hsizeof] at htext
  omega

/-- A text that fits is there as a whole. -/
theorem buildWith_eq (hp : Prints size p) (mem : Malloc) {texts : List CString} {last : CString}
    (hroom : (concat (texts ++ [last])).length < size) (hint : (concat texts).length < 2 ^ 31) :
    (buildWith p mem size texts last).bind (strAt · 0) = some (concat (texts ++ [last])) := by
  have hbytes : (concat (texts ++ [last])).bytes = (concat texts).bytes ++ last.bytes := by
    rw [concat_append_bytes, concat_cons_bytes]
    exact congrArg _ (List.append_nil _)
  have hlength : (concat (texts ++ [last])).length = (concat texts).length + last.length :=
    (congrArg List.length hbytes).trans List.length_append
  obtain ⟨rest, hrun, hrest⟩ := foldlM_appendWith hp texts [] (mem.block size)
    (by simp [mem.length_block]) (by simp; omega) (by simpa using hint)
  rw [List.nil_append] at hrun hrest
  rw [List.nil_append, List.length_nil] at hrun
  have hlast := hp.append_eq hrest
    (show (concat texts).length + last.length < size by omega)
  have hdrop : ((concat texts).bytes ++ (last.toBuf ++ rest.drop (last.length + 1))).drop 0 =
      (concat (texts ++ [last])).toBuf ++ rest.drop (last.length + 1) := by
    rw [List.drop_zero, CString.toBuf, CString.toBuf, hbytes]
    simp
  unfold buildWith
  rw [hrun]
  dsimp only [Option.bind_eq_bind, Option.bind_some]
  rw [hlast]
  exact strAt_of_drop_eq hdrop

/-- What is found in the buffer is the whole text, which fits, or it is shorter. -/
theorem eq_or_lt_of_buildWith (hp : Prints size p) {mem : Malloc} {texts : List CString}
    {last s : CString} (h : (buildWith p mem size texts last).bind (strAt · 0) = some s) :
    (s = concat (texts ++ [last]) ∧ (concat (texts ++ [last])).length < size ∧
        (concat texts).length < 2 ^ 31) ∨
      s.length < (concat (texts ++ [last])).length := by
  obtain ⟨hend, hint⟩ := of_buildWith hp h
  by_cases hroom : (concat (texts ++ [last])).length < size
  · rw [buildWith_eq hp mem hroom hint] at h
    exact .inl ⟨(Option.some.inj h).symm, hroom, hint⟩
  · exact .inr (by omega)

end

end TextBuffer
