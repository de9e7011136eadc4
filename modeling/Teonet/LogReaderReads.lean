import Teonet.LogReader

/-! # The reads of the log reader (`log_reader.c`)

`readBuffer` keeps what `read` returns in a `size_t`, so an error is the largest number there is: the
loop takes it for bytes, its position goes back by one, and it reads again.  Here the loop runs over
the results that `read` gives one after the other, and `returnsBytes_iff` says for which of them it
returns at the right place with the right bytes.  `readBufferLoop_of_file` is the case of a file that
is read without an error, which is `readBuffer`. -/

namespace Teonet

open Block

/-! ### The code -/

/-- What `read` returns: the bytes that it has put into the buffer, none at the end of the file, or
`-1`. -/
inductive LogReadResult where
  | bytes (b : List UInt8)
  | error

/-- The result as a `size_t`. -/
def LogReadResult.rd : LogReadResult → ℕ
  | .bytes b => b.length
  | .error => 2 ^ 64 - 1

/-- The bytes that are put into the buffer. -/
def LogReadResult.stored : LogReadResult → List UInt8
  | .bytes b => b
  | .error => []

/-- The buffer of the class, and the position in it. -/
structure LogReadState where
  buffer : List UInt8
  ptr : ℕ

/-- `buf_size - ptr`. -/
def freeSpace (size ptr : ℕ) : ℕ := (size + 2 ^ 64 - ptr) % 2 ^ 64

/-- `buf_size` for the next read. -/
def grownSize (size ptr : ℕ) : ℕ :=
  if size = 0 then bufInc * 2 else if freeSpace size ptr < bufInc then size + bufInc * 2 else size

/-- The buffer for the next read. -/
def grownBuffer (mal : Malloc) (s : LogReadState) : List UInt8 :=
  if s.buffer.length = 0 then mal.block (bufInc * 2)
  else if freeSpace s.buffer.length s.ptr < bufInc then s.buffer ++ mal.block (bufInc * 2)
  else s.buffer

/-- One turn of the loop of `readBuffer`, and whether the loop goes on. -/
def readBufferTurn (mal : Malloc) (s : LogReadState) (r : LogReadResult) :
    Option (LogReadState × Bool) :=
  (store (grownBuffer mal s) s.ptr r.stored).map fun buffer =>
    if 0 < r.rd then (⟨buffer, (s.ptr + r.rd) % 2 ^ 64⟩, true) else (⟨buffer, s.ptr⟩, false)

/-- The loop of `readBuffer`, and the results that are left when it has come to its end. -/
def readBufferLoop (mal : Malloc) (s : LogReadState) :
    List LogReadResult → Option (LogReadState × Option (List LogReadResult))
  | [] => some (s, none)
  | r :: results =>
    (readBufferTurn mal s r).bind fun t =>
      if t.2 then readBufferLoop mal t.1 results else some (t.1, some results)

/-! ### Sequences of results -/

/-- These bytes can come of one read after the other: each time at least one byte and at most as many
as the code asks for, in a buffer with a size that is a `size_t`. -/
def Served (size ptr : ℕ) : List (List UInt8) → Prop
  | [] => grownSize size ptr < 2 ^ 64
  | b :: data =>
    grownSize size ptr < 2 ^ 64 ∧ b ≠ [] ∧ b.length ≤ freeSpace (grownSize size ptr) ptr ∧
      Served (grownSize size ptr) (ptr + b.length) data

/-- A sequence of results of `read`, for a buffer of some size: bytes, then the end of the file or an
error, and then whatever `read` would return. -/
structure LogReads (size : ℕ) where
  data : List (List UInt8)
  failed : Bool
  later : List LogReadResult
  served : Served size 0 data

/-- The first result that is not positive. -/
def LogReads.last {size : ℕ} (reads : LogReads size) : LogReadResult :=
  if reads.failed then .error else .bytes []

/-- All the results. -/
def LogReads.results {size : ℕ} (reads : LogReads size) : List LogReadResult :=
  reads.data.map .bytes ++ reads.last :: reads.later

/-- The loop ends with the first result that is not positive, at a position behind the bytes that have
been read, and at each turn its position is in the buffer. -/
def ReturnsBytes (mal : Malloc) (buffer : List UInt8) (reads : LogReads buffer.length) : Prop :=
  (∃ s, readBufferLoop mal ⟨buffer, 0⟩ reads.results = some (s, some reads.later) ∧
    s.ptr ≤ s.buffer.length ∧ s.ptr = reads.data.flatten.length ∧
    s.buffer.take s.ptr = reads.data.flatten) ∧
  ∀ n, ∃ s, readBufferLoop mal ⟨buffer, 0⟩ ((reads.data.take n).map .bytes) = some (s, none) ∧
    s.ptr ≤ s.buffer.length

/-! ### The turns -/

theorem readBufferLoop_append {mal : Malloc} {s t : LogReadState} {results : List LogReadResult}
    (h : readBufferLoop mal s results = some (t, none)) (more : List LogReadResult) :
    readBufferLoop mal s (results ++ more) = readBufferLoop mal t more := by
  induction results generalizing s with
  | nil =>
    obtain ⟨rfl, -⟩ := Prod.mk.inj (Option.some.inj h)
    rfl
  | cons r results ih =>
    obtain ⟨u, hu, hrest⟩ := Option.bind_eq_some_iff.mp h
    rw [List.cons_append, readBufferLoop, hu, Option.bind_some]
    split_ifs at hrest ⊢ with hon
    · exact ih hrest
    · cases (Prod.mk.inj (Option.some.inj hrest)).2

/-- The loop that has come to its end has asked for a result. -/
theorem length_lt_of_readBufferLoop {mal : Malloc} {s t : LogReadState}
    {results left : List LogReadResult} (h : readBufferLoop mal s results = some (t, some left)) :
    left.length < results.length := by
  induction results generalizing s with
  | nil => cases (Prod.mk.inj (Option.some.inj h)).2
  | cons r results ih =>
    obtain ⟨u, hu, hrest⟩ := Option.bind_eq_some_iff.mp h
    rw [List.length_cons]
    split_ifs at hrest with hon
    · exact (ih hrest).trans (Nat.lt_succ_self _)
    · obtain ⟨-, hleft⟩ := Prod.mk.inj (Option.some.inj hrest)
      rw [Option.some.inj hleft]
      exact Nat.lt_succ_self _

theorem freeSpace_eq {size ptr : ℕ} (hptr : ptr ≤ size) (hsize : size < 2 ^ 64) :
    freeSpace size ptr = size - ptr := by
  unfold freeSpace
  omega

/-- The buffer, behind what has been read. -/
theorem grownBuffer_eq (mal : Malloc) (a b : List UInt8) :
    ∃ c, grownBuffer mal ⟨a ++ b, a.length⟩ = a ++ c ∧
      (a ++ c).length = grownSize (a ++ b).length a.length := by
  unfold grownBuffer grownSize
  dsimp only
  split_ifs with hzero hsmall
  · obtain ⟨rfl, rfl⟩ := List.append_eq_nil_iff.mp (List.length_eq_zero_iff.mp hzero)
    exact ⟨_, rfl, by simp [mal.length_block]⟩
  · refine ⟨b ++ mal.block (bufInc * 2), List.append_assoc .., ?_⟩
    simp [mal.length_block, Nat.add_assoc]
  · exact ⟨b, rfl, rfl⟩

/-- A turn with bytes puts them behind those that have been read. -/
theorem readBufferTurn_bytes {mal : Malloc} {a b c d : List UInt8}
    (hc : grownBuffer mal ⟨a ++ b, a.length⟩ = a ++ c) (hsize : (a ++ c).length < 2 ^ 64)
    (hd : d ≠ []) (hfit : d.length ≤ c.length) :
    readBufferTurn mal ⟨a ++ b, a.length⟩ (.bytes d) =
      some (⟨(a ++ d) ++ c.drop d.length, (a ++ d).length⟩, true) := by
  have hpos : 0 < (LogReadResult.bytes d).rd := List.length_pos_iff.mpr hd
  have hptr : (a.length + (LogReadResult.bytes d).rd) % 2 ^ 64 = (a ++ d).length := by
    rw [List.length_append] at hsize ⊢
    exact Nat.mod_eq_of_lt (by change a.length + d.length < 2 ^ 64; omega)
  rw [readBufferTurn, hc, LogReadResult.stored, store_append rfl hfit, Option.map_some,
    if_pos hpos, hptr, List.append_assoc]

/-- A turn without bytes changes the size of the buffer at most. -/
theorem readBufferTurn_nil {mal : Malloc} {a b c : List UInt8}
    (hc : grownBuffer mal ⟨a ++ b, a.length⟩ = a ++ c) {r : LogReadResult} (hr : r.stored = []) :
    readBufferTurn mal ⟨a ++ b, a.length⟩ r =
      some (if 0 < r.rd then (⟨a ++ c, (a.length + r.rd) % 2 ^ 64⟩, true)
        else (⟨a ++ c, a.length⟩, false)) := by
  rw [readBufferTurn, hc, hr, store_nil (by simp), Option.map_some]

theorem length_append_drop {a c d : List UInt8} (hfit : d.length ≤ c.length) :
    ((a ++ d) ++ c.drop d.length).length = (a ++ c).length := by
  simp only [List.length_append, List.length_drop]
  omega

/-! ### The bytes -/

theorem Served.grownSize_lt {size ptr : ℕ} {data : List (List UInt8)} (h : Served size ptr data) :
    grownSize size ptr < 2 ^ 64 := by
  cases data with
  | nil => exact h
  | cons b data => exact h.1

theorem Served.take {size ptr : ℕ} {data : List (List UInt8)} (h : Served size ptr data) (n : ℕ) :
    Served size ptr (data.take n) := by
  induction data generalizing size ptr n with
  | nil => rwa [List.take_nil]
  | cons b data ih =>
    cases n with
    | zero => exact h.grownSize_lt
    | succ n => exact ⟨h.1, h.2.1, h.2.2.1, ih h.2.2.2 n⟩

/-- The loop puts the bytes one behind the other. -/
theorem readBufferLoop_served (mal : Malloc) :
    ∀ (data : List (List UInt8)) (a b : List UInt8), Served (a ++ b).length a.length data →
      ∃ tail, readBufferLoop mal ⟨a ++ b, a.length⟩ (data.map .bytes) =
        some (⟨(a ++ data.flatten) ++ tail, (a ++ data.flatten).length⟩, none)
  | [], a, b, _ => ⟨b, by simp [readBufferLoop]⟩
  | d :: data, a, b, ⟨hsize, hd, hfit, hrest⟩ => by
      obtain ⟨c, hc, hlen⟩ := grownBuffer_eq mal a b
      rw [← hlen] at hsize hfit hrest
      rw [freeSpace_eq (by simp) hsize, List.length_append, Nat.add_sub_cancel_left] at hfit
      rw [← length_append_drop hfit, ← List.length_append] at hrest
      obtain ⟨tail, hloop⟩ := readBufferLoop_served mal data (a ++ d) (c.drop d.length) hrest
      refine ⟨tail, ?_⟩
      rw [List.map_cons, readBufferLoop, readBufferTurn_bytes hc hsize hd hfit, Option.bind_some,
        if_pos rfl, hloop, List.flatten_cons, List.append_assoc a d]

/-- The end of the file ends the loop. -/
theorem readBufferLoop_eof (mal : Malloc) {data : List (List UInt8)} {a b : List UInt8}
    (h : Served (a ++ b).length a.length data) (later : List LogReadResult) :
    ∃ tail, readBufferLoop mal ⟨a ++ b, a.length⟩ (data.map .bytes ++ .bytes [] :: later) =
      some (⟨(a ++ data.flatten) ++ tail, (a ++ data.flatten).length⟩, some later) := by
  obtain ⟨tail, hloop⟩ := readBufferLoop_served mal data a b h
  obtain ⟨c, hc, -⟩ := grownBuffer_eq mal (a ++ data.flatten) tail
  refine ⟨c, ?_⟩
  rw [readBufferLoop_append hloop, readBufferLoop, readBufferTurn_nil hc rfl, Option.bind_some]
  rfl

/-- After an error the loop goes on, with a position that is lower by one. -/
theorem readBufferLoop_error (mal : Malloc) {data : List (List UInt8)} {a b : List UInt8}
    (h : Served (a ++ b).length a.length data) (later : List LogReadResult) :
    ∃ tail, readBufferLoop mal ⟨a ++ b, a.length⟩ (data.map .bytes ++ .error :: later) =
      readBufferLoop mal ⟨(a ++ data.flatten) ++ tail,
        ((a ++ data.flatten).length + (2 ^ 64 - 1)) % 2 ^ 64⟩ later := by
  obtain ⟨tail, hloop⟩ := readBufferLoop_served mal data a b h
  obtain ⟨c, hc, -⟩ := grownBuffer_eq mal (a ++ data.flatten) tail
  refine ⟨c, ?_⟩
  rw [readBufferLoop_append hloop, readBufferLoop, readBufferTurn_nil hc rfl, Option.bind_some]
  rfl

/-- With an error that stays the loop has no end. -/
theorem readBufferLoop_errors (mal : Malloc) (n : ℕ) :
    ∀ (s t : LogReadState) (left : List LogReadResult),
      readBufferLoop mal s (List.replicate n .error) ≠ some (t, some left) := by
  induction n with
  | zero =>
    intro s t left h
    cases (Prod.mk.inj (Option.some.inj h)).2
  | succ n ih =>
    intro s t left h
    obtain ⟨u, hu, hrest⟩ := Option.bind_eq_some_iff.mp h
    obtain ⟨buffer, -, rfl⟩ := Option.map_eq_some_iff.mp hu
    exact ih _ t left hrest

/-! ### A file that is read without an error -/

theorem grownBuffer_eq_roomBuffer (mal : Malloc) {buffer : List UInt8} {ptr : ℕ}
    (hptr : ptr ≤ buffer.length) (hsize : buffer.length < 2 ^ 64) :
    grownBuffer mal ⟨buffer, ptr⟩ = roomBuffer mal buffer ptr := by
  rw [grownBuffer, roomBuffer, freeSpace_eq hptr hsize]

theorem grownSize_lt {size ptr rest : ℕ} (hptr : ptr ≤ size) (hsize : size < 2 ^ 64)
    (hrest : ptr + rest + bufInc * 3 ≤ 2 ^ 64) : grownSize size ptr < 2 ^ 64 := by
  unfold grownSize
  rw [freeSpace_eq hptr hsize]
  unfold bufInc at *
  split_ifs <;> omega

/-- The reads of a file, from a place in it on, are a sequence of results of `read`, and `readBuffer`
is the loop over them. -/
theorem exists_reads (mal : Malloc) (later : List LogReadResult) (a b rest : List UInt8)
    (hsize : (a ++ b).length < 2 ^ 64) (hrest : a.length + rest.length + bufInc * 3 ≤ 2 ^ 64) :
    ∃ data, Served (a ++ b).length a.length data ∧ data.flatten = rest ∧
      readBufferLoop mal ⟨a ++ b, a.length⟩ (data.map .bytes ++ .bytes [] :: later) =
        (readBuffer mal (a ++ b) a.length rest).map fun r => (⟨r.1, r.2⟩, some later) := by
  induction hn : rest.length using Nat.strong_induction_on generalizing a b rest with
  | _ n ih =>
    have hgrown := grownSize_lt (by simp) hsize hrest
    have hroom : grownBuffer mal ⟨a ++ b, a.length⟩ = roomBuffer mal (a ++ b) a.length :=
      grownBuffer_eq_roomBuffer mal (by simp) hsize
    obtain ⟨c, hc, hlen⟩ := grownBuffer_eq mal a b
    have hfree : (a ++ c).length - a.length = c.length := by
      rw [List.length_append, Nat.add_sub_cancel_left]
    rw [readBuffer, ← hroom, hc, hfree]
    by_cases hend : rest = []
    · subst hend
      refine ⟨[], hgrown, rfl, ?_⟩
      rw [List.map_nil, List.nil_append, readBufferLoop, readBufferTurn_nil hc rfl]
      simp [LogReadResult.rd]
    · obtain ⟨c', hc', hpos⟩ := roomBuffer_eq mal a b
      obtain rfl := List.append_cancel_left (hc'.symm.trans (hroom.symm.trans hc))
      have hfit : (rest.take c'.length).length ≤ c'.length := List.length_take_le _ _
      have hd : rest.take c'.length ≠ [] := by
        rw [Ne, List.take_eq_nil_iff]
        simp [hend, hpos]
      obtain ⟨rest', hsplit⟩ := List.take_prefix c'.length rest
      generalize rest.take c'.length = d at hfit hd hsplit ⊢
      subst hsplit
      have hdpos := List.length_pos_iff.mpr hd
      rw [List.length_append] at hn hrest
      rw [← hlen] at hgrown
      obtain ⟨data, hdata, hflat, hloop⟩ := ih rest'.length (by omega) (a ++ d)
        (c'.drop d.length) rest' (by rwa [length_append_drop hfit])
        (by rw [List.length_append]; omega) rfl
      refine ⟨d :: data, ⟨hlen ▸ hgrown, hd, ?_, ?_⟩, by rw [List.flatten_cons, hflat], ?_⟩
      · rw [← hlen, freeSpace_eq (by simp) hgrown, hfree]
        exact hfit
      · rw [← hlen, ← length_append_drop hfit, ← List.length_append]
        exact hdata
      · rw [List.map_cons, List.cons_append, readBufferLoop,
          readBufferTurn_bytes hc hgrown hd hfit, Option.bind_some, if_pos rfl, hloop,
          if_pos hdpos, store_append rfl hfit, Option.bind_some, List.drop_left,
          ← List.append_assoc, ← List.length_append]

/-- A whole file: the loop over its reads is `readBuffer`. -/
theorem readBufferLoop_of_file (mal : Malloc) {buffer rest : List UInt8}
    (hsize : buffer.length < 2 ^ 64) (hrest : rest.length + bufInc * 3 ≤ 2 ^ 64) :
    ∃ reads : LogReads buffer.length, reads.failed = false ∧ reads.data.flatten = rest ∧
      readBufferLoop mal ⟨buffer, 0⟩ reads.results =
        (readBuffer mal buffer 0 rest).map fun r => (⟨r.1, r.2⟩, some reads.later) := by
  obtain ⟨data, hdata, hflat, hloop⟩ := exists_reads mal [] [] buffer rest hsize
    (by rw [List.length_nil, Nat.zero_add]; exact hrest)
  exact ⟨⟨data, false, [], hdata⟩, rfl, hflat, hloop⟩

/-! ### When the bytes are returned -/

variable {mal : Malloc} {buffer : List UInt8} {reads : LogReads buffer.length}

theorem returnsBytes_of_eof (h : reads.failed = false) : ReturnsBytes mal buffer reads := by
  constructor
  · obtain ⟨tail, hloop⟩ := readBufferLoop_eof mal (a := []) (b := buffer) reads.served reads.later
    simp only [List.nil_append, List.length_nil] at hloop
    refine ⟨⟨reads.data.flatten ++ tail, reads.data.flatten.length⟩, ?_, ?_, rfl, List.take_left⟩
    · rw [LogReads.results, LogReads.last, h]
      exact hloop
    · exact (List.prefix_append _ tail).length_le
  · intro n
    obtain ⟨tail, hloop⟩ := readBufferLoop_served mal (reads.data.take n) [] buffer
      (reads.served.take n)
    refine ⟨_, hloop, ?_⟩
    exact (List.prefix_append _ tail).length_le

/-- After an error the loop asks for another result. -/
theorem not_returnsBytes_of_error (h : reads.failed = true) : ¬ReturnsBytes mal buffer reads := by
  rintro ⟨⟨s, hs, -⟩, -⟩
  obtain ⟨tail, hloop⟩ := readBufferLoop_error mal (a := []) (b := buffer) reads.served reads.later
  rw [LogReads.results, LogReads.last, h, if_pos rfl] at hs
  exact absurd (length_lt_of_readBufferLoop (hloop.symm.trans hs)) (lt_irrefl _)

/-- `readBuffer` returns the bytes that it has read exactly when it comes to the end of the file. -/
theorem returnsBytes_iff (mal : Malloc) (buffer : List UInt8) (reads : LogReads buffer.length) :
    ReturnsBytes mal buffer reads ↔ reads.failed = false := by
  constructor
  · intro h
    by_contra hfailed
    exact not_returnsBytes_of_error (Bool.not_eq_false _ ▸ hfailed) h
  · exact returnsBytes_of_eof

/-- One byte, an error, and the end of the file: nothing has been read. -/
def lostByte : LogReads 0 where
  data := [[97]]
  failed := true
  later := [.bytes []]
  served := ⟨by decide, by decide, by decide, show grownSize 512 1 < 2 ^ 64 by decide⟩

theorem not_returnsBytes_lostByte : ¬ReturnsBytes .clear [] lostByte :=
  not_returnsBytes_of_error rfl

end Teonet
