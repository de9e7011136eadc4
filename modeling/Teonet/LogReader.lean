import Mathlib.Algebra.Group.Nat.Defs
import Teonet.Lib.Block
import Teonet.Lib.Lines
import Teonet.Lib.Runs

/-! # The log reader (`log_reader.c`)

A watcher reads what a file has grown by and delivers it line by line.  `readBuffer` reads to the
end of the file into a buffer that grows, `readLineBuffer` copies one line into a second buffer that
grows, and `receive_cb` delivers the lines.  Both buffers belong to the class, so all its watchers
share them.

`receiveCb_eq` says what one call delivers: the lines of the bytes it has read.  A line that the end
of a read cuts comes in two parts, so the lines delivered are the lines of the file only in the runs
of `teoLogReader_delivers_iff`. -/

namespace Teonet

open Block Lines Runs

/-- `BUFINC`. -/
def bufInc : ℕ := 256

/-- `READ_FROM_END`. -/
def readFromEnd : ℕ := 1

/-- `SKIP_EMPTY`. -/
def skipEmpty : ℕ := 2

/-- The two buffers; a null pointer is an empty block. -/
structure TeoLogReaderClass where
  buffer : List UInt8 := []
  lineBuffer : List UInt8 := []

/-- The buffer of `readBuffer`, allocated or grown for the next read. -/
def roomBuffer (mal : Malloc) (buffer : List UInt8) (ptr : ℕ) : List UInt8 :=
  if buffer.length = 0 then mal.block (bufInc * 2)
  else if buffer.length - ptr < bufInc then buffer ++ mal.block (bufInc * 2)
  else buffer

/-- The loop of `readBuffer`: `rest` is what lies behind the offset of the file. -/
def readBuffer (mal : Malloc) (buffer : List UInt8) (ptr : ℕ) (rest : List UInt8) :
    Option (List UInt8 × ℕ) :=
  let buffer := roomBuffer mal buffer ptr
  let rd := rest.take (buffer.length - ptr)
  if 0 < rd.length then
    (store buffer ptr rd).bind fun buffer =>
      readBuffer mal buffer (ptr + rd.length) (rest.drop rd.length)
  else some (buffer, ptr)
termination_by rest.length
decreasing_by
  rw [List.length_drop]
  exact Nat.sub_lt (by rw [List.length_take] at *; omega) ‹_›

/-- The line buffer, grown when `i` has come to its end. -/
def growLine (mal : Malloc) (line : List UInt8) (i : ℕ) : List UInt8 :=
  if i ≥ line.length - 1 then line ++ mal.block bufInc else line

/-- The loop of `readLineBuffer`; `i` is an `int`. -/
def readLineLoop (mal : Malloc) (buffer : List UInt8) (dataLength : ℕ) (line : List UInt8)
    (i ptr : ℕ) : Option (List UInt8 × ℕ) :=
  if ptr < dataLength then
    (byteAt buffer ptr).bind fun ch =>
      if ch = 13 then readLineLoop mal buffer dataLength line i (ptr + 1)
      else if ch ≠ 10 then
        if i = 2 ^ 31 - 1 then none
        else
          (store line i [ch]).bind fun line =>
            (store line (i + 1) [0]).bind fun line =>
              readLineLoop mal buffer dataLength (growLine mal line (i + 1)) (i + 1) (ptr + 1)
      else some (line, ptr + 1)
  else some (line, ptr)
termination_by dataLength - ptr

/-- `readLineBuffer`. -/
def readLineBuffer (mal : Malloc) (lr : TeoLogReaderClass) (ptr dataLength : ℕ) :
    Option (TeoLogReaderClass × ℕ) :=
  let line := if lr.lineBuffer.length = 0 then mal.block bufInc else lr.lineBuffer
  (store line 0 [0]).bind fun line =>
    (readLineLoop mal lr.buffer dataLength line 0 ptr).map fun r =>
      ({ lr with lineBuffer := r.1 }, r.2)

/-- A line is skipped if it is empty and the watcher asks for it. -/
def skips (flags : ℕ) (line : List UInt8) : Bool := flags &&& skipEmpty ≠ 0 && line.isEmpty

/-- The pointer moves on. -/
theorem readLineLoop_ptr {mal : Malloc} {buffer line line' : List UInt8} {dataLength i ptr ptr' : ℕ}
    (h : readLineLoop mal buffer dataLength line i ptr = some (line', ptr')) :
    ptr ≤ ptr' ∧ (ptr < dataLength → ptr < ptr') := by
  fun_induction readLineLoop mal buffer dataLength line i ptr with
  | case1 line i ptr hptr ih ihstore =>
    obtain ⟨ch, -, hch⟩ := Option.bind_eq_some_iff.mp h
    split_ifs at hch with hcr hlf hmax
    · have := ih hch
      omega
    · obtain ⟨l₁, -, hl₁⟩ := Option.bind_eq_some_iff.mp hch
      obtain ⟨l₂, -, hl₂⟩ := Option.bind_eq_some_iff.mp hl₁
      have := ihstore l₂ hl₂
      omega
    · obtain ⟨-, rfl⟩ := Prod.mk.inj (Option.some.inj hch)
      omega
  | case2 line i ptr hptr =>
    obtain ⟨-, rfl⟩ := Prod.mk.inj (Option.some.inj h)
    omega

theorem readLineBuffer_ptr {mal : Malloc} {lr lr' : TeoLogReaderClass} {dataLength ptr ptr' : ℕ}
    (h : readLineBuffer mal lr ptr dataLength = some (lr', ptr')) :
    ptr ≤ ptr' ∧ (ptr < dataLength → ptr < ptr') := by
  obtain ⟨line, -, hloop⟩ := Option.bind_eq_some_iff.mp h
  obtain ⟨r, hr, hpair⟩ := Option.map_eq_some_iff.mp hloop
  obtain ⟨-, rfl⟩ := Prod.mk.inj hpair
  exact readLineLoop_ptr hr

/-- The loop of `receive_cb`, which hands each line to the callbacks. -/
def receiveLoop (mal : Malloc) (flags : ℕ) (lr : TeoLogReaderClass) (dataLength ptr : ℕ) :
    Option (TeoLogReaderClass × List CString) :=
  match _ : readLineBuffer mal lr ptr dataLength with
  | none => none
  | some (lr', ptr') =>
    (strAt lr'.lineBuffer 0).bind fun line =>
      let delivered := if skips flags line.bytes then [] else [line]
      if ptr' < dataLength then
        (receiveLoop mal flags lr' dataLength ptr').map fun r => (r.1, delivered ++ r.2)
      else some (lr', delivered)
termination_by dataLength - ptr
decreasing_by
  have := readLineBuffer_ptr ‹_›
  omega

/-- `receive_cb`, where `rest` is what lies behind the offset of the file: the number of bytes read
and the lines delivered, each with its terminator. -/
def receiveCb (mal : Malloc) (flags : ℕ) (lr : TeoLogReaderClass) (rest : List UInt8) :
    Option (TeoLogReaderClass × ℕ × List CString) :=
  (readBuffer mal lr.buffer 0 rest).bind fun r =>
    let lr := { lr with buffer := r.1 }
    if r.2 ≠ 0 then (receiveLoop mal flags lr r.2 0).map fun q => (q.1, r.2, q.2)
    else some (lr, r.2, [])

/-! ### What one call delivers -/

/-- A line as it is delivered: without carriage returns. -/
def lineText (line : List UInt8) : List UInt8 := line.filter (· ≠ 13)

/-- The lines that come of the bytes of one read. -/
def readLines (flags : ℕ) (rest : List UInt8) : List CString :=
  ((lines 10 rest).map fun line => CString.ofBuf (lineText line)).filter fun line =>
    !skips flags line.bytes

/-- The length of each line fits into an `int`. -/
def LinesFit (rest : List UInt8) : Prop := ∀ line ∈ lines 10 rest, (lineText line).length < 2 ^ 31

instance LinesFit.decidable (rest : List UInt8) : Decidable (LinesFit rest) :=
  inferInstanceAs (Decidable (∀ line ∈ lines 10 rest, (lineText line).length < 2 ^ 31))

/-- There is room for a character and its terminator. -/
def TeoLogReaderClass.Ready (lr : TeoLogReaderClass) : Prop :=
  lr.lineBuffer = [] ∨ 2 ≤ lr.lineBuffer.length

theorem roomBuffer_eq (mal : Malloc) (a b : List UInt8) :
    ∃ c, roomBuffer mal (a ++ b) a.length = a ++ c ∧ c ≠ [] := by
  unfold roomBuffer
  split_ifs with hempty hroom
  · obtain ⟨rfl, -⟩ := List.append_eq_nil_iff.mp (List.length_eq_zero_iff.mp hempty)
    refine ⟨_, rfl, List.ne_nil_of_length_pos ?_⟩
    rw [mal.length_block]
    decide
  · refine ⟨_, List.append_assoc a b _, List.ne_nil_of_length_pos ?_⟩
    rw [List.length_append, mal.length_block, bufInc]
    omega
  · refine ⟨_, rfl, List.ne_nil_of_length_pos ?_⟩
    rw [List.length_append, bufInc] at hroom
    omega

/-- `readBuffer` reads all there is, behind the bytes it has. -/
theorem readBuffer_eq (mal : Malloc) (a b rest : List UInt8) :
    ∃ tail, readBuffer mal (a ++ b) a.length rest =
      some (a ++ (rest ++ tail), a.length + rest.length) := by
  induction hn : rest.length using Nat.strong_induction_on generalizing a b rest with
  | _ n ih =>
    obtain ⟨c, hc, hpos⟩ := roomBuffer_eq mal a b
    have hlen : (a ++ c).length - a.length = c.length := by
      rw [List.length_append, Nat.add_sub_cancel_left]
    rw [readBuffer, hc, hlen]
    by_cases hrest : rest = []
    · subst hrest
      refine ⟨c, ?_⟩
      simp [← hn]
    · have hfit : (rest.take c.length).length ≤ c.length := List.length_take_le _ _
      have hrd : 0 < (rest.take c.length).length := by
        have h1 := List.length_pos_iff.mpr hrest
        have h2 := List.length_pos_iff.mpr hpos
        rw [List.length_take]
        omega
      obtain ⟨rest', hsplit⟩ := List.take_prefix c.length rest
      generalize rest.take c.length = rd at hfit hrd hsplit ⊢
      subst hsplit
      obtain ⟨tail, htail⟩ := ih rest'.length (by rw [← hn, List.length_append]; omega)
        (a ++ rd) (c.drop rd.length) rest' rfl
      refine ⟨tail, ?_⟩
      rw [if_pos hrd, store_append rfl hfit, Option.bind_some, List.drop_left, ← List.append_assoc,
        ← List.length_append, htail, ← hn, List.length_append, List.length_append]
      simp only [List.append_assoc, Nat.add_assoc]

/-- The buffer keeps room behind the terminator. -/
theorem growLine_eq (mal : Malloc) (txt spare : List UInt8) :
    ∃ spare', spare' ≠ [] ∧
      growLine mal (txt ++ 0 :: spare) txt.length = txt ++ 0 :: spare' := by
  unfold growLine
  split_ifs with h
  · refine ⟨spare ++ mal.block bufInc, ?_, by simp⟩
    have hne : mal.block bufInc ≠ [] := List.ne_nil_of_length_pos (by rw [mal.length_block]; decide)
    simp [hne]
  · refine ⟨spare, ?_, rfl⟩
    rintro rfl
    simp at h

/-- One character goes behind the characters that the line buffer has. -/
theorem storeChar_eq (mal : Malloc) (txt : List UInt8) (ch : UInt8) {spare : List UInt8}
    (hspare : spare ≠ []) :
    ∃ spare', spare' ≠ [] ∧ ∃ buf₁ buf₂, store (txt ++ 0 :: spare) txt.length [ch] = some buf₁ ∧
      store buf₁ (txt.length + 1) [0] = some buf₂ ∧
      growLine mal buf₂ (txt.length + 1) = (txt ++ [ch]) ++ 0 :: spare' := by
  obtain ⟨s, spare, rfl⟩ := List.exists_cons_of_ne_nil hspare
  obtain ⟨spare', hne, hgrow⟩ := growLine_eq mal (txt ++ [ch]) spare
  have hlen : (txt ++ [ch]).length = txt.length + 1 := by simp
  have hstore : store (txt ++ 0 :: s :: spare) txt.length [ch] =
      some ((txt ++ [ch]) ++ s :: spare) := by
    rw [store_append rfl (by simp)]
    simp
  refine ⟨spare', hne, _, _, hstore, store_append hlen (by simp), ?_⟩
  rw [hlen] at hgrow
  exact hgrow

/-- The rest of a line goes behind the characters that the line buffer has. -/
theorem readLineLoop_eq (mal : Malloc) (tail rest pre txt spare : List UInt8) (hspare : spare ≠ [])
    (htxt : txt.length < 2 ^ 31) :
    ∃ spare', spare' ≠ [] ∧
      readLineLoop mal (pre ++ (rest ++ tail)) (pre.length + rest.length) (txt ++ 0 :: spare)
        txt.length pre.length =
      if txt.length + (lineText (firstLine 10 rest)).length < 2 ^ 31 then
        some (txt ++ (lineText (firstLine 10 rest) ++ 0 :: spare'),
          pre.length + rest.length - (afterFirst 10 rest).length)
      else none := by
  induction rest generalizing pre txt spare with
  | nil =>
    refine ⟨spare, hspare, ?_⟩
    rw [readLineLoop, if_neg (by simp), if_pos (by simpa [firstLine, lineText] using htxt)]
    rfl
  | cons ch rest ih =>
    have hbyte : byteAt (pre ++ (ch :: rest ++ tail)) pre.length = some ch := by simp [byteAt]
    have hpre : pre ++ (ch :: rest ++ tail) = (pre ++ [ch]) ++ (rest ++ tail) := by simp
    have hlen : pre.length + (ch :: rest).length = (pre ++ [ch]).length + rest.length := by
      simp only [List.length_append, List.length_cons, List.length_nil]
      omega
    have hnext : pre.length + 1 = (pre ++ [ch]).length := by simp
    rw [readLineLoop, if_pos (by simp), hbyte, Option.bind_some, hnext, hpre, hlen]
    by_cases hlf : ch = 10
    · subst hlf
      refine ⟨spare, hspare, ?_⟩
      rw [if_neg (by decide), if_neg (by simp), if_pos (by simpa [firstLine, lineText] using htxt)]
      simp [firstLine, afterFirst, lineText]
    have hfirst : firstLine 10 (ch :: rest) = ch :: firstLine 10 rest := firstLine_cons_of_ne hlf
    have hafter : afterFirst 10 (ch :: rest) = afterFirst 10 rest := afterFirst_cons_of_ne hlf
    rw [hfirst, hafter]
    by_cases hcr : ch = 13
    · rw [if_pos hcr]
      have htext : lineText (ch :: firstLine 10 rest) = lineText (firstLine 10 rest) :=
        List.filter_cons_of_neg (by simp [hcr])
      rw [htext]
      exact ih (pre ++ [ch]) txt spare hspare htxt
    · have htext : lineText (ch :: firstLine 10 rest) = ch :: lineText (firstLine 10 rest) :=
        List.filter_cons_of_pos (by simp [hcr])
      rw [if_neg hcr, if_pos hlf, htext, List.length_cons]
      by_cases hmax : txt.length = 2 ^ 31 - 1
      · refine ⟨spare, hspare, ?_⟩
        rw [if_pos hmax, if_neg (by omega)]
      · obtain ⟨spare', hne, buf₁, buf₂, hstore, hnul, hgrow⟩ := storeChar_eq mal txt ch hspare
        have htxt' : (txt ++ [ch]).length = txt.length + 1 := by simp
        obtain ⟨spare'', hne', hloop⟩ := ih (pre ++ [ch]) (txt ++ [ch]) spare' hne (by omega)
        refine ⟨spare'', hne', ?_⟩
        rw [if_neg hmax, hstore, Option.bind_some, hnul, Option.bind_some, hgrow, ← htxt', hloop,
          htxt', Nat.add_assoc, Nat.add_comm 1]
        simp only [List.append_assoc, List.cons_append, List.nil_append]

/-- **One line**: `readLineBuffer` reads the first line of the bytes that are left. -/
theorem readLineBuffer_eq (mal : Malloc) {lr : TeoLogReaderClass} (hlr : lr.Ready)
    {pre rest tail : List UInt8} (hbuf : lr.buffer = pre ++ (rest ++ tail)) :
    ∃ lr' : TeoLogReaderClass, lr'.Ready ∧ lr'.buffer = lr.buffer ∧
      strAt lr'.lineBuffer 0 = some (CString.ofBuf (lineText (firstLine 10 rest))) ∧
      readLineBuffer mal lr pre.length (pre.length + rest.length) =
        if (lineText (firstLine 10 rest)).length < 2 ^ 31 then
          some (lr', pre.length + rest.length - (afterFirst 10 rest).length)
        else none := by
  have hroom : 2 ≤ (if lr.lineBuffer.length = 0 then mal.block bufInc
      else lr.lineBuffer).length := by
    split_ifs with hnull
    · rw [mal.length_block]
      decide
    · exact hlr.resolve_left fun h => hnull (by rw [h]; rfl)
  obtain ⟨b, spare, hline⟩ :=
    List.exists_cons_of_length_pos (Nat.lt_of_lt_of_le Nat.zero_lt_two hroom)
  have hspare : spare ≠ [] := by
    rintro rfl
    rw [hline] at hroom
    exact absurd hroom (by simp)
  obtain ⟨spare', hne, hloop⟩ := readLineLoop_eq mal tail rest pre [] spare hspare (by decide)
  refine ⟨{ lr with lineBuffer := lineText (firstLine 10 rest) ++ 0 :: spare' }, ?_, rfl, ?_, ?_⟩
  · right
    have := List.length_pos_iff.mpr hne
    simp only [List.length_append, List.length_cons]
    omega
  · rw [strAt, List.drop_zero, if_pos (by simp), CString.ofBuf_append_nul]
  · rw [readLineBuffer, hline, store_zero (by simp), Option.bind_some, hbuf]
    refine (congrArg _ hloop).trans ?_
    rw [List.length_nil, Nat.zero_add]
    split_ifs <;> rfl

theorem linesFit_iff {rest : List UInt8} (h : rest ≠ []) :
    LinesFit rest ↔
      (lineText (firstLine 10 rest)).length < 2 ^ 31 ∧ LinesFit (afterFirst 10 rest) := by
  unfold LinesFit
  rw [lines_eq_cons 10 h]
  exact List.forall_mem_cons

theorem readLines_eq {flags : ℕ} {rest : List UInt8} (h : rest ≠ []) :
    readLines flags rest =
      (if skips flags (CString.ofBuf (lineText (firstLine 10 rest))).bytes then []
        else [CString.ofBuf (lineText (firstLine 10 rest))]) ++
      readLines flags (afterFirst 10 rest) := by
  unfold readLines
  rw [lines_eq_cons 10 h, List.map_cons, List.filter_cons]
  cases skips flags (CString.ofBuf (lineText (firstLine 10 rest))).bytes <;> simp

theorem receiveLoop_of_none {mal : Malloc} {flags dataLength ptr : ℕ} {lr : TeoLogReaderClass}
    (h : readLineBuffer mal lr ptr dataLength = none) :
    receiveLoop mal flags lr dataLength ptr = none := by
  rw [receiveLoop]
  split
  · rfl
  · next heq => exact absurd (h.symm.trans heq) (by simp)

theorem receiveLoop_of_some {mal : Malloc} {flags dataLength ptr ptr' : ℕ}
    {lr lr' : TeoLogReaderClass} {line : CString}
    (h : readLineBuffer mal lr ptr dataLength = some (lr', ptr'))
    (hline : strAt lr'.lineBuffer 0 = some line) :
    receiveLoop mal flags lr dataLength ptr =
      if ptr' < dataLength then
        (receiveLoop mal flags lr' dataLength ptr').map fun r =>
          (r.1, (if skips flags line.bytes then [] else [line]) ++ r.2)
      else some (lr', if skips flags line.bytes then [] else [line]) := by
  rw [receiveLoop]
  split
  · next heq => exact absurd (h.symm.trans heq) (by simp)
  · next heq =>
    obtain ⟨rfl, rfl⟩ := Prod.mk.inj (Option.some.inj (h.symm.trans heq))
    rw [hline]
    rfl

/-- **The loop of `receive_cb`** delivers the lines of the bytes that are left. -/
theorem receiveLoop_eq (mal : Malloc) (flags : ℕ) {lr : TeoLogReaderClass} (hlr : lr.Ready)
    {pre rest tail : List UInt8} (hbuf : lr.buffer = pre ++ (rest ++ tail)) (hrest : rest ≠ []) :
    ∃ lr' : TeoLogReaderClass, lr'.Ready ∧
      (LinesFit rest → receiveLoop mal flags lr (pre.length + rest.length) pre.length =
        some (lr', readLines flags rest)) ∧
      (¬ LinesFit rest →
        receiveLoop mal flags lr (pre.length + rest.length) pre.length = none) := by
  induction hn : rest.length using Nat.strong_induction_on generalizing lr pre rest with
  | _ n ih =>
    obtain ⟨lr', hready, hbuf', hline, hread⟩ := readLineBuffer_eq mal hlr hbuf
    rw [linesFit_iff hrest, readLines_eq hrest, ← hn]
    by_cases hfit : (lineText (firstLine 10 rest)).length < 2 ^ 31
    · rw [if_pos hfit] at hread
      rw [receiveLoop_of_some hread hline, and_iff_right hfit]
      obtain ⟨done, hdone⟩ := afterFirst_suffix 10 rest
      have hlen : rest.length = done.length + (afterFirst 10 rest).length := by
        rw [← List.length_append, hdone]
      have hptr : pre.length + rest.length - (afterFirst 10 rest).length =
          (pre ++ done).length := by
        rw [List.length_append]
        omega
      have htotal : pre.length + rest.length =
          (pre ++ done).length + (afterFirst 10 rest).length := by
        rw [List.length_append]
        omega
      rw [hptr, htotal]
      by_cases hmore : afterFirst 10 rest = []
      · refine ⟨lr', hready, fun _ => ?_, fun h => absurd ?_ h⟩
        · rw [if_neg (by rw [hmore]; simp), hmore]
          simp [readLines]
        · rw [hmore]
          exact fun line h => absurd h List.not_mem_nil
      · have hbuf'' : lr'.buffer = (pre ++ done) ++ (afterFirst 10 rest ++ tail) := by
          calc lr'.buffer = pre ++ (rest ++ tail) := hbuf'.trans hbuf
            _ = pre ++ ((done ++ afterFirst 10 rest) ++ tail) := by rw [hdone]
            _ = _ := by simp only [List.append_assoc]
        obtain ⟨lr'', hready'', hok, hnone⟩ := ih (afterFirst 10 rest).length
          (by rw [← hn]; exact length_afterFirst_lt hrest) hready hbuf'' hmore rfl
        rw [if_pos (Nat.lt_add_of_pos_right (List.length_pos_iff.mpr hmore))]
        refine ⟨lr'', hready'', fun h => ?_, fun h => ?_⟩
        · rw [hok h]
          rfl
        · rw [hnone h]
          rfl
    · rw [if_neg hfit] at hread
      rw [receiveLoop_of_none hread]
      exact ⟨lr, hlr, fun h => absurd h.1 hfit, fun _ => rfl⟩

/-- **One call**: `receive_cb` delivers the lines of the bytes it reads; only a line that is too
long for an `int` stops it. -/
theorem receiveCb_eq (mal : Malloc) (flags : ℕ) {lr : TeoLogReaderClass} (hlr : lr.Ready)
    (rest : List UInt8) :
    ∃ lr' : TeoLogReaderClass, lr'.Ready ∧
      (LinesFit rest → receiveCb mal flags lr rest =
        some (lr', rest.length, readLines flags rest)) ∧
      (¬ LinesFit rest → receiveCb mal flags lr rest = none) := by
  obtain ⟨tail, hbuf⟩ := readBuffer_eq mal [] lr.buffer rest
  rw [List.nil_append, List.nil_append, List.length_nil, Nat.zero_add] at hbuf
  unfold receiveCb
  rw [hbuf, Option.bind_some]
  dsimp only
  by_cases hrest : rest = []
  · subst hrest
    exact ⟨{ lr with buffer := tail }, hlr, fun _ => rfl,
      fun h => absurd (fun line h => absurd h List.not_mem_nil) h⟩
  · rw [if_pos (by simpa using hrest)]
    have hread : ({ lr with buffer := rest ++ tail } : TeoLogReaderClass).buffer =
        [] ++ (rest ++ tail) := rfl
    have hlr' : ({ lr with buffer := rest ++ tail } : TeoLogReaderClass).Ready := hlr
    obtain ⟨lr', hready, hok, hnone⟩ := receiveLoop_eq mal flags hlr' hread hrest
    rw [List.length_nil, Nat.zero_add] at hok hnone
    exact ⟨lr', hready, fun h => by rw [hok h]; rfl, fun h => by rw [hnone h]; rfl⟩

/-! ### Runs -/

/-- A watcher and its file.  `before` is what lay in front of the place where the watcher began,
`seen` what it has read since, and `rest` what lies behind the offset of the file. -/
structure LogState where
  lr : TeoLogReaderClass
  before : List UInt8 := []
  seen : List UInt8 := []
  rest : List UInt8 := []
  delivered : List CString := []

/-- The file grows, the watcher is called, or another watcher of the class reads something. -/
inductive LogEvent
  | append (data : List UInt8)
  | receive
  | other (flags : ℕ) (data : List UInt8)

/-- One event; an error is an access outside a buffer, or an `int` that is too small. -/
def logStep (mal : Malloc) (flags : ℕ) (s : LogState) : LogEvent → Except Unit LogState
  | .append data => .ok { s with rest := s.rest ++ data }
  | .receive =>
    match receiveCb mal flags s.lr s.rest with
    | none => .error ()
    | some (lr, n, delivered) =>
      .ok { s with
        lr := lr
        seen := s.seen ++ s.rest.take n
        rest := s.rest.drop n
        delivered := s.delivered ++ delivered }
  | .other flags data =>
    match receiveCb mal flags s.lr data with
    | none => .error ()
    | some (lr, _) => .ok { s with lr := lr }

/-- `teoLogReaderOpen`: the watcher goes to the end of the file, or reads it. -/
def teoLogReaderOpen (mal : Malloc) (flags : ℕ) (lr : TeoLogReaderClass) (content : List UInt8) :
    Except Unit LogState :=
  if flags &&& readFromEnd ≠ 0 then .ok { lr := lr, before := content }
  else logStep mal flags { lr := lr, rest := content } .receive

/-- The lines of a content: without carriage returns, and without empty lines if the watcher skips
them. -/
def logLines (flags : ℕ) (content : List UInt8) : List (List UInt8) :=
  texts (fun b => b ≠ 13) (fun line => !skips flags line) 10 content

/-- The lines delivered are the lines of what has been read. -/
def DeliversLines (flags : ℕ) (s : LogState) : Prop :=
  s.delivered.map CString.bytes = logLines flags s.seen

/-- The condition on a read: its bytes have no terminator and no line that is too long, and the cut
in front of them is not inside a line. -/
def ReadsWhole (flags : ℕ) (s : LogState) : LogEvent → Prop
  | .append _ => True
  | .receive => 0 ∉ s.rest ∧ LinesFit s.rest ∧
      ¬ Cut (fun b => b ≠ 13) (fun line => !skips flags line) 10 s.seen s.rest
  | .other _ data => LinesFit data

instance (flags : ℕ) (s : LogState) (e : LogEvent) : Decidable (ReadsWhole flags s e) := by
  cases e <;> unfold ReadsWhole <;> infer_instance

theorem keeps_skips (flags : ℕ) : Keeps fun line => !skips flags line where
  append x y := by
    unfold skips
    cases decide (flags &&& skipEmpty ≠ 0) <;> cases x <;> simp
  eq_nil x h := by
    unfold skips at h
    cases x with
    | nil => rfl
    | cons b x => simp at h

theorem mem_logLines_zero (flags : ℕ) {content : List UInt8} (h : 0 ∈ content) :
    ∃ line ∈ logLines flags content, 0 ∈ line := by
  have hmem : 0 ∈ (lines 10 content).flatten := by
    rw [flatten_lines]
    exact List.mem_filter.mpr ⟨h, by decide⟩
  obtain ⟨line, hline, hzero⟩ := List.mem_flatten.mp hmem
  have hzero' : 0 ∈ lineText line := List.mem_filter.mpr ⟨hzero, by decide⟩
  refine ⟨lineText line, List.mem_filter.mpr ⟨List.mem_map_of_mem hline, ?_⟩, hzero'⟩
  cases hskip : skips flags (lineText line) with
  | false => rfl
  | true =>
    have hnil := (keeps_skips flags).eq_nil (lineText line) (by simp [hskip])
    rw [hnil] at hzero'
    exact absurd hzero' List.not_mem_nil

/-- Without a terminator in it, what is read is delivered whole. -/
theorem readLines_bytes {flags : ℕ} {rest : List UInt8} (h : 0 ∉ rest) :
    (readLines flags rest).map CString.bytes = logLines flags rest := by
  have hbytes : ∀ line ∈ lines 10 rest, (CString.ofBuf (lineText line)).bytes = lineText line := by
    intro line hline
    have hnul : 0 ∉ lineText line := by
      intro hzero
      have hmem : 0 ∈ (lines 10 rest).flatten :=
        List.mem_flatten.mpr ⟨line, hline, (List.mem_filter.mp hzero).1⟩
      rw [flatten_lines] at hmem
      exact h (List.mem_filter.mp hmem).1
    exact CString.bytes_ofBuf hnul
  have hsame : ∀ line ∈ lines 10 rest,
      (!skips flags (CString.ofBuf (lineText line)).bytes) = !skips flags (lineText line) :=
    fun line hline => by rw [hbytes line hline]
  unfold readLines logLines texts
  rw [List.filter_map, List.map_map, List.filter_map]
  refine (congrArg (List.map _) (List.filter_congr hsame)).trans (List.map_congr_left ?_)
  intro line hline
  exact hbytes line (List.mem_filter.mp hline).1

/-- The state after a read. -/
def LogState.received (flags : ℕ) (s : LogState) (lr : TeoLogReaderClass) : LogState :=
  { s with
    lr := lr
    seen := s.seen ++ s.rest
    rest := []
    delivered := s.delivered ++ readLines flags s.rest }

/-- What a step does. -/
theorem logStep_cases {mal : Malloc} {flags : ℕ} {s t : LogState} {e : LogEvent} (hs : s.lr.Ready)
    (h : logStep mal flags s e = .ok t) :
    (∃ data, e = .append data ∧ t = { s with rest := s.rest ++ data }) ∨
      (∃ lr : TeoLogReaderClass, lr.Ready ∧ e = .receive ∧ LinesFit s.rest ∧
        t = s.received flags lr) ∨
      ∃ (flags' : ℕ) (data : List UInt8) (lr : TeoLogReaderClass), lr.Ready ∧
        e = .other flags' data ∧ LinesFit data ∧ t = { s with lr := lr } := by
  cases e with
  | append data => exact .inl ⟨data, rfl, (Except.ok.inj h).symm⟩
  | receive =>
    obtain ⟨lr', hready, hok, hnone⟩ := receiveCb_eq mal flags hs s.rest
    by_cases hfit : LinesFit s.rest
    · rw [logStep, hok hfit] at h
      refine .inr (.inl ⟨lr', hready, rfl, hfit, (Except.ok.inj h).symm.trans ?_⟩)
      simp [LogState.received]
    · rw [logStep, hnone hfit] at h
      cases h
  | other flags' data =>
    obtain ⟨lr', hready, hok, hnone⟩ := receiveCb_eq mal flags' hs data
    by_cases hfit : LinesFit data
    · rw [logStep, hok hfit] at h
      exact .inr (.inr ⟨flags', data, lr', hready, rfl, hfit, (Except.ok.inj h).symm⟩)
    · rw [logStep, hnone hfit] at h
      cases h

/-- A step that meets the condition succeeds. -/
theorem logStep_ok (mal : Malloc) {flags : ℕ} {s : LogState} {e : LogEvent} (hs : s.lr.Ready)
    (hguard : ReadsWhole flags s e) : ∃ t, logStep mal flags s e = .ok t := by
  cases e with
  | append data => exact ⟨_, rfl⟩
  | receive =>
    obtain ⟨lr', -, hok, -⟩ := receiveCb_eq mal flags hs s.rest
    rw [logStep, hok hguard.2.1]
    exact ⟨_, rfl⟩
  | other flags' data =>
    obtain ⟨lr', -, hok, -⟩ := receiveCb_eq mal flags' hs data
    rw [logStep, hok hguard]
    exact ⟨_, rfl⟩

theorem logStep_ready {mal : Malloc} {flags : ℕ} {s t : LogState} {e : LogEvent} (hs : s.lr.Ready)
    (h : logStep mal flags s e = .ok t) : t.lr.Ready := by
  obtain ⟨data, -, rfl⟩ | ⟨lr, hready, -, -, rfl⟩ | ⟨flags', data, lr, hready, -, -, rfl⟩ :=
    logStep_cases hs h
  · exact hs
  · exact hready
  · exact hready

/-- A read that meets the condition delivers the lines that the file has grown by. -/
theorem DeliversLines.received {flags : ℕ} {s : LogState} (h : DeliversLines flags s)
    (hguard : ReadsWhole flags s .receive) (lr : TeoLogReaderClass) :
    DeliversLines flags (s.received flags lr) := by
  obtain ⟨hnul, -, hcut⟩ := hguard
  unfold DeliversLines LogState.received
  rw [List.map_append, readLines_bytes hnul, h]
  exact (texts_append (keeps_skips flags) hcut).symm

/-- More lines have been delivered than there are, or a terminator has been read. -/
def Overdelivers (flags : ℕ) (s : LogState) : Prop :=
  0 ∈ s.seen ∨ (logLines flags s.seen).length < s.delivered.length

theorem Overdelivers.not_deliversLines {flags : ℕ} {s : LogState} (h : Overdelivers flags s) :
    ¬ DeliversLines flags s := by
  intro hdel
  rcases h with hnul | hmore
  · obtain ⟨line, hline, hzero⟩ := mem_logLines_zero flags hnul
    rw [← hdel] at hline
    obtain ⟨text, -, rfl⟩ := List.mem_map.mp hline
    exact text.noNul hzero
  · rw [← hdel, List.length_map] at hmore
    exact absurd hmore (Nat.lt_irrefl _)

theorem length_received_delivered {flags : ℕ} {s : LogState} (h : 0 ∉ s.rest)
    (lr : TeoLogReaderClass) : (s.received flags lr).delivered.length =
      s.delivered.length + (logLines flags s.rest).length := by
  rw [← readLines_bytes h, List.length_map]
  exact List.length_append

/-- No later read makes up for it. -/
theorem Overdelivers.received {flags : ℕ} {s : LogState} (h : Overdelivers flags s)
    (lr : TeoLogReaderClass) : Overdelivers flags (s.received flags lr) := by
  by_cases hrest : 0 ∈ s.rest
  · exact .inl (List.mem_append_right _ hrest)
  rcases h with hnul | hmore
  · exact .inl (List.mem_append_left _ hnul)
  · right
    rw [length_received_delivered hrest]
    exact Nat.lt_of_le_of_lt
      (length_texts_append_le (keeps_skips flags) (fun b => b ≠ 13) 10 s.seen s.rest)
      (Nat.add_lt_add_right hmore _)

/-- A read that does not meet the condition delivers too much. -/
theorem Overdelivers.of_received {flags : ℕ} {s : LogState} (h : DeliversLines flags s)
    (hfit : LinesFit s.rest) (hguard : ¬ ReadsWhole flags s .receive) (lr : TeoLogReaderClass) :
    Overdelivers flags (s.received flags lr) := by
  by_cases hrest : 0 ∈ s.rest
  · exact .inl (List.mem_append_right _ hrest)
  · right
    have hcut : Cut (fun b => b ≠ 13) (fun line => !skips flags line) 10 s.seen s.rest := by
      by_contra hcut
      exact hguard ⟨hrest, hfit, hcut⟩
    have hlen := length_texts_append (keeps_skips flags) hcut
    have hdone : s.delivered.length = (logLines flags s.seen).length := by
      rw [← h, List.length_map]
    rw [length_received_delivered hrest, hdone]
    change (texts _ _ 10 (s.seen ++ s.rest)).length <
      (texts _ _ 10 s.seen).length + (texts _ _ 10 s.rest).length
    omega

/-- A run delivers the lines of what it has read exactly when all its reads meet the condition. -/
theorem logRun_deliversLines_iff (mal : Malloc) (flags : ℕ) {s : LogState} (hs : s.lr.Ready)
    (hdel : DeliversLines flags s) (events : List LogEvent) :
    (∃ t, events.foldlM (logStep mal flags) s = .ok t ∧ DeliversLines flags t) ↔
      Meets (ReadsWhole flags) (logStep mal flags) s events := by
  rw [← foldlM_good_iff_meets (fun s => s.lr.Ready ∧ DeliversLines flags s)
    (fun s => s.lr.Ready ∧ Overdelivers flags s) ?_ ?_ ?_ ?_ ⟨hs, hdel⟩]
  · refine exists_congr fun t => and_congr_right fun hrun => (and_iff_right ?_).symm
    exact foldlM_inv (fun _ s => s.lr.Ready) (fun _ _ _ _ => logStep_ready) hrun hs
  · rintro s e ⟨hs, hdel⟩ hguard
    obtain ⟨t, ht⟩ := logStep_ok mal hs hguard
    refine ⟨t, ht, logStep_ready hs ht, ?_⟩
    obtain ⟨data, rfl, rfl⟩ | ⟨lr, -, rfl, -, rfl⟩ | ⟨flags', data, lr, -, rfl, -, rfl⟩ :=
      logStep_cases hs ht
    · exact hdel
    · exact hdel.received hguard lr
    · exact hdel
  · rintro s e t ⟨hs, hdel⟩ hguard ht
    refine ⟨logStep_ready hs ht, ?_⟩
    obtain ⟨data, rfl, rfl⟩ | ⟨lr, -, rfl, hfit, rfl⟩ | ⟨flags', data, lr, -, rfl, hfit, rfl⟩ :=
      logStep_cases hs ht
    · exact absurd trivial hguard
    · exact .of_received hdel hfit hguard lr
    · exact absurd hfit hguard
  · rintro s e t ⟨hs, hover⟩ ht
    refine ⟨logStep_ready hs ht, ?_⟩
    obtain ⟨data, rfl, rfl⟩ | ⟨lr, -, rfl, -, rfl⟩ | ⟨flags', data, lr, -, rfl, -, rfl⟩ :=
      logStep_cases hs ht
    · exact hover
    · exact hover.received lr
    · exact hover
  · rintro s ⟨-, hover⟩ ⟨-, hdel⟩
    exact hover.not_deliversLines hdel

/-- The watcher before its first read. -/
def logStart (flags : ℕ) (lr : TeoLogReaderClass) (content : List UInt8) : LogState :=
  if flags &&& readFromEnd ≠ 0 then { lr := lr, before := content }
  else { lr := lr, rest := content }

/-- The read that opening the watcher makes. -/
def openReads (flags : ℕ) : List LogEvent :=
  if flags &&& readFromEnd ≠ 0 then [] else [.receive]

/-- **The lines of a log file**: from the opening of a watcher on, whatever the file holds, the
lines delivered are those of what has been read, each once and whole, exactly in the runs whose
reads all meet the condition. -/
theorem teoLogReader_delivers_iff (mal : Malloc) (flags : ℕ) {lr : TeoLogReaderClass}
    (hlr : lr.Ready) (content : List UInt8) (events : List LogEvent) :
    (∃ s t, teoLogReaderOpen mal flags lr content = .ok s ∧
      events.foldlM (logStep mal flags) s = .ok t ∧ DeliversLines flags t) ↔
      Meets (ReadsWhole flags) (logStep mal flags) (logStart flags lr content)
        (openReads flags ++ events) := by
  have hready : (logStart flags lr content).lr.Ready := by
    unfold logStart
    split_ifs <;> exact hlr
  have hstart : DeliversLines flags (logStart flags lr content) := by
    unfold logStart
    split_ifs <;> rfl
  have hopen : teoLogReaderOpen mal flags lr content =
      (openReads flags).foldlM (logStep mal flags) (logStart flags lr content) := by
    unfold teoLogReaderOpen openReads logStart
    split_ifs with hend
    · rfl
    · rw [List.foldlM_cons]
      cases logStep mal flags { lr := lr, rest := content } .receive <;> rfl
  rw [← logRun_deliversLines_iff mal flags hready hstart, List.foldlM_append, ← hopen]
  cases teoLogReaderOpen mal flags lr content with
  | error e => exact iff_of_false (by simp) (by rintro ⟨t, h, -⟩; cases h)
  | ok s =>
    exact ⟨fun ⟨_, t, h, hrun⟩ => ⟨t, Except.ok.inj h ▸ hrun⟩, fun ⟨t, hrun⟩ => ⟨s, t, rfl, hrun⟩⟩

/-- A file with one line, to which another one is written. -/
theorem teoLogReader_delivers_appended :
    ∃ s t, teoLogReaderOpen .clear 0 {} [97, 10] = .ok s ∧
      [.append [98, 10], .receive].foldlM (logStep .clear 0) s = .ok t ∧ DeliversLines 0 t := by
  refine (teoLogReader_delivers_iff .clear 0 (.inl rfl) [97, 10] [.append [98, 10], .receive]).mpr ?_
  decide +kernel

/-- A line that is read before all of it has been written is delivered in two parts. -/
theorem not_deliversLines :
    ¬ ∃ s t, teoLogReaderOpen .clear 0 {} [97] = .ok s ∧
      [.append [98, 10], .receive].foldlM (logStep .clear 0) s = .ok t ∧
      DeliversLines 0 t := by
  rintro ⟨s, t, hopen, hrun⟩
  have hready : ({} : TeoLogReaderClass).Ready := .inl rfl
  have hstep : logStep .clear 0 { lr := {}, rest := [97] } .receive = .ok s := hopen
  obtain ⟨data, he, -⟩ | ⟨lr, hlr, -, -, rfl⟩ | ⟨flags', data, lr, -, he, -⟩ :=
    logStep_cases hready hstep
  · cases he
  · have hdel : DeliversLines 0 (LogState.received 0 { lr := {}, rest := [97] } lr) := rfl
    have hmeets := (logRun_deliversLines_iff .clear 0 hlr hdel _).mp ⟨t, hrun⟩
    have hcut : Cut (fun b : UInt8 => b ≠ 13) (fun line => !skips 0 line) 10 [97] [98, 10] := by
      decide
    exact (hmeets.2 _ rfl).1.2.2 hcut
  · cases he

end Teonet
