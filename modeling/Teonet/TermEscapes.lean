import Mathlib.Algebra.Group.Int.Defs
import Mathlib.Algebra.Group.Nat.Defs
import Mathlib.Data.List.Induction
import Teonet.Lib.Block
import Teonet.Lib.Sections

/-! # Terminal escapes (`utils.c`)

Before a message goes into the system log, `removeTEsc` takes the colours out of it and `trimlf` the
line ends behind it, both in the memory of the string.  The loop of `removeTEsc` writes what `kept`
keeps (`removeTEscLoop_eq`).  It goes on to the terminator of the string, but copies it only outside
of an escape sequence, so behind a sequence without an end the rest of the old string follows.

`strips_iff` says for which strings the colours and the line ends are gone. -/

namespace Teonet

open Block Sections

/-! ### The code -/

/-- One turn of the loop of `removeTEsc`: the string, `j` and `skip_esc` behind it. -/
def removeTEscTurn (str : List UInt8) (i j : ℕ) (skipEsc : Bool) : Option (List UInt8 × ℕ × Bool) :=
  (byteAt str i).bind fun c =>
    if skipEsc ∧ c = 109 then some (str, j, false)
    else if ¬skipEsc ∧ c = 27 then some (str, j, true)
    else if ¬skipEsc then (store str j [c]).map fun str => (str, j + 1, skipEsc)
    else some (str, j, skipEsc)

/-- The loop of `removeTEsc`; `i` is an `int`. -/
def removeTEscLoop (len : ℤ) (str : List UInt8) (i j : ℕ) (skipEsc : Bool) : Option (List UInt8) :=
  if (i : ℤ) ≤ len then
    (removeTEscTurn str i j skipEsc).bind fun r =>
      if i = 2 ^ 31 - 1 then none else removeTEscLoop len r.1 (i + 1) r.2.1 r.2.2
  else some str
termination_by (len + 1 - i).toNat

/-- `removeTEsc`, on the memory from the string on. -/
def removeTEsc (conv : IntConv) (str : List UInt8) : Option (List UInt8) :=
  (strAt str 0).bind fun s => removeTEscLoop (conv.toInt s.length) str 0 0 false

/-- A line feed or a carriage return. -/
def isLineEnd (c : UInt8) : Bool := c = 10 || c = 13

/-- The loop of `trimlf`. -/
def trimlfLoop (str : List UInt8) : ℕ → Option (List UInt8)
  | 0 => some str
  | len + 1 =>
    (byteAt str len).bind fun c =>
      if isLineEnd c then (store str len [0]).bind fun str => trimlfLoop str len else some str

/-- `trimlf`.  With a negative length it reads before the string. -/
def trimlf (conv : IntConv) (str : List UInt8) : Option (List UInt8) :=
  (strAt str 0).bind fun s =>
    match conv.toInt s.length with
    | .ofNat len => trimlfLoop str len
    | .negSucc _ => none

/-- Whatever lies behind the string, and whatever a too long length becomes: the string is left
without its escape sequences and without line ends behind it. -/
def Strips (s : CString) : Prop :=
  ∀ (conv : IntConv) (rest : List UInt8), ∃ str t,
    (removeTEsc conv (s.toBuf ++ rest)).bind (trimlf conv) = some str ∧ strAt str 0 = some t ∧
      t.length ≤ s.length ∧ t.bytes = (cut 27 109 s.bytes).rdropWhile isLineEnd ∧ 27 ∉ t.bytes

/-! ### The escapes -/

/-- What one turn keeps. -/
def keptByte (skipEsc : Bool) (c : UInt8) : List UInt8 :=
  if skipEsc = false ∧ c ≠ 27 then [c] else []

theorem kept_cons (skipEsc : Bool) (c : UInt8) (w : List UInt8) :
    kept 27 109 skipEsc (c :: w) =
      keptByte skipEsc c ++ kept 27 109 (next 27 109 skipEsc c) w := by
  rw [kept, keptByte]
  split_ifs <;> rfl

theorem length_keptByte_le (skipEsc : Bool) (c : UInt8) : (keptByte skipEsc c).length ≤ 1 := by
  unfold keptByte
  split_ifs <;> simp

/-- A turn stores what it keeps. -/
theorem removeTEscTurn_eq {str : List UInt8} {i j : ℕ} {c : UInt8} (hc : byteAt str i = some c)
    (hji : j ≤ i) (skipEsc : Bool) :
    removeTEscTurn str i j skipEsc =
      (store str j (keptByte skipEsc c)).map fun str =>
        (str, j + (keptByte skipEsc c).length, next 27 109 skipEsc c) := by
  have hi : i < str.length := (List.getElem?_eq_some_iff.mp hc).1
  have hnil : store str j [] = some str := store_nil (by omega)
  rw [removeTEscTurn, hc, Option.bind_some, keptByte, next]
  cases skipEsc with
  | true =>
    by_cases hm : c = 109
    · simp [hm, hnil]
    · simp [hm, hnil]
  | false =>
    by_cases hesc : c = 27
    · simp [hesc, hnil]
    · simp [hesc]

/-- The loop stores what is kept of the bytes up to `len`. -/
theorem removeTEscLoop_eq {len : ℕ} (hlen : len < 2 ^ 31 - 1) (rest : List UInt8) :
    ∀ (w str : List UInt8) (i j : ℕ) (skipEsc : Bool), j ≤ i → i ≤ str.length →
      str.drop i = w ++ rest → i + w.length = len + 1 →
      removeTEscLoop len str i j skipEsc = store str j (kept 27 109 skipEsc w)
  | [], str, i, j, skipEsc, hji, hi, hw, hcount => by
      rw [List.length_nil] at hcount
      rw [removeTEscLoop, if_neg (by omega), kept, store_nil (by omega)]
  | c :: w, str, i, j, skipEsc, hji, hi, hw, hcount => by
      rw [List.length_cons] at hcount
      have hc : byteAt str i = some c := byteAt_of_drop_eq hw
      have hlt : i < str.length := lt_of_drop_eq hw
      have hj : j + (keptByte skipEsc c).length ≤ i + 1 := by
        have := length_keptByte_le skipEsc c
        omega
      obtain ⟨str', hstr'⟩ : ∃ str', store str j (keptByte skipEsc c) = some str' :=
        ⟨_, store_eq (by omega)⟩
      have hdrop : str'.drop (i + 1) = w ++ rest := by
        rw [drop_store hstr' (by omega), drop_succ_eq hw]
        rfl
      rw [removeTEscLoop, if_pos (by omega), removeTEscTurn_eq hc hji, hstr', Option.map_some,
        Option.bind_some, if_neg (by omega), kept_cons, ← store_store hstr']
      apply removeTEscLoop_eq hlen rest w str' (i + 1) _ _ hj _ hdrop (by omega)
      rw [store_length hstr']
      omega

theorem removeTEsc_eq (conv : IntConv) {s : CString} (hlen : s.length < 2 ^ 31 - 1)
    (rest : List UInt8) :
    removeTEsc conv (s.toBuf ++ rest) = store (s.toBuf ++ rest) 0 (kept 27 109 false s.toBuf) := by
  rw [removeTEsc, strAt_of_drop_eq rfl, Option.bind_some, conv.toInt_of_lt (by omega)]
  exact removeTEscLoop_eq hlen rest s.toBuf _ 0 0 false le_rfl (Nat.zero_le _) rfl (by simp)

/-- The string without its escape sequences, if the last one has an end. -/
theorem removeTEsc_of_closed (conv : IntConv) {s : CString} (hlen : s.length < 2 ^ 31 - 1)
    (hs : AllClosed 27 109 s.bytes) (rest : List UInt8) :
    ∃ rest', removeTEsc conv (s.toBuf ++ rest) = some (cut 27 109 s.bytes ++ 0 :: rest') := by
  have hkept : kept 27 109 false s.toBuf = cut 27 109 s.bytes ++ [0] := by
    rw [CString.toBuf, kept_append, (state_eq_false_iff (by decide) _).mpr hs, kept_eq_cut]
    rfl
  have hle : (kept 27 109 false s.toBuf).length ≤ (s.toBuf ++ rest).length := by
    have := length_kept_le (o := 27) (c := 109) false s.toBuf
    rw [List.length_append]
    omega
  rw [removeTEsc_eq conv hlen, store_zero hle, hkept, List.append_assoc]
  exact ⟨_, rfl⟩

/-- Behind an escape sequence without an end the old string is left. -/
theorem removeTEsc_of_open (conv : IntConv) {s : CString} (hlen : s.length < 2 ^ 31 - 1)
    {a b : List UInt8} (hs : s.bytes = a ++ 27 :: b) (hb : 109 ∉ b) (rest : List UInt8) :
    (cut 27 109 s.bytes).length ≤ a.length ∧ removeTEsc conv (s.toBuf ++ rest) =
      some (cut 27 109 s.bytes ++ s.bytes.drop (cut 27 109 s.bytes).length ++ 0 :: rest) := by
  have hnul : 109 ∉ b ++ [0] := by simp [hb]
  have hkept : kept 27 109 false s.toBuf = cut 27 109 s.bytes := by
    rw [← kept_eq_cut, CString.toBuf, hs, List.append_assoc, List.cons_append,
      kept_of_open (by decide) hnul, kept_of_open (by decide) hb]
  have hle : (cut 27 109 s.bytes).length ≤ a.length := by
    rw [← kept_eq_cut, hs, kept_of_open (by decide) hb]
    exact length_kept_le false a
  have hslen : a.length < s.bytes.length := by simp [hs]
  refine ⟨hle, ?_⟩
  rw [removeTEsc_eq conv hlen, hkept, store_zero]
  · rw [CString.toBuf, List.append_assoc, List.drop_append_of_le_length (by omega)]
    simp only [List.append_assoc, List.singleton_append]
  · rw [List.length_append, CString.toBuf_length, CString.length]
    omega

/-! ### The line ends -/

/-- The string before a zero byte. -/
theorem strAt_append_zero {l : List UInt8} (hl : 0 ∉ l) (rest : List UInt8) :
    strAt (l ++ 0 :: rest) 0 = some ⟨l, hl⟩ := by
  have hmem : (l ++ 0 :: rest).drop 0 = CString.toBuf ⟨l, hl⟩ ++ rest := by simp [CString.toBuf]
  exact strAt_of_drop_eq hmem

theorem trimlfLoop_eq (l : List UInt8) (rest : List UInt8) :
    ∃ rest', trimlfLoop (l ++ 0 :: rest) l.length = some (l.rdropWhile isLineEnd ++ 0 :: rest') := by
  induction l using List.reverseRecOn generalizing rest with
  | nil => exact ⟨rest, rfl⟩
  | append_singleton l c ih =>
    have hread : byteAt (l ++ [c] ++ 0 :: rest) l.length = some c := by
      simp [byteAt]
    rw [List.length_append, List.length_singleton, trimlfLoop, hread, Option.bind_some]
    by_cases hc : isLineEnd c
    · have hstore : store (l ++ [c] ++ 0 :: rest) l.length [0] = some (l ++ 0 :: 0 :: rest) := by
        rw [List.append_assoc, store_append rfl (by simp)]
        rfl
      obtain ⟨rest', hrest'⟩ := ih (0 :: rest)
      rw [if_pos hc, hstore, Option.bind_some, hrest', List.rdropWhile_concat_pos _ _ _ hc]
      exact ⟨rest', rfl⟩
    · rw [if_neg hc, List.rdropWhile_concat_neg _ _ _ hc]
      exact ⟨rest, rfl⟩

/-- The string without its line ends. -/
theorem trimlf_eq (conv : IntConv) {l : List UInt8} (hl : 0 ∉ l) (hlen : l.length < 2 ^ 31)
    (rest : List UInt8) :
    ∃ rest', trimlf conv (l ++ 0 :: rest) = some (l.rdropWhile isLineEnd ++ 0 :: rest') := by
  have hstr : strAt (l ++ 0 :: rest) 0 = some ⟨l, hl⟩ := strAt_append_zero hl rest
  have hint : conv.toInt (CString.length ⟨l, hl⟩) = .ofNat l.length := conv.toInt_of_lt hlen
  rw [trimlf, hstr, Option.bind_some, hint]
  exact trimlfLoop_eq l rest

theorem mem_rdropWhile {p : UInt8 → Bool} {c : UInt8} {l : List UInt8} (hc : c ∈ l)
    (hp : p c = false) : c ∈ l.rdropWhile p := by
  rw [List.rdropWhile, List.mem_reverse]
  have h : c ∈ l.reverse.takeWhile p ++ l.reverse.dropWhile p := by simpa using hc
  rcases List.mem_append.mp h with h | h
  · rw [List.mem_takeWhile_imp h] at hp
    cases hp
  · exact h

/-! ### When a string is stripped -/

/-- The string that is left by both functions. -/
theorem strip_eq (conv : IntConv) {l mem rest : List UInt8}
    (hmem : removeTEsc conv mem = some (l ++ 0 :: rest)) (hl : 0 ∉ l) (hlen : l.length < 2 ^ 31) :
    ∃ str t, (removeTEsc conv mem).bind (trimlf conv) = some str ∧ strAt str 0 = some t ∧
      t.bytes = l.rdropWhile isLineEnd := by
  obtain ⟨rest', hrest'⟩ := trimlf_eq conv hl hlen rest
  have hnul : 0 ∉ l.rdropWhile isLineEnd := fun h => hl ((List.rdropWhile_prefix _ l).subset h)
  exact ⟨_, ⟨_, hnul⟩, by rw [hmem, Option.bind_some, hrest'], strAt_append_zero hnul rest', rfl⟩

theorem strips_of_closed {s : CString} (hlen : s.length < 2 ^ 31 - 1)
    (hs : AllClosed 27 109 s.bytes) : Strips s := by
  intro conv rest
  have hle := length_cut_le 27 109 s.bytes
  obtain ⟨rest', hrest'⟩ := removeTEsc_of_closed conv hlen hs rest
  obtain ⟨str, t, hstr, ht, hbytes⟩ := strip_eq conv hrest'
    (fun h => s.noNul (cut_subset 27 109 s.bytes h)) (by rw [CString.length] at hlen; omega)
  have hinit := List.rdropWhile_prefix isLineEnd (cut 27 109 s.bytes)
  refine ⟨str, t, hstr, ht, ?_, hbytes, ?_⟩
  · rw [CString.length, hbytes]
    exact hinit.length_le.trans hle
  · rw [hbytes]
    exact fun h => not_mem_cut 27 109 s.bytes (hinit.subset h)

/-- Behind an escape character without an end the escape character itself is left. -/
theorem not_strips_of_open {s : CString} (conv : IntConv) (hlen : s.length < 2 ^ 31 - 1)
    {a b : List UInt8} (hs : s.bytes = a ++ 27 :: b) (hb : 109 ∉ b) : ¬Strips s := by
  intro h
  obtain ⟨hcut, hmem⟩ := removeTEsc_of_open conv hlen hs hb []
  have hlength : (cut 27 109 s.bytes ++ s.bytes.drop (cut 27 109 s.bytes).length).length <
      2 ^ 31 := by
    have := length_cut_le 27 109 s.bytes
    rw [CString.length] at hlen
    rw [List.length_append, List.length_drop]
    omega
  have hnul : 0 ∉ cut 27 109 s.bytes ++ s.bytes.drop (cut 27 109 s.bytes).length := fun hmem =>
    s.noNul ((List.mem_append.mp hmem).elim (cut_subset 27 109 s.bytes ·) List.mem_of_mem_drop)
  obtain ⟨str, t, hstr, ht, hbytes⟩ := strip_eq conv hmem hnul hlength
  have hesc : 27 ∈ s.bytes.drop (cut 27 109 s.bytes).length := by
    have hdrop := congrArg (List.drop (cut 27 109 s.bytes).length) hs
    rw [List.drop_append_of_le_length hcut] at hdrop
    rw [hdrop]
    simp
  obtain ⟨str', t', hstr', ht', -, -, hfree⟩ := h conv []
  obtain rfl := Option.some.inj (hstr.symm.trans hstr')
  obtain rfl := Option.some.inj (ht.symm.trans ht')
  rw [hbytes] at hfree
  exact hfree (mem_rdropWhile (List.mem_append_right _ hesc) rfl)

/-- The index of the loop overflows. -/
theorem removeTEscLoop_overflow (d : ℕ) :
    ∀ (str : List UInt8) (i j : ℕ) (skipEsc : Bool), i + d = 2 ^ 31 - 1 →
      removeTEscLoop (2 ^ 31 - 1) str i j skipEsc = none := by
  induction d with
  | zero =>
    intro str i j skipEsc hi
    rw [removeTEscLoop, if_pos (by omega)]
    cases removeTEscTurn str i j skipEsc with
    | none => rfl
    | some r => rw [Option.bind_some, if_pos (by omega)]
  | succ d ih =>
    intro str i j skipEsc hi
    rw [removeTEscLoop, if_pos (by omega)]
    cases removeTEscTurn str i j skipEsc with
    | none => rfl
    | some r => rw [Option.bind_some, if_neg (by omega), ih _ _ _ _ (by omega)]

/-- The length of the string does not fit, or the index behind it. -/
theorem not_strips_of_length {s : CString} (hlen : 2 ^ 31 - 1 ≤ s.length) : ¬Strips s := by
  intro h
  obtain ⟨str, t, hstr, -⟩ := h .minusOne []
  have hread : strAt (s.toBuf ++ []) 0 = some s := strAt_of_drop_eq rfl
  rw [removeTEsc, hread, Option.bind_some] at hstr
  by_cases hfit : s.length < 2 ^ 31
  · have hint : IntConv.minusOne.toInt s.length = 2 ^ 31 - 1 := by
      rw [IntConv.toInt_of_lt _ hfit]
      omega
    rw [hint, removeTEscLoop_overflow (2 ^ 31 - 1) _ 0 0 false (by omega)] at hstr
    cases hstr
  · have hint : IntConv.minusOne.toInt s.length = .negSucc 0 := if_neg hfit
    rw [hint, removeTEscLoop, if_neg (by decide), Option.bind_some, trimlf, hread, Option.bind_some,
      hint] at hstr
    cases hstr

/-- A string is stripped exactly when each escape character has a letter `m` behind it and its
terminator has an index that is an `int` with a successor. -/
theorem strips_iff (s : CString) :
    Strips s ↔ s.length < 2 ^ 31 - 1 ∧ AllClosed 27 109 s.bytes := by
  constructor
  · intro h
    have hlen : s.length < 2 ^ 31 - 1 := not_le.mp fun hle => not_strips_of_length hle h
    refine ⟨hlen, fun a b hs => ?_⟩
    by_contra hb
    exact not_strips_of_open .minusOne hlen hs hb h
  · rintro ⟨hlen, hs⟩
    exact strips_of_closed hlen hs

/-- A coloured word that ends in a sequence without an end. -/
theorem not_strips_coloured :
    ¬Strips ⟨[27, 91, 51, 49, 109, 114, 101, 100, 27, 91, 48], by decide⟩ :=
  not_strips_of_open .minusOne (by decide) (a := [27, 91, 51, 49, 109, 114, 101, 100]) rfl
    (by decide)

end Teonet
