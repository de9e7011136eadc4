import Mathlib.Algebra.Group.Int.Defs
import Mathlib.Algebra.Group.Nat.Defs
import Mathlib.Data.List.Basic
import Mathlib.Data.List.Induction
import Mathlib.Tactic.SplitIfs
import Teonet.Lib.ListMove

/-! # Moves in string arrays (`string_arr.c`)

A string array is a block of pointers that ends with `NULL`, and the empty one can be a null pointer.
`ksnet_stringArrMoveTo` shifts the pointers between two places by one and puts the first one at the
other end, in a loop for each direction; it compares its `int` index with the unsigned indices of its
caller.  `moveUpLoop_eq` and `moveDownLoop_eq` are the loops from any turn on, and
`ksnetStringArrMoveTo_spec` the whole function. -/

namespace Teonet

open ListMove

variable {α β : Type}

/-! ### Conversions and cells -/

/-- An `unsigned int` as an `int`. -/
def intOfUnsigned (n : UInt32) : ℤ := Int.bmod n.toNat (2 ^ 32)

/-- A cell of the array. -/
def cellAt (arr : List β) (i : ℤ) : Option β := if 0 ≤ i then arr[i.toNat]? else none

/-- A cell is written. -/
def setCell (arr : List β) (i : ℤ) (v : β) : Option (List β) :=
  if 0 ≤ i ∧ i.toNat < arr.length then some (arr.set i.toNat v) else none

theorem intOfUnsigned_of_lt {n : UInt32} (h : n.toNat < 2 ^ 31) : intOfUnsigned n = n.toNat := by
  unfold intOfUnsigned Int.bmod
  dsimp only
  split_ifs <;> omega

theorem toNat_ofInt {n : ℕ} (h : n < 2 ^ 32) : (UInt32.ofInt n).toNat = n := by
  have hmod : ((n : ℤ) % 2 ^ 32).toNat = n := by omega
  rw [UInt32.ofInt, hmod, UInt32.toNat_ofNat_of_lt' h]

theorem ofInt_eq_iff {i : ℤ} {n : ℕ} (hi : i = n) (h : n < 2 ^ 32) (m : UInt32) :
    UInt32.ofInt i = m ↔ n = m.toNat := by
  rw [hi, ← UInt32.toNat_inj, toNat_ofInt h]

theorem cellAt_append {p : List β} {i : ℤ} (hi : i = p.length) (x : β) (r : List β) :
    cellAt (p ++ x :: r) i = some x := by
  subst hi
  rw [cellAt, if_pos (Int.natCast_nonneg _), Int.toNat_natCast, getElem?_length_append]

theorem setCell_append {p : List β} {i : ℤ} (hi : i = p.length) (x v : β) (r : List β) :
    setCell (p ++ x :: r) i v = some (p ++ v :: r) := by
  subst hi
  rw [setCell, if_pos (by simp), Int.toNat_natCast, List.set_append_right _ _ (Nat.le_refl _)]
  simp

theorem cellAt_append_cons {p : List β} {i : ℤ} (hi : i = p.length + 1) (y x : β) (r : List β) :
    cellAt (p ++ y :: x :: r) i = some x := by
  have h := cellAt_append (p := p ++ [y]) (by simpa using hi) x r
  rwa [List.append_assoc] at h

theorem setCell_append_cons {p : List β} {i : ℤ} (hi : i = p.length + 1) (y x v : β) (r : List β) :
    setCell (p ++ y :: x :: r) i v = some (p ++ y :: v :: r) := by
  have h := setCell_append (p := p ++ [y]) (by simpa using hi) x v r
  rwa [List.append_assoc, List.append_assoc] at h

/-! ### The code -/

/-- The loop of `ksnet_stringArrLength`; `len` is an `int`. -/
def lengthLoop (arr : List (Option α)) (len : ℕ) : Option ℕ :=
  match _ : arr[len]? with
  | none => none
  | some none => some len
  | some (some _) => if len = 2 ^ 31 - 1 then none else lengthLoop arr (len + 1)
termination_by arr.length - len
decreasing_by
  have := (List.getElem?_eq_some_iff.mp ‹_›).1
  omega

/-- `ksnet_stringArrLength`; the array is `none` for a null pointer. -/
def ksnetStringArrLength : Option (List (Option α)) → Option ℕ
  | none => some 0
  | some arr => lengthLoop arr 0

/-- The loop of `ksnet_stringArrMoveTo` if `fromIdx < toIdx`. -/
def moveUpLoop (fromStr : β) (len : ℤ) (toIdx : UInt32) (arr : List β) (i : ℤ) :
    Option (List β × Bool) :=
  if i < len then
    (cellAt arr i).bind fun str =>
      (setCell arr (i - 1) str).bind fun arr =>
        if UInt32.ofInt i = toIdx then (setCell arr i fromStr).map fun arr => (arr, true)
        else moveUpLoop fromStr len toIdx arr (i + 1)
  else some (arr, false)
termination_by (len - i).toNat

/-- The other loop of `ksnet_stringArrMoveTo`. -/
def moveDownLoop (fromStr : β) (toIdx : UInt32) (arr : List β) (i : ℤ) :
    Option (List β × Bool) :=
  if i ≥ 0 then
    (cellAt arr i).bind fun str =>
      (setCell arr (i + 1) str).bind fun arr =>
        if UInt32.ofInt i = toIdx then (setCell arr i fromStr).map fun arr => (arr, true)
        else moveDownLoop fromStr toIdx arr (i - 1)
  else some (arr, false)
termination_by (i + 1).toNat

/-- `ksnet_stringArrMoveTo`, where `len` is its length: the array and the value that it returns. -/
def ksnetStringArrMoveTo (arr : Option (List (Option α))) (fromIdx toIdx : UInt32) :
    Option (Option (List (Option α)) × Bool) :=
  (ksnetStringArrLength arr).bind fun len =>
    if len ≠ 0 ∧ fromIdx < UInt32.ofInt len ∧ toIdx < UInt32.ofInt len ∧ fromIdx ≠ toIdx then
      arr.bind fun arr =>
        (cellAt arr fromIdx.toNat).bind fun fromStr =>
          (if fromIdx < toIdx then moveUpLoop fromStr len toIdx arr (intOfUnsigned (fromIdx + 1))
            else moveDownLoop fromStr toIdx arr (intOfUnsigned (fromIdx - 1))).map fun r =>
              (some r.1, r.2)
    else some (arr, false)

/-- `ksnet_stringArrAdd`, where `room n` is a new block of `n` pointers; the size is computed with an
`int`. -/
def ksnetStringArrAdd (room : ℕ → List (Option α)) (arr : Option (List (Option α))) (str : α) :
    Option (List (Option α)) :=
  (ksnetStringArrLength arr).bind fun i =>
    (if i = 0 then some (room 2)
      else if i + 2 < 2 ^ 31 then some ((arr.getD [] ++ room (i + 2)).take (i + 2))
      else none).bind fun arr =>
        (setCell arr i (some str)).bind fun arr => setCell arr (i + 1) none

/-! ### String arrays -/

/-- A string array as it lies in memory, with what lies behind its `NULL`; without memory it is empty.
Its length is an `int`. -/
structure KsnetStringArr (α : Type) where
  strings : List α
  behind : Option (List (Option α))
  strings_of_null : behind = none → strings = []
  length_lt : strings.length < 2 ^ 31

/-- The memory of an array. -/
def arrMemory (behind : Option (List (Option α))) (strings : List α) : Option (List (Option α)) :=
  behind.map fun rest => strings.map some ++ none :: rest

/-- The memory of an array. -/
def KsnetStringArr.memory (arr : KsnetStringArr α) : Option (List (Option α)) :=
  arrMemory arr.behind arr.strings

/-- `ksnet_stringArrCreate`. -/
def ksnetStringArrCreate : KsnetStringArr α := ⟨[], none, fun _ => rfl, Nat.two_pow_pos 31⟩

theorem lengthLoop_eq (rest : List (Option α)) :
    ∀ (m l : List α), l.length + m.length < 2 ^ 31 →
      lengthLoop (l.map some ++ (m.map some ++ none :: rest)) l.length = some (l.length + m.length)
  | [], l, _ => by
      have hget : (l.map some ++ ([].map some ++ none :: rest))[l.length]? = some none := by simp
      rw [lengthLoop]
      split
      · next h => rw [hget] at h; cases h
      · rfl
      · next h => rw [hget] at h; cases h
  | x :: m, l, hlen => by
      have hget : (l.map some ++ ((x :: m).map some ++ none :: rest))[l.length]? =
          some (some x) := by simp
      rw [List.length_cons] at hlen
      rw [lengthLoop]
      split
      · next h => rw [hget] at h; cases h
      · next h => rw [hget] at h; cases h
      · have ih := lengthLoop_eq rest m (l ++ [x]) (by rw [List.length_append]; simp; omega)
        rw [if_neg (by omega)]
        simpa [Nat.add_assoc, Nat.add_comm 1] using ih

/-- The length of an array. -/
theorem ksnetStringArrLength_memory (arr : KsnetStringArr α) :
    ksnetStringArrLength arr.memory = some arr.strings.length := by
  unfold KsnetStringArr.memory arrMemory
  cases hb : arr.behind with
  | none => rw [arr.strings_of_null hb]; rfl
  | some rest =>
    have h := lengthLoop_eq rest arr.strings [] (by simpa using arr.length_lt)
    simpa [ksnetStringArrLength] using h

/-- The block of `ksnet_stringArrAdd` has the strings of the array and two cells behind them. -/
theorem exists_block {room : ℕ → List (Option α)} (hroom : ∀ n, (room n).length = n)
    (arr : KsnetStringArr α) {block : List (Option α)}
    (h : (if arr.strings.length = 0 then some (room 2)
      else if arr.strings.length + 2 < 2 ^ 31 then
        some ((arr.memory.getD [] ++ room (arr.strings.length + 2)).take (arr.strings.length + 2))
      else none) = some block) :
    arr.strings.length + 1 < 2 ^ 31 ∧ ∃ u v, block = arr.strings.map some ++ [u, v] := by
  split_ifs at h with hzero hfit
  · obtain rfl := Option.some.inj h
    rw [List.length_eq_zero_iff.mp hzero]
    exact ⟨by simp, List.length_eq_two.mp (hroom 2)⟩
  · obtain rfl := Option.some.inj h
    refine ⟨by omega, ?_⟩
    obtain ⟨rest, hrest⟩ : ∃ rest, arr.behind = some rest := by
      cases hb : arr.behind with
      | none => exact absurd (by rw [arr.strings_of_null hb]; rfl) hzero
      | some rest => exact ⟨rest, rfl⟩
    rw [KsnetStringArr.memory, arrMemory, hrest, Option.map_some, Option.getD_some,
      List.append_assoc, List.take_append, List.length_map, Nat.add_sub_cancel_left,
      List.take_of_length_le (by simp)]
    have htwo : ((none :: rest ++ room (arr.strings.length + 2)).take 2).length = 2 := by
      rw [List.length_take, List.length_append, hroom]
      omega
    obtain ⟨u, v, huv⟩ := List.length_eq_two.mp htwo
    exact ⟨u, v, by rw [huv]⟩

/-- What `ksnet_stringArrAdd` makes of a string array is one. -/
theorem exists_of_add {room : ℕ → List (Option α)} (hroom : ∀ n, (room n).length = n)
    {arr : KsnetStringArr α} {str : α} {mem : List (Option α)}
    (h : ksnetStringArrAdd room arr.memory str = some mem) :
    ∃ arr' : KsnetStringArr α, arr'.memory = some mem ∧ arr'.strings = arr.strings ++ [str] := by
  rw [ksnetStringArrAdd, ksnetStringArrLength_memory, Option.bind_some] at h
  obtain ⟨block, hblock, hwrite⟩ := Option.bind_eq_some_iff.mp h
  obtain ⟨hlen, u, v, rfl⟩ := exists_block hroom arr hblock
  rw [setCell_append (by simp), Option.bind_some, setCell_append_cons (by simp)] at hwrite
  refine ⟨⟨arr.strings ++ [str], some [], by simp, by simpa using hlen⟩, ?_, rfl⟩
  rw [← hwrite]
  simp [KsnetStringArr.memory, arrMemory]

/-- Every array that is created and filled by these functions is a string array. -/
theorem exists_of_adds {room : ℕ → List (Option α)} (hroom : ∀ n, (room n).length = n)
    (strs : List α) {mem : Option (List (Option α))}
    (h : strs.foldlM (fun arr str => (ksnetStringArrAdd room arr str).map some)
      ksnetStringArrCreate.memory = some mem) :
    ∃ arr : KsnetStringArr α, arr.memory = mem ∧ arr.strings = strs := by
  induction strs using List.reverseRecOn generalizing mem with
  | nil => exact ⟨ksnetStringArrCreate, Option.some.inj h, rfl⟩
  | append_singleton strs str ih =>
    rw [List.foldlM_append] at h
    obtain ⟨mem', hmem', hlast⟩ := Option.bind_eq_some_iff.mp h
    obtain ⟨arr, rfl, hstrings⟩ := ih hmem'
    rw [List.foldlM_cons] at hlast
    obtain ⟨mem'', hadd, hend⟩ := Option.bind_eq_some_iff.mp hlast
    obtain ⟨cells, hcells, rfl⟩ := Option.map_eq_some_iff.mp hadd
    obtain ⟨arr', harr', hstrings'⟩ := exists_of_add hroom hcells
    exact ⟨arr', harr'.trans (Option.some.inj hend), by rw [hstrings', hstrings]⟩

/-! ### The loops -/

/-- From any turn on: the members up to the new place go one place to the left.  `y` is the one that
the last turn has moved. -/
theorem moveUpLoop_eq (fromStr : β) {len : ℤ} {toIdx : UInt32} (hlen : toIdx.toNat < len) :
    ∀ (q p : List β) (y z : β) (r : List β) (i : ℤ), i = p.length + 1 →
      toIdx.toNat = p.length + 1 + q.length →
      moveUpLoop fromStr len toIdx (p ++ y :: (q ++ z :: r)) i =
        some (p ++ (q ++ z :: fromStr :: r), true)
  | [], p, y, z, r, i, hi, hto => by
      rw [List.length_nil] at hto
      have hplace : UInt32.ofInt i = toIdx := by
        have := toIdx.toNat_lt
        exact (ofInt_eq_iff (n := p.length + 1) hi (by omega) _).mpr hto.symm
      rw [List.nil_append, moveUpLoop, if_pos (by omega), cellAt_append_cons hi, Option.bind_some,
        setCell_append (by omega), Option.bind_some, if_pos hplace, setCell_append_cons hi]
      rfl
  | x :: q, p, y, z, r, i, hi, hto => by
      rw [List.length_cons] at hto
      have hplace : UInt32.ofInt i ≠ toIdx := by
        have := toIdx.toNat_lt
        rw [Ne, ofInt_eq_iff (n := p.length + 1) hi (by omega)]
        omega
      have ih := moveUpLoop_eq fromStr hlen q (p ++ [x]) x z r (i + 1) (by simp; omega)
        (by simp; omega)
      rw [List.append_assoc, List.append_assoc] at ih
      rw [List.cons_append, moveUpLoop, if_pos (by omega), cellAt_append_cons hi, Option.bind_some,
        setCell_append (by omega), Option.bind_some, if_neg hplace]
      exact ih

/-- From any turn on: the members down to the new place go one place to the right. -/
theorem moveDownLoop_eq (fromStr : β) {toIdx : UInt32} (p : List β) (z : β)
    (hto : toIdx.toNat = p.length) (q : List β) :
    ∀ (y : β) (r : List β) (i : ℤ), i = p.length + q.length → p.length + q.length < 2 ^ 32 →
      moveDownLoop fromStr toIdx (p ++ z :: (q ++ y :: r)) i =
        some (p ++ fromStr :: z :: (q ++ r), true) := by
  induction q using List.reverseRecOn with
  | nil =>
    intro y r i hi hlt
    have hend : i = p.length := by simpa using hi
    have hplace : UInt32.ofInt i = toIdx := (ofInt_eq_iff hend (by omega) _).mpr hto.symm
    rw [List.nil_append, moveDownLoop, if_pos (by omega), cellAt_append hend, Option.bind_some,
      setCell_append_cons (by omega), Option.bind_some, if_pos hplace, setCell_append hend]
    rfl
  | append_singleton q x ih =>
    intro y r i hi hlt
    rw [List.length_append, List.length_singleton] at hi hlt
    have hend : i = (p ++ z :: q).length := by
      simp only [List.length_append, List.length_cons]
      omega
    have hplace : UInt32.ofInt i ≠ toIdx := by
      rw [Ne, ofInt_eq_iff hend (by simp; omega)]
      simp only [List.length_append, List.length_cons]
      omega
    have hsplit : p ++ z :: (q ++ [x] ++ y :: r) = p ++ z :: q ++ x :: y :: r := by simp
    rw [hsplit, moveDownLoop, if_pos (by omega), cellAt_append hend, Option.bind_some,
      setCell_append_cons (by omega), Option.bind_some, if_neg hplace]
    have hih := ih x (x :: r) (i - 1) (by omega) (by omega)
    simpa using hih

/-- The loop to the right moves the string. -/
theorem moveUpLoop_memory {l : List α} {fromIdx toIdx : UInt32} (hlt : fromIdx.toNat < toIdx.toNat)
    (hto : toIdx.toNat < l.length) (hlen : l.length < 2 ^ 31) (rest : List (Option α)) :
    ∃ x, cellAt (l.map some ++ none :: rest) fromIdx.toNat = some (some x) ∧
      moveUpLoop (some x) l.length toIdx (l.map some ++ none :: rest) (intOfUnsigned (fromIdx + 1)) =
        some ((move l fromIdx.toNat toIdx.toNat).map some ++ none :: rest, true) := by
  obtain ⟨p, x, q, z, r, hl, hp, hq⟩ := exists_split hlt hto
  have hnext : (fromIdx + 1).toNat = fromIdx.toNat + 1 := by
    rw [UInt32.toNat_add, UInt32.toNat_one, Nat.mod_eq_of_lt (by omega)]
  have hstart : intOfUnsigned (fromIdx + 1) = (p.map some).length + 1 := by
    rw [intOfUnsigned_of_lt (by omega), hnext, List.length_map]
    omega
  have hplace : toIdx.toNat = (p.map some).length + 1 + (q.map some).length := by
    rw [List.length_map, List.length_map]
    omega
  have hmem : l.map some ++ none :: rest =
      p.map some ++ some x :: (q.map some ++ some z :: (r.map some ++ none :: rest)) := by
    simp [hl]
  have hmove : move l fromIdx.toNat toIdx.toNat = p ++ (q ++ z :: x :: r) := by
    have h := move_up p (q ++ [z]) r x
    rw [List.length_append, List.length_singleton, hp, ← Nat.add_assoc, hq] at h
    simpa [hl] using h
  refine ⟨x, ?_, ?_⟩
  · rw [hmem]
    exact cellAt_append (by rw [List.length_map, hp]) _ _
  · rw [hmem, moveUpLoop_eq (some x) (by omega) _ _ _ _ _ _ hstart hplace, hmove]
    simp

/-- The loop to the left moves the string. -/
theorem moveDownLoop_memory {l : List α} {fromIdx toIdx : UInt32}
    (hlt : toIdx.toNat < fromIdx.toNat) (hfrom : fromIdx.toNat < l.length) (hlen : l.length < 2 ^ 31)
    (rest : List (Option α)) :
    ∃ x, cellAt (l.map some ++ none :: rest) fromIdx.toNat = some (some x) ∧
      moveDownLoop (some x) toIdx (l.map some ++ none :: rest) (intOfUnsigned (fromIdx - 1)) =
        some ((move l fromIdx.toNat toIdx.toNat).map some ++ none :: rest, true) := by
  obtain ⟨p, z, q, x, r, hl, hp, hq⟩ := exists_split hlt hfrom
  have hprev : (fromIdx - 1).toNat = fromIdx.toNat - 1 := by
    rw [UInt32.toNat_sub_of_le, UInt32.toNat_one]
    rw [UInt32.le_iff_toNat_le, UInt32.toNat_one]
    omega
  have hstart : intOfUnsigned (fromIdx - 1) = (p.map some).length + (q.map some).length := by
    rw [intOfUnsigned_of_lt (by omega), hprev, List.length_map, List.length_map]
    omega
  have hmem : l.map some ++ none :: rest =
      p.map some ++ some z :: (q.map some ++ some x :: (r.map some ++ none :: rest)) := by
    simp [hl]
  have hmove : move l fromIdx.toNat toIdx.toNat = p ++ x :: z :: (q ++ r) := by
    have h := move_down p (z :: q) r x
    rw [List.length_cons, hp, ← Nat.add_assoc, hq] at h
    simpa [hl] using h
  refine ⟨x, ?_, ?_⟩
  · have h := cellAt_append (p := p.map some ++ some z :: q.map some) (i := fromIdx.toNat)
      (by simp; omega) (some x) (r.map some ++ none :: rest)
    rw [hmem]
    simpa using h
  · rw [hmem, moveDownLoop_eq (some x) _ _ (by rw [List.length_map, hp]) _ _ _ _ hstart, hmove]
    · simp
    · rw [List.length_map, List.length_map]
      omega

/-! ### The function -/

variable {arr : KsnetStringArr α} {fromIdx toIdx : UInt32}

/-- Both indices are inside of the array, and different. -/
def Moves (arr : KsnetStringArr α) (fromIdx toIdx : UInt32) : Prop :=
  fromIdx.toNat < arr.strings.length ∧ toIdx.toNat < arr.strings.length ∧ fromIdx ≠ toIdx

/-- The test of the code. -/
theorem moves_iff (arr : KsnetStringArr α) (fromIdx toIdx : UInt32) :
    (arr.strings.length ≠ 0 ∧ fromIdx < UInt32.ofInt arr.strings.length ∧
      toIdx < UInt32.ofInt arr.strings.length ∧ fromIdx ≠ toIdx) ↔ Moves arr fromIdx toIdx := by
  have hlen := arr.length_lt
  rw [UInt32.lt_iff_toNat_lt, UInt32.lt_iff_toNat_lt, toNat_ofInt (by omega), Moves]
  constructor
  · exact And.right
  · exact fun h => ⟨by omega, h⟩

theorem moveTo_of_not_moves (h : ¬Moves arr fromIdx toIdx) :
    ksnetStringArrMoveTo arr.memory fromIdx toIdx = some (arr.memory, false) := by
  rw [ksnetStringArrMoveTo, ksnetStringArrLength_memory, Option.bind_some,
    if_neg (mt (moves_iff arr fromIdx toIdx).mp h)]

/-- Both loops make the move. -/
theorem moveTo_of_moves (h : Moves arr fromIdx toIdx) :
    ksnetStringArrMoveTo arr.memory fromIdx toIdx =
      some (arrMemory arr.behind (move arr.strings fromIdx.toNat toIdx.toNat), true) := by
  obtain ⟨hfrom, hto, hne⟩ := h
  have hlen := arr.length_lt
  obtain ⟨rest, hrest⟩ : ∃ rest, arr.behind = some rest := by
    cases hb : arr.behind with
    | none =>
      rw [arr.strings_of_null hb] at hfrom
      cases hfrom
    | some rest => exact ⟨rest, rfl⟩
  have hmem : arr.memory = some (arr.strings.map some ++ none :: rest) := by
    rw [KsnetStringArr.memory, arrMemory, hrest]
    rfl
  rw [ksnetStringArrMoveTo, ksnetStringArrLength_memory, Option.bind_some,
    if_pos ((moves_iff arr fromIdx toIdx).mpr ⟨hfrom, hto, hne⟩), hmem, Option.bind_some]
  by_cases hlt : fromIdx < toIdx
  · obtain ⟨x, hx, hloop⟩ := moveUpLoop_memory (UInt32.lt_iff_toNat_lt.mp hlt) hto hlen rest
    rw [hx, Option.bind_some, if_pos hlt, hloop, hrest]
    rfl
  · have hgt : toIdx.toNat < fromIdx.toNat := by
      rw [UInt32.lt_iff_toNat_lt] at hlt
      have := mt UInt32.toNat_inj.mp hne
      omega
    obtain ⟨x, hx, hloop⟩ := moveDownLoop_memory hgt hfrom hlen rest
    rw [hx, Option.bind_some, if_neg hlt, hloop, hrest]
    rfl

theorem ksnetStringArrMoveTo_spec (arr : KsnetStringArr α) (fromIdx toIdx : UInt32) :
    ∃ strings retval,
      ksnetStringArrMoveTo arr.memory fromIdx toIdx = some (arrMemory arr.behind strings, retval) ∧
        (retval = true ↔ fromIdx.toNat < arr.strings.length ∧ toIdx.toNat < arr.strings.length ∧
          fromIdx ≠ toIdx) ∧
        (retval = true → strings = move arr.strings fromIdx.toNat toIdx.toNat ∧
          strings.Perm arr.strings ∧
          strings.eraseIdx toIdx.toNat = arr.strings.eraseIdx fromIdx.toNat) ∧
        (retval = false → strings = arr.strings) := by
  by_cases h : Moves arr fromIdx toIdx
  · refine ⟨_, _, moveTo_of_moves h, iff_of_true rfl h, fun _ => ⟨rfl, ?_, ?_⟩, fun hf => ?_⟩
    · exact perm_move h.1 h.2.1
    · exact eraseIdx_move h.1 _
    · cases hf
  · refine ⟨_, _, moveTo_of_not_moves h, iff_of_false (by simp) h, fun ht => ?_, fun _ => rfl⟩
    cases ht

end Teonet
