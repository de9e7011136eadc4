import Teonet.Lib.Pieces
import Teonet.Lib.QuoteMask
import Teonet.Lib.TextBuffer

/-! # String arrays (`string_arr.c`)

`ksnet_stringArrSplit` splits a string at separators, but not at blanks between quotes: it replaces
these in the string of its caller by a character that the string does not have, and puts them back in
the string and in each part.  A part can hold one quote of a pair, and when the string has all the
characters that are tried, the blanks become zero bytes.  Indices and lengths are of type `int`; where
one of them overflows there is no result.

`maskedText` is the text that the loop sees, and by `splitLoop_eq` the loop takes `pieces` of it. -/

namespace Teonet

open QuoteMask Pieces TextBuffer

/-! ### The code -/

/-- `replace_char_between_quotas`, from a place in the memory on; behind an opening quote `quoted` are
the bytes since then. -/
def replaceCharBetweenQuotas (replaceFrom replaceTo : UInt8) :
    Option (List UInt8) → List UInt8 → List UInt8 × Bool
  | none, [] => ([], false)
  | some quoted, [] => (quoted, false)
  | none, c :: str =>
    if c = 0 then (c :: str, false)
    else
      let quoted := if c = 34 then some [] else none
      let r := replaceCharBetweenQuotas replaceFrom replaceTo quoted str
      (c :: r.1, r.2)
  | some quoted, c :: str =>
    if c = 0 then (quoted ++ c :: str, false)
    else if c = 34 then
      let r := replaceCharBetweenQuotas replaceFrom replaceTo none str
      ((quoted.map fun b => if b = replaceFrom then replaceTo else b) ++ c :: r.1,
        quoted.contains replaceFrom || r.2)
    else replaceCharBetweenQuotas replaceFrom replaceTo (some (quoted ++ [c])) str

/-- `replace_to_str`: `_$#%*@!-+|\001`. -/
def replaceToStr : List UInt8 := [95, 36, 35, 37, 42, 64, 33, 45, 43, 124, 1]

/-- `find_replace_to_char`. -/
def findReplaceToChar (str : CString) : UInt8 :=
  (replaceToStr.find? fun c => c ∉ str.bytes).getD 0

/-- The loop of `ksnet_stringArrSplit`, where `rest` is left from `rightBound` on: the parts, and
`leftBound` at its end. -/
def splitLoop (string separators : List UInt8) (withEmpty : Bool) (maxParts : ℤ) :
    List UInt8 → ℕ → ℕ → ℕ → List (List UInt8) × ℕ
  | [], leftBound, _, _ => ([], leftBound)
  | c :: rest, leftBound, rightBound, partsCount =>
    if c ∈ separators ∧ (withEmpty ∨ rightBound ≥ leftBound) then
      let part := (string.drop leftBound).take (rightBound - leftBound)
      let leftBound := rightBound + 1
      let partsCount := partsCount + 1
      if (partsCount : ℤ) ≥ maxParts - 1 ∧ maxParts ≠ 0 then ([part], leftBound)
      else
        let r := splitLoop string separators withEmpty maxParts rest leftBound (rightBound + 1)
          partsCount
        (part :: r.1, r.2)
    else if (partsCount : ℤ) ≥ maxParts - 1 ∧ maxParts ≠ 0 then ([], leftBound)
    else
      splitLoop string separators withEmpty maxParts rest leftBound (rightBound + 1) partsCount

/-- The separators that the loop looks at: `sep_count` is an `int`. -/
def seenSeparators (conv : IntConv) (separators : CString) : List UInt8 :=
  separators.bytes.take (conv.toInt separators.length).toNat

/-- The work of `ksnet_stringArrSplit`: the memory of the string after the call, and the array. -/
def splitString (string : CString) (separators : List UInt8) (withEmpty : Bool) (maxParts : ℤ) :
    List UInt8 × List CString :=
  if string.bytes = [] then (string.toBuf, [])
  else
    let replaceCh := findReplaceToChar string
    let (mem, replaced) := replaceCharBetweenQuotas 32 replaceCh none string.toBuf
    let text := (CString.ofBuf mem).bytes
    let (parts, leftBound) := splitLoop text separators withEmpty maxParts text 0 0 0
    let last := if withEmpty ∨ leftBound < text.length then [text.drop leftBound] else []
    let result := (parts ++ last).map fun part => part ++ [0]
    if replaced then
      ((replaceCharBetweenQuotas replaceCh 32 none mem).1,
        result.map fun part => CString.ofBuf (replaceCharBetweenQuotas replaceCh 32 none part).1)
    else (mem, result.map CString.ofBuf)

/-- The `int`s of `ksnet_stringArrSplit` hold what they are computed for: the indices into a string
that is not empty, `max_parts - 1`, the size of the array, which grows by 1024 elements at a time, and
the size of each part. -/
def SplitInts (string : CString) (maxParts : ℤ) (arr : List CString) : Prop :=
  string.bytes = [] ∨ string.length < 2 ^ 31 ∧ -2 ^ 31 < maxParts ∧ arr.length < 2 ^ 31 - 1024 ∧
    ∀ part ∈ arr, part.length + 1 < 2 ^ 31

instance (string : CString) (maxParts : ℤ) (arr : List CString) :
    Decidable (SplitInts string maxParts arr) :=
  inferInstanceAs (Decidable (string.bytes = [] ∨ string.length < 2 ^ 31 ∧ -2 ^ 31 < maxParts ∧
    arr.length < 2 ^ 31 - 1024 ∧ ∀ part ∈ arr, part.length + 1 < 2 ^ 31))

/-- `ksnet_stringArrSplit`. -/
def ksnetStringArrSplit (conv : IntConv) (string separators : CString) (withEmpty : Bool)
    (maxParts : ℤ) : Option (List UInt8 × List CString) :=
  let r := splitString string (seenSeparators conv separators) withEmpty maxParts
  if SplitInts string maxParts r.2 then some r else none

/-- `ksnet_stringArrCombine`: the string, if the array is not empty.  `len` is an `int`, and where it
does not hold the length the block is too small. -/
def ksnetStringArrCombine (arr : List CString) (separator : CString) : Option (Option CString) :=
  let len := (arr.map fun s => s.length + separator.length + 1).sum
  if len = 0 then some none
  else if len < 2 ^ 31 then some (some (concat (arr.intersperse separator)))
  else none

/-! ### Replaced blanks -/

/-- The replacement up to the zero byte, from outside of quotes and behind an opening quote. -/
theorem replaceCharBetweenQuotas_from {f : UInt8} (hf : f ≠ 34) (t : UInt8) {l : List UInt8}
    (hl : 0 ∉ l) (rest : List UInt8) (n : ℕ) :
    (n % 2 = 0 →
      (replaceCharBetweenQuotas f t none (l ++ 0 :: rest)).1 = mask 34 f t n l ++ 0 :: rest ∧
        ((replaceCharBetweenQuotas f t none (l ++ 0 :: rest)).2 = true ↔ HasQuoted 34 f n l)) ∧
    ∀ quoted, n % 2 = 1 →
      (replaceCharBetweenQuotas f t (some quoted) (l ++ 0 :: rest)).1 =
          (if 34 ∈ l then quoted.map fun b => if b = f then t else b else quoted) ++
            (mask 34 f t n l ++ 0 :: rest) ∧
        ((replaceCharBetweenQuotas f t (some quoted) (l ++ 0 :: rest)).2 = true ↔
          (34 ∈ l ∧ f ∈ quoted) ∨ HasQuoted 34 f n l) := by
  induction l generalizing n with
  | nil =>
    have hnone : ¬HasQuoted 34 f n [] := not_hasQuoted_of_not_mem List.not_mem_nil
    simp [replaceCharBetweenQuotas, mask, hnone]
  | cons c l ih =>
    obtain ⟨hc, hl⟩ := not_or.mp (fun h => hl (List.mem_cons.mpr h))
    have hzero : c ≠ 0 := Ne.symm hc
    refine ⟨fun hn => ?_, fun quoted hn => ?_⟩
    · -- outside nothing is replaced
      have hnot : ¬(c = f ∧ n % 2 = 1 ∧ 34 ∈ l) := by omega
      rw [List.cons_append, replaceCharBetweenQuotas, if_neg hzero, mask, if_neg hnot,
        hasQuoted_cons, or_iff_right hnot]
      by_cases hquote : c = 34
      · obtain ⟨h₁, h₂⟩ := (ih hl (n + 1)).2 [] (by omega)
        simp only [if_pos hquote, next, h₁, h₂]
        simp
      · obtain ⟨h₁, h₂⟩ := (ih hl n).1 hn
        simp only [if_neg hquote, next, h₁, h₂]
        simp
    · rw [List.cons_append, replaceCharBetweenQuotas, if_neg hzero, mask, hasQuoted_cons]
      by_cases hquote : c = 34
      · obtain ⟨h₁, h₂⟩ := (ih hl (n + 1)).1 (by omega)
        have hnot : ¬(c = f ∧ n % 2 = 1 ∧ 34 ∈ l) := fun h => hf (h.1.symm.trans hquote)
        simp only [if_pos hquote, if_neg hnot, next, h₁]
        subst hquote
        simp [h₂, hnot]
      · obtain ⟨h₁, h₂⟩ := (ih hl n).2 (quoted ++ [c]) hn
        have hmem : 34 ∈ c :: l ↔ 34 ∈ l := by simp [Ne.symm hquote]
        simp only [if_neg hquote, next, h₁, h₂, hmem]
        by_cases hin : 34 ∈ l
        · refine ⟨by simp [hin, hn], ?_⟩
          have happend : f ∈ quoted ++ [c] ↔ f ∈ quoted ∨ c = f := by simp [eq_comm]
          simp only [happend, hin, hn, true_and, and_true, or_assoc]
        · simp [hin]

/-- The replacement in a string, and whether something is replaced. -/
theorem replaceCharBetweenQuotas_eq {f : UInt8} (hf : f ≠ 34) (t : UInt8) {l : List UInt8}
    (hl : 0 ∉ l) (rest : List UInt8) :
    (replaceCharBetweenQuotas f t none (l ++ 0 :: rest)).1 = mask 34 f t 0 l ++ 0 :: rest ∧
      ((replaceCharBetweenQuotas f t none (l ++ 0 :: rest)).2 = true ↔ HasQuoted 34 f 0 l) :=
  (replaceCharBetweenQuotas_from hf t hl rest 0).1 rfl

/-- The bytes of a candidate. -/
theorem findReplaceToChar_spec (str : CString) :
    findReplaceToChar str ∉ str.bytes ∧ findReplaceToChar str ≠ 34 ∧ findReplaceToChar str ≠ 32 := by
  unfold findReplaceToChar
  cases h : replaceToStr.find? fun c => c ∉ str.bytes with
  | none => exact ⟨str.noNul, by decide, by decide⟩
  | some c =>
    have hmem : c ∈ replaceToStr := List.mem_of_find?_eq_some h
    have habs : c ∉ str.bytes := by simpa using List.find?_some h
    refine ⟨habs, ?_, ?_⟩ <;> rintro rfl <;> revert hmem <;> decide

/-- The text that the loop sees: blanks between quotes are replaced, and a zero byte ends it. -/
def maskedText (string : CString) : List UInt8 :=
  (mask 34 32 (findReplaceToChar string) 0 string.bytes).takeWhile (· ≠ 0)

/-- There are blanks between quotes, and no character is left to replace them by. -/
def Truncated (string : CString) : Prop :=
  findReplaceToChar string = 0 ∧ HasQuoted 34 32 0 string.bytes

variable {string : CString}

theorem nul_not_mem_maskedText (string : CString) : 0 ∉ maskedText string := by
  intro h
  simpa using List.mem_takeWhile_imp h

theorem maskedText_of_not_truncated (h : ¬Truncated string) :
    maskedText string = mask 34 32 (findReplaceToChar string) 0 string.bytes := by
  rw [maskedText, List.takeWhile_eq_self_iff]
  intro c hc
  have hne : c ≠ 0 := by
    rintro rfl
    by_cases hr : findReplaceToChar string = 0
    · rw [hr] at hc
      exact h ⟨hr, (mem_mask_self_iff 0 string.noNul).mp hc⟩
    · exact string.noNul (mem_of_mem_mask hc (Ne.symm hr))
  simpa using hne

/-- Without the text behind the first blank between quotes the string is shorter. -/
theorem length_maskedText_of_truncated (h : Truncated string) :
    (maskedText string).length + 2 ≤ string.bytes.length := by
  rw [maskedText, h.1]
  exact length_takeWhile_mask h.2

/-- The string is put back, unless it is truncated. -/
theorem split_mem_iff (string : CString) (separators : List UInt8) (withEmpty : Bool)
    (maxParts : ℤ) : (splitString string separators withEmpty maxParts).1 = string.toBuf ↔
      ¬Truncated string := by
  obtain ⟨habs, hquote, hblank⟩ := findReplaceToChar_spec string
  obtain ⟨hmem, hreplaced⟩ := replaceCharBetweenQuotas_eq (f := 32) (by decide)
    (findReplaceToChar string) string.noNul []
  unfold splitString
  by_cases hne : string.bytes = []
  · rw [if_pos hne]
    refine iff_of_true rfl fun h => not_hasQuoted_of_not_mem ?_ h.2
    rw [hne]
    exact List.not_mem_nil
  · rw [if_neg hne]
    dsimp only
    rw [CString.toBuf, hmem]
    by_cases hq : HasQuoted 34 32 0 string.bytes
    · rw [if_pos (hreplaced.mpr hq)]
      dsimp only
      by_cases hr : findReplaceToChar string = 0
      · -- the scan ends at the first zero byte
        refine iff_of_false ?_ fun h => h ⟨hr, hq⟩
        rw [hr] at habs ⊢
        have hzero := (mem_mask_self_iff 0 habs).mpr hq
        obtain ⟨pre, post, hsplit, hpre⟩ := List.eq_append_cons_of_mem hzero
        rw [hsplit, List.append_assoc, List.cons_append,
          (replaceCharBetweenQuotas_eq (f := 0) (by decide) 32 hpre (post ++ [0])).1,
          mask_eq_self 0 (not_hasQuoted_of_not_mem hpre)]
        intro h
        have heq : (pre ++ 0 :: post) ++ [0] = string.bytes ++ [0] := by simpa using h
        rw [← List.append_cancel_right heq] at habs
        simp at habs
      · refine iff_of_true ?_ fun h => hr h.1
        have hnul : 0 ∉ mask 34 32 (findReplaceToChar string) 0 string.bytes := fun h =>
          string.noNul (mem_of_mem_mask h (Ne.symm hr))
        rw [(replaceCharBetweenQuotas_eq hquote 32 hnul []).1,
          mask_mask (by decide) hquote 0 habs]
    · rw [if_neg fun h => hq (hreplaced.mp h), mask_eq_self 0 hq]
      exact iff_of_true rfl fun h => hq h.2

/-! ### Parts -/

/-- The parts that the loop and the step behind it make of a text with at most `n` cuts. -/
def cutParts (separators : List UInt8) (withEmpty : Bool) (n : ℕ) (text : List UInt8) :
    List (List UInt8) :=
  let r := pieces (· ∈ separators) [] n text
  r.1 ++ if withEmpty ∨ r.2 ≠ [] then [r.2] else []

/-- The number of cuts. -/
def cutLimit (maxParts : ℤ) (text : List UInt8) : ℕ :=
  if maxParts = 0 then text.length else (maxParts - 1).toNat

/-- The first byte is a separator and is cut at, though there must not be more than one part. -/
def StartCut (separators : List UInt8) (maxParts : ℤ) (text : List UInt8) : Prop :=
  maxParts ≠ 0 ∧ maxParts ≤ 1 ∧ ∃ c ∈ text.head?, c ∈ separators

/-- The loop takes the pieces before the next `n` separators, where `cur` lies between `leftBound` and
`rightBound`. -/
theorem splitLoop_eq {text separators front cur rest : List UInt8} (withEmpty : Bool)
    {maxParts : ℤ} {partsCount n : ℕ} (htext : text = front ++ (cur ++ rest))
    (hn : (maxParts = 0 ∧ rest.length ≤ n) ∨ (maxParts = partsCount + n + 1 ∧ 0 < n)) :
    splitLoop text separators withEmpty maxParts rest front.length (front.length + cur.length)
        partsCount =
      ((pieces (· ∈ separators) cur n rest).1,
        front.length + behind (pieces (· ∈ separators) cur n rest).1) := by
  induction rest generalizing front cur partsCount n with
  | nil => rfl
  | cons c rest ih =>
    have hpart : (text.drop front.length).take (front.length + cur.length - front.length) = cur := by
      rw [htext, List.drop_left, Nat.add_sub_cancel_left, List.take_left]
    have hbound : withEmpty = true ∨ front.length + cur.length ≥ front.length := .inr (by omega)
    obtain ⟨n, rfl⟩ : ∃ m, n = m + 1 := by
      refine ⟨n - 1, ?_⟩
      rw [List.length_cons] at hn
      omega
    rw [splitLoop, pieces]
    by_cases hc : c ∈ separators
    · rw [if_pos ⟨hc, hbound⟩, if_pos (decide_eq_true hc), hpart, behind_cons]
      dsimp only
      by_cases hlast : ((partsCount + 1 : ℕ) : ℤ) ≥ maxParts - 1 ∧ maxParts ≠ 0
      · have hzero : n = 0 := by omega
        rw [if_pos hlast, hzero, pieces_zero]
        rfl
      · have hfront : (front ++ (cur ++ [c])).length = front.length + cur.length + 1 := by
          simp [Nat.add_assoc]
        have hnext : splitLoop text separators withEmpty maxParts rest
            (front ++ (cur ++ [c])).length ((front ++ (cur ++ [c])).length + ([] : List UInt8).length)
            (partsCount + 1) =
              ((pieces (· ∈ separators) [] n rest).1,
                (front ++ (cur ++ [c])).length + behind (pieces (· ∈ separators) [] n rest).1) := by
          refine ih (by rw [htext]; simp) ?_
          rw [List.length_cons] at hn
          omega
        rw [hfront, List.length_nil, Nat.add_zero] at hnext
        rw [if_neg hlast, hnext]
        simp only [Nat.add_assoc]
    · have hlast : ¬((partsCount : ℤ) ≥ maxParts - 1 ∧ maxParts ≠ 0) := by omega
      have hnext : splitLoop text separators withEmpty maxParts rest front.length
          (front.length + (cur ++ [c]).length) partsCount =
            ((pieces (· ∈ separators) (cur ++ [c]) (n + 1) rest).1,
              front.length + behind (pieces (· ∈ separators) (cur ++ [c]) (n + 1) rest).1) := by
        refine ih (by rw [htext]; simp) ?_
        rw [List.length_cons] at hn
        omega
      rw [List.length_append, List.length_singleton, ← Nat.add_assoc] at hnext
      rw [if_neg fun h => hc h.1, if_neg hlast, if_neg (by simpa using hc), hnext]

/-- The parts before they are put back. -/
theorem splitLoop_parts {text separators : List UInt8} (withEmpty : Bool) {maxParts : ℤ}
    (h : ¬StartCut separators maxParts text) :
    (splitLoop text separators withEmpty maxParts text 0 0 0).1 ++
        (if withEmpty ∨ (splitLoop text separators withEmpty maxParts text 0 0 0).2 < text.length
          then [text.drop (splitLoop text separators withEmpty maxParts text 0 0 0).2] else []) =
      cutParts separators withEmpty (cutLimit maxParts text) text := by
  have hloop : splitLoop text separators withEmpty maxParts text 0 0 0 =
      ((pieces (· ∈ separators) [] (cutLimit maxParts text) text).1,
        behind (pieces (· ∈ separators) [] (cutLimit maxParts text) text).1) := by
    by_cases hone : maxParts ≠ 0 ∧ maxParts ≤ 1
    · -- the first byte is looked at, and then the loop ends
      have hlimit : cutLimit maxParts text = 0 := by
        rw [cutLimit, if_neg hone.1]
        omega
      rw [hlimit, pieces_zero]
      cases text with
      | nil => rfl
      | cons c rest =>
        have hc : c ∉ separators := fun hc => h ⟨hone.1, hone.2, c, rfl, hc⟩
        rw [splitLoop, if_neg fun h => hc h.1, if_pos (by omega)]
        rfl
    · have hlimit : (maxParts = 0 ∧ text.length ≤ cutLimit maxParts text) ∨
          (maxParts = (0 : ℕ) + cutLimit maxParts text + 1 ∧ 0 < cutLimit maxParts text) := by
        unfold cutLimit
        split_ifs <;> omega
      have hfrom : splitLoop text separators withEmpty maxParts text ([] : List UInt8).length
          (([] : List UInt8).length + ([] : List UInt8).length) 0 = _ :=
        splitLoop_eq withEmpty rfl hlimit
      simpa using hfrom
  obtain ⟨hle, hrest⟩ := pieces_rest (p := (· ∈ separators)) [] (cutLimit maxParts text) text
  rw [List.nil_append] at hle hrest
  rw [hloop, cutParts, hrest]
  dsimp only
  have hiff : behind (pieces (· ∈ separators) [] (cutLimit maxParts text) text).1 < text.length ↔
      text.drop (behind (pieces (· ∈ separators) [] (cutLimit maxParts text) text).1) ≠ [] := by
    rw [ne_eq, List.drop_eq_nil_iff]
    omega
  simp only [hiff]

theorem subset_of_mem_splitLoop {text separators : List UInt8} {withEmpty : Bool} {maxParts : ℤ}
    {rest part : List UInt8} {leftBound rightBound partsCount : ℕ}
    (h : part ∈ (splitLoop text separators withEmpty maxParts rest leftBound rightBound
      partsCount).1) : part ⊆ text := by
  induction rest generalizing leftBound rightBound partsCount with
  | nil => exact absurd h List.not_mem_nil
  | cons c rest ih =>
    have hfirst : (text.drop leftBound).take (rightBound - leftBound) ⊆ text := fun b hb =>
      List.mem_of_mem_drop (List.mem_of_mem_take hb)
    rw [splitLoop] at h
    dsimp only at h
    split_ifs at h
    · exact List.mem_singleton.mp h ▸ hfirst
    · rcases List.mem_cons.mp h with rfl | h
      · exact hfirst
      · exact ih h
    · exact absurd h List.not_mem_nil
    · exact ih h

/-- A part as it is returned. -/
theorem bytes_restored (string : CString) {part : List UInt8} (hpart : 0 ∉ part) :
    (CString.ofBuf (part ++ [0])).bytes = part ∧
      (CString.ofBuf (replaceCharBetweenQuotas (findReplaceToChar string) 32 none
        (part ++ [0])).1).bytes = mask 34 (findReplaceToChar string) 32 0 part := by
  refine ⟨CString.bytes_ofBuf_append_zero hpart, ?_⟩
  rw [(replaceCharBetweenQuotas_eq (findReplaceToChar_spec string).2.1 32 hpart []).1]
  exact CString.bytes_ofBuf_append_zero fun h => hpart (mem_of_mem_mask h (by decide))

/-- The array: the parts of the text that the loop sees, with the blanks put back. -/
theorem split_parts (hne : string.bytes ≠ []) (separators : List UInt8) (withEmpty : Bool)
    (maxParts : ℤ) :
    (splitString string separators withEmpty maxParts).2.map CString.bytes =
      let r := splitLoop (maskedText string) separators withEmpty maxParts
        (maskedText string) 0 0 0
      (r.1 ++ if withEmpty ∨ r.2 < (maskedText string).length then
        [(maskedText string).drop r.2] else []).map
          (mask 34 (findReplaceToChar string) 32 0) := by
  obtain ⟨habs, hquote, hblank⟩ := findReplaceToChar_spec string
  obtain ⟨hmem, hreplaced⟩ := replaceCharBetweenQuotas_eq (f := 32) (by decide)
    (findReplaceToChar string) string.noNul []
  have htext : (CString.ofBuf (mask 34 32 (findReplaceToChar string) 0 string.bytes ++ [0])).bytes =
      maskedText string := by
    rw [CString.ofBuf_append_nul]
    rfl
  unfold splitString
  rw [if_neg hne]
  dsimp only
  rw [CString.toBuf, hmem, htext]
  set r := splitLoop (maskedText string) separators withEmpty maxParts
    (maskedText string) 0 0 0
  set parts := r.1 ++ if withEmpty ∨ r.2 < (maskedText string).length then
    [(maskedText string).drop r.2] else [] with hparts
  have hsub : ∀ part ∈ parts, part ⊆ maskedText string := by
    intro part hpart
    rcases List.mem_append.mp hpart with hpart | hpart
    · exact subset_of_mem_splitLoop hpart
    · split_ifs at hpart
      · rw [List.mem_singleton.mp hpart]
        exact fun b hb => List.mem_of_mem_drop hb
      · exact absurd hpart List.not_mem_nil
  have hnul : ∀ part ∈ parts, 0 ∉ part := fun part hpart h =>
    nul_not_mem_maskedText string (hsub part hpart h)
  by_cases hq : HasQuoted 34 32 0 string.bytes
  · rw [if_pos (hreplaced.mpr hq)]
    dsimp only
    rw [List.map_map, List.map_map]
    exact List.map_congr_left fun part hpart => (bytes_restored string (hnul part hpart)).2
  · rw [if_neg fun h => hq (hreplaced.mp h)]
    dsimp only
    rw [List.map_map, List.map_map]
    refine List.map_congr_left fun part hpart => ?_
    have hmasked : maskedText string = string.bytes := by
      rw [maskedText_of_not_truncated fun h => hq h.2, mask_eq_self 0 hq]
    have hpartAbs : findReplaceToChar string ∉ part := fun h =>
      habs (hmasked ▸ hsub part hpart h)
    rw [mask_eq_self 0 (not_hasQuoted_of_not_mem hpartAbs)]
    exact (bytes_restored string (hnul part hpart)).1

/-! ### Split and combine -/

/-- The string is as before, and its parts give it back. -/
def RoundTrips (conv : IntConv) (string separator : CString) : Prop :=
  ∃ arr, ksnetStringArrSplit conv string separator true 0 = some (string.toBuf, arr) ∧
    ksnetStringArrCombine arr separator = some (some string)

/-- What `len` has to hold for an array. -/
def combinedLen (arr : List CString) (separator : CString) : ℕ :=
  (arr.map fun s => s.length + separator.length + 1).sum

theorem combine_eq_iff {arr : List CString} (hne : arr ≠ []) (separator string : CString) :
    ksnetStringArrCombine arr separator = some (some string) ↔
      combinedLen arr separator < 2 ^ 31 ∧
        separator.bytes.intercalate (arr.map CString.bytes) = string.bytes := by
  have hlen : combinedLen arr separator ≠ 0 := by
    obtain ⟨s, arr, rfl⟩ := List.exists_cons_of_ne_nil hne
    rw [combinedLen, List.map_cons, List.sum_cons]
    omega
  have htext : (concat (arr.intersperse separator)).bytes =
      separator.bytes.intercalate (arr.map CString.bytes) := by
    rw [List.intercalate, ← map_intersperse]
    exact List.flatMap_def
  have hcombine : ksnetStringArrCombine arr separator =
      if combinedLen arr separator < 2 ^ 31 then some (some (concat (arr.intersperse separator)))
      else none := if_neg hlen
  rw [hcombine, ← htext]
  split_ifs with hfits
  · rw [and_iff_right hfits, Option.some.injEq, Option.some.injEq]
    exact ⟨fun h => by rw [h], CString.ext⟩
  · exact iff_of_false (fun h => by cases h) fun h => hfits h.1

/-- A single separator is seen. -/
theorem seenSeparators_singleton (conv : IntConv) {separator : CString} {sep : UInt8}
    (hsep : separator.bytes = [sep]) : seenSeparators conv separator = [sep] := by
  have hlen : separator.length = 1 := by rw [CString.length, hsep, List.length_singleton]
  rw [seenSeparators, hlen, conv.toInt_of_lt (by decide), hsep]
  rfl

theorem split_all (hne : string.bytes ≠ []) (sep : UInt8) :
    (splitString string [sep] true 0).2.map CString.bytes =
      (split (· = sep) (maskedText string)).map (mask 34 (findReplaceToChar string) 32 0) := by
  have hstart : ¬StartCut [sep] 0 (maskedText string) := fun h => h.1 rfl
  have hpred : (fun c => decide (c ∈ [sep])) = fun c => decide (c = sep) := by simp
  rw [split_parts hne]
  dsimp only
  rw [splitLoop_parts true hstart, cutParts, split, cutLimit, if_pos rfl, if_pos (.inl rfl), hpred]

/-- The parts are as many as there are separators, and one. -/
theorem length_split_all (hne : string.bytes ≠ []) (sep : UInt8) :
    (splitString string [sep] true 0).2.length = (maskedText string).countP (· = sep) + 1 := by
  have hlen := congrArg List.length (split_all hne sep)
  rwa [List.length_map, List.length_map, length_split] at hlen

/-- The parts take the whole text. -/
theorem behind_split_all (hne : string.bytes ≠ []) (sep : UInt8) :
    behind ((splitString string [sep] true 0).2.map CString.bytes) =
      (maskedText string).length + 1 := by
  rw [split_all hne sep,
    behind_map fun piece => length_mask 34 (findReplaceToChar string) 32 0 piece, behind_split]

theorem combinedLen_eq (arr : List CString) {separator : CString} {sep : UInt8}
    (hsep : separator.bytes = [sep]) :
    combinedLen arr separator = behind (arr.map CString.bytes) + arr.length := by
  have hone : separator.length = 1 := by rw [CString.length, hsep, List.length_singleton]
  induction arr with
  | nil => rfl
  | cons s arr ih =>
    unfold combinedLen at ih ⊢
    rw [List.map_cons, List.sum_cons, ih, List.map_cons, behind_cons, List.length_cons, hone,
      CString.length]
    omega

/-- What `len` has to hold for the parts of a string. -/
theorem combinedLen_split (hne : string.bytes ≠ []) (htrunc : ¬Truncated string)
    {separator : CString} {sep : UInt8} (hsep : separator.bytes = [sep]) :
    combinedLen (splitString string [sep] true 0).2 separator =
      string.length + (maskedText string).countP (· = sep) + 2 := by
  have hmasked : (maskedText string).length = string.length := by
    rw [maskedText_of_not_truncated htrunc, length_mask, CString.length]
  rw [combinedLen_eq _ hsep, behind_split_all hne, length_split_all hne, hmasked]
  omega

/-- A length that `len` holds is not too long for the `int`s of the split. -/
theorem splitInts_of_lt (hne : string.bytes ≠ []) (htrunc : ¬Truncated string) {sep : UInt8}
    (h : string.length + (maskedText string).countP (· = sep) + 2 < 2 ^ 31) :
    SplitInts string 0 (splitString string [sep] true 0).2 := by
  have hmasked : (maskedText string).length = string.length := by
    rw [maskedText_of_not_truncated htrunc, length_mask, CString.length]
  have hle : (maskedText string).countP (· = sep) ≤ (maskedText string).length :=
    List.countP_le_length
  have hcount := length_split_all hne sep
  refine .inr ⟨by omega, by decide, by omega, fun part hpart => ?_⟩
  have hlt := length_lt_behind (List.mem_map_of_mem (f := CString.bytes) hpart)
  rw [behind_split_all hne] at hlt
  rw [CString.length]
  omega

/-- The split leaves the string as it was if its `int`s suffice and the string is not truncated. -/
theorem split_eq_some_iff (conv : IntConv) {separator : CString} {sep : UInt8}
    (hsep : separator.bytes = [sep]) (arr : List CString) :
    ksnetStringArrSplit conv string separator true 0 = some (string.toBuf, arr) ↔
      SplitInts string 0 (splitString string [sep] true 0).2 ∧ ¬Truncated string ∧
        (splitString string [sep] true 0).2 = arr := by
  rw [ksnetStringArrSplit, seenSeparators_singleton conv hsep, ← split_mem_iff string [sep] true 0]
  split_ifs with hints
  · rw [Option.some.injEq, Prod.ext_iff, and_iff_right hints]
  · exact iff_of_false (fun h => by cases h) fun h => hints h.1

theorem roundTrips_iff_intercalate (conv : IntConv) (hne : string.bytes ≠ []) {separator : CString}
    {sep : UInt8} (hsep : separator.bytes = [sep]) :
    RoundTrips conv string separator ↔
      string.length + (maskedText string).countP (· = sep) + 2 < 2 ^ 31 ∧ ¬Truncated string ∧
        [sep].intercalate ((split (· = sep) (maskedText string)).map
          (mask 34 (findReplaceToChar string) 32 0)) = string.bytes := by
  have harr : (splitString string [sep] true 0).2 ≠ [] := by
    intro h
    have hlen := length_split_all hne sep
    rw [h] at hlen
    cases hlen
  constructor
  · rintro ⟨arr, hsplit, hcombine⟩
    obtain ⟨-, htrunc, rfl⟩ := (split_eq_some_iff conv hsep arr).mp hsplit
    obtain ⟨hfits, htext⟩ := (combine_eq_iff harr separator string).mp hcombine
    rw [hsep, split_all hne] at htext
    exact ⟨combinedLen_split hne htrunc hsep ▸ hfits, htrunc, htext⟩
  · rintro ⟨hfits, htrunc, htext⟩
    refine ⟨_, (split_eq_some_iff conv hsep _).mpr ⟨splitInts_of_lt hne htrunc hfits, htrunc, rfl⟩,
      (combine_eq_iff harr separator string).mpr ⟨?_, ?_⟩⟩
    · rwa [combinedLen_split hne htrunc hsep]
    · rw [hsep, split_all hne, htext]

/-- Blanks are put back in the parts of a text without the character that stands for them where the
quotes of a pair are in one part. -/
theorem intercalate_restored_iff {masked : List UInt8} {sep r : UInt8} (hr : r ≠ 32) (hsep : sep ≠ r)
    {p : UInt8 → Bool} (hp : ∀ c, p c → c = sep) :
    [sep].intercalate ((split p masked).map (mask 34 r 32 0)) =
        masked.map (fun c => if c = r then 32 else c) ↔
      ∀ part ∈ split p masked, AllQuoted 34 r 0 part := by
  have hmap := intercalate_map (fun c => if c = r then 32 else c) sep (split p masked)
  rw [if_neg hsep, intercalate_split hp] at hmap
  rw [← hmap, intercalate_map_inj sep fun part _ => by rw [length_mask, List.length_map]]
  exact forall₂_congr fun part _ => mask_eq_map_iff hr 0 part

/-- **Split and combine.**  The parts give the string back, and the string is as before, exactly when
their lengths fit an `int`, and no blank is between quotes, or there is a character to replace such
blanks by, which is not the separator, and each of them is between two quotes of its part. -/
theorem roundTrips_iff (conv : IntConv) {separator : CString} {sep : UInt8}
    (hne : string.bytes ≠ []) (hsep : separator.bytes = [sep]) :
    RoundTrips conv string separator ↔
      string.length + (maskedText string).countP (· = sep) + 2 < 2 ^ 31 ∧
      (¬HasQuoted 34 32 0 string.bytes ∨
        (findReplaceToChar string ≠ 0 ∧ findReplaceToChar string ≠ sep ∧
          ∀ part ∈ split (· = sep) (mask 34 32 (findReplaceToChar string) 0 string.bytes),
            AllQuoted 34 (findReplaceToChar string) 0 part)) := by
  obtain ⟨habs, hquote, hblank⟩ := findReplaceToChar_spec string
  have hp : ∀ c : UInt8, decide (c = sep) = true → c = sep := fun c => of_decide_eq_true
  rw [roundTrips_iff_intercalate conv hne hsep]
  refine and_congr_right fun _ => ?_
  by_cases hq : HasQuoted 34 32 0 string.bytes
  · rw [or_iff_right (not_not_intro hq)]
    by_cases hr : findReplaceToChar string = 0
    · exact iff_of_false (fun h => h.1 ⟨hr, hq⟩) fun h => h.1 hr
    have htrunc : ¬Truncated string := fun h => hr h.1
    rw [maskedText_of_not_truncated htrunc, and_iff_right htrunc, and_iff_right hr]
    have hmem := (mem_mask_self_iff 0 habs).mpr hq
    by_cases hrs : findReplaceToChar string = sep
    · -- the blank is a separator now, and the text joined has the character in its place
      refine iff_of_false (fun h => ?_) fun h => h.1 hrs
      have htwo : 2 ≤ ((split (· = sep) (mask 34 32 (findReplaceToChar string) 0
          string.bytes)).map (mask 34 (findReplaceToChar string) 32 0)).length := by
        have hpos : 0 < (mask 34 32 (findReplaceToChar string) 0 string.bytes).countP (· = sep) :=
          List.countP_pos_iff.mpr ⟨_, hmem, decide_eq_true hrs⟩
        rw [List.length_map, length_split]
        omega
      have hsepmem : sep ∈ string.bytes := h ▸ mem_intercalate htwo
      exact habs (hrs ▸ hsepmem)
    · rw [and_iff_right hrs, ← intercalate_restored_iff hblank (Ne.symm hrs) hp, map_mask 0 habs]
  · have htrunc : ¬Truncated string := fun h => hq h.2
    rw [maskedText_of_not_truncated htrunc, and_iff_right htrunc, mask_eq_self 0 hq]
    refine iff_of_true ?_ (.inl hq)
    have hsame : (split (· = sep) string.bytes).map (mask 34 (findReplaceToChar string) 32 0) =
        split (· = sep) string.bytes := by
      refine (List.map_congr_left fun part hpart => ?_).trans (List.map_id _)
      have hpartAbs := fun h => habs (subset_of_mem_split hpart h)
      exact mask_eq_self 0 (not_hasQuoted_of_not_mem hpartAbs)
    rw [hsame, intercalate_split hp]

theorem roundTrips_iff_quoted :
    RoundTrips .lowBits (CString.ofBuf [34, 97, 32, 98, 34, 44, 99]) (CString.ofBuf [44]) := by
  have hsep : (CString.ofBuf [44]).bytes = [44] := rfl
  have hparts : split (· = 44) (mask 34 32
      (findReplaceToChar (CString.ofBuf [34, 97, 32, 98, 34, 44, 99])) 0
        (CString.ofBuf [34, 97, 32, 98, 34, 44, 99]).bytes) =
          [[34, 97, 95, 98, 34], [99]] := by
    decide +kernel
  have hr : findReplaceToChar (CString.ofBuf [34, 97, 32, 98, 34, 44, 99]) = 95 := by decide
  refine (roundTrips_iff .lowBits (by decide) hsep).mpr
    ⟨by decide +kernel, .inr ⟨by decide, by decide, ?_⟩⟩
  rw [hparts, hr]
  simp [allQuoted_cons, allQuoted_nil, next]

/-- `"a b,c"` is split between its quotes, and comes back as `"a_b,c"`.  With all the characters that
are tried in front of `" "`, the string itself is changed. -/
theorem not_roundTrips :
    ¬RoundTrips .lowBits (CString.ofBuf [34, 97, 32, 98, 44, 99, 34]) (CString.ofBuf [44]) ∧
      (ksnetStringArrSplit .lowBits (CString.ofBuf (replaceToStr ++ [34, 32, 34]))
        (CString.ofBuf [44]) true 0).map Prod.fst ≠
          some (CString.ofBuf (replaceToStr ++ [34, 32, 34])).toBuf := by
  constructor
  · rintro ⟨arr, hsplit, hcombine⟩
    have hback : (ksnetStringArrSplit .lowBits (CString.ofBuf [34, 97, 32, 98, 44, 99, 34])
        (CString.ofBuf [44]) true 0).map Prod.snd =
          some [CString.ofBuf [34, 97, 95, 98], CString.ofBuf [99, 34]] := by
      decide +kernel
    rw [hsplit] at hback
    obtain rfl := Option.some.inj hback
    exact absurd hcombine (by decide +kernel)
  · decide +kernel

end Teonet
