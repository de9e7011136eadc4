import Mathlib.Data.List.Infix
import Mathlib.Data.List.TakeWhile
import Mathlib.Tactic.SplitIfs
import Teonet.Lib.CString
import Teonet.Lib.Lalr

/-! # The text filter of the log

`log_string_match` writes the log between quotes in front of the filter, and has the scanner that
flex generates and the parser that bison generates read this text.  The parser leaves its result in
a global variable.

The scanner is `tokens`, with what it does at the front of a text in `yylexRule`.  The parser is the
skeleton of `Lalr` over the tables and the actions of the grammar. `tokens_finalLog` says which tokens
the text consists of, when the log has no quotes. -/

namespace Teonet

open Lalr

/-! ### The scanner -/

/-- The tokens, with the text of a word or a string. -/
inductive Token
  | string (s : List UInt8)
  | word (w : List UInt8)
  | logvar
  | and
  | or
  | not
  | newline
  | equals
  | lparen
  | rparen
  | comma
deriving DecidableEq

/-- `[a-z_]` -/
def wordChar (c : UInt8) : Bool := (97 ≤ c && c ≤ 122) || c == 95

/-- `"` -/
def quote : UInt8 := 34

/-- `logvar` -/
def logvarText : List UInt8 := [108, 111, 103, 118, 97, 114]

/-- The rules for one byte.  Blanks, and characters that are invalid, are skipped. -/
def charToken (c : UInt8) : Option Token :=
  if c = 33 then some .not
  else if c = 38 then some .and
  else if c = 124 then some .or
  else if c = 40 then some .lparen
  else if c = 41 then some .rparen
  else if c = 61 then some .equals
  else if c = 10 then some .newline
  else if c = 44 then some .comma
  else none

/-- `logvar` is no word: its rule stands before the one for words. -/
def wordToken (w : List UInt8) : Token := if w = logvarText then .logvar else .word w

/-- The rule with the longest match at the front of a text: its token, and the bytes that it takes.
A quote that is not closed is an invalid character. -/
def yylexRule : List UInt8 → Option Token × ℕ
  | [] => (none, 0)
  | c :: l =>
    if wordChar c then (some (wordToken ((c :: l).takeWhile wordChar)),
      ((c :: l).takeWhile wordChar).length)
    else if c = quote ∧ quote ∈ l then
      (some (.string (l.takeWhile (· ≠ quote))), (l.takeWhile (· ≠ quote)).length + 2)
    else (charToken c, 1)

/-- The calls of `yylex` up to the end of the text. -/
def tokensWith : ℕ → List UInt8 → List Token
  | 0, _ => []
  | fuel + 1, text =>
    if text = [] then []
    else (yylexRule text).1.toList ++ tokensWith fuel (text.drop (yylexRule text).2)

/-- The tokens that the calls of `yylex` return. -/
def tokens (text : List UInt8) : List Token := tokensWith text.length text

/-! ### What the scanner returns -/

theorem yylexRule_cons (c : UInt8) (l : List UInt8) :
    yylexRule (c :: l) =
      if wordChar c then (some (wordToken ((c :: l).takeWhile wordChar)),
        ((c :: l).takeWhile wordChar).length)
      else if c = quote ∧ quote ∈ l then
        (some (.string (l.takeWhile (· ≠ quote))), (l.takeWhile (· ≠ quote)).length + 2)
      else (charToken c, 1) := rfl

theorem yylexRule_pos (c : UInt8) (l : List UInt8) : 1 ≤ (yylexRule (c :: l)).2 := by
  rw [yylexRule_cons]
  split_ifs with hw hq
  · rw [List.takeWhile_cons_of_pos hw, List.length_cons]
    omega
  · dsimp only
    omega
  · exact Nat.le_refl 1

/-- The fuel does not matter. -/
theorem tokensWith_eq {fuel fuel' : ℕ} {text : List UInt8} (h : text.length ≤ fuel)
    (h' : text.length ≤ fuel') : tokensWith fuel text = tokensWith fuel' text := by
  induction fuel generalizing fuel' text with
  | zero =>
    obtain rfl : text = [] := List.length_eq_zero_iff.mp (by omega)
    cases fuel' with
    | zero => rfl
    | succ fuel' => rfl
  | succ fuel ih =>
    cases text with
    | nil =>
      cases fuel' with
      | zero => rfl
      | succ fuel' => rfl
    | cons c l =>
      obtain ⟨fuel', rfl⟩ : ∃ k, fuel' = k + 1 := ⟨fuel' - 1, by rw [List.length_cons] at h'; omega⟩
      have hpos := yylexRule_pos c l
      have hshort : ((c :: l).drop (yylexRule (c :: l)).2).length ≤ l.length := by
        rw [List.length_drop, List.length_cons]
        omega
      rw [List.length_cons] at h h'
      unfold tokensWith
      rw [if_neg (List.cons_ne_nil c l), if_neg (List.cons_ne_nil c l)]
      rw [@ih fuel' _ (by omega) (by omega)]

theorem tokens_cons (c : UInt8) (l : List UInt8) :
    tokens (c :: l) = (yylexRule (c :: l)).1.toList ++
      tokens ((c :: l).drop (yylexRule (c :: l)).2) := by
  have hpos := yylexRule_pos c l
  unfold tokens
  conv_lhs => rw [List.length_cons, tokensWith, if_neg (List.cons_ne_nil c l)]
  rw [tokensWith_eq (by rw [List.length_drop, List.length_cons]; omega) (Nat.le_refl _)]

/-- A word ends where no character of a word follows. -/
theorem tokens_word {w rest : List UInt8} (hne : w ≠ []) (hw : ∀ c ∈ w, wordChar c)
    (hrest : ∀ c ∈ rest.head?, wordChar c = false) :
    tokens (w ++ rest) = wordToken w :: tokens rest := by
  have hend : rest.takeWhile wordChar = [] := by
    cases rest with
    | nil => rfl
    | cons c l => exact List.takeWhile_cons_of_neg (by simp [hrest c rfl])
  have htake : (w ++ rest).takeWhile wordChar = w := by
    rw [List.takeWhile_append_of_pos hw, hend, List.append_nil]
  cases w with
  | nil => exact absurd rfl hne
  | cons c l =>
    have hrule : yylexRule (c :: l ++ rest) = (some (wordToken (c :: l)), (c :: l).length) := by
      rw [List.cons_append] at htake ⊢
      rw [yylexRule_cons, if_pos (hw c List.mem_cons_self), htake]
    rw [List.cons_append, tokens_cons, ← List.cons_append, hrule]
    dsimp only
    rw [List.drop_left]
    rfl

/-- A string ends at the next quote. -/
theorem tokens_quoted {s : List UInt8} (hs : quote ∉ s) (rest : List UInt8) :
    tokens (quote :: (s ++ quote :: rest)) = .string s :: tokens rest := by
  have htake : (s ++ quote :: rest).takeWhile (· ≠ quote) = s := by
    rw [List.takeWhile_append_of_pos fun c hc => decide_eq_true (ne_of_mem_of_not_mem hc hs),
      List.takeWhile_cons_of_neg (by simp), List.append_nil]
  have hrule : yylexRule (quote :: (s ++ quote :: rest)) = (some (.string s), s.length + 2) := by
    rw [yylexRule_cons, if_neg (by decide), if_pos ⟨rfl, by simp⟩, htake]
  rw [tokens_cons, hrule]
  dsimp only
  rw [List.drop_succ_cons, List.drop_append, List.drop_eq_nil_of_le (Nat.le_succ _),
    Nat.add_sub_cancel_left]
  rfl

/-- All other rules take one character. -/
theorem tokens_char {c : UInt8} {l : List UInt8} (hw : wordChar c = false)
    (hq : ¬ (c = quote ∧ quote ∈ l)) : tokens (c :: l) = (charToken c).toList ++ tokens l := by
  have hrule : yylexRule (c :: l) = (charToken c, 1) := by
    rw [yylexRule_cons, if_neg (by rw [hw]; decide), if_neg hq]
  rw [tokens_cons, hrule]
  rfl

/-- The three ways in which a text can begin. -/
theorem text_cases (c : UInt8) (l : List UInt8) :
    (∃ w rest, c :: l = w ++ rest ∧ w ≠ [] ∧ (∀ b ∈ w, wordChar b) ∧
      ∀ b ∈ rest.head?, wordChar b = false) ∨
    (∃ s rest, c = quote ∧ l = s ++ quote :: rest ∧ quote ∉ s) ∨
    (wordChar c = false ∧ ¬ (c = quote ∧ quote ∈ l)) := by
  by_cases hw : wordChar c
  · refine Or.inl ⟨(c :: l).takeWhile wordChar, (c :: l).dropWhile wordChar,
      List.takeWhile_append_dropWhile.symm, ?_, fun b hb => List.mem_takeWhile_imp hb, ?_⟩
    · rw [List.takeWhile_cons_of_pos hw]
      exact List.cons_ne_nil _ _
    · intro b hb
      have hnot := List.head?_dropWhile_not wordChar (c :: l)
      rw [Option.mem_def.mp hb] at hnot
      simpa using hnot
  · by_cases hq : c = quote ∧ quote ∈ l
    · obtain ⟨s, rest, hl, hs⟩ := List.eq_append_cons_of_mem hq.2
      exact Or.inr (Or.inl ⟨s, rest, hq.1, hl, hs⟩)
    · exact Or.inr (Or.inr ⟨Bool.eq_false_iff.mpr hw, hq⟩)

/-- A newline ends every token before it. -/
theorem tokens_append_newline (text : List UInt8) :
    tokens (text ++ [10]) = tokens text ++ [.newline] := by
  induction hn : text.length using Nat.strong_induction_on generalizing text with
  | _ n ih =>
    subst hn
    cases text with
    | nil => rfl
    | cons c l =>
      rcases text_cases c l with ⟨w, rest, htext, hne, hw, hrest⟩ | ⟨s, rest, rfl, rfl, hs⟩ |
        ⟨hw, hq⟩
      · have hrest' : ∀ b ∈ (rest ++ [10]).head?, wordChar b = false := by
          intro b hb
          cases rest with
          | nil =>
            obtain rfl := Option.some.inj hb
            decide
          | cons d r => exact hrest b hb
        have hpos := List.length_pos_of_ne_nil hne
        rw [htext, List.append_assoc, tokens_word hne hw hrest', tokens_word hne hw hrest,
          ih rest.length (by rw [htext, List.length_append]; omega) rest rfl]
        rfl
      · rw [List.cons_append, List.append_assoc, List.cons_append, tokens_quoted hs,
          tokens_quoted hs, ih rest.length (by simp only [List.length_cons, List.length_append]; omega)
            rest rfl]
        rfl
      · have hq' : ¬ (c = quote ∧ quote ∈ l ++ [10]) := by
          rintro ⟨hc, hmem⟩
          rcases List.mem_append.mp hmem with hl | hnew
          · exact hq ⟨hc, hl⟩
          · exact absurd (List.mem_singleton.mp hnew) (by decide)
        rw [List.cons_append, tokens_char hw hq', tokens_char hw hq,
          ih l.length (by rw [List.length_cons]; omega) l rfl, List.append_assoc]

/-! ### The parser -/

/-- The number of a token's symbol, `yytranslate`.  The grammar does not use the comma. -/
def Token.symbol : Token → ℕ
  | .comma => 2
  | .string _ => 3
  | .word _ => 4
  | .logvar => 5
  | .and => 6
  | .or => 7
  | .not => 8
  | .newline => 9
  | .equals => 10
  | .lparen => 11
  | .rparen => 12

/-- `YYSTYPE`; `unset` is a value that no action has set. -/
inductive YYSType
  | sValue (s : List UInt8)
  | iValue (i : ℤ)
  | unset
deriving DecidableEq

/-- `yylval`, which is set for words and strings. -/
def Token.yylval : Token → YYSType
  | .string s => .sValue s
  | .word w => .sValue w
  | _ => .unset

/-- The global variables `result` and `log_line`. -/
structure FilterState where
  result : ℤ := 0
  logLine : List UInt8 := []
deriving DecidableEq

/-- The size of `log_line`. -/
def logLineSize : ℕ := 1024

/-- `strstr`, as a truth value. -/
def strstr (s w : List UInt8) : ℤ := if w <:+: s then 1 else 0

/-- The actions of the rules.  The copy of a string into `log_line` has to leave room for the
terminator. -/
def filterAct : ℕ → List YYSType → FilterState → Option (YYSType × FilterState)
  | 2, v :: _, g => some (v, g)
  | 3, _, g => some (.unset, g)
  | 4, [.iValue i], g => some (.iValue i, { g with result := i })
  | 5, [v, _, .sValue s], g =>
    if s.length < logLineSize then some (v, { g with logLine := s }) else none
  | 6, [.sValue w], g => some (.iValue (strstr g.logLine w), g)
  | 7, [.iValue i, _, .iValue j], g => some (.iValue (if i = 1 ∨ j = 1 then 1 else 0), g)
  | 8, [.iValue i, _, .iValue j], g => some (.iValue (i * j), g)
  | 9, [_, .iValue i], g => some (.iValue (if i = 1 then 0 else 1), g)
  | 10, [_, .iValue i, _], g => some (.iValue i, g)
  | _, _, _ => none

/-- The tables of the grammar. -/
def filterTables : Tables where
  pact := [-10, 12, -10, -5, 5, 10, -2, -10, -10, -2, -2, 6, -3, -10, 4, -10, -2, -2, -10, -10, -10]
  defact := [3, 0, 1, 0, 0, 0, 0, 5, 6, 0, 0, 0, 4, 9, 0, 2, 0, 0, 10, 8, 7]
  pgoto := [-10, -10, -10, -10, -9]
  defgoto := [-1, 1, 11, 4, 12]
  table := [13, 14, 8, 16, 17, 5, 9, 19, 20, 10, 16, 17, 2, 7, 6, 15, 18, 3]
  check := [9, 10, 4, 6, 7, 10, 8, 16, 17, 11, 6, 7, 0, 3, 9, 9, 12, 5]
  r1 := [0, 13, 14, 14, 15, 16, 17, 17, 17, 17, 17]
  r2 := [0, 2, 5, 0, 1, 3, 1, 3, 3, 2, 3]
  pactNinf := -10
  last := 17
  ntokens := 13
  final := 2
  check_error := by decide

/-- `YYMAXDEPTH` is 10000, the largest size of the stack. -/
def filterParser : Parser YYSType FilterState Token where
  tables := filterTables
  symbol := Token.symbol
  value := Token.yylval
  garbage := .unset
  act := filterAct
  maxDepth := 10000

/-- `yyparse` -/
def yyparse (g : FilterState) (ts : List Token) : Except Fault (Outcome × FilterState) :=
  filterParser.loop (2 * ts.length + 8) ⟨[(0, .unset)], ts, g⟩

/-! ### The call -/

/-- `INT_MAX` -/
def intMax : ℕ := 2147483647

/-- `logvar="`, the log, `"`, a newline, the filter and a newline. -/
def finalLog (log filter : CString) : List UInt8 :=
  logvarText ++ 61 :: quote :: (log.bytes ++ quote :: 10 :: (filter.bytes ++ [10]))

/-- A log without quotes is the string of the text, and the filter is behind it. -/
theorem tokens_finalLog {log : CString} (h : quote ∉ log.bytes) (filter : CString) :
    tokens (finalLog log filter) =
      .logvar :: .equals :: .string log.bytes :: .newline :: (tokens filter.bytes ++ [.newline]) := by
  unfold finalLog
  rw [tokens_word (by decide) (List.all_eq_true.mp (by decide)) (by rintro c ⟨rfl⟩; decide),
    tokens_char (by decide) fun h => absurd h.1 (by decide), tokens_quoted h,
    tokens_char (by decide) fun h => absurd h.1 (by decide), tokens_append_newline]
  rfl

/-- `log_string_match`.  The length of the text, and the size of the scanner's copy of it, have to be
an `int`. -/
def logStringMatch (g : FilterState) (log filter : CString) : Option (ℤ × FilterState) :=
  if (finalLog log filter).length + 2 ≤ intMax then
    match yyparse g (tokens (finalLog log filter)) with
    | .ok (_, g') => some (if g'.result ≠ 0 then 1 else 0, g')
    | .error _ => none
  else none

end Teonet
