import Mathlib.Data.List.Lemmas
import Teonet.TextFilterGrammar

/-! # The text filter over its calls

The text of a call is a sequence of statements: a string that is assigned to `log_line`, and an
expression that is evaluated for it.  The parser takes statements from its front as long as there is
one, and the result of the last of them is what the call returns; where there is none, the call
returns the result of an earlier one.

`yyparse_of_last`, `yyparse_of_none` and `yyparse_of_overflow` say so.  `matchesFilter_iff` is the
consequence for the calls: when `log_string_match` evaluates its filter. -/

namespace Teonet

open Lalr

/-! ### Statements -/

/-- In front of the tokens stands a statement, with room for its expression on the stack.  What comes
behind an expression does not matter, when it is not an operator. -/
def StatementAt (ts : List Token) (s : List UInt8) (e : FilterExpr) (rest : List Token) : Prop :=
  ts = .logvar :: .equals :: .string s :: .newline :: (e.tokens ++ rest) ∧
    ¬ StartsWithOp rest ∧ e.height ≤ 9995

def HasStatement (ts : List Token) : Prop := ∃ s e rest, StatementAt ts s e rest

/-- The last one of the statements. -/
inductive LastStatement : List Token → List UInt8 → FilterExpr → Prop
  | last {ts rest : List Token} {s : List UInt8} {e : FilterExpr} :
      StatementAt ts s e rest → (∀ ts', rest = .newline :: ts' → ¬ HasStatement ts') →
      LastStatement ts s e
  | next {ts ts' : List Token} {s s' : List UInt8} {e e' : FilterExpr} :
      StatementAt ts s e (.newline :: ts') → LastStatement ts' s' e' → LastStatement ts s' e'

/-- A string is assigned to `log_line`, also where no expression follows. -/
inductive Assigns : List Token → List UInt8 → Prop
  | here {rest : List Token} {s : List UInt8} :
      Assigns (.logvar :: .equals :: .string s :: rest) s
  | later {ts ts' : List Token} {s s' : List UInt8} {e : FilterExpr} :
      StatementAt ts s e (.newline :: ts') → Assigns ts' s' → Assigns ts s'

/-- Every string that is assigned fits into `log_line`. -/
def Fits (ts : List Token) : Prop := ∀ s, Assigns ts s → s.length < logLineSize

theorem StatementAt.assigns {ts rest : List Token} {s : List UInt8} {e : FilterExpr}
    (h : StatementAt ts s e rest) : Assigns ts s := by
  obtain ⟨rfl, -⟩ := h
  exact .here

theorem StatementAt.length_eq {ts rest : List Token} {s : List UInt8} {e : FilterExpr}
    (h : StatementAt ts s e rest) : ts.length = 4 + e.tokens.length + rest.length := by
  obtain ⟨rfl, -⟩ := h
  simp only [List.length_cons, List.length_append]
  omega

theorem StatementAt.unique {ts rest rest' : List Token} {s s' : List UInt8} {e e' : FilterExpr}
    (h : StatementAt ts s e rest) (h' : StatementAt ts s' e' rest') :
    s = s' ∧ e = e' ∧ rest = rest' := by
  obtain ⟨rfl, hop, -⟩ := h
  obtain ⟨heq, hop', -⟩ := h'
  simp only [List.cons.injEq, Token.string.injEq, true_and] at heq
  exact ⟨heq.1, FilterExpr.tokens_inj hop hop' heq.2⟩

/-- Where there is a statement there is a last one. -/
theorem exists_lastStatement {ts : List Token} (h : HasStatement ts) :
    ∃ s e, LastStatement ts s e := by
  induction hn : ts.length using Nat.strong_induction_on generalizing ts with
  | _ n ih =>
    subst hn
    obtain ⟨s, e, rest, hat⟩ := h
    by_cases hmore : ∃ ts', rest = .newline :: ts' ∧ HasStatement ts'
    · obtain ⟨ts', rfl, hnext⟩ := hmore
      have hlength := hat.length_eq
      rw [List.length_cons] at hlength
      obtain ⟨s', e', hlast⟩ := ih ts'.length (by omega) hnext rfl
      exact ⟨s', e', .next hat hlast⟩
    · exact ⟨s, e, .last hat fun ts' hrest hnext => hmore ⟨ts', hrest, hnext⟩⟩

theorem LastStatement.hasStatement {ts : List Token} {s : List UInt8} {e : FilterExpr}
    (h : LastStatement ts s e) : HasStatement ts := by
  cases h with
  | last hat _ => exact ⟨_, _, _, hat⟩
  | next hat _ => exact ⟨_, _, _, hat⟩

/-! ### The parser over a statement -/

/-- The stack between two statements; `x` is what the last one has left there. -/
def between (x : YYSType) : List (ℕ × YYSType) := [(1, x), (0, .unset)]

section Rounds

variable {x : YYSType} {ts rest : List Token} {g : FilterState} {s : List UInt8} {e : FilterExpr}

theorem run_string (x : YYSType) (s : List UInt8) (ts : List Token) (g : FilterState) :
    Steps filterParser 3 ⟨between x, .logvar :: .equals :: .string s :: ts, g⟩
      ⟨(7, .sValue s) :: (5, .unset) :: (3, .unset) :: between x, ts, g⟩ := by
  have hlogvar : Steps filterParser 1 ⟨between x, .logvar :: .equals :: .string s :: ts, g⟩
      ⟨(3, .unset) :: between x, .equals :: .string s :: ts, g⟩ :=
    .shift (of_decide_eq_true rfl) (by decide) (by decide)
  have hequals : Steps filterParser 1 ⟨(3, .unset) :: between x, .equals :: .string s :: ts, g⟩
      ⟨(5, .unset) :: (3, .unset) :: between x, .string s :: ts, g⟩ :=
    .shift (of_decide_eq_true rfl) (by decide) (by decide)
  have hstring : Steps filterParser 1
      ⟨(5, .unset) :: (3, .unset) :: between x, .string s :: ts, g⟩
      ⟨(7, .sValue s) :: (5, .unset) :: (3, .unset) :: between x, ts, g⟩ :=
    .shift (of_decide_eq_true rfl) (by decide) rfl
  exact (hlogvar.trans hequals).trans hstring

/-- The string is copied. -/
theorem run_assignment (x : YYSType) (hs : s.length < logLineSize) (ts : List Token)
    (g : FilterState) :
    Steps filterParser 4 ⟨between x, .logvar :: .equals :: .string s :: ts, g⟩
      ⟨(4, .unset) :: between x, ts, { g with logLine := s }⟩ := by
  have hact : filterAct 5 [.unset, .unset, .sValue s] g =
      some (.unset, { g with logLine := s }) := if_pos hs
  exact (run_string x s ts g).trans (.reduce 5 (of_decide_eq_true rfl) (by decide) rfl rfl hact rfl)

theorem run_newline (x : YYSType) (ts : List Token) (g : FilterState) :
    Steps filterParser 1 ⟨(4, .unset) :: between x, .newline :: ts, g⟩
      ⟨(6, .unset) :: (4, .unset) :: between x, ts, g⟩ :=
  .shift (of_decide_eq_true rfl) (by decide) (by decide)

theorem action_statement {ts : List Token} (h : ¬ StartsWithOp ts) :
    filterTables.action 12 (filterParser.lookahead ts) = .reduce 4 := by
  cases ts with
  | nil => decide
  | cons t rest =>
    cases t with
    | and => exact absurd ⟨.and, rest, rfl⟩ h
    | or => exact absurd ⟨.or, rest, rfl⟩ h
    | _ => rfl

/-- **The parser over a statement**: the result is the value of the expression. -/
theorem run_statement (h : StatementAt ts s e rest) (x : YYSType) (hs : s.length < logLineSize)
    (g : FilterState) :
    ∃ n, n + 2 * rest.length ≤ 2 * ts.length ∧ Steps filterParser n ⟨between x, ts, g⟩
      ⟨(11, .iValue (intOf (e.value s))) :: (6, .unset) :: (4, .unset) :: between x, rest,
        { result := intOf (e.value s), logLine := s }⟩ := by
  obtain ⟨rfl, hop, hheight⟩ := h
  obtain ⟨o, t⟩ := e
  unfold FilterExpr.height at hheight
  unfold FilterExpr.tokens
  dsimp only at hheight ⊢
  rw [List.append_assoc]
  obtain ⟨n, hn, hfirst⟩ := o.run (s := 6) (by decide) .unset ((4, .unset) :: between x)
    (by show 4 + o.height < 10000; omega) (t.tokens ++ rest) { g with logLine := s }
  obtain ⟨m, hm, hrest⟩ := t.run (s := 6) (by decide) .unset ((4, .unset) :: between x)
    (by show 4 + t.height < 10000; omega) rest { g with logLine := s } (o.value s)
  have hreduce : Steps filterParser 1
      ⟨(12, .iValue (intOf (t.value s (o.value s)))) :: (6, .unset) :: (4, .unset) :: between x,
        rest, { g with logLine := s }⟩
      ⟨(11, .iValue (intOf (t.value s (o.value s)))) :: (6, .unset) :: (4, .unset) :: between x,
        rest, { result := intOf (t.value s (o.value s)), logLine := s }⟩ :=
    .reduce 4 (of_decide_eq_true rfl) (by decide) (action_statement hop) rfl rfl rfl
  refine ⟨4 + 1 + n + m + 1, ?_,
    ((((run_assignment x hs _ g).trans (run_newline x _ _)).trans hfirst).trans hrest).trans
      hreduce⟩
  simp only [List.length_cons, List.length_append]
  omega

/-- The newline behind a statement. -/
theorem run_next (x : YYSType) (i : ℤ) (ts : List Token) (g : FilterState) :
    Steps filterParser 2
      ⟨(11, .iValue i) :: (6, .unset) :: (4, .unset) :: between x, .newline :: ts, g⟩
      ⟨between x, ts, g⟩ := by
  have hshift : Steps filterParser 1
      ⟨(11, .iValue i) :: (6, .unset) :: (4, .unset) :: between x, .newline :: ts, g⟩
      ⟨(15, .unset) :: (11, .iValue i) :: (6, .unset) :: (4, .unset) :: between x, ts, g⟩ :=
    .shift (of_decide_eq_true rfl) (by decide) (by decide)
  exact hshift.trans (.reduce 2 (of_decide_eq_true rfl) (by decide) rfl rfl rfl rfl)

/-! ### Where the parser stops -/

/-- The tables allow one symbol only in a state. -/
def Expects (q n : ℕ) : Prop := q ≠ 2 ∧ ∀ a < 13, a ≠ n → filterTables.action q a = .error

theorem lookahead_lt (ts : List Token) : filterParser.lookahead ts < 13 := by
  cases ts with
  | nil => decide
  | cons t rest => cases t <;> exact of_decide_eq_true rfl

theorem stops_unexpected {q n m : ℕ} {v : YYSType} {st : List (ℕ × YYSType)} (h : Expects q n)
    (hdepth : st.length + 1 < 10000) (hts : filterParser.lookahead ts ≠ n) :
    Stops filterParser m ⟨(q, v) :: st, ts, g⟩ :=
  stops_error hdepth h.1 (h.2 _ (lookahead_lt ts) hts)

theorem expects_equals : Expects 3 10 := by unfold Expects; decide

theorem expects_string : Expects 5 3 := by unfold Expects; decide

theorem expects_newline : Expects 4 9 := by unfold Expects; decide

theorem expects_end : Expects 11 9 := by unfold Expects; decide

theorem lookahead_newline (h : ¬ ∃ rest, ts = .newline :: rest) : filterParser.lookahead ts ≠ 9 := by
  cases ts with
  | nil => decide
  | cons t rest =>
    cases t with
    | newline => exact absurd ⟨rest, rfl⟩ h
    | _ => exact of_decide_eq_true rfl

/-- Between two statements: the end of the text, a string for `log_line`, or an error. -/
theorem assignment_or_stops (x : YYSType) (ts : List Token) (g : FilterState) :
    ts = [] ∨ (∃ s rest, ts = .logvar :: .equals :: .string s :: rest) ∨
      Stops filterParser (2 * ts.length) ⟨between x, ts, g⟩ := by
  cases ts with
  | nil => exact Or.inl rfl
  | cons t ts =>
    refine Or.inr ?_
    rw [List.length_cons]
    cases t with
    | logvar =>
      have hlogvar : Steps filterParser 1 ⟨between x, .logvar :: ts, g⟩
          ⟨(3, .unset) :: between x, ts, g⟩ :=
        .shift (of_decide_eq_true rfl) (by decide) (by decide)
      by_cases hequals : ∃ rest, ts = .equals :: rest
      · obtain ⟨ts, rfl⟩ := hequals
        have hshift : Steps filterParser 1 ⟨(3, .unset) :: between x, .equals :: ts, g⟩
            ⟨(5, .unset) :: (3, .unset) :: between x, ts, g⟩ :=
          .shift (of_decide_eq_true rfl) (by decide) (by decide)
        by_cases hstring : ∃ s rest, ts = .string s :: rest
        · obtain ⟨s, rest, rfl⟩ := hstring
          exact Or.inl ⟨s, rest, rfl⟩
        · refine Or.inr (.after (m := 0) (hlogvar.trans hshift) rfl
            (stops_unexpected expects_string (of_decide_eq_true rfl) ?_) (by omega))
          cases ts with
          | nil => decide
          | cons t rest =>
            cases t with
            | string s => exact absurd ⟨s, rest, rfl⟩ hstring
            | _ => exact of_decide_eq_true rfl
      · refine Or.inr (.after (m := 0) hlogvar rfl
          (stops_unexpected expects_equals (of_decide_eq_true rfl) ?_) (by omega))
        cases ts with
        | nil => decide
        | cons t rest =>
          cases t with
          | equals => exact absurd ⟨rest, rfl⟩ hequals
          | _ => exact of_decide_eq_true rfl
    | _ => exact Or.inr (stops_error (of_decide_eq_true rfl) (by decide) rfl)

/-- Behind a string, and a newline, an expression is evaluated or the parser stops. -/
theorem expression_or_stops (x : YYSType) (s : List UInt8) (ts : List Token) (g : FilterState) :
    HasStatement (.logvar :: .equals :: .string s :: ts) ∨
      Stops filterParser (2 * ts.length) ⟨(4, .unset) :: between x, ts, g⟩ := by
  by_cases hnewline : ∃ rest, ts = .newline :: rest
  swap
  · exact Or.inr (stops_unexpected expects_newline (of_decide_eq_true rfl)
      (lookahead_newline hnewline))
  obtain ⟨ts, rfl⟩ := hnewline
  rw [List.length_cons]
  have hshift := run_newline x ts g
  rcases (parses_or_stops ts).1 6 (by decide) .unset ((4, .unset) :: between x) g with
    ⟨o, rest, rfl, hroom⟩ | hstop
  swap
  · exact Or.inr (.after hshift rfl hstop (by omega))
  obtain ⟨n, hn, hrun⟩ := o.run (s := 6) (by decide) .unset ((4, .unset) :: between x) hroom rest g
  rcases (parses_or_stops rest).2 6 (by decide) (o.value g.logLine) .unset
    ((4, .unset) :: between x) g with ⟨t, rest, rfl, hop, hroom'⟩ | hstop
  · have ho : 4 + o.height < 10000 := hroom
    have ht : 4 + t.height < 10000 := hroom'
    refine Or.inl ⟨s, ⟨o, t⟩, rest, ?_, hop, ?_⟩
    · rw [FilterExpr.tokens, List.append_assoc]
    · unfold FilterExpr.height
      dsimp only
      omega
  · exact Or.inr (.after (hshift.trans hrun) rfl hstop (by rw [List.length_append]; omega))

/-- **Where there is no statement** the result stays what it is. -/
theorem loop_of_none (hnone : ¬ HasStatement ts) (hfits : Fits ts) (x : YYSType) (g : FilterState)
    (fuel : ℕ) (hfuel : 2 * ts.length + 1 < fuel) :
    ∃ o g', filterParser.loop fuel ⟨between x, ts, g⟩ = .ok (o, g') ∧ g'.result = g.result := by
  rcases assignment_or_stops x ts g with rfl | ⟨s, rest, rfl⟩ | hstop
  · obtain ⟨fuel, rfl⟩ : ∃ k, fuel = 2 + k := ⟨fuel - 2, by omega⟩
    exact ⟨.accepted, g, by rw [Nat.add_comm]; rfl, rfl⟩
  · have hassign := run_assignment x (hfits s .here) rest g
    rcases expression_or_stops x s rest { g with logLine := s } with hat | hstop
    · exact absurd hat hnone
    · simp only [List.length_cons] at hfuel
      obtain ⟨fuel, rfl⟩ : ∃ k, fuel = 4 + k := ⟨fuel - 4, by omega⟩
      obtain ⟨o, hloop⟩ := hstop.loop_eq fuel (by omega)
      exact ⟨o, _, (loop_of_steps hassign fuel).trans hloop, rfl⟩
  · obtain ⟨o, hloop⟩ := hstop.loop_eq fuel (by omega)
    exact ⟨o, g, hloop, rfl⟩

/-- **Where there is a statement** the result is the value of the last one. -/
theorem loop_of_last (h : LastStatement ts s e) (hfits : Fits ts) (x : YYSType) (g : FilterState)
    (fuel : ℕ) (hfuel : 2 * ts.length + 1 < fuel) :
    ∃ o g', filterParser.loop fuel ⟨between x, ts, g⟩ = .ok (o, g') ∧
      g'.result = intOf (e.value s) := by
  induction h generalizing g fuel with
  | @last ts rest s e hat hlast =>
    obtain ⟨n, hn, hrun⟩ := run_statement hat x (hfits s hat.assigns) g
    obtain ⟨fuel, rfl⟩ : ∃ k, fuel = n + k := ⟨fuel - n, by omega⟩
    rw [loop_of_steps hrun]
    by_cases hnewline : ∃ ts', rest = .newline :: ts'
    · obtain ⟨ts', rfl⟩ := hnewline
      rw [List.length_cons] at hn
      obtain ⟨fuel, rfl⟩ : ∃ k, fuel = 2 + k := ⟨fuel - 2, by omega⟩
      rw [loop_of_steps (run_next x _ ts' _)]
      exact loop_of_none (hlast ts' rfl) (fun s' hs' => hfits s' (.later hat hs')) x _ fuel (by omega)
    · have hstop : Stops filterParser 0 ⟨(11, .iValue (intOf (e.value s))) :: (6, .unset) ::
          (4, .unset) :: between x, rest, { result := intOf (e.value s), logLine := s }⟩ :=
        stops_unexpected expects_end (of_decide_eq_true rfl) (lookahead_newline hnewline)
      obtain ⟨o, hloop⟩ := hstop.loop_eq fuel (by omega)
      exact ⟨o, _, hloop, rfl⟩
  | @next ts ts' s s' e e' hat _ ih =>
    obtain ⟨n, hn, hrun⟩ := run_statement hat x (hfits s hat.assigns) g
    rw [List.length_cons] at hn
    obtain ⟨fuel, rfl⟩ : ∃ k, fuel = n + (2 + k) := ⟨fuel - n - 2, by omega⟩
    rw [loop_of_steps hrun, loop_of_steps (run_next x _ ts' _)]
    exact ih (fun s' hs' => hfits s' (.later hat hs')) _ fuel (by omega)

/-- A string that is too long is copied behind the end of `log_line`. -/
theorem loop_of_overflow (h : Assigns ts s) (hs : logLineSize ≤ s.length) (x : YYSType)
    (g : FilterState) {fuel : ℕ} (hfuel : 2 * ts.length + 1 < fuel) :
    filterParser.loop fuel ⟨between x, ts, g⟩ = .error .undefined := by
  have hoverflow : ∀ (s : List UInt8), logLineSize ≤ s.length → ∀ (rest : List Token)
      (g : FilterState) (fuel : ℕ), 3 < fuel →
      filterParser.loop fuel ⟨between x, .logvar :: .equals :: .string s :: rest, g⟩ =
        .error .undefined := by
    intro s hs rest g fuel hfuel
    obtain ⟨fuel, rfl⟩ : ∃ k, fuel = 3 + (k + 1) := ⟨fuel - 4, by omega⟩
    have hact : filterAct 5 [.unset, .unset, .sValue s] g = none := if_neg (not_lt.mpr hs)
    rw [loop_of_steps (run_string x s rest g), Parser.loop,
      step_undefined 5 (of_decide_eq_true rfl) (by decide) rfl hact]
  induction h generalizing g fuel with
  | @here rest s =>
    simp only [List.length_cons] at hfuel
    exact hoverflow s hs rest g fuel (by omega)
  | @later ts ts' s s' e hat _ ih =>
    by_cases hlong : logLineSize ≤ s.length
    · have hlength := hat.length_eq
      obtain ⟨rfl, -⟩ := hat
      exact hoverflow s hlong _ g fuel (by omega)
    · obtain ⟨n, hn, hrun⟩ := run_statement hat x (not_le.mp hlong) g
      rw [List.length_cons] at hn
      obtain ⟨fuel, rfl⟩ : ∃ k, fuel = n + (2 + k) := ⟨fuel - n - 2, by omega⟩
      rw [loop_of_steps hrun, loop_of_steps (run_next x _ ts' _)]
      exact ih hs _ (by omega)

/-! ### The parser over a text -/

theorem yyparse_eq (g : FilterState) (ts : List Token) :
    yyparse g ts = filterParser.loop (2 * ts.length + 7) ⟨between .unset, ts, g⟩ := by
  have hstart : Steps filterParser 1 ⟨[(0, .unset)], ts, g⟩ ⟨between .unset, ts, g⟩ :=
    .reduce 3 (of_decide_eq_true rfl) (by decide) rfl rfl rfl rfl
  have hloop := loop_of_steps hstart (2 * ts.length + 7)
  rw [show 1 + (2 * ts.length + 7) = 2 * ts.length + 8 by omega] at hloop
  exact hloop

end Rounds

/-! ### The calls -/

/-- One call after the other, from the start of the program. -/
def filterCalls (calls : List (CString × CString)) : Option FilterState :=
  calls.foldlM (fun g c => (logStringMatch g c.1 c.2).map Prod.snd) {}

/-- After any earlier calls the call returns `i`. -/
def Returns (log filter : CString) (i : ℤ) : Prop :=
  ∀ calls g, filterCalls calls = some g → (logStringMatch g log filter).map Prod.fst = some i

/-- The filter is generated by the grammar. -/
def Generates (filter : CString) (e : FilterExpr) : Prop := tokens filter.bytes = e.tokens

/-- What the filter is for: the call returns the value of the filter for the log.  When it is not
generated by the grammar, the call returns the same after all calls. -/
def MatchesFilter (log filter : CString) : Prop :=
  (∀ e, Generates filter e → Returns log filter (intOf (e.value log.bytes))) ∧
    ((¬ ∃ e, Generates filter e) → ∃ i, Returns log filter i)

/-- The text of the call is not too long for an `int`, every string that is assigned fits into
`log_line`, and there is a last statement, which has the value of the filter for the log.  The value
only matters for a log with a quote, which may end the string that the log is put into: without one the
last statement is the filter's own (`readsFilter_iff_of_plain`).  A filter that the grammar does not
generate has no value to compare with. -/
def ReadsFilter (log filter : CString) : Prop :=
  (finalLog log filter).length + 2 ≤ intMax ∧ Fits (tokens (finalLog log filter)) ∧
    ∃ s e, LastStatement (tokens (finalLog log filter)) s e ∧
      ∀ e', Generates filter e' → e.value s = e'.value log.bytes

section Call

variable {log filter : CString} {s : List UInt8} {e : FilterExpr}

theorem intOf_inj {a b : Bool} (h : intOf a = intOf b) : a = b := by
  cases a <;> cases b <;> first | rfl | exact absurd h (by decide)

theorem logStringMatch_eq (g : FilterState) (hsize : (finalLog log filter).length + 2 ≤ intMax) :
    (logStringMatch g log filter).map Prod.fst =
      match yyparse g (tokens (finalLog log filter)) with
      | .ok (_, g') => some (if g'.result ≠ 0 then 1 else 0)
      | .error _ => none := by
  unfold logStringMatch
  rw [if_pos hsize]
  cases yyparse g (tokens (finalLog log filter)) with
  | ok r => rfl
  | error f => rfl

theorem logStringMatch_of_last (hsize : (finalLog log filter).length + 2 ≤ intMax)
    (hfits : Fits (tokens (finalLog log filter)))
    (hlast : LastStatement (tokens (finalLog log filter)) s e) (g : FilterState) :
    (logStringMatch g log filter).map Prod.fst = some (intOf (e.value s)) := by
  obtain ⟨o, g', hloop, hresult⟩ := loop_of_last hlast hfits .unset g
    (2 * (tokens (finalLog log filter)).length + 7) (by omega)
  rw [logStringMatch_eq g hsize, yyparse_eq, hloop]
  dsimp only
  rw [hresult]
  cases e.value s <;> rfl

theorem logStringMatch_of_none (hsize : (finalLog log filter).length + 2 ≤ intMax)
    (hfits : Fits (tokens (finalLog log filter)))
    (hnone : ¬ HasStatement (tokens (finalLog log filter))) (g : FilterState) :
    (logStringMatch g log filter).map Prod.fst = some (if g.result ≠ 0 then 1 else 0) := by
  obtain ⟨o, g', hloop, hresult⟩ := loop_of_none hnone hfits .unset g
    (2 * (tokens (finalLog log filter)).length + 7) (by omega)
  rw [logStringMatch_eq g hsize, yyparse_eq, hloop]
  dsimp only
  rw [hresult]

/-- The letter `a`. -/
def letterA : CString := CString.ofBuf [97]

/-- A call that returns the same after all calls is defined, and reads a statement. -/
theorem Returns.reads {i : ℤ} (h : Returns log filter i) :
    (finalLog log filter).length + 2 ≤ intMax ∧ Fits (tokens (finalLog log filter)) ∧
      HasStatement (tokens (finalLog log filter)) := by
  have hstart := h [] {} rfl
  have hsize : (finalLog log filter).length + 2 ≤ intMax := by
    by_contra hlong
    unfold logStringMatch at hstart
    rw [if_neg hlong] at hstart
    cases hstart
  have hfits : Fits (tokens (finalLog log filter)) := by
    intro s hs
    by_contra hlong
    rw [logStringMatch_eq {} hsize, yyparse_eq,
      loop_of_overflow hs (not_lt.mp hlong) .unset {} (by omega)] at hstart
    cases hstart
  refine ⟨hsize, hfits, ?_⟩
  by_contra hnone
  -- without a statement, the result is the one of an earlier call
  have hafter := h [(letterA, letterA)] ⟨1, [97]⟩ (by decide +kernel)
  rw [logStringMatch_of_none hsize hfits hnone] at hstart hafter
  exact absurd (hstart.trans hafter.symm) (by decide)

theorem matchesFilter_iff_readsFilter : MatchesFilter log filter ↔ ReadsFilter log filter := by
  constructor
  · rintro ⟨hvalue, hsame⟩
    obtain ⟨i, hreturns⟩ : ∃ i, Returns log filter i := by
      by_cases hgen : ∃ e, Generates filter e
      · obtain ⟨e, he⟩ := hgen
        exact ⟨_, hvalue e he⟩
      · exact hsame hgen
    obtain ⟨hsize, hfits, hstatement⟩ := hreturns.reads
    obtain ⟨s, e, hlast⟩ := exists_lastStatement hstatement
    refine ⟨hsize, hfits, s, e, hlast, fun e' he' => ?_⟩
    have hreturn := hvalue e' he' [] {} rfl
    rw [logStringMatch_of_last hsize hfits hlast] at hreturn
    exact intOf_inj (Option.some.inj hreturn)
  · rintro ⟨hsize, hfits, s, e, hlast, hagree⟩
    refine ⟨fun e' he' calls g _ => ?_, fun _ => ⟨intOf (e.value s), fun calls g _ => ?_⟩⟩
    · rw [logStringMatch_of_last hsize hfits hlast, hagree e' he']
    · exact logStringMatch_of_last hsize hfits hlast g

/-! ### Logs without quotes -/

/-- The first line of the filter begins with an expression, for which there is room on the stack, and
that is not followed by an operator. -/
def BeginsWithExpression (filter : CString) : Prop :=
  ∃ (e : FilterExpr) (rest : List Token), tokens filter.bytes ++ [.newline] = e.tokens ++ rest ∧
    ¬ StartsWithOp rest ∧ e.height ≤ 9995

theorem statementAt_finalLog_iff (hq : quote ∉ log.bytes) {rest : List Token} :
    StatementAt (tokens (finalLog log filter)) s e rest ↔
      s = log.bytes ∧ tokens filter.bytes ++ [.newline] = e.tokens ++ rest ∧
        ¬ StartsWithOp rest ∧ e.height ≤ 9995 := by
  unfold StatementAt
  rw [tokens_finalLog hq]
  simp only [List.cons.injEq, Token.string.injEq, true_and, and_assoc, eq_comm]

theorem hasStatement_finalLog_iff (hq : quote ∉ log.bytes) :
    HasStatement (tokens (finalLog log filter)) ↔ BeginsWithExpression filter := by
  constructor
  · rintro ⟨s, e, rest, h⟩
    exact ⟨e, rest, ((statementAt_finalLog_iff hq).mp h).2⟩
  · rintro ⟨e, rest, h⟩
    exact ⟨log.bytes, e, rest, (statementAt_finalLog_iff hq).mpr ⟨rfl, h⟩⟩

theorem not_startsWithOp_newline (ts : List Token) : ¬ StartsWithOp (.newline :: ts) := by
  rintro ⟨op, rest, h⟩
  cases op <;> exact absurd (List.cons.inj h).1 (by decide)

/-- A filter of the grammar makes one statement. -/
theorem StatementAt.of_generates (hq : quote ∉ log.bytes) {e' : FilterExpr}
    (he : Generates filter e') {rest : List Token}
    (h : StatementAt (tokens (finalLog log filter)) s e rest) :
    s = log.bytes ∧ e = e' ∧ rest = [.newline] := by
  obtain ⟨hs, htokens, hop, -⟩ := (statementAt_finalLog_iff hq).mp h
  rw [he] at htokens
  obtain ⟨heq, hrest⟩ := FilterExpr.tokens_inj (not_startsWithOp_newline []) hop htokens
  exact ⟨hs, heq.symm, hrest.symm⟩

theorem not_hasStatement_nil : ¬ HasStatement [] := by
  rintro ⟨s, e, rest, h, -⟩
  cases h

theorem LastStatement.of_generates (hq : quote ∉ log.bytes) {e' : FilterExpr}
    (he : Generates filter e') (h : LastStatement (tokens (finalLog log filter)) s e) :
    s = log.bytes ∧ e = e' := by
  cases h with
  | last hat _ =>
    obtain ⟨hs, heq, -⟩ := hat.of_generates hq he
    exact ⟨hs, heq⟩
  | next hat hlast =>
    obtain ⟨-, -, hrest⟩ := hat.of_generates hq he
    obtain rfl := (List.cons.inj hrest).2
    exact absurd hlast.hasStatement not_hasStatement_nil

theorem readsFilter_iff_of_plain (hq : quote ∉ log.bytes) :
    ReadsFilter log filter ↔ (finalLog log filter).length + 2 ≤ intMax ∧
      Fits (tokens (finalLog log filter)) ∧ BeginsWithExpression filter := by
  rw [← hasStatement_finalLog_iff hq]
  constructor
  · rintro ⟨hsize, hfits, s, e, hlast, -⟩
    exact ⟨hsize, hfits, hlast.hasStatement⟩
  · rintro ⟨hsize, hfits, hstatement⟩
    obtain ⟨s, e, hlast⟩ := exists_lastStatement hstatement
    refine ⟨hsize, hfits, s, e, hlast, fun e' he' => ?_⟩
    obtain ⟨rfl, rfl⟩ := hlast.of_generates hq he'
    rfl

theorem not_assigns_nil : ¬ Assigns [] s := by
  intro h
  cases h with
  | later hat _ => exact not_hasStatement_nil ⟨_, _, _, hat⟩

theorem Assigns.of_generates (hq : quote ∉ log.bytes) (he : Generates filter e)
    (h : Assigns (tokens (finalLog log filter)) s) : s = log.bytes := by
  generalize hts : tokens (finalLog log filter) = ts at h
  cases h with
  | here =>
    rw [tokens_finalLog hq] at hts
    simp only [List.cons.injEq, Token.string.injEq, true_and] at hts
    exact hts.1.symm
  | later hat hassigns =>
    rw [← hts] at hat
    obtain ⟨-, -, hrest⟩ := hat.of_generates hq he
    obtain rfl := (List.cons.inj hrest).2
    exact absurd hassigns not_assigns_nil

theorem fits_iff_of_generates (hq : quote ∉ log.bytes) (he : Generates filter e) :
    Fits (tokens (finalLog log filter)) ↔ log.length < logLineSize := by
  constructor
  · intro h
    apply h
    rw [tokens_finalLog hq]
    exact .here
  · intro h s hs
    rw [hs.of_generates hq he]
    exact h

theorem beginsWithExpression_iff_of_generates (he : Generates filter e) :
    BeginsWithExpression filter ↔ e.height ≤ 9995 := by
  unfold BeginsWithExpression
  rw [he]
  constructor
  · rintro ⟨e', rest, htokens, hop, hheight⟩
    obtain ⟨rfl, -⟩ := FilterExpr.tokens_inj (not_startsWithOp_newline []) hop htokens
    exact hheight
  · intro h
    exact ⟨e, [.newline], rfl, not_startsWithOp_newline [], h⟩

end Call

/-- **The text filter** evaluates its filter exactly when `ReadsFilter` holds.  For a log without
quotes this says nothing about values: the lengths are small enough, and the filter begins with an
expression.  For a filter of the grammar the lengths, and its height, are all that matters. -/
theorem matchesFilter_iff (log filter : CString) :
    (MatchesFilter log filter ↔ ReadsFilter log filter) ∧
      (quote ∉ log.bytes →
        (MatchesFilter log filter ↔ log.length + filter.length + 13 ≤ intMax ∧
          Fits (tokens (finalLog log filter)) ∧ BeginsWithExpression filter) ∧
        ∀ e, Generates filter e →
          (MatchesFilter log filter ↔ log.length + filter.length + 13 ≤ intMax ∧
            log.length < logLineSize ∧ e.height ≤ 9995)) := by
  have hsize : (finalLog log filter).length + 2 = log.length + filter.length + 13 := by
    simp only [finalLog, logvarText, CString.length, List.length_append, List.length_cons,
      List.length_nil]
    omega
  refine ⟨matchesFilter_iff_readsFilter, fun hq => ?_⟩
  have hplain := (@matchesFilter_iff_readsFilter log filter).trans (readsFilter_iff_of_plain hq)
  rw [hsize] at hplain
  refine ⟨hplain, fun e he => ?_⟩
  rw [hplain, fits_iff_of_generates hq he, beginsWithExpression_iff_of_generates he]

/-- The log `a b c d` and the filters `a&b` and `a&h`. -/
example :
    (logStringMatch {} (CString.ofBuf [97, 32, 98, 32, 99, 32, 100])
        (CString.ofBuf [97, 38, 98])).map Prod.fst = some 1 ∧
      (logStringMatch {} (CString.ofBuf [97, 32, 98, 32, 99, 32, 100])
        (CString.ofBuf [97, 38, 104])).map Prod.fst = some 0 := by
  decide +kernel

/-- The log `a"b` and the filter `b`. -/
theorem not_matchesFilter : ¬ ∀ log filter : CString, MatchesFilter log filter := by
  intro h
  have hvalue := (h ⟨[97, 34, 98], by decide⟩ ⟨[98], by decide⟩).1 ⟨.word [98], .nil⟩ rfl [] {} rfl
  exact absurd hvalue (by decide +kernel)

end Teonet
