import Teonet.TextFilter

/-! # The grammar of the text filter

An expression of the grammar is an operand, which is a word, a negated operand or an expression in
parentheses, with operators and operands behind it; it is evaluated from left to right.  `value` is
its value for a log, and `height` is how much of the parser's stack it needs.

`Operand.run` and `Operations.run` follow the parser over the tokens of an expression.
`operand_or_stops` is the other direction: either an expression stands in front, or the parser stops
and leaves the globals as they are. -/

namespace Teonet

open Lalr

/-! ### Expressions -/

inductive BinOp
  | and
  | or
deriving DecidableEq

mutual

/-- What `!` can stand before. -/
inductive Operand
  | word (w : List UInt8)
  | not (o : Operand)
  | paren (o : Operand) (t : Operations)

/-- Operators, each with its right operand. -/
inductive Operations
  | nil
  | cons (op : BinOp) (o : Operand) (t : Operations)

end

/-- A filter. -/
structure FilterExpr where
  first : Operand
  rest : Operations

def BinOp.token : BinOp → Token
  | .and => .and
  | .or => .or

def BinOp.apply : BinOp → Bool → Bool → Bool
  | .and => (· && ·)
  | .or => (· || ·)

mutual

def Operand.tokens : Operand → List Token
  | .word w => [.word w]
  | .not o => .not :: o.tokens
  | .paren o t => .lparen :: (o.tokens ++ (t.tokens ++ [.rparen]))

def Operations.tokens : Operations → List Token
  | .nil => []
  | .cons op o t => op.token :: (o.tokens ++ t.tokens)

end

mutual

/-- A word is true when it is a part of the log. -/
def Operand.value (log : List UInt8) : Operand → Bool
  | .word w => decide (w <:+: log)
  | .not o => !o.value log
  | .paren o t => t.value log (o.value log)

/-- The operators are applied from left to right, to what stands before them. -/
def Operations.value (log : List UInt8) : Operations → Bool → Bool
  | .nil, b => b
  | .cons op o t, b => t.value log (op.apply b (o.value log))

end

mutual

/-- The entries of the stack while the operand is parsed. -/
def Operand.height : Operand → ℕ
  | .word _ => 1
  | .not o => 1 + o.height
  | .paren o t => max 3 (1 + max o.height t.height)

/-- The same for operators; the value before them is on the stack. -/
def Operations.height : Operations → ℕ
  | .nil => 1
  | .cons _ o t => max (2 + o.height) t.height

end

namespace FilterExpr

def tokens (e : FilterExpr) : List Token := e.first.tokens ++ e.rest.tokens

def value (e : FilterExpr) (log : List UInt8) : Bool := e.rest.value log (e.first.value log)

def height (e : FilterExpr) : ℕ := max e.first.height e.rest.height

end FilterExpr

/-- `a|b&c` is `(a|b)&c`. -/
example : (FilterExpr.mk (.word [97]) (.cons .or (.word [98]) (.cons .and (.word [99]) .nil))).value
    [97] = false := by decide

theorem Operand.height_pos (o : Operand) : 1 ≤ o.height := by
  cases o with
  | word w => exact Nat.le_refl 1
  | not o =>
    unfold Operand.height
    omega
  | paren o t =>
    unfold Operand.height
    omega

theorem paren_tokens_append (o : Operand) (t : Operations) (r : List Token) :
    (Operand.paren o t).tokens ++ r = .lparen :: (o.tokens ++ (t.tokens ++ .rparen :: r)) := by
  simp only [Operand.tokens, List.cons_append, List.append_assoc, List.nil_append]

/-! ### What the tables say -/

/-- The states in which an operand is to come. -/
def operandStates : List ℕ := [6, 9, 10, 16, 17]

/-- The states in which an expression is to come. -/
def exprStates : List ℕ := [6, 10]

/-- The state behind an operand or an expression. -/
def exprState (s : ℕ) : ℕ := filterTables.goto 6 s

def BinOp.state : BinOp → ℕ
  | .and => 16
  | .or => 17

theorem operandStates_of_op (op : BinOp) : op.state ∈ operandStates := by
  cases op <;> decide

theorem ne_final_of_operandStates : ∀ s ∈ operandStates, s ≠ 2 := by decide

theorem exprState_ne_final : ∀ s ∈ exprStates, exprState s ≠ 2 := by decide

theorem action_word : ∀ s ∈ operandStates, filterTables.action s 4 = .shift 8 := by decide

theorem action_not : ∀ s ∈ operandStates, filterTables.action s 8 = .shift 9 := by decide

theorem action_lparen : ∀ s ∈ operandStates, filterTables.action s 11 = .shift 10 := by decide

/-- Nothing else can begin an operand. -/
theorem action_operand_error : ∀ s ∈ operandStates, ∀ a ∈ [0, 2, 3, 5, 6, 7, 9, 10, 12],
    filterTables.action s a = .error := by decide

theorem action_op (op : BinOp) :
    ∀ s ∈ exprStates, filterTables.action (exprState s) op.token.symbol = .shift op.state := by
  cases op <;> decide

/-! ### Over an expression -/

/-- The `int` of a truth value. -/
def intOf (b : Bool) : ℤ := if b then 1 else 0

theorem strstr_eq (log w : List UInt8) : strstr log w = intOf (decide (w <:+: log)) := by
  unfold strstr intOf
  by_cases h : w <:+: log
  · rw [if_pos h, if_pos (decide_eq_true h)]
  · rw [if_neg h, if_neg (by simpa using h)]

theorem act_word (g : FilterState) (w : List UInt8) :
    filterAct 6 [.sValue w] g = some (.iValue (intOf ((Operand.word w).value g.logLine)), g) := by
  rw [filterAct, strstr_eq, Operand.value]

theorem act_not (g : FilterState) (v : YYSType) (b : Bool) :
    filterAct 9 [v, .iValue (intOf b)] g = some (.iValue (intOf !b), g) := by
  cases b <;> rfl

/-- The rule of an operator. -/
def BinOp.rule : BinOp → ℕ
  | .and => 8
  | .or => 7

theorem act_op (op : BinOp) (g : FilterState) (v : YYSType) (a b : Bool) :
    filterAct op.rule [.iValue (intOf a), v, .iValue (intOf b)] g =
      some (.iValue (intOf (op.apply a b)), g) := by
  cases op <;> cases a <;> cases b <;> rfl

section Rounds

variable {st : List (ℕ × YYSType)} {ts : List Token} {g : FilterState} {s : ℕ} {v : YYSType}

theorem shift_word (hs : s ∈ operandStates) (hdepth : st.length + 1 < 10000) (w : List UInt8) :
    Steps filterParser 1 ⟨(s, v) :: st, .word w :: ts, g⟩
      ⟨(8, .sValue w) :: (s, v) :: st, ts, g⟩ :=
  .shift hdepth (ne_final_of_operandStates s hs) (action_word s hs)

theorem shift_not (hs : s ∈ operandStates) (hdepth : st.length + 1 < 10000) :
    Steps filterParser 1 ⟨(s, v) :: st, .not :: ts, g⟩ ⟨(9, .unset) :: (s, v) :: st, ts, g⟩ :=
  .shift hdepth (ne_final_of_operandStates s hs) (action_not s hs)

theorem shift_lparen (hs : s ∈ operandStates) (hdepth : st.length + 1 < 10000) :
    Steps filterParser 1 ⟨(s, v) :: st, .lparen :: ts, g⟩
      ⟨(10, .unset) :: (s, v) :: st, ts, g⟩ :=
  .shift hdepth (ne_final_of_operandStates s hs) (action_lparen s hs)

theorem shift_rparen (hdepth : st.length + 1 < 10000) :
    Steps filterParser 1 ⟨(14, v) :: st, .rparen :: ts, g⟩ ⟨(18, .unset) :: (14, v) :: st, ts, g⟩ :=
  .shift hdepth (by decide) (by decide)

theorem shift_op (op : BinOp) (hs : s ∈ exprStates) (hdepth : st.length + 1 < 10000) :
    Steps filterParser 1 ⟨(exprState s, v) :: st, op.token :: ts, g⟩
      ⟨(op.state, .unset) :: (exprState s, v) :: st, ts, g⟩ := by
  have hvalue : op.token.yylval = .unset := by cases op <;> rfl
  rw [← hvalue]
  exact .shift hdepth (exprState_ne_final s hs) (action_op op s hs)

theorem reduce_word (hdepth : st.length + 2 < 10000) (w : List UInt8) :
    Steps filterParser 1 ⟨(8, .sValue w) :: (s, v) :: st, ts, g⟩
      ⟨(exprState s, .iValue (intOf ((Operand.word w).value g.logLine))) :: (s, v) :: st, ts, g⟩ :=
  .reduce 6 hdepth (by decide) rfl rfl (act_word g w) rfl

theorem reduce_not {x : YYSType} {b : Bool} (hdepth : st.length + 3 < 10000) :
    Steps filterParser 1 ⟨(13, .iValue (intOf b)) :: (9, x) :: (s, v) :: st, ts, g⟩
      ⟨(exprState s, .iValue (intOf !b)) :: (s, v) :: st, ts, g⟩ :=
  .reduce 9 hdepth (by decide) rfl rfl (act_not g x b) rfl

theorem reduce_paren {x y : YYSType} {i : ℤ} (hdepth : st.length + 4 < 10000) :
    Steps filterParser 1 ⟨(18, y) :: (14, .iValue i) :: (10, x) :: (s, v) :: st, ts, g⟩
      ⟨(exprState s, .iValue i) :: (s, v) :: st, ts, g⟩ :=
  .reduce 10 hdepth (by decide) rfl rfl rfl rfl

theorem reduce_op (op : BinOp) {q : ℕ} {x : YYSType} {a b : Bool} (hdepth : st.length + 4 < 10000) :
    Steps filterParser 1 ⟨(exprState op.state, .iValue (intOf b)) :: (op.state, x) ::
        (q, .iValue (intOf a)) :: (s, v) :: st, ts, g⟩
      ⟨(exprState s, .iValue (intOf (op.apply a b))) :: (s, v) :: st, ts, g⟩ := by
  have hfinal : exprState op.state ≠ 2 := by cases op <;> decide
  have hact := act_op op g x a b
  cases op with
  | and => exact .reduce 8 hdepth hfinal rfl rfl hact rfl
  | or => exact .reduce 7 hdepth hfinal rfl rfl hact rfl

end Rounds

mutual

/-- **The parser runs over an operand**, and leaves its value on the stack. -/
theorem Operand.run (o : Operand) {s : ℕ} (hs : s ∈ operandStates) (v : YYSType)
    (st : List (ℕ × YYSType)) (hdepth : st.length + 1 + o.height < 10000) (rest : List Token)
    (g : FilterState) :
    ∃ n ≤ 2 * o.tokens.length, Steps filterParser n ⟨(s, v) :: st, o.tokens ++ rest, g⟩
      ⟨(exprState s, .iValue (intOf (o.value g.logLine))) :: (s, v) :: st, rest, g⟩ := by
  cases o with
  | word w =>
    unfold Operand.height at hdepth
    exact ⟨2, Nat.le_refl 2, (shift_word hs (by omega) w).trans (reduce_word hdepth w)⟩
  | not o =>
    unfold Operand.height at hdepth
    have hpos := o.height_pos
    obtain ⟨n, hn, hrun⟩ := Operand.run o (s := 9) (by decide) .unset ((s, v) :: st)
      (by rw [List.length_cons]; omega) rest g
    refine ⟨1 + n + 1, ?_, ((shift_not hs (by omega)).trans hrun).trans (reduce_not (by omega))⟩
    rw [Operand.tokens, List.length_cons]
    omega
  | paren o t =>
    unfold Operand.height at hdepth
    obtain ⟨n, hn, hrun⟩ := Operand.run o (s := 10) (by decide) .unset ((s, v) :: st)
      (by rw [List.length_cons]; omega) (t.tokens ++ .rparen :: rest) g
    obtain ⟨m, hm, hrun'⟩ := Operations.run t (s := 10) (by decide) .unset ((s, v) :: st)
      (by rw [List.length_cons]; omega) (.rparen :: rest) g (o.value g.logLine)
    have hclose := @shift_rparen ((10, .unset) :: (s, v) :: st) rest g
      (.iValue (intOf (t.value g.logLine (o.value g.logLine)))) (by simp only [List.length_cons]; omega)
    rw [paren_tokens_append]
    refine ⟨1 + n + m + 1 + 1, ?_, ((((shift_lparen hs (by omega)).trans hrun).trans hrun').trans
      hclose).trans (reduce_paren (by omega))⟩
    simp only [Operand.tokens, List.length_cons, List.length_append]
    omega

/-- The parser runs over operators with their operands. -/
theorem Operations.run (t : Operations) {s : ℕ} (hs : s ∈ exprStates) (v : YYSType)
    (st : List (ℕ × YYSType)) (hdepth : st.length + 1 + t.height < 10000) (rest : List Token)
    (g : FilterState) (b : Bool) :
    ∃ n ≤ 2 * t.tokens.length,
      Steps filterParser n ⟨(exprState s, .iValue (intOf b)) :: (s, v) :: st, t.tokens ++ rest, g⟩
        ⟨(exprState s, .iValue (intOf (t.value g.logLine b))) :: (s, v) :: st, rest, g⟩ := by
  cases t with
  | nil => exact ⟨0, Nat.zero_le _, .refl _⟩
  | cons op o t =>
    unfold Operations.height at hdepth
    have hpos := o.height_pos
    obtain ⟨n, hn, hrun⟩ := Operand.run o (operandStates_of_op op) .unset
      ((exprState s, .iValue (intOf b)) :: (s, v) :: st)
      (by simp only [List.length_cons]; omega) (t.tokens ++ rest) g
    obtain ⟨m, hm, hrun'⟩ := Operations.run t hs v st (by omega) rest g
      (op.apply b (o.value g.logLine))
    rw [Operations.tokens, List.cons_append, List.append_assoc]
    refine ⟨1 + n + 1 + m, ?_, (((shift_op op hs (by rw [List.length_cons]; omega)).trans hrun).trans
      (reduce_op op (by omega))).trans hrun'⟩
    simp only [List.length_cons, List.length_append]
    omega

end

/-! ### What stands in front -/

/-- `&` or `|` comes next. -/
def StartsWithOp (ts : List Token) : Prop := ∃ (op : BinOp) (rest : List Token), ts = op.token :: rest

/-- With `depth` entries on the stack an operand can be parsed. -/
def OperandInFront (depth : ℕ) (ts : List Token) : Prop :=
  ∃ (o : Operand) (rest : List Token), ts = o.tokens ++ rest ∧ depth + o.height < 10000

/-- All operators that come next, and their operands, can be parsed. -/
def OperationsInFront (depth : ℕ) (ts : List Token) : Prop :=
  ∃ (t : Operations) (rest : List Token),
    ts = t.tokens ++ rest ∧ ¬ StartsWithOp rest ∧ depth + t.height < 10000

def OperandOrStops (ts : List Token) : Prop :=
  ∀ s ∈ operandStates, ∀ (v : YYSType) (st : List (ℕ × YYSType)) (g : FilterState),
    OperandInFront (st.length + 1) ts ∨
      Stops filterParser (2 * ts.length) ⟨(s, v) :: st, ts, g⟩

def OperationsOrStops (ts : List Token) : Prop :=
  ∀ s ∈ exprStates, ∀ (b : Bool) (v : YYSType) (st : List (ℕ × YYSType)) (g : FilterState),
    OperationsInFront (st.length + 1) ts ∨
      Stops filterParser (2 * ts.length)
        ⟨(exprState s, .iValue (intOf b)) :: (s, v) :: st, ts, g⟩

/-- Behind an expression in parentheses only `)` can come, besides an operator. -/
theorem action_rparen_error {ts : List Token} (hop : ¬ StartsWithOp ts)
    (hclose : ¬ ∃ rest, ts = .rparen :: rest) :
    filterTables.action 14 (filterParser.lookahead ts) = .error := by
  cases ts with
  | nil => decide
  | cons t rest =>
    cases t with
    | rparen => exact absurd ⟨rest, rfl⟩ hclose
    | and => exact absurd ⟨.and, rest, rfl⟩ hop
    | or => exact absurd ⟨.or, rest, rfl⟩ hop
    | _ => rfl

section Front

variable {ts : List Token}
  (ih : ∀ ts' : List Token, ts'.length < ts.length → OperandOrStops ts' ∧ OperationsOrStops ts')

include ih

/-- Behind `(` an expression and `)` come, or the parser stops. -/
theorem paren_or_stops {s : ℕ} (hs : s ∈ operandStates) (v : YYSType) (st : List (ℕ × YYSType))
    (g : FilterState) (hdepth : st.length + 1 < 10000) {ts' : List Token}
    (hts : ts = .lparen :: ts') :
    OperandInFront (st.length + 1) ts ∨ Stops filterParser (2 * ts.length) ⟨(s, v) :: st, ts, g⟩ := by
  subst hts
  rw [List.length_cons]
  rcases (ih ts' (Nat.lt_succ_self _)).1 10 (by decide) .unset ((s, v) :: st) g with
    ⟨o, rest, rfl, hroom⟩ | hstop
  swap
  · exact Or.inr (.after (shift_lparen hs hdepth) rfl hstop (by omega))
  rw [List.length_cons] at hroom
  have hpos := o.height_pos
  obtain ⟨n, hn, hrun⟩ := o.run (s := 10) (by decide) .unset ((s, v) :: st) hroom rest g
  have hfirst := (shift_lparen hs hdepth).trans hrun
  rcases (ih rest (by simp only [List.length_cons, List.length_append]; omega)).2 10 (by decide)
    (o.value g.logLine) .unset ((s, v) :: st) g with ⟨t, rest, rfl, hop, hroom'⟩ | hstop
  swap
  · exact Or.inr (.after hfirst rfl hstop (by rw [List.length_append]; omega))
  rw [List.length_cons] at hroom'
  obtain ⟨m, hm, hrun'⟩ := t.run (s := 10) (by decide) .unset ((s, v) :: st) hroom' rest g
    (o.value g.logLine)
  have hboth := hfirst.trans hrun'
  by_cases hclose : ∃ after, rest = .rparen :: after
  · obtain ⟨rest, rfl⟩ := hclose
    by_cases hroom'' : st.length + 4 < 10000
    · refine Or.inl ⟨.paren o t, rest, (paren_tokens_append o t rest).symm, ?_⟩
      rw [Operand.height]
      omega
    · refine Or.inr (.after (hboth.trans (shift_rparen ?_)) rfl
        (stops_exhausted (not_lt.mp hroom'')) (m := 0) ?_)
      · simp only [List.length_cons]
        omega
      · simp only [List.length_append, List.length_cons]
        omega
  · refine Or.inr (.after hboth rfl (stops_error ?_ (by decide)
      (action_rparen_error hop hclose)) (m := 0) ?_)
    · show st.length + 1 + 1 + 1 < 10000
      omega
    · simp only [List.length_append]
      omega

theorem operandOrStops_step : OperandOrStops ts := by
  intro s hs v st g
  by_cases hdepth : st.length + 1 < 10000
  swap
  · exact Or.inr (stops_exhausted (not_lt.mp hdepth))
  have hfinal := ne_final_of_operandStates s hs
  cases ts with
  | nil => exact Or.inr (stops_error hdepth hfinal (action_operand_error s hs 0 (by decide)))
  | cons t ts =>
    rw [List.length_cons]
    cases t with
    | word w =>
      by_cases hroom : st.length + 2 < 10000
      · exact Or.inl ⟨.word w, ts, rfl, hroom⟩
      · exact Or.inr (.after (m := 0) (shift_word hs hdepth w) rfl
          (stops_exhausted (not_lt.mp hroom)) (by omega))
    | not =>
      rcases (ih ts (Nat.lt_succ_self _)).1 9 (by decide) .unset ((s, v) :: st) g with
        ⟨o, rest, rfl, hroom⟩ | hstop
      · refine Or.inl ⟨.not o, rest, rfl, ?_⟩
        rw [List.length_cons] at hroom
        rw [Operand.height]
        omega
      · exact Or.inr (.after (shift_not hs hdepth) rfl hstop (by omega))
    | lparen => exact paren_or_stops ih hs v st g hdepth rfl
    | _ =>
      exact Or.inr (stops_error hdepth hfinal (action_operand_error s hs _
        (by simp [Parser.lookahead, filterParser, Token.symbol])))

theorem operationsOrStops_step : OperationsOrStops ts := by
  intro s hs b v st g
  by_cases hdepth : st.length + 2 < 10000
  swap
  · exact Or.inr (stops_exhausted (not_lt.mp hdepth))
  by_cases hop : StartsWithOp ts
  · obtain ⟨op, ts, rfl⟩ := hop
    rw [List.length_cons]
    have hshift := @shift_op ((s, v) :: st) ts g s (.iValue (intOf b)) op hs hdepth
    rcases (ih ts (Nat.lt_succ_self _)).1 op.state (operandStates_of_op op) .unset
      ((exprState s, .iValue (intOf b)) :: (s, v) :: st) g with ⟨o, rest, rfl, hroom⟩ | hstop
    swap
    · exact Or.inr (.after hshift rfl hstop (by omega))
    simp only [List.length_cons] at hroom
    have hpos := o.height_pos
    obtain ⟨n, hn, hrun⟩ := o.run (operandStates_of_op op) .unset
      ((exprState s, .iValue (intOf b)) :: (s, v) :: st) hroom rest g
    have hfirst := (hshift.trans hrun).trans (reduce_op op (by omega))
    rcases (ih rest (by simp only [List.length_cons, List.length_append]; omega)).2 s hs
      (op.apply b (o.value g.logLine)) v st g with ⟨t, rest, rfl, hop, hroom'⟩ | hstop
    · refine Or.inl ⟨.cons op o t, rest, ?_, hop, ?_⟩
      · rw [Operations.tokens, List.cons_append, List.append_assoc]
      · rw [Operations.height]
        omega
    · exact Or.inr (.after hfirst rfl hstop (by rw [List.length_append]; omega))
  · exact Or.inl ⟨.nil, ts, rfl, hop, hdepth⟩

end Front

/-- **An operand stands in front, or the parser stops**; the same for operators behind one. -/
theorem parses_or_stops (ts : List Token) : OperandOrStops ts ∧ OperationsOrStops ts := by
  induction hn : ts.length using Nat.strong_induction_on generalizing ts with
  | _ n ih =>
    subst hn
    have ih' : ∀ ts' : List Token, ts'.length < ts.length →
        OperandOrStops ts' ∧ OperationsOrStops ts' := fun ts' hlt => ih _ hlt ts' rfl
    exact ⟨operandOrStops_step ih', operationsOrStops_step ih'⟩

/-! ### One reading -/

theorem not_startsWithOp_rparen (ts : List Token) : ¬ StartsWithOp (.rparen :: ts) := by
  rintro ⟨op, rest, h⟩
  cases op <;> exact absurd (List.cons.inj h).1 (by decide)

theorem BinOp.token_inj {op op' : BinOp} (h : op.token = op'.token) : op = op' := by
  cases op <;> cases op' <;> first | rfl | exact absurd h (by decide)

mutual

/-- **The grammar is unambiguous**: tokens begin with one operand only. -/
theorem Operand.tokens_inj (o o' : Operand) {r r' : List Token}
    (h : o.tokens ++ r = o'.tokens ++ r') : o = o' ∧ r = r' := by
  cases o with
  | word w =>
    cases o' with
    | word w' =>
      obtain ⟨hword, hrest⟩ := List.cons.inj h
      exact ⟨congrArg Operand.word (Token.word.inj hword), hrest⟩
    | not o' => exact absurd (List.cons.inj h).1 Token.noConfusion
    | paren o' t' =>
      rw [paren_tokens_append] at h
      exact absurd (List.cons.inj h).1 Token.noConfusion
  | not o =>
    cases o' with
    | word w' => exact absurd (List.cons.inj h).1 Token.noConfusion
    | not o' =>
      obtain ⟨heq, hrest⟩ := Operand.tokens_inj o o' (List.cons.inj h).2
      exact ⟨congrArg Operand.not heq, hrest⟩
    | paren o' t' =>
      rw [paren_tokens_append] at h
      exact absurd (List.cons.inj h).1 Token.noConfusion
  | paren o t =>
    rw [paren_tokens_append] at h
    cases o' with
    | word w' => exact absurd (List.cons.inj h).1 Token.noConfusion
    | not o' => exact absurd (List.cons.inj h).1 Token.noConfusion
    | paren o' t' =>
      rw [paren_tokens_append] at h
      obtain ⟨rfl, hrest⟩ := Operand.tokens_inj o o' (List.cons.inj h).2
      obtain ⟨rfl, hafter⟩ := Operations.tokens_inj t t' (not_startsWithOp_rparen r)
        (not_startsWithOp_rparen r') hrest
      exact ⟨rfl, (List.cons.inj hafter).2⟩

theorem Operations.tokens_inj (t t' : Operations) {r r' : List Token} (hr : ¬ StartsWithOp r)
    (hr' : ¬ StartsWithOp r') (h : t.tokens ++ r = t'.tokens ++ r') : t = t' ∧ r = r' := by
  cases t with
  | nil =>
    cases t' with
    | nil => exact ⟨rfl, h⟩
    | cons op' o' t' => exact absurd ⟨op', _, h⟩ hr
  | cons op o t =>
    cases t' with
    | nil => exact absurd ⟨op, _, h.symm⟩ hr'
    | cons op' o' t' =>
      simp only [Operations.tokens, List.cons_append, List.append_assoc] at h
      obtain ⟨hop, htail⟩ := List.cons.inj h
      obtain rfl := BinOp.token_inj hop
      obtain ⟨rfl, hrest⟩ := Operand.tokens_inj o o' htail
      obtain ⟨rfl, hafter⟩ := Operations.tokens_inj t t' hr hr' hrest
      exact ⟨rfl, hafter⟩

end

theorem FilterExpr.tokens_inj {e e' : FilterExpr} {r r' : List Token} (hr : ¬ StartsWithOp r)
    (hr' : ¬ StartsWithOp r') (h : e.tokens ++ r = e'.tokens ++ r') : e = e' ∧ r = r' := by
  obtain ⟨o, t⟩ := e
  obtain ⟨o', t'⟩ := e'
  unfold FilterExpr.tokens at h
  rw [List.append_assoc, List.append_assoc] at h
  obtain ⟨rfl, hrest⟩ := o.tokens_inj o' h
  obtain ⟨rfl, hafter⟩ := t.tokens_inj t' hr hr' hrest
  exact ⟨rfl, hafter⟩

end Teonet
