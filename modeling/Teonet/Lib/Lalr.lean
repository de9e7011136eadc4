import Mathlib.Data.Int.Notation
import Mathlib.Data.List.Basic

/-! # Table-driven LALR parsers

The skeleton of the parsers that bison generates.  `Tables.action` and `Tables.goto` read the
compressed tables, `step` is one round of the parser's loop (a shift, a reduction, or the end), and
`loop` the loop itself.  A semantic action works on global variables and may be undefined in C.

`Steps p n c c'` says that `n` rounds lead from `c` to `c'`; `Steps.shift` and `Steps.reduce` are its
single rounds, and `loop_of_steps` is how a loop is evaluated along them.  `Stops` is the end of a
parse that leaves the globals alone: an error, or a stack that is too deep. -/

namespace Lalr

/-! ### The tables -/

/-- The tables of a parser.  States, rules and symbols are numbers.  No state shifts the symbol
`error`, which has number 1, so a syntax error ends the parse. -/
structure Tables where
  pact : List ℤ
  defact : List ℕ
  pgoto : List ℤ
  defgoto : List ℤ
  table : List ℤ
  check : List ℤ
  r1 : List ℕ
  r2 : List ℕ
  pactNinf : ℤ
  last : ℤ
  ntokens : ℕ
  final : ℕ
  check_error : (1 : ℤ) ∉ check

inductive Action
  | shift (state : ℕ)
  | reduce (rule : ℕ)
  | error
deriving DecidableEq

namespace Tables

def tableAt (t : Tables) (i : ℤ) : ℤ := t.table.getD i.toNat 0

def checkAt (t : Tables) (i : ℤ) : ℤ := t.check.getD i.toNat 0

/-- `yydefault`. -/
def defaultAction (t : Tables) (state : ℕ) : Action :=
  if t.defact.getD state 0 = 0 then .error else .reduce (t.defact.getD state 0)

/-- `yybackup`: what to do in a state when `symbol` is the next one. -/
def action (t : Tables) (state symbol : ℕ) : Action :=
  let n := t.pact.getD state 0
  if n = t.pactNinf then t.defaultAction state
  else if n + symbol < 0 ∨ t.last < n + symbol ∨ t.checkAt (n + symbol) ≠ symbol then
    t.defaultAction state
  else if t.tableAt (n + symbol) ≤ 0 then .reduce (-t.tableAt (n + symbol)).toNat
  else .shift (t.tableAt (n + symbol)).toNat

/-- The state behind the left-hand side of a rule that was reduced on top of `state`. -/
def goto (t : Tables) (rule state : ℕ) : ℕ :=
  let lhs := t.r1.getD rule 0 - t.ntokens
  let i := t.pgoto.getD lhs 0 + state
  if 0 ≤ i ∧ i ≤ t.last ∧ t.checkAt i = state then (t.tableAt i).toNat
  else (t.defgoto.getD lhs 0).toNat

end Tables

/-! ### The loop -/

/-- A parser for tokens of type `T`, with semantic values of type `V` and global variables `G`.
`act` is given the values of the right-hand side of a rule; it is `none` where the action of the
rule is undefined. -/
structure Parser (V G T : Type) where
  tables : Tables
  symbol : T → ℕ
  value : T → V
  garbage : V
  act : ℕ → List V → G → Option (V × G)
  maxDepth : ℕ

/-- The stack, its top first, the tokens that are not shifted, and the globals. -/
structure Config (V G T : Type) where
  stack : List (ℕ × V)
  input : List T
  globals : G

/-- How `yyparse` ends. -/
inductive Outcome
  | accepted
  | aborted
  | exhausted
deriving DecidableEq

inductive Round (V G T : Type)
  | next (c : Config V G T)
  | done (o : Outcome)
  | undefined

/-- Why there is no outcome. -/
inductive Fault
  | undefined
  | rounds
deriving DecidableEq

variable {V G T : Type}

namespace Parser

/-- The symbol of the next token; the end of the input has number 0. -/
def lookahead (p : Parser V G T) : List T → ℕ
  | [] => 0
  | t :: _ => p.symbol t

def lookaheadValue (p : Parser V G T) : List T → V
  | [] => p.garbage
  | t :: _ => p.value t

/-- `yyreduce`. -/
def reduce (p : Parser V G T) (rule : ℕ) (c : Config V G T) : Round V G T :=
  let len := p.tables.r2.getD rule 0
  match p.act rule ((c.stack.take len).map Prod.snd).reverse c.globals, c.stack.drop len with
  | some (v, g), (s, w) :: st => .next ⟨(p.tables.goto rule s, v) :: (s, w) :: st, c.input, g⟩
  | _, _ => .undefined

/-- One round, from `yysetstate` on. -/
def step (p : Parser V G T) (c : Config V G T) : Round V G T :=
  match c.stack with
  | [] => .undefined
  | (s, _) :: _ =>
    if p.maxDepth ≤ c.stack.length then .done .exhausted
    else if s = p.tables.final then .done .accepted
    else
      match p.tables.action s (p.lookahead c.input) with
      | .shift s' =>
        .next { c with stack := (s', p.lookaheadValue c.input) :: c.stack, input := c.input.tail }
      | .reduce rule => p.reduce rule c
      | .error => .done .aborted

/-- The loop of `yyparse`. -/
def loop (p : Parser V G T) : ℕ → Config V G T → Except Fault (Outcome × G)
  | 0, _ => .error .rounds
  | fuel + 1, c =>
    match p.step c with
    | .next c' => loop p fuel c'
    | .done o => .ok (o, c.globals)
    | .undefined => .error .undefined

end Parser

/-! ### Rounds -/

/-- `n` rounds lead from one configuration to another. -/
inductive Steps (p : Parser V G T) : ℕ → Config V G T → Config V G T → Prop
  | refl (c : Config V G T) : Steps p 0 c c
  | cons {n : ℕ} {c d e : Config V G T} :
      p.step c = .next d → Steps p n d e → Steps p (n + 1) c e

variable {p : Parser V G T} {n m : ℕ} {c d e : Config V G T} {s s' : ℕ} {v w x : V}
  {st : List (ℕ × V)} {ts : List T} {t : T} {g g' : G} {o : Outcome}

theorem Steps.single (h : p.step c = .next d) : Steps p 1 c d := .cons h (.refl d)

theorem Steps.trans (h : Steps p n c d) (h' : Steps p m d e) : Steps p (n + m) c e := by
  induction h with
  | refl c =>
    rw [Nat.zero_add]
    exact h'
  | cons hstep _ ih =>
    rw [Nat.add_right_comm]
    exact .cons hstep (ih h')

/-- A loop goes along the rounds. -/
theorem loop_of_steps (h : Steps p n c d) (fuel : ℕ) : p.loop (n + fuel) c = p.loop fuel d := by
  induction h with
  | refl c => rw [Nat.zero_add]
  | cons hstep _ ih =>
    rw [Nat.add_right_comm, Parser.loop, hstep]
    exact ih

/-- What a round does on a stack that is not too deep, in a state that is not the last one. -/
theorem step_eq (hdepth : st.length + 1 < p.maxDepth) (hfinal : s ≠ p.tables.final) :
    p.step ⟨(s, v) :: st, ts, g⟩ =
      match p.tables.action s (p.lookahead ts) with
      | .shift s' => .next ⟨(s', p.lookaheadValue ts) :: (s, v) :: st, ts.tail, g⟩
      | .reduce rule => p.reduce rule ⟨(s, v) :: st, ts, g⟩
      | .error => .done .aborted := by
  have hlt : ¬ p.maxDepth ≤ ((s, v) :: st).length := by
    rw [List.length_cons]
    omega
  unfold Parser.step
  dsimp only
  rw [if_neg hlt, if_neg hfinal]

theorem Steps.shift (hdepth : st.length + 1 < p.maxDepth) (hfinal : s ≠ p.tables.final)
    (haction : p.tables.action s (p.symbol t) = .shift s') :
    Steps p 1 ⟨(s, v) :: st, t :: ts, g⟩ ⟨(s', p.value t) :: (s, v) :: st, ts, g⟩ := by
  refine .single ((step_eq hdepth hfinal).trans ?_)
  rw [Parser.lookahead, haction]
  rfl

/-- A reduction, with the stack below the right-hand side of the rule. -/
theorem Steps.reduce (rule : ℕ) {q : ℕ} {st' : List (ℕ × V)} (hdepth : st.length + 1 < p.maxDepth)
    (hfinal : s ≠ p.tables.final) (haction : p.tables.action s (p.lookahead ts) = .reduce rule)
    (hdrop : ((s, v) :: st).drop (p.tables.r2.getD rule 0) = (s', w) :: st')
    (hact : p.act rule ((((s, v) :: st).take (p.tables.r2.getD rule 0)).map Prod.snd).reverse g =
      some (x, g'))
    (hgoto : p.tables.goto rule s' = q) :
    Steps p 1 ⟨(s, v) :: st, ts, g⟩ ⟨(q, x) :: (s', w) :: st', ts, g'⟩ := by
  refine .single ((step_eq hdepth hfinal).trans ?_)
  rw [haction]
  dsimp only
  unfold Parser.reduce
  dsimp only
  rw [hact, hdrop, ← hgoto]

/-- An action that is undefined. -/
theorem step_undefined (rule : ℕ) (hdepth : st.length + 1 < p.maxDepth)
    (hfinal : s ≠ p.tables.final) (haction : p.tables.action s (p.lookahead ts) = .reduce rule)
    (hact : p.act rule ((((s, v) :: st).take (p.tables.r2.getD rule 0)).map Prod.snd).reverse g =
      none) :
    p.step ⟨(s, v) :: st, ts, g⟩ = .undefined := by
  refine (step_eq hdepth hfinal).trans ?_
  rw [haction]
  dsimp only
  unfold Parser.reduce
  dsimp only
  rw [hact]

/-! ### The end -/

/-- After at most `n` rounds the parse ends without a change of the globals. -/
def Stops (p : Parser V G T) (n : ℕ) (c : Config V G T) : Prop :=
  ∃ k ≤ n, ∃ d o, Steps p k c d ∧ d.globals = c.globals ∧ p.step d = .done o

theorem Stops.of_step (h : p.step c = .done o) : Stops p n c :=
  ⟨0, Nat.zero_le n, c, o, .refl c, rfl, h⟩

/-- First some rounds that do not change the globals, then the end. -/
theorem Stops.after {k : ℕ} (h : Steps p n c d) (hglobals : d.globals = c.globals)
    (h' : Stops p m d) (hle : n + m ≤ k) : Stops p k c := by
  obtain ⟨i, hi, e, o, hsteps, hsame, hdone⟩ := h'
  exact ⟨n + i, by omega, e, o, h.trans hsteps, hsame.trans hglobals, hdone⟩

/-- With enough fuel the loop ends there. -/
theorem Stops.loop_eq (h : Stops p n c) (fuel : ℕ) (hfuel : n < fuel) :
    ∃ o, p.loop fuel c = .ok (o, c.globals) := by
  obtain ⟨k, hk, d, o, hsteps, hsame, hdone⟩ := h
  refine ⟨o, ?_⟩
  obtain ⟨rest, rfl⟩ : ∃ rest, fuel = k + (rest + 1) := ⟨fuel - k - 1, by omega⟩
  rw [loop_of_steps hsteps, Parser.loop, hdone, ← hsame]

theorem stops_exhausted (hdepth : p.maxDepth ≤ st.length + 1) :
    Stops p n ⟨(s, v) :: st, ts, g⟩ := by
  refine .of_step (o := .exhausted) ?_
  unfold Parser.step
  exact if_pos hdepth

theorem stops_error (hdepth : st.length + 1 < p.maxDepth) (hfinal : s ≠ p.tables.final)
    (haction : p.tables.action s (p.lookahead ts) = .error) :
    Stops p n ⟨(s, v) :: st, ts, g⟩ := by
  refine .of_step (o := .aborted) ((step_eq hdepth hfinal).trans ?_)
  rw [haction]

end Lalr
