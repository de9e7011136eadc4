import Mathlib.Data.Nat.Notation
import Mathlib.Order.Defs.PartialOrder

/-! # Runs of a step relation

A system is a relation `step s e t`: in state `s` the event `e` leads to `t`.  `Run step s es t`
is a run with the events `es`.  A fact that every step preserves holds at the end of every run
(`Run.invariant`), and a fact about the state and the events so far is proved the same way
(`Run.history`).  `Run.since` traces a fact back to the step that it comes from,
`outputs_eq_of_filter_eq` compares what two runs give out, `outputs_view` is the rule for a view of it
and `outputs_eq_events` for what the events alone determine,
`outputs_abs` compares it with an abstract system, and `outputs_balance` is the rule for what a system
keeps for later.  `Guarded guard step` keeps the steps
that meet a condition on the state before them, which is how a result is stated for the runs whose
steps all meet it.

Where a step is a function that may fail, a run is `foldlM` and `Meets guard step` is the condition
on its steps: `foldlM_inv` is the invariant rule, and `foldlM_ok_iff_meets` the rule for "the run
succeeds exactly when each step meets the condition". -/

namespace Runs

variable {σ ε : Type}

/-- A run from one state to another, with its events in order. -/
inductive Run (step : σ → ε → σ → Prop) : σ → List ε → σ → Prop
  | nil (s : σ) : Run step s [] s
  | cons {s t u : σ} {e : ε} {es : List ε} :
      step s e t → Run step t es u → Run step s (e :: es) u

variable {step : σ → ε → σ → Prop} {s t u : σ} {e : ε} {es fs : List ε}

theorem Run.append (h : Run step s es t) (h' : Run step t fs u) : Run step s (es ++ fs) u := by
  induction h with
  | nil _ => exact h'
  | cons hstep _ ih => exact .cons hstep (ih h')

theorem Run.mono {step' : σ → ε → σ → Prop} (hsub : ∀ s e t, step s e t → step' s e t)
    (h : Run step s es t) : Run step' s es t := by
  induction h with
  | nil s => exact .nil s
  | cons hstep _ ih => exact .cons (hsub _ _ _ hstep) ih

/-- A run of a system whose step is a partial function. -/
theorem Run.of_foldlM {f : σ → ε → Option σ} {es : List ε} {s t : σ}
    (h : es.foldlM f s = some t) : Run (fun s e t => f s e = some t) s es t := by
  induction es generalizing s with
  | nil =>
    obtain rfl := Option.some.inj h
    exact .nil _
  | cons e es ih =>
    obtain ⟨u, hu, hrest⟩ := Option.bind_eq_some_iff.mp h
    exact .cons hu (ih hrest)

theorem Run.single (h : step s e t) : Run step s [e] t :=
  .cons h (.nil t)

/-- **Invariant rule**: what every step preserves, every run preserves. -/
theorem Run.invariant {inv : σ → Prop}
    (hpres : ∀ s e t, inv s → step s e t → inv t) (h : Run step s es t) (hs : inv s) : inv t := by
  induction h with
  | nil _ => exact hs
  | cons hstep _ ih => exact ih (hpres _ _ _ hs hstep)

/-- The invariant rule for facts about the state and the events that led to it. -/
theorem Run.history (inv : List ε → σ → Prop)
    (hpres : ∀ past s e t, inv past s → step s e t → inv (past ++ [e]) t)
    (h : Run step s es t) (past : List ε) (hs : inv past s) : inv (past ++ es) t := by
  induction h generalizing past with
  | nil _ => simpa using hs
  | cons hstep _ ih => simpa using ih _ (hpres _ _ _ _ hs hstep)

/-! ### Conditions on the steps of a run -/

/-- The steps taken in a state, and with an event, that meet `guard`. -/
def Guarded (guard : σ → ε → Prop) (step : σ → ε → σ → Prop) : σ → ε → σ → Prop :=
  fun s e t => guard s e ∧ step s e t

theorem Run.of_guarded {guard : σ → ε → Prop} (h : Run (Guarded guard step) s es t) :
    Run step s es t := by
  induction h with
  | nil _ => exact .nil _
  | cons hstep _ ih => exact .cons hstep.2 ih

/-- **Guarded invariant rule**: it is enough that the steps that meet the condition preserve
the fact. -/
theorem Run.guarded_invariant {guard : σ → ε → Prop} {inv : σ → Prop}
    (hpres : ∀ s e t, inv s → guard s e → step s e t → inv t)
    (h : Run (Guarded guard step) s es t) (hs : inv s) : inv t :=
  h.invariant (fun s e t hi hg => hpres s e t hi hg.1 hg.2) hs

/-- **Measure rule**: a run of steps that lower a measure is no longer than the measure. -/
theorem Run.length_add_le {quiet : ε → Prop} (measure : σ → ℕ)
    (hlt : ∀ s e t, step s e t → quiet e → measure t < measure s)
    (h : Run step s es t) (hquiet : ∀ e ∈ es, quiet e) : es.length + measure t ≤ measure s := by
  induction h with
  | nil s => exact Nat.le_of_eq (Nat.zero_add _)
  | cons hstep _ ih =>
    have hfirst := hlt _ _ _ hstep (hquiet _ List.mem_cons_self)
    have hrest := ih fun e he => hquiet e (List.mem_cons_of_mem _ he)
    rw [List.length_cons]
    omega

/-! ### Since an event -/

/-- The run has a step with `mark`, and from then on only steps that meet `guard`. -/
def Since (step : σ → ε → σ → Prop) (mark guard : σ → ε → Prop) (s : σ) (es : List ε) (t : σ) :
    Prop :=
  ∃ pre e post s₁ s₂, es = pre ++ e :: post ∧ Run step s pre s₁ ∧ mark s₁ e ∧ step s₁ e s₂ ∧
    Run (Guarded guard step) s₂ post t

theorem Since.extend {mark guard : σ → ε → Prop} (h : Since step mark guard s es t)
    (hg : guard t e) (hstep : step t e u) : Since step mark guard s (es ++ [e]) u := by
  obtain ⟨pre, e', post, s₁, s₂, rfl, hpre, hmark, hmid, hpost⟩ := h
  exact ⟨pre, e', post ++ [e], s₁, s₂, by simp, hpre, hmark, hmid,
    hpost.append (.single ⟨hg, hstep⟩)⟩

/-- **Since rule**: what does not hold at the start, and holds after a step only if the step has
`mark`, or it held before and the step meets `guard`, has come from a step with `mark`. -/
theorem Run.since {mark guard : σ → ε → Prop} {holds : σ → Prop}
    (hsteps : ∀ s e t, step s e t → holds t → mark s e ∨ (holds s ∧ guard s e))
    (h : Run step s es t) (hs : ¬ holds s) (ht : holds t) : Since step mark guard s es t := by
  have hinv := h.history
    (fun past t => Run step s past t ∧ (holds t → Since step mark guard s past t))
    (fun past t e u hi hstep => ⟨hi.1.append (.single hstep), fun hu => by
      rcases hsteps t e u hstep hu with hmark | ⟨hholds, hguard⟩
      · exact ⟨past, e, [], t, u, rfl, hi.1, hmark, hstep, .nil u⟩
      · exact (hi.2 hholds).extend hguard hstep⟩)
    [] ⟨.nil s, fun hholds => absurd hholds hs⟩
  exact hinv.2 ht

/-! ### What a run gives out -/

/-- What a system with the steps `f` gives out in a run, in order. -/
def outputs {ο : Type} (f : σ → ε → σ × List ο) : σ → List ε → List ο
  | _, [] => []
  | s, e :: es => (f s e).2 ++ outputs f (f s e).1 es

theorem outputs_singleton {ο : Type} (f : σ → ε → σ × List ο) (s : σ) (e : ε) :
    outputs f s [e] = (f s e).2 :=
  List.append_nil _

theorem outputs_append {ο : Type} (f : σ → ε → σ × List ο) (s : σ) (es fs : List ε) :
    outputs f s (es ++ fs) = outputs f s es ++ outputs f (es.foldl (fun s e => (f s e).1) s) fs := by
  induction es generalizing s with
  | nil => rfl
  | cons e es ih => rw [List.cons_append, outputs, outputs, ih, List.append_assoc, List.foldl_cons]

/-- Events that neither change the state nor give anything out can be left out of a run. -/
theorem outputs_filter {ο : Type} {f : σ → ε → σ × List ο} {loud : ε → Bool}
    (hsilent : ∀ s e, loud e = false → f s e = (s, [])) (s : σ) (es : List ε) :
    outputs f s (es.filter loud) = outputs f s es := by
  induction es generalizing s with
  | nil => rfl
  | cons e es ih =>
    cases hloud : loud e with
    | true => rw [List.filter_cons_of_pos hloud, outputs, outputs, ih]
    | false =>
      rw [List.filter_cons_of_neg (by simp [hloud]), outputs, hsilent s e hloud, List.nil_append,
        ih]

/-- **Two-run rule**: runs that differ only in silent events give out the same. -/
theorem outputs_eq_of_filter_eq {ο : Type} {f : σ → ε → σ × List ο} {loud : ε → Bool}
    (hsilent : ∀ s e, loud e = false → f s e = (s, [])) (s : σ)
    (h : es.filter loud = fs.filter loud) : outputs f s es = outputs f s fs := by
  rw [← outputs_filter hsilent, h, outputs_filter hsilent]

/-! ### Two systems side by side -/

/-- Every step of the run meets `guard` in the state before it. -/
def Always (guard : σ → ε → Prop) (step : σ → ε → σ) : σ → List ε → Prop
  | _, [] => True
  | s, e :: es => guard s e ∧ Always guard step (step s e) es

instance Always.decidable {guard : σ → ε → Prop} {step : σ → ε → σ} [∀ s e, Decidable (guard s e)] :
    ∀ (s : σ) (es : List ε), Decidable (Always guard step s es)
  | _, [] => .isTrue trivial
  | s, e :: es =>
    have : Decidable (Always guard step (step s e) es) := Always.decidable (step s e) es
    inferInstanceAs (Decidable (guard s e ∧ Always guard step (step s e) es))

theorem always_append {guard : σ → ε → Prop} {step : σ → ε → σ} (s : σ) (es fs : List ε) :
    Always guard step s (es ++ fs) ↔
      Always guard step s es ∧ Always guard step (es.foldl step s) fs := by
  induction es generalizing s with
  | nil => exact ⟨fun h => ⟨trivial, h⟩, fun h => h.2⟩
  | cons e es ih =>
    rw [List.cons_append, List.foldl_cons, Always, Always, ih, and_assoc]

/-- A condition on the events alone. -/
theorem always_const_iff {p : ε → Prop} {step : σ → ε → σ} (s : σ) (es : List ε) :
    Always (fun _ e => p e) step s es ↔ ∀ e ∈ es, p e := by
  induction es generalizing s with
  | nil => exact iff_of_true trivial fun e he => absurd he List.not_mem_nil
  | cons e es ih => rw [Always, ih, List.forall_mem_cons]

/-- **Outputs rule**: a view of what a run gives out is put together from the views of its steps. -/
theorem outputs_view {ο ο' : Type} (view : List ο → List ο') (inv : σ → Prop)
    (hnil : view [] = []) (happend : ∀ l l', view (l ++ l') = view l ++ view l')
    {guard : σ → ε → Prop} {step : σ → ε → σ} {out : σ → ε → List ο} {out' : σ → ε → List ο'}
    (hstep : ∀ s e, inv s → guard s e → inv (step s e) ∧ view (out s e) = out' s e) {s : σ}
    (hs : inv s) {es : List ε} (h : Always guard step s es) :
    view (outputs (fun s e => (step s e, out s e)) s es) =
      outputs (fun s e => (step s e, out' s e)) s es := by
  induction es generalizing s with
  | nil => exact hnil
  | cons e es ih =>
    obtain ⟨hnext, hview⟩ := hstep s e hs h.1
    rw [outputs, outputs, happend, hview, ih hnext h.2]

/-- What a view shows of what is given out is a view of the events, where it is so for each step. -/
theorem outputs_eq_events {ο υ : Type} (view : List ο → List υ) (view' : List ε → List υ)
    (inv : σ → Prop) (hnil : view [] = view' [])
    (happend : ∀ l l', view (l ++ l') = view l ++ view l')
    (happend' : ∀ l l', view' (l ++ l') = view' l ++ view' l')
    {guard : σ → ε → Prop} {f : σ → ε → σ × List ο}
    (hstep : ∀ s e, inv s → guard s e → inv (f s e).1 ∧ view (f s e).2 = view' [e]) {s : σ}
    (hs : inv s) {es : List ε} (h : Always guard (fun s e => (f s e).1) s es) :
    view (outputs f s es) = view' es := by
  induction es generalizing s with
  | nil => exact hnil
  | cons e es ih =>
    obtain ⟨hnext, hview⟩ := hstep s e hs h.1
    rw [outputs, happend, hview, ih hnext h.2, ← happend', List.singleton_append]

/-- The rule where this is so for every step. -/
theorem outputs_eq_events_of_forall {ο υ : Type} (view : List ο → List υ)
    (view' : List ε → List υ) (hnil : view [] = view' [])
    (happend : ∀ l l', view (l ++ l') = view l ++ view l')
    (happend' : ∀ l l', view' (l ++ l') = view' l ++ view' l') {f : σ → ε → σ × List ο}
    (hstep : ∀ s e, view (f s e).2 = view' [e]) (s : σ) (es : List ε) :
    view (outputs f s es) = view' es :=
  outputs_eq_events view view' (fun _ => True) hnil happend happend'
    (fun s e _ _ => ⟨trivial, hstep s e⟩) trivial
    ((always_const_iff s es).mpr fun _ _ => trivial)

/-- **Abstraction rule**: where each step is one of an abstract system, a view of what a run gives out
is that of what the abstract system gives out, and so is the state. -/
theorem outputs_abs {τ ο ο' υ : Type} (abs : σ → τ) (view : List ο → List υ)
    (view' : List ο' → List υ) (inv : σ → Prop) (hnil : view [] = view' [])
    (happend : ∀ l l', view (l ++ l') = view l ++ view l')
    (happend' : ∀ l l', view' (l ++ l') = view' l ++ view' l')
    {guard : σ → ε → Prop} {f : σ → ε → σ × List ο} {g : τ → ε → τ × List ο'}
    (hstep : ∀ s e, inv s → guard s e → inv (f s e).1 ∧ abs (f s e).1 = (g (abs s) e).1 ∧
      view (f s e).2 = view' (g (abs s) e).2) {s : σ}
    (hs : inv s) {es : List ε} (h : Always guard (fun s e => (f s e).1) s es) :
    view (outputs f s es) = view' (outputs g (abs s) es) ∧
      abs (es.foldl (fun s e => (f s e).1) s) = es.foldl (fun t e => (g t e).1) (abs s) := by
  induction es generalizing s with
  | nil => exact ⟨hnil, rfl⟩
  | cons e es ih =>
    obtain ⟨hnext, habs, hview⟩ := hstep s e hs h.1
    obtain ⟨hout, hstate⟩ := ih hnext h.2
    rw [outputs, outputs, happend, happend', hview, hout, List.foldl_cons, List.foldl_cons, hstate,
      habs]
    exact ⟨rfl, rfl⟩

/-- A system that acts on some events only, on what they carry. -/
theorem outputs_filterMap {τ ε' ο : Type} (carries : ε → Option ε') {f : τ → ε → τ × List ο}
    {g : τ → ε' → τ × List ο} (hsome : ∀ t e e', carries e = some e' → f t e = g t e')
    (hnone : ∀ t e, carries e = none → f t e = (t, [])) (t : τ) (es : List ε) :
    outputs f t es = outputs g t (es.filterMap carries) ∧
      es.foldl (fun t e => (f t e).1) t =
        (es.filterMap carries).foldl (fun t e => (g t e).1) t := by
  induction es generalizing t with
  | nil => exact ⟨rfl, rfl⟩
  | cons e es ih =>
    rw [outputs, List.foldl_cons, (ih _).1, (ih _).2]
    cases hcarries : carries e with
    | none =>
      rw [List.filterMap_cons_none hcarries, hnone t e hcarries]
      exact ⟨rfl, rfl⟩
    | some e' =>
      rw [List.filterMap_cons_some hcarries, hsome t e e' hcarries]
      exact ⟨rfl, rfl⟩

/-- **Balance rule**: what has come out of a run and what is held at its end are, in some order, what
was held at its start and what has been taken in, when each step keeps this balance. -/
theorem outputs_balance {ο α : Type} (view : List ο → List α) (inv : σ → Prop)
    (hnil : view [] = []) (happend : ∀ l l', view (l ++ l') = view l ++ view l')
    {guard : σ → ε → Prop} {f : σ → ε → σ × List ο} (held : σ → List α)
    {taken : σ → ε → List α}
    (hstep : ∀ s e, inv s → guard s e → inv (f s e).1 ∧
      (view (f s e).2 ++ held (f s e).1).Perm (held s ++ taken s e)) {s : σ}
    (hs : inv s) {es : List ε} (h : Always guard (fun s e => (f s e).1) s es) :
    (view (outputs f s es) ++ held (es.foldl (fun s e => (f s e).1) s)).Perm
      (held s ++ outputs (fun s e => ((f s e).1, taken s e)) s es) := by
  induction es generalizing s with
  | nil =>
    rw [outputs, outputs, hnil, List.append_nil]
    exact List.Perm.refl _
  | cons e es ih =>
    obtain ⟨hnext, hperm⟩ := hstep s e hs h.1
    rw [outputs, outputs, happend, List.foldl_cons, List.append_assoc]
    apply ((ih hnext h.2).append_left _).trans
    rw [← List.append_assoc, ← List.append_assoc]
    exact hperm.append_right _

/-- **Refinement rule**: where a step of the abstract system is followed exactly on the condition,
the two systems stay related through a run exactly when all its steps meet the condition. -/
theorem always_iff {τ : Type} {step : σ → ε → σ} {abs : τ → ε → τ} {rel : σ → τ → Prop}
    {guard : τ → ε → Prop}
    (hstep : ∀ s t e, rel s t → (rel (step s e) (abs t e) ↔ guard t e)) {s : σ} {t : τ}
    (hrel : rel s t) (es : List ε) :
    (∀ past, past <+: es → rel (past.foldl step s) (past.foldl abs t)) ↔
      Always guard abs t es := by
  induction es generalizing s t with
  | nil =>
    refine ⟨fun _ => trivial, fun _ past hpast => ?_⟩
    obtain rfl := List.prefix_nil.mp hpast
    exact hrel
  | cons e es ih =>
    constructor
    · intro hall
      have hnext : rel (step s e) (abs t e) := hall [e] ⟨es, rfl⟩
      refine ⟨(hstep s t e hrel).mp hnext, (ih hnext).mp fun past hpast => ?_⟩
      exact hall (e :: past) (List.cons_prefix_cons.mpr ⟨rfl, hpast⟩)
    · rintro ⟨hguard, hrest⟩ past hpast
      have hnext := (hstep s t e hrel).mpr hguard
      cases past with
      | nil => exact hrel
      | cons e' past =>
        obtain ⟨rfl, htail⟩ := List.cons_prefix_cons.mp hpast
        exact (ih hnext).mpr hrest past htail

/-! ### Steps that may fail -/

variable {φ : Type}

theorem map_eq_ok {τ : Type} {x : Except φ σ} {f : σ → τ} {y : τ} (h : x.map f = .ok y) :
    ∃ s, x = .ok s ∧ f s = y := by
  cases x with
  | error e => cases h
  | ok s => exact ⟨s, rfl, Except.ok.inj h⟩

theorem exists_map_eq_ok_iff {τ : Type} (x : Except φ σ) (f : σ → τ) :
    (∃ y, x.map f = .ok y) ↔ ∃ s, x = .ok s := by
  cases x with
  | error e => exact iff_of_false nofun nofun
  | ok s => exact iff_of_true ⟨f s, rfl⟩ ⟨s, rfl⟩

theorem mapError_eq_ok {ψ : Type} {x : Except φ σ} {f : φ → ψ} {s : σ}
    (h : x.mapError f = .ok s) : x = .ok s := by
  cases x with
  | error e => cases h
  | ok t => rw [Except.ok.inj h]

theorem bind_eq_ok {τ : Type} {x : Except φ σ} {f : σ → Except φ τ} {y : τ}
    (h : x >>= f = .ok y) : ∃ s, x = .ok s ∧ f s = .ok y := by
  cases x with
  | error e => cases h
  | ok s => exact ⟨s, rfl, h⟩

/-- What succeeds after `x` in any case succeeds exactly if `x` does. -/
theorem exists_bind_eq_ok_iff {τ : Type} {x : Except φ σ} {f : σ → Except φ τ}
    (hf : ∀ s, x = .ok s → ∃ y, f s = .ok y) : (∃ y, x >>= f = .ok y) ↔ ∃ s, x = .ok s := by
  cases x with
  | error e => exact iff_of_false nofun nofun
  | ok s => exact iff_of_true (hf s rfl) ⟨s, rfl⟩

theorem foldlM_cons_of_ok {step : σ → ε → Except φ σ} {s t : σ} {e : ε} (h : step s e = .ok t)
    (es : List ε) : (e :: es).foldlM step s = es.foldlM step t := by
  rw [List.foldlM_cons, h]
  rfl

theorem foldlM_append_of_ok {step : σ → ε → Except φ σ} {s t : σ} {es : List ε}
    (h : es.foldlM step s = .ok t) (fs : List ε) :
    (es ++ fs).foldlM step s = fs.foldlM step t := by
  rw [List.foldlM_append, h]
  rfl

/-- Rounds of events, each of which succeeds and counts one, can follow each other. -/
theorem foldlM_rounds {step : σ → ε → Except φ σ} (inv : ℕ → σ → Prop) {round : ℕ → List ε}
    {limit : ℕ} (hround : ∀ n s, n < limit → inv n s → ∃ t, (round n).foldlM step s = .ok t ∧
      inv (n + 1) t)
    {s : σ} (hs : inv 0 s) (k : ℕ) (hk : k ≤ limit) :
    ∃ t, ((List.range k).flatMap round).foldlM step s = .ok t ∧ inv k t := by
  induction k with
  | zero => exact ⟨s, rfl, hs⟩
  | succ k ih =>
    obtain ⟨t, hrun, ht⟩ := ih (Nat.le_of_succ_le hk)
    obtain ⟨u, hlast, hu⟩ := hround k t hk ht
    refine ⟨u, ?_, hu⟩
    rw [List.range_succ, List.flatMap_append, foldlM_append_of_ok hrun]
    simpa using hlast

/-- A round of events that succeeds and counts one can be repeated. -/
theorem foldlM_replicate {step : σ → ε → Except φ σ} (inv : ℕ → σ → Prop) {round : List ε}
    {limit : ℕ} (hround : ∀ n s, n < limit → inv n s → ∃ t, round.foldlM step s = .ok t ∧
      inv (n + 1) t)
    {s : σ} (hs : inv 0 s) (k : ℕ) (hk : k ≤ limit) :
    ∃ t, (List.replicate k round).flatten.foldlM step s = .ok t ∧ inv k t := by
  have hrounds : (List.replicate k round).flatten = (List.range k).flatMap fun _ => round := by
    rw [List.flatMap_def, List.map_const', List.length_range]
  rw [hrounds]
  exact foldlM_rounds inv hround hs k hk

/-- Every step of the run meets `guard` in the state before it. -/
def Meets (guard : σ → ε → Prop) (step : σ → ε → Except φ σ) : σ → List ε → Prop
  | _, [] => True
  | s, e :: es => guard s e ∧ ∀ t, step s e = .ok t → Meets guard step t es

/-- The condition on a run can be evaluated. -/
instance Meets.decidable {guard : σ → ε → Prop} {step : σ → ε → Except φ σ}
    [∀ s e, Decidable (guard s e)] : ∀ (s : σ) (es : List ε), Decidable (Meets guard step s es)
  | _, [] => .isTrue trivial
  | s, e :: es =>
    match h : step s e with
    | .ok t =>
      have : Decidable (Meets guard step t es) := Meets.decidable t es
      decidable_of_iff (guard s e ∧ Meets guard step t es)
        (and_congr_right fun _ => ⟨fun ht _ hu => Except.ok.inj (h.symm.trans hu) ▸ ht,
          fun hall => hall t h⟩)
    | .error _ => decidable_of_iff (guard s e)
        ⟨fun hg => ⟨hg, fun _ hu => (nomatch h.symm.trans hu)⟩, fun hm => hm.1⟩

/-- The invariant rule for steps that may fail.  The invariant may speak of the events that are
still to come. -/
theorem foldlM_inv {step : σ → ε → Except φ σ} (inv : List ε → σ → Prop)
    (hpres : ∀ s e es t, inv (e :: es) s → step s e = .ok t → inv es t)
    {es : List ε} {s t : σ} (h : es.foldlM step s = .ok t) (hs : inv es s) : inv [] t := by
  induction es generalizing s with
  | nil =>
    obtain rfl := Except.ok.inj h
    exact hs
  | cons e es ih =>
    rw [List.foldlM_cons] at h
    cases hstep : step s e with
    | error f => rw [hstep] at h; cases h
    | ok u =>
      rw [hstep] at h
      exact ih h (hpres s e es u hs hstep)

/-- **Success rule**: where a step succeeds exactly on the condition, a run succeeds exactly when
all its steps meet the condition. -/
theorem foldlM_ok_iff_meets {guard : σ → ε → Prop} {step : σ → ε → Except φ σ}
    (inv : List ε → σ → Prop)
    (hok : ∀ s e es, inv (e :: es) s → ((∃ t, step s e = .ok t) ↔ guard s e))
    (hpres : ∀ s e es t, inv (e :: es) s → step s e = .ok t → inv es t)
    (es : List ε) (s : σ) (hs : inv es s) :
    (∃ t, es.foldlM step s = .ok t) ↔ Meets guard step s es := by
  induction es generalizing s with
  | nil => exact ⟨fun _ => trivial, fun _ => ⟨s, rfl⟩⟩
  | cons e es ih =>
    rw [List.foldlM_cons]
    constructor
    · rintro ⟨u, hu⟩
      refine ⟨?_, fun t ht => ?_⟩
      · cases hstep : step s e with
        | error f => rw [hstep] at hu; cases hu
        | ok t => exact (hok s e es hs).mp ⟨t, hstep⟩
      · rw [ht] at hu
        exact (ih t (hpres s e es t hs ht)).mp ⟨u, hu⟩
    · rintro ⟨hg, hrest⟩
      obtain ⟨t, ht⟩ := (hok s e es hs).mpr hg
      rw [ht]
      exact (ih t (hpres s e es t hs ht)).mpr (hrest t ht)

/-- Where a condition on the event alone decides whether a step succeeds, a run succeeds exactly
when all its events meet the condition. -/
theorem foldlM_ok_iff_forall {step : σ → ε → Except φ σ} (inv : σ → Prop) {ok : ε → Prop}
    (hok : ∀ s e, inv s → ((∃ t, step s e = .ok t) ↔ ok e))
    (hpres : ∀ s e t, inv s → step s e = .ok t → inv t) {es : List ε} {s : σ} (hs : inv s) :
    (∃ t, es.foldlM step s = .ok t) ↔ ∀ e ∈ es, ok e := by
  induction es generalizing s with
  | nil => exact iff_of_true ⟨s, rfl⟩ nofun
  | cons e es ih =>
    rw [List.forall_mem_cons]
    constructor
    · rintro ⟨u, hu⟩
      obtain ⟨t, ht, hrest⟩ := bind_eq_ok (List.foldlM_cons.symm.trans hu)
      exact ⟨(hok s e hs).mp ⟨t, ht⟩, (ih (hpres s e t hs ht)).mp ⟨u, hrest⟩⟩
    · rintro ⟨he, hall⟩
      obtain ⟨t, ht⟩ := (hok s e hs).mpr he
      rw [foldlM_cons_of_ok ht]
      exact (ih (hpres s e t hs ht)).mpr hall

/-- The invariant rule for the runs whose steps all meet a condition and succeed. -/
theorem Meets.foldlM_inv {guard : σ → ε → Prop} {step : σ → ε → Except φ σ} {inv : σ → Prop}
    (hpres : ∀ s e t, inv s → guard s e → step s e = .ok t → inv t)
    {es : List ε} {s t : σ} (hmeets : Meets guard step s es) (h : es.foldlM step s = .ok t)
    (hs : inv s) : inv t :=
  (Runs.foldlM_inv (fun es s => Meets guard step s es ∧ inv s)
    (fun s e _ t hi hstep => ⟨hi.1.2 t hstep, hpres s e t hi.2 hi.1.1 hstep⟩) h ⟨hmeets, hs⟩).2

/-- A condition that follows from another one under an invariant, for the events that are `allowed`,
is met by every run of such events that meets the other one. -/
theorem Meets.imp_of_inv {guard guard' : σ → ε → Prop} {step : σ → ε → Except φ σ}
    {inv : σ → Prop} {allowed : ε → Prop}
    (hguard : ∀ s e, inv s → allowed e → guard s e → guard' s e)
    (hpres : ∀ s e t, inv s → allowed e → step s e = .ok t → inv t)
    {es : List ε} (hes : ∀ e ∈ es, allowed e) {s : σ} (hs : inv s)
    (hmeets : Meets guard step s es) : Meets guard' step s es := by
  induction es generalizing s with
  | nil => trivial
  | cons e es ih =>
    have he := hes e List.mem_cons_self
    exact ⟨hguard s e hs he hmeets.1, fun t ht =>
      ih (fun e' he' => hes e' (List.mem_cons_of_mem e he')) (hpres s e t hs he ht)
        (hmeets.2 t ht)⟩

/-- What a step or a run may result in: a state with `inv`, or a failure that is not `bad`. -/
def Result (inv : σ → Prop) (bad : φ → Prop) : Except φ σ → Prop
  | .ok t => inv t
  | .error f => ¬bad f

theorem Result.bind {inv inv' : σ → Prop} {bad : φ → Prop} {x : Except φ σ}
    {f : σ → Except φ σ} (hx : Result inv bad x) (hf : ∀ s, inv s → Result inv' bad (f s)) :
    Result inv' bad (x >>= f) := by
  cases x with
  | error e => exact hx
  | ok s => exact hf s hx

/-- The invariant rule for the runs whose steps all meet a condition, where a step may also fail
in ways that do no harm. -/
theorem Meets.result {guard : σ → ε → Prop} {step : σ → ε → Except φ σ} {inv : σ → Prop}
    {bad : φ → Prop} (hstep : ∀ s e, inv s → guard s e → Result inv bad (step s e))
    {es : List ε} {s : σ} (hmeets : Meets guard step s es) (hs : inv s) :
    Result inv bad (es.foldlM step s) := by
  induction es generalizing s with
  | nil => exact hs
  | cons e es ih =>
    rw [List.foldlM_cons]
    have hres := hstep s e hs hmeets.1
    cases ht : step s e with
    | error f => rwa [ht] at hres
    | ok t =>
      rw [ht] at hres
      exact ih (hmeets.2 t ht) hres

/-- **Success rule** for runs that also have to keep a property: where a step succeeds with a good
state exactly on the condition, and then keeps an invariant, every part of a run does so exactly when
all its steps meet the condition. -/
theorem good_iff_meets {guard : σ → ε → Prop} {step : σ → ε → Except φ σ} {good inv : σ → Prop}
    (hgood : ∀ s, inv s → good s)
    (hguard : ∀ s e t, inv s → step s e = .ok t → good t → guard s e)
    (hstep : ∀ s e, inv s → guard s e → ∃ t, step s e = .ok t ∧ inv t) {s : σ} (hs : inv s)
    (es : List ε) :
    (∀ past, past <+: es → ∃ t, past.foldlM step s = .ok t ∧ good t) ↔ Meets guard step s es := by
  induction es generalizing s with
  | nil =>
    refine ⟨fun _ => trivial, fun _ past hpast => ?_⟩
    obtain rfl := List.prefix_nil.mp hpast
    exact ⟨s, rfl, hgood s hs⟩
  | cons e es ih =>
    constructor
    · intro hall
      obtain ⟨t, ht, hgoodt⟩ := hall [e] ⟨es, rfl⟩
      have ht' : step s e = .ok t := by
        rw [List.foldlM_cons] at ht
        obtain ⟨u, hu, hrest⟩ := bind_eq_ok ht
        obtain rfl := Except.ok.inj hrest
        exact hu
      have hmeets := hguard s e t hs ht' hgoodt
      refine ⟨hmeets, fun u hu => ?_⟩
      obtain ⟨u', hu', hinv⟩ := hstep s e hs hmeets
      obtain rfl := Except.ok.inj (hu.symm.trans hu')
      refine (ih hinv).mp fun past hpast => ?_
      have hpart := hall (e :: past) (List.cons_prefix_cons.mpr ⟨rfl, hpast⟩)
      rwa [List.foldlM_cons, hu] at hpart
    · rintro ⟨hmeets, hrest⟩ past hpast
      obtain ⟨u, hu, hinv⟩ := hstep s e hs hmeets
      cases past with
      | nil => exact ⟨s, rfl, hgood s hs⟩
      | cons e' past =>
        obtain ⟨rfl, htail⟩ := List.cons_prefix_cons.mp hpast
        rw [List.foldlM_cons, hu]
        exact (ih hinv).mpr (hrest u hu) past htail

/-- **Success rule** for runs that have to end well: where a step that does not meet the condition
fails or does harm that no later step repairs, a run ends well exactly when all its steps meet the
condition. -/
theorem foldlM_good_iff_meets {guard : σ → ε → Prop} {step : σ → ε → Except φ σ}
    (good bad : σ → Prop) (hstep : ∀ s e, good s → guard s e → ∃ t, step s e = .ok t ∧ good t)
    (hharm : ∀ s e t, good s → ¬ guard s e → step s e = .ok t → bad t)
    (hbad : ∀ s e t, bad s → step s e = .ok t → bad t) (hnot : ∀ s, bad s → ¬ good s)
    {s : σ} (hs : good s) (es : List ε) :
    (∃ t, es.foldlM step s = .ok t ∧ good t) ↔ Meets guard step s es := by
  induction es generalizing s with
  | nil => exact iff_of_true ⟨s, rfl, hs⟩ trivial
  | cons e es ih =>
    by_cases hguard : guard s e
    · obtain ⟨t, ht, hgood⟩ := hstep s e hs hguard
      rw [foldlM_cons_of_ok ht, ih hgood]
      exact ⟨fun h => ⟨hguard, fun u hu => Except.ok.inj (ht.symm.trans hu) ▸ h⟩,
        fun h => h.2 t ht⟩
    · refine iff_of_false ?_ fun h => hguard h.1
      rintro ⟨t, ht, hgood⟩
      obtain ⟨u, hu, hrest⟩ := bind_eq_ok ht
      have hbadt : bad t := foldlM_inv (fun _ s => bad s) (fun s e _ t hi => hbad s e t hi) hrest
        (hharm s e u hs hguard hu)
      exact hnot t hbadt hgood

/-! ### Histories -/

/-- Where an event lies in a history that has just grown by one. -/
theorem concat_eq_append_cons {past pre post : List ε} {e e' : ε}
    (h : past ++ [e] = pre ++ e' :: post) :
    (pre = past ∧ e' = e ∧ post = []) ∨ ∃ post', past = pre ++ e' :: post' := by
  rcases List.eq_nil_or_concat post with rfl | ⟨post', x, rfl⟩
  · obtain ⟨h1, h2⟩ := List.append_inj' h rfl
    exact .inl ⟨h1.symm, (List.cons.inj h2).1.symm, rfl⟩
  · refine .inr ⟨post', ?_⟩
    rw [List.concat_eq_append, ← List.cons_append, ← List.append_assoc] at h
    exact (List.append_inj' h rfl).1

/-- The last value that a history gives to a key. -/
def lastFor {κ δ : Type} [DecidableEq κ] (f : ε → Option (κ × δ)) (past : List ε) (k : κ) :
    Option δ :=
  ((past.filterMap f).reverse.find? fun p => p.1 = k).map Prod.snd

theorem lastFor_concat {κ δ : Type} [DecidableEq κ] (f : ε → Option (κ × δ)) (past : List ε)
    (e : ε) (k : κ) :
    lastFor f (past ++ [e]) k =
      match f e with
      | some p => if p.1 = k then some p.2 else lastFor f past k
      | none => lastFor f past k := by
  rw [lastFor, List.filterMap_append, List.reverse_append]
  cases h : f e with
  | none => simp [lastFor, h]
  | some p =>
    by_cases hp : p.1 = k
    · simp [h, hp]
    · simp [lastFor, h, hp]

end Runs
