import Mathlib.Logic.Function.Basic
import Mathlib.Tactic.SplitIfs
import Teonet.Lib.Runs

/-! # Parties that send to each other

Any number of parties, each with a state of its own, and from any party to any other one a link that
keeps the order of the messages.  A party acts when something happens at it, and when the next message
of a link comes to it: `Handler` says what it does, and `step` is what this does to all of them.

What a party does depends on nothing but what it was given, in order (`inputs`): its state, what it
has sent and what it has given out are those of its handler alone (`party_run`, `outputs_run`), and the
messages that it has received from another one, with those that are still on the link, are the ones
that this one has sent (`link_run`).  So a fact about every run of the parties is a fact about single
parties and their inputs.  `Keeps.run` is the rule for what each party keeps as long as it gets nothing
but messages that the others may send. -/

namespace Parties

open Runs

/-- What a party is given. -/
inductive Input (ι μ ε : Type)
  | happens (e : ε)
  | receives (sender : ι) (m : μ)

/-- What the parties do: the next state of a party, the messages that it sends, with their receivers,
and what it gives out. -/
abbrev Handler (ι σ μ ε ο : Type) : Type := ι → σ → Input ι μ ε → σ × List (ι × μ) × List ο

/-- The parties and the links; `link i j` has the messages from `i` to `j`, the oldest first. -/
structure Net (ι σ μ : Type) where
  party : ι → σ
  link : ι → ι → List μ := fun _ _ => []

/-- What can happen. -/
inductive Event (ι ε : Type)
  | happens (i : ι) (e : ε)
  | deliver (sender receiver : ι)

variable {ι σ μ ε ο : Type} [DecidableEq ι]

/-- The messages to a party. -/
def messagesTo (j : ι) (l : List (ι × μ)) : List μ :=
  l.filterMap fun p => if p.1 = j then some p.2 else none

/-- The messages from a party. -/
def receivedFrom (i : ι) (xs : List (Input ι μ ε)) : List μ :=
  xs.filterMap fun
    | .receives sender m => if sender = i then some m else none
    | .happens _ => none

/-- What a party gives out. -/
def givenOutBy (i : ι) (os : List (ι × ο)) : List ο :=
  os.filterMap fun p => if p.1 = i then some p.2 else none

/-- What is given to a party by an event. -/
def Net.given (s : Net ι σ μ) (i : ι) : Event ι ε → List (Input ι μ ε)
  | .happens j e => if j = i then [.happens e] else []
  | .deliver sender receiver =>
    if receiver = i then ((s.link sender receiver).head?.map (.receives sender)).toList else []

/-- A party acts. -/
def Net.acts (handle : Handler ι σ μ ε ο) (s : Net ι σ μ) (i : ι) (x : Input ι μ ε) :
    Net ι σ μ × List (ι × ο) :=
  let r := handle i (s.party i) x
  ({ party := Function.update s.party i r.1
     link := fun j k => if j = i then s.link j k ++ messagesTo k r.2.1 else s.link j k },
    r.2.2.map fun o => (i, o))

/-- The oldest message of a link is taken from it. -/
def Net.taken (s : Net ι σ μ) (i j : ι) : Net ι σ μ :=
  { s with link := fun k l => if k = i ∧ l = j then (s.link k l).tail else s.link k l }

/-- One event. -/
def step (handle : Handler ι σ μ ε ο) (s : Net ι σ μ) : Event ι ε → Net ι σ μ × List (ι × ο)
  | .happens i e => s.acts handle i (.happens e)
  | .deliver i j =>
    match (s.link i j).head? with
    | none => (s, [])
    | some m => (s.taken i j).acts handle j (.receives i m)

variable (handle : Handler ι σ μ ε ο)

/-- The state after an event. -/
def next (s : Net ι σ μ) (e : Event ι ε) : Net ι σ μ := (step handle s e).1

/-- What is given to a party in a run. -/
def inputs (i : ι) : Net ι σ μ → List (Event ι ε) → List (Input ι μ ε) :=
  outputs fun s e => (next handle s e, s.given i e)

omit [DecidableEq ι] in
/-- A party on its own: its state, -/
def alone (i : ι) (a : σ) (x : Input ι μ ε) : σ := (handle i a x).1

omit [DecidableEq ι] in
/-- what it sends, -/
def sends (i : ι) : σ → List (Input ι μ ε) → List (ι × μ) :=
  outputs fun a x => (alone handle i a x, (handle i a x).2.1)

omit [DecidableEq ι] in
/-- and what it gives out. -/
def givesOut (i : ι) : σ → List (Input ι μ ε) → List ο :=
  outputs fun a x => (alone handle i a x, (handle i a x).2.2)

variable {handle} {s : Net ι σ μ} {i j k : ι} {x : Input ι μ ε}

/-! ### One event -/

theorem messagesTo_append (l l' : List (ι × μ)) :
    messagesTo j (l ++ l') = messagesTo j l ++ messagesTo j l' :=
  List.filterMap_append

theorem receivedFrom_append (xs ys : List (Input ι μ ε)) :
    receivedFrom i (xs ++ ys) = receivedFrom i xs ++ receivedFrom i ys :=
  List.filterMap_append

theorem givenOutBy_append (os os' : List (ι × ο)) :
    givenOutBy i (os ++ os') = givenOutBy i os ++ givenOutBy i os' :=
  List.filterMap_append

@[simp] theorem messagesTo_nil : messagesTo j ([] : List (ι × μ)) = [] := rfl

@[simp] theorem receivedFrom_nil : receivedFrom i ([] : List (Input ι μ ε)) = [] := rfl

@[simp] theorem receivedFrom_happens (e : ε) :
    receivedFrom i [(.happens e : Input ι μ ε)] = [] := rfl

@[simp] theorem receivedFrom_receives (m : μ) :
    receivedFrom i [(.receives k m : Input ι μ ε)] = if k = i then [m] else [] := by
  by_cases hk : k = i
  · simp [receivedFrom, hk]
  · simp [receivedFrom, hk]

@[simp] theorem givenOutBy_map (os : List ο) :
    givenOutBy i (os.map fun o => (j, o)) = if j = i then os else [] := by
  rw [givenOutBy, List.filterMap_map]
  by_cases hj : j = i
  · have hsome : ((fun p : ι × ο => if p.1 = i then some p.2 else none) ∘ fun o => (j, o)) = some :=
      funext fun o => if_pos hj
    rw [if_pos hj, hsome, List.filterMap_some]
  · rw [if_neg hj]
    exact List.filterMap_eq_nil_iff.mpr fun o _ => if_neg hj

/-- What an event does to a party, to its links and to what it gives out is what the party does with
what the event gives to it. -/
structure Local (handle : Handler ι σ μ ε ο) (s s' : Net ι σ μ) (os : List (ι × ο))
    (given : ι → List (Input ι μ ε)) : Prop where
  party : ∀ i, s'.party i = (given i).foldl (alone handle i) (s.party i)
  link : ∀ i j, s.link i j ++ messagesTo j (sends handle i (s.party i) (given i)) =
    receivedFrom i (given j) ++ s'.link i j
  out : ∀ i, givenOutBy i os = givesOut handle i (s.party i) (given i)

/-- A party that acts, once the message that it received has been taken. -/
theorem Local.acts {t : Net ι σ μ} (hparty : t.party = s.party)
    (hlink : ∀ i k, s.link i k = receivedFrom i (if j = k then [x] else []) ++ t.link i k) :
    Local handle s (t.acts handle j x).1 (t.acts handle j x).2 fun i =>
      if j = i then [x] else [] where
  party i := by
    by_cases hi : j = i
    · subst hi
      simp [Net.acts, alone, hparty]
    · simp [Net.acts, hi, Ne.symm hi, hparty]
  link i k := by
    by_cases hi : j = i
    · subst hi
      rw [hlink, if_pos rfl, sends, outputs_singleton, Net.acts]
      simp [hparty]
    · rw [hlink, if_neg hi]
      simp [Net.acts, Ne.symm hi, sends, outputs]
  out i := by
    by_cases hi : j = i
    · subst hi
      rw [if_pos rfl, givesOut, outputs_singleton, Net.acts, givenOutBy_map, if_pos rfl, hparty]
    · rw [if_neg hi, Net.acts, givenOutBy_map, if_neg hi]
      rfl

theorem Local.refl (handle : Handler ι σ μ ε ο) (s : Net ι σ μ) :
    Local handle s s [] fun _ => [] where
  party _ := rfl
  link _ _ := List.append_nil _
  out _ := rfl

theorem step_deliver_of_none (h : (s.link i j).head? = none) :
    step handle s (.deliver i j : Event ι ε) = (s, []) := by
  rw [step, h]

theorem step_deliver_of_some {m : μ} (h : (s.link i j).head? = some m) :
    step handle s (.deliver i j : Event ι ε) = (s.taken i j).acts handle j (.receives i m) := by
  rw [step, h]

theorem given_deliver_of_none (h : (s.link i j).head? = none) :
    s.given k (.deliver i j : Event ι ε) = [] := by
  rw [Net.given, h]
  exact ite_self _

theorem given_deliver_of_some {m : μ} (h : (s.link i j).head? = some m) :
    s.given k (.deliver i j : Event ι ε) = if j = k then [.receives i m] else [] := by
  rw [Net.given, h]
  rfl

theorem local_step (handle : Handler ι σ μ ε ο) (s : Net ι σ μ) (e : Event ι ε) :
    Local handle s (next handle s e) (step handle s e).2 (s.given · e) := by
  unfold next
  cases e with
  | happens j e =>
    refine Local.acts rfl fun i k => ?_
    split_ifs
    · rfl
    · rfl
  | deliver i j =>
    cases hhead : (s.link i j).head? with
    | none =>
      simp only [step_deliver_of_none hhead, given_deliver_of_none hhead]
      exact Local.refl handle s
    | some m =>
      simp only [step_deliver_of_some hhead, given_deliver_of_some hhead]
      refine Local.acts rfl fun k l => ?_
      obtain ⟨rest, hrest⟩ := List.head?_eq_some_iff.mp hhead
      by_cases hj : j = l
      · subst hj
        rw [if_pos rfl, receivedFrom_receives]
        by_cases hk : i = k
        · subst hk
          simp [Net.taken, hrest]
        · simp [Net.taken, hk, Ne.symm hk]
      · simp [Net.taken, hj, Ne.symm hj]

/-! ### Runs -/

theorem Local.trans {t u : Net ι σ μ} {os os' : List (ι × ο)}
    {given given' : ι → List (Input ι μ ε)} (h : Local handle s t os given)
    (h' : Local handle t u os' given') :
    Local handle s u (os ++ os') fun i => given i ++ given' i where
  party i := by rw [h'.party, h.party, List.foldl_append]
  link i j := by
    have hsends : sends handle i (s.party i) (given i ++ given' i) =
        sends handle i (s.party i) (given i) ++ sends handle i (t.party i) (given' i) := by
      rw [h.party]
      exact outputs_append _ _ _ _
    calc
      s.link i j ++ messagesTo j (sends handle i (s.party i) (given i ++ given' i)) =
          (s.link i j ++ messagesTo j (sends handle i (s.party i) (given i))) ++
            messagesTo j (sends handle i (t.party i) (given' i)) := by
        rw [hsends, messagesTo_append, List.append_assoc]
      _ = receivedFrom i (given j) ++
          (t.link i j ++ messagesTo j (sends handle i (t.party i) (given' i))) := by
        rw [h.link, List.append_assoc]
      _ = receivedFrom i (given j ++ given' j) ++ u.link i j := by
        rw [h'.link, receivedFrom_append, List.append_assoc]
  out i := by
    have hgives : givesOut handle i (s.party i) (given i ++ given' i) =
        givesOut handle i (s.party i) (given i) ++ givesOut handle i (t.party i) (given' i) := by
      rw [h.party]
      exact outputs_append _ _ _ _
    rw [givenOutBy_append, h.out, h'.out, hgives]

theorem local_run (handle : Handler ι σ μ ε ο) (s : Net ι σ μ) (es : List (Event ι ε)) :
    Local handle s (es.foldl (next handle) s) (outputs (step handle) s es)
      (inputs handle · s es) := by
  induction es generalizing s with
  | nil => exact Local.refl handle s
  | cons e es ih => exact (local_step handle s e).trans (ih (next handle s e))

/-- **Each on its own**: after a run the state of a party is what its handler makes of what was given
to it, -/
theorem party_run (handle : Handler ι σ μ ε ο) (s : Net ι σ μ) (es : List (Event ι ε)) (i : ι) :
    (es.foldl (next handle) s).party i =
      (inputs handle i s es).foldl (alone handle i) (s.party i) :=
  (local_run handle s es).party i

/-- and so is what it has given out. -/
theorem outputs_run (handle : Handler ι σ μ ε ο) (s : Net ι σ μ) (es : List (Event ι ε)) (i : ι) :
    givenOutBy i (outputs (step handle) s es) =
      givesOut handle i (s.party i) (inputs handle i s es) :=
  (local_run handle s es).out i

/-- **Links**: what a party has sent to another one is what this one has received from it, and what is
still on the link. -/
theorem link_run (handle : Handler ι σ μ ε ο) (s : Net ι σ μ) (es : List (Event ι ε)) (i j : ι) :
    s.link i j ++ messagesTo j (sends handle i (s.party i) (inputs handle i s es)) =
      receivedFrom i (inputs handle j s es) ++ (es.foldl (next handle) s).link i j :=
  (local_run handle s es).link i j

/-! ### What happens at a party -/

/-- What happens at a party, in order. -/
def happenings (i : ι) (es : List (Event ι ε)) : List ε :=
  es.filterMap fun
    | .happens j e => if j = i then some e else none
    | .deliver _ _ => none

omit [DecidableEq ι] in
/-- What happens among inputs. -/
def happened (xs : List (Input ι μ ε)) : List ε :=
  xs.filterMap fun
    | .happens e => some e
    | .receives _ _ => none

omit [DecidableEq ι] in
theorem happened_append (xs ys : List (Input ι μ ε)) :
    happened (xs ++ ys) = happened xs ++ happened ys :=
  List.filterMap_append

theorem happened_given (s : Net ι σ μ) (i : ι) (e : Event ι ε) :
    happened (s.given i e) = happenings i [e] := by
  cases e with
  | happens j e =>
    by_cases hj : j = i
    · simp [Net.given, happenings, happened, hj]
    · simp [Net.given, happenings, happened, hj]
  | deliver j k =>
    cases hhead : (s.link j k).head? with
    | none =>
      rw [given_deliver_of_none hhead]
      rfl
    | some m =>
      rw [given_deliver_of_some hhead]
      split_ifs
      · rfl
      · rfl

/-- A party is given what happens at it, in order. -/
theorem happened_inputs (s : Net ι σ μ) (es : List (Event ι ε)) (i : ι) :
    happened (inputs handle i s es) = happenings i es := by
  induction es generalizing s with
  | nil => rfl
  | cons e es ih =>
    have hcons : happenings i (e :: es) = happenings i [e] ++ happenings i es :=
      List.filterMap_append (l := [e])
    rw [hcons, ← happened_given s, ← ih (next handle s e)]
    exact happened_append _ _

/-! ### What each party keeps -/

omit [DecidableEq ι] in
/-- What happens is `fair`, and a message is one that its sender may send. -/
def Input.Ok (fair : ι → σ → ε → Prop) (ok : ι → ι → μ → Prop) (i : ι) (a : σ) :
    Input ι μ ε → Prop
  | .happens e => fair i a e
  | .receives k m => ok k i m

omit [DecidableEq ι] in
/-- What happens is fair; a message may always come. -/
def Event.Fair (fair : ι → σ → ε → Prop) (s : Net ι σ μ) : Event ι ε → Prop
  | .happens i e => fair i (s.party i) e
  | .deliver _ _ => True

omit [DecidableEq ι] in
/-- Given such inputs, each party keeps `inv`, and sends nothing that it may not send. -/
def Keeps (handle : Handler ι σ μ ε ο) (inv : ι → σ → Prop) (fair : ι → σ → ε → Prop)
    (ok : ι → ι → μ → Prop) : Prop :=
  ∀ i a x, inv i a → x.Ok fair ok i a →
    inv i (handle i a x).1 ∧ ∀ p ∈ (handle i a x).2.1, ok i p.1 p.2

omit [DecidableEq ι] in
/-- What is kept. -/
structure AllOk (inv : ι → σ → Prop) (ok : ι → ι → μ → Prop) (s : Net ι σ μ) : Prop where
  party : ∀ i, inv i (s.party i)
  link : ∀ i j, ∀ m ∈ s.link i j, ok i j m

variable {inv : ι → σ → Prop} {fair : ι → σ → ε → Prop} {ok : ι → ι → μ → Prop}

theorem mem_messagesTo {l : List (ι × μ)} {m : μ} : m ∈ messagesTo j l ↔ (j, m) ∈ l := by
  constructor
  · intro h
    obtain ⟨⟨k, m'⟩, hp, hm⟩ := List.mem_filterMap.mp h
    dsimp only at hm
    split_ifs at hm with hk
    cases hm
    exact hk ▸ hp
  · exact fun h => List.mem_filterMap.mpr ⟨_, h, by simp⟩

theorem Keeps.acts (h : Keeps handle inv fair ok) (hs : AllOk inv ok s)
    (hx : x.Ok fair ok i (s.party i)) : AllOk inv ok (s.acts handle i x).1 := by
  obtain ⟨hinv, hsend⟩ := h i (s.party i) x (hs.party i) hx
  refine ⟨fun k => ?_, fun k l m hm => ?_⟩
  · by_cases hk : k = i
    · subst hk
      simpa [Net.acts] using hinv
    · simpa [Net.acts, hk] using hs.party k
  · by_cases hk : k = i
    · subst hk
      simp only [Net.acts, if_true, List.mem_append] at hm
      exact hm.elim (hs.link k l m) fun hm => hsend _ (mem_messagesTo.mp hm)
    · simp only [Net.acts, hk, if_false] at hm
      exact hs.link k l m hm

theorem AllOk.taken (hs : AllOk inv ok s) (i j : ι) : AllOk inv ok (s.taken i j) where
  party := hs.party
  link k l m hm := by
    simp only [Net.taken] at hm
    split_ifs at hm
    · exact hs.link k l m (List.mem_of_mem_tail hm)
    · exact hs.link k l m hm

/-- What an event gives to a party. -/
theorem AllOk.given_ok (hs : AllOk inv ok s) {e : Event ι ε} (he : e.Fair fair s) (i : ι) :
    Always (fun a x => x.Ok fair ok i a) (alone handle i) (s.party i) (s.given i e) := by
  cases e with
  | happens j e =>
    simp only [Net.given]
    split_ifs with hj
    · exact ⟨hj ▸ he, trivial⟩
    · exact trivial
  | deliver j k =>
    cases hhead : (s.link j k).head? with
    | none =>
      rw [given_deliver_of_none hhead]
      exact trivial
    | some m =>
      rw [given_deliver_of_some hhead]
      split_ifs with hk
      · exact ⟨hk ▸ hs.link j k m (List.mem_of_mem_head? hhead), trivial⟩
      · exact trivial

theorem Keeps.step (h : Keeps handle inv fair ok) (hs : AllOk inv ok s) {e : Event ι ε}
    (he : e.Fair fair s) : AllOk inv ok (next handle s e) := by
  unfold next
  cases e with
  | happens i e => exact h.acts hs he
  | deliver i j =>
    cases hhead : (s.link i j).head? with
    | none =>
      rw [step_deliver_of_none hhead]
      exact hs
    | some m =>
      rw [step_deliver_of_some hhead]
      exact h.acts (hs.taken i j) (hs.link i j m (List.mem_of_mem_head? hhead))

/-- **Rule for what each party keeps**: it is kept in every run in which what happens is fair, and each
party is given nothing but messages that their senders may send. -/
theorem Keeps.run (h : Keeps handle inv fair ok) (hs : AllOk inv ok s) {es : List (Event ι ε)}
    (hfair : Always (Event.Fair fair) (next handle) s es) :
    AllOk inv ok (es.foldl (next handle) s) ∧
      ∀ i, Always (fun a x => x.Ok fair ok i a) (alone handle i) (s.party i)
        (inputs handle i s es) := by
  induction es generalizing s with
  | nil => exact ⟨hs, fun i => trivial⟩
  | cons e es ih =>
    obtain ⟨hrun, hinputs⟩ := ih (h.step hs hfair.1) hfair.2
    refine ⟨hrun, fun i => ?_⟩
    show Always _ _ _ (s.given i e ++ inputs handle i (next handle s e) es)
    rw [always_append, ← (local_step handle s e).party i]
    exact ⟨hs.given_ok hfair.1 i, hinputs i⟩

/-- The rule where what is fair does not depend on the states. -/
theorem Keeps.run_of_forall {fair : ι → ε → Prop} (h : Keeps handle inv (fun i _ => fair i) ok)
    (hs : AllOk inv ok s) {es : List (Event ι ε)} (hfair : ∀ i e, .happens i e ∈ es → fair i e) :
    AllOk inv ok (es.foldl (next handle) s) ∧
      ∀ i, ∀ x ∈ inputs handle i s es, ∀ a : σ, x.Ok (fun i _ => fair i) ok i a := by
  have hall : ∀ e ∈ es, ∀ t : Net ι σ μ, e.Fair (fun i _ => fair i) t := by
    intro e he t
    cases e with
    | happens i e => exact hfair i e he
    | deliver i j => exact trivial
  have hevents : Always (Event.Fair fun i _ => fair i) (next handle) s es := by
    clear hs hfair
    induction es generalizing s with
    | nil => exact trivial
    | cons e es ih =>
      exact ⟨hall e List.mem_cons_self s, ih fun e' he' => hall e' (List.mem_cons_of_mem e he')⟩
  obtain ⟨hrun, hinputs⟩ := h.run hs hevents
  refine ⟨hrun, fun i x hx a => ?_⟩
  have hsame : ∀ (b : σ) (x : Input ι μ ε), x.Ok (fun i _ => fair i) ok i b ↔
      x.Ok (fun i _ => fair i) ok i a := by
    intro b x
    cases x with
    | happens e => exact Iff.rfl
    | receives k m => exact Iff.rfl
  have hone := hinputs i
  simp only [hsame] at hone
  exact (always_const_iff _ _).mp hone x hx

end Parties
