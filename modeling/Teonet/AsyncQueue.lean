import Teonet.Lib.Bytes
import Teonet.Lib.Runs

/-! # The queue of the event loop

`ksnetEvMgrAsync` of `ev_mgr.c` puts an element into `async_queue` on any thread and wakes the event
loop with `ev_async_send`; the loop takes one element in each `sig_async_cb`, raises `EV_K_ASYNC` with
it, and comes back through the idle watcher, whose callback wakes the loop again.

The two halves of a call and the sections under `async_mutex` are the steps, and those of all threads
interleave in any order (`Step`).  `processed_of_run` says that the events are raised in the order of
the queue, each once, and that no wake-up is lost: as long as an element is left, a signal is pending,
the idle watcher is active, a call still has to send its signal, or the loop is inside one of the two
callbacks.  So a step that goes on is always there (`Inv.goesOn`), and such steps end
(`pending_lt`). -/

namespace Teonet.AsyncQueue

open Bytes Runs

/-! ### Elements -/

/-- The arguments of `ksnetEvMgrAsync`; `data` is `none` for a null pointer, and the length is that of
the data. -/
structure AsyncCall where
  data : Option (List UInt8)
  userData : UInt64
deriving DecidableEq

/-- What is copied into the element. -/
def AsyncCall.bytes (c : AsyncCall) : List UInt8 := c.data.getD []

/-- The element of a call: the pointer, the length as a `uint32_t`, the data. -/
def AsyncCall.element (c : AsyncCall) : List UInt8 :=
  le 8 c.userData.toNat ++ (le 4 c.bytes.length ++ c.bytes)

/-- The arguments of `event_cb` for `EV_K_ASYNC`. -/
structure AsyncEvent where
  data : Option (List UInt8)
  dataLen : ℕ
  userData : UInt64
deriving DecidableEq

/-- What `sig_async_cb` reads out of an element. -/
def readElement (element : List UInt8) : AsyncEvent :=
  let dataLen := getLe 4 (element.drop 8)
  { data := if dataLen ≠ 0 then some ((element.drop 12).take dataLen) else none
    dataLen := dataLen
    userData := UInt64.ofNat (getLe 8 element) }

/-- The event of a call: its bytes, as far as the 32-bit length goes, or `NULL` for none. -/
def AsyncCall.event (c : AsyncCall) : AsyncEvent :=
  let dataLen := c.bytes.length % 2 ^ 32
  { data := if dataLen ≠ 0 then some (c.bytes.take dataLen) else none
    dataLen := dataLen
    userData := c.userData }

theorem readElement_element (c : AsyncCall) : readElement c.element = c.event := by
  have hlen : getLe 4 (c.element.drop 8) = c.bytes.length % 2 ^ 32 := by
    rw [AsyncCall.element, List.drop_left' (le_length 8 _), getLe_le_append]
    norm_num
  have hdata : c.element.drop 12 = c.bytes := by
    rw [AsyncCall.element, ← List.append_assoc, List.drop_left' (by simp)]
  have huser : UInt64.ofNat (getLe 8 c.element) = c.userData := by
    rw [AsyncCall.element, getLe_le_append, show 256 ^ 8 = 2 ^ 64 by norm_num,
      Nat.mod_eq_of_lt c.userData.toNat_lt]
    exact UInt64.ofNat_toNat
  rw [readElement, hlen, hdata, huser, AsyncCall.event]

/-! ### The steps -/

/-- The thread of a call. -/
inductive Thread
  | loop
  | other (id : ℕ)
deriving DecidableEq

/-- Where the loop is. -/
inductive LoopAt
  /-- between two callbacks -/
  | poll
  /-- in a callback of another watcher -/
  | otherCb
  /-- in `sig_async_cb`, before the test for an empty queue -/
  | test
  /-- in `sig_async_cb`, before `pblListPoll` -/
  | take
  /-- in `event_cb`, with an element -/
  | eventCb
  /-- in `idle_async_cb`, before `ev_async_send` -/
  | idleCb
  /-- `pblListPoll` has found the queue empty: an invalid pointer is read -/
  | crashed
deriving DecidableEq

/-- The loop, the queue and the calls.  `sent` is the flag of `ev_async_send`, `fed` says that the loop
has seen it and will call `sig_async_cb`; `unsent` are the threads that have added an element and not
yet sent their signal; `raised` are the events so far. -/
structure State where
  asyncQueue : List (List UInt8) := []
  sent : Bool := false
  fed : Bool := false
  idleActive : Bool := false
  loopAt : LoopAt := .poll
  unsent : List Thread := []
  raised : List AsyncEvent := []

/-- The loop when it has just been started. -/
def start : State := {}

/-- The steps, by name. -/
inductive AsyncStep
  | add (t : Thread) (c : AsyncCall)
  | send (t : Thread)
  | collect
  | sigStart
  | sigTest
  | sigTake
  | eventReturn
  | idleStart
  | idleSend
  | otherStart
  | otherReturn
deriving DecidableEq

/-- One step.  The loop calls `ksnetEvMgrAsync` only in a callback, which returns after the call. -/
inductive Step (s : State) : AsyncStep → State → Prop
  /-- `ksnetEvMgrAsync`, up to the end of its section under the mutex -/
  | add (t : Thread) (c : AsyncCall) (hfree : t ∉ s.unsent)
      (hloop : t = .loop → s.loopAt = .eventCb ∨ s.loopAt = .otherCb) :
      Step s (.add t c) { s with
        asyncQueue := s.asyncQueue ++ [c.element], unsent := t :: s.unsent }
  /-- its `ev_async_send` -/
  | send (t : Thread) (ht : t ∈ s.unsent) :
      Step s (.send t) { s with sent := true, unsent := s.unsent.erase t }
  /-- the loop sees the signal -/
  | collect (hat : s.loopAt = .poll) (hsent : s.sent = true) :
      Step s .collect { s with sent := false, fed := true }
  /-- `sig_async_cb` is called -/
  | sigStart (hat : s.loopAt = .poll) (hfed : s.fed = true) :
      Step s .sigStart { s with fed := false, loopAt := .test }
  /-- the test for an empty queue, and that of the idle watcher -/
  | sigTest (hat : s.loopAt = .test) :
      Step s .sigTest { s with
        loopAt := if s.asyncQueue = [] then .poll else if s.idleActive then .poll else .take }
  /-- `pblListPoll`, and the call of `event_cb` with what it gives; an element is never null -/
  | sigTake (hat : s.loopAt = .take) :
      Step s .sigTake (match s.asyncQueue with
        | [] => { s with loopAt := .crashed }
        | element :: rest => { s with
            asyncQueue := rest
            loopAt := .eventCb
            raised := s.raised ++ [readElement element] })
  /-- `event_cb` returns, and `ev_idle_start` -/
  | eventReturn (hat : s.loopAt = .eventCb) (hloop : .loop ∉ s.unsent) :
      Step s .eventReturn { s with idleActive := true, loopAt := .poll }
  /-- `idle_async_cb` is called, and `ev_idle_stop` -/
  | idleStart (hat : s.loopAt = .poll) (hidle : s.idleActive = true) :
      Step s .idleStart { s with idleActive := false, loopAt := .idleCb }
  /-- its `ev_async_send` -/
  | idleSend (hat : s.loopAt = .idleCb) :
      Step s .idleSend { s with sent := true, loopAt := .poll }
  /-- a callback of another watcher -/
  | otherStart (hat : s.loopAt = .poll) : Step s .otherStart { s with loopAt := .otherCb }
  /-- its return -/
  | otherReturn (hat : s.loopAt = .otherCb) (hloop : .loop ∉ s.unsent) :
      Step s .otherReturn { s with loopAt := .poll }

/-- The call that a step adds to the queue. -/
def AsyncStep.added : AsyncStep → Option AsyncCall
  | .add _ c => some c
  | _ => none

/-- The steps that finish what has been begun: all but a new call and a new callback of another
watcher. -/
def AsyncStep.GoesOn : AsyncStep → Prop
  | .add .. => False
  | .otherStart => False
  | _ => True

/-- The loop is inside `sig_async_cb` or `idle_async_cb`. -/
def State.InCallback (s : State) : Prop :=
  s.loopAt = .test ∨ s.loopAt = .take ∨ s.loopAt = .eventCb ∨ s.loopAt = .idleCb

/-- Something is going to bring the loop back to the queue. -/
def State.Awake (s : State) : Prop :=
  s.sent = true ∨ s.fed = true ∨ s.idleActive = true ∨ s.unsent ≠ [] ∨ s.InCallback

/-- The events of the calls of a run, in the order in which they entered the queue. -/
def events (past : List AsyncStep) : List AsyncEvent :=
  (past.filterMap AsyncStep.added).map AsyncCall.event

/-- What holds after the steps `past`. -/
structure Inv (past : List AsyncStep) (s : State) : Prop where
  raised : s.raised ++ s.asyncQueue.map readElement = events past
  awake : s.asyncQueue ≠ [] → s.Awake
  nonempty : s.loopAt = .take → s.asyncQueue ≠ []
  running : s.loopAt ≠ .crashed
  loopCalls : .loop ∈ s.unsent → s.loopAt = .eventCb ∨ s.loopAt = .otherCb

variable {s t u : State} {e : AsyncStep} {past es : List AsyncStep}

theorem events_concat_add (past : List AsyncStep) (th : Thread) (c : AsyncCall) :
    events (past ++ [.add th c]) = events past ++ [c.event] := by
  rw [events, List.filterMap_append, List.map_append]
  rfl

theorem events_concat (past : List AsyncStep) (h : e.added = none) :
    events (past ++ [e]) = events past := by
  rw [events, List.filterMap_append, List.filterMap_cons_none h, List.filterMap_nil,
    List.append_nil, events]

theorem inv_start : Inv [] start where
  raised := rfl
  awake h := absurd rfl h
  nonempty h := by cases h
  running h := by cases h
  loopCalls h := by cases h

/-- Outside the two callbacks it is a flag or a call that brings the loop back. -/
theorem State.Awake.outside (h : s.Awake) (hat : s.loopAt = .poll ∨ s.loopAt = .otherCb)
    {pos : LoopAt} : { s with loopAt := pos }.Awake := by
  rcases h with hsent | hfed | hidle | hunsent | hin
  · exact .inl hsent
  · exact .inr (.inl hfed)
  · exact .inr (.inr (.inl hidle))
  · exact .inr (.inr (.inr (.inl hunsent)))
  · rcases hat with hat | hat <;> rcases hin with hin | hin | hin | hin <;>
      exact absurd (hat.symm.trans hin) (by decide)

/-- The loop does not call `ksnetEvMgrAsync` outside the callbacks of the application. -/
theorem Inv.loop_notMem (h : Inv past s) {pos : LoopAt} (hat : s.loopAt = pos)
    (hevent : pos ≠ .eventCb) (hother : pos ≠ .otherCb) : .loop ∉ s.unsent := by
  intro hmem
  rcases h.loopCalls hmem with hcb | hcb
  · exact hevent (hat.symm.trans hcb)
  · exact hother (hat.symm.trans hcb)

/-- **Step lemma**. -/
theorem Inv.step (h : Inv past s) (hstep : Step s e t) : Inv (past ++ [e]) t := by
  cases hstep with
  | add th c hfree hloop =>
    refine ⟨?_, fun _ => .inr (.inr (.inr (.inl (List.cons_ne_nil _ _)))),
      fun _ => List.append_ne_nil_of_right_ne_nil _ (List.cons_ne_nil _ _), h.running,
      fun hmem => ?_⟩
    · rw [events_concat_add, ← h.raised, List.map_append, List.append_assoc, List.map_cons,
        readElement_element]
      rfl
    · rcases List.mem_cons.mp hmem with hth | hold
      · exact hloop hth.symm
      · exact h.loopCalls hold
  | send th ht =>
    exact ⟨h.raised.trans (events_concat past rfl).symm, fun _ => .inl rfl, h.nonempty, h.running,
      fun hmem => h.loopCalls (List.mem_of_mem_erase hmem)⟩
  | collect hat hsent =>
    exact ⟨h.raised.trans (events_concat past rfl).symm, fun _ => .inr (.inl rfl), h.nonempty,
      h.running, h.loopCalls⟩
  | sigStart hat hfed =>
    exact ⟨h.raised.trans (events_concat past rfl).symm,
      fun _ => .inr (.inr (.inr (.inr (.inl rfl)))), nofun, nofun,
      fun hmem => absurd hmem (h.loop_notMem hat (by decide) (by decide))⟩
  | sigTest hat =>
    refine ⟨h.raised.trans (events_concat past rfl).symm, fun hne => ?_, fun htake => ?_,
      fun hcrashed => ?_, fun hmem => absurd hmem (h.loop_notMem hat (by decide) (by decide))⟩
    · by_cases hidle : s.idleActive = true
      · exact .inr (.inr (.inl hidle))
      · refine .inr (.inr (.inr (.inr (.inr (.inl ?_)))))
        exact (if_neg hne).trans (if_neg hidle)
    · dsimp only at htake ⊢
      split_ifs at htake with hnil
      exact hnil
    · dsimp only at hcrashed
      split_ifs at hcrashed
  | sigTake hat =>
    have hraised := h.raised
    cases hqueue : s.asyncQueue with
    | nil => exact absurd hqueue (h.nonempty hat)
    | cons element rest =>
      rw [hqueue, List.map_cons] at hraised
      refine ⟨?_, fun _ => .inr (.inr (.inr (.inr (.inr (.inr (.inl rfl)))))), nofun, nofun,
        fun hmem => absurd hmem (h.loop_notMem hat (by decide) (by decide))⟩
      rw [events_concat past rfl, ← hraised, List.append_assoc]
      rfl
  | eventReturn hat hloop =>
    exact ⟨h.raised.trans (events_concat past rfl).symm, fun _ => .inr (.inr (.inl rfl)), nofun,
      nofun, fun hmem => absurd hmem hloop⟩
  | idleStart hat hidle =>
    exact ⟨h.raised.trans (events_concat past rfl).symm,
      fun _ => .inr (.inr (.inr (.inr (.inr (.inr (.inr rfl)))))), nofun, nofun,
      fun hmem => absurd hmem (h.loop_notMem hat (by decide) (by decide))⟩
  | idleSend hat =>
    exact ⟨h.raised.trans (events_concat past rfl).symm, fun _ => .inl rfl, nofun, nofun,
      fun hmem => absurd hmem (h.loop_notMem hat (by decide) (by decide))⟩
  | otherStart hat =>
    exact ⟨h.raised.trans (events_concat past rfl).symm,
      fun hne => (h.awake hne).outside (.inl hat), nofun, nofun, fun _ => .inr rfl⟩
  | otherReturn hat hloop =>
    exact ⟨h.raised.trans (events_concat past rfl).symm,
      fun hne => (h.awake hne).outside (.inr hat), nofun, nofun, fun hmem => absurd hmem hloop⟩

/-! ### Going on -/

/-- An element is left only where a step goes on. -/
theorem Inv.goesOn (h : Inv past s) (hne : s.asyncQueue ≠ []) :
    ∃ e t, Step s e t ∧ e.GoesOn := by
  cases hunsent : s.unsent with
  | cons th rest =>
    have hmem : th ∈ s.unsent := hunsent ▸ List.mem_cons_self
    exact ⟨_, _, .send th hmem, trivial⟩
  | nil =>
    have hloop : .loop ∉ s.unsent := hunsent ▸ List.not_mem_nil
    cases hat : s.loopAt with
    | test => exact ⟨_, _, .sigTest hat, trivial⟩
    | take => exact ⟨_, _, .sigTake hat, trivial⟩
    | eventCb => exact ⟨_, _, .eventReturn hat hloop, trivial⟩
    | idleCb => exact ⟨_, _, .idleSend hat, trivial⟩
    | otherCb => exact ⟨_, _, .otherReturn hat hloop, trivial⟩
    | crashed => exact absurd hat h.running
    | poll =>
      rcases h.awake hne with hsent | hfed | hidle | hcalls | hin
      · exact ⟨_, _, .collect hat hsent, trivial⟩
      · exact ⟨_, _, .sigStart hat hfed, trivial⟩
      · exact ⟨_, _, .idleStart hat hidle, trivial⟩
      · exact absurd hunsent hcalls
      · rcases hin with hin | hin | hin | hin <;> exact absurd (hat.symm.trans hin) (by decide)

/-- The steps that may still be needed where the loop is. -/
def LoopAt.pending : LoopAt → ℕ
  | .poll => 0
  | .otherCb => 1
  | .take => 1
  | .test => 2
  | .idleCb => 5
  | .eventCb => 7
  | .crashed => 0

/-- A bound for the steps that go on. -/
def State.pending (s : State) : ℕ :=
  7 * s.asyncQueue.length + 5 * s.unsent.length + s.loopAt.pending +
    (4 * s.sent.toNat + 3 * s.fed.toNat + 6 * s.idleActive.toNat)

theorem pending_lt (hstep : Step s e t) (he : e.GoesOn) : t.pending < s.pending := by
  unfold State.pending
  cases hstep with
  | add => cases he
  | otherStart => cases he
  | send th ht =>
    have hlen := List.length_erase_of_mem ht
    have hpos := List.length_pos_of_mem ht
    simp only [hlen, Bool.toNat_true]
    omega
  | collect hat hsent =>
    simp only [hsent, Bool.toNat_true, Bool.toNat_false]
    omega
  | sigStart hat hfed =>
    simp only [hat, hfed, Bool.toNat_true, Bool.toNat_false, LoopAt.pending]
    omega
  | sigTest hat =>
    simp only [hat]
    split_ifs <;> simp only [LoopAt.pending] <;> omega
  | sigTake hat =>
    cases hqueue : s.asyncQueue with
    | nil =>
      simp only [hat, LoopAt.pending]
      omega
    | cons element rest =>
      simp only [hat, LoopAt.pending, List.length_cons]
      omega
  | eventReturn hat hloop =>
    simp only [hat, Bool.toNat_true, LoopAt.pending]
    omega
  | idleStart hat hidle =>
    simp only [hat, hidle, Bool.toNat_true, Bool.toNat_false, LoopAt.pending]
    omega
  | idleSend hat =>
    simp only [hat, Bool.toNat_true, LoopAt.pending]
    omega
  | otherReturn hat hloop =>
    simp only [hat, LoopAt.pending]
    omega

/-! ### Runs -/

/-- **Main result.**  In every run the events that have been raised and those of the elements in the
queue are the events of the calls in order; the loop finds an element whenever it takes one; where an
element is left, something brings the loop back to it; and the steps that go on end, with all events
raised. -/
theorem processed_of_run (h : Run Step start es s) :
    s.raised ++ s.asyncQueue.map readElement = events es ∧
    s.loopAt ≠ .crashed ∧
    (s.asyncQueue ≠ [] → s.Awake) ∧
    (∀ fs u, Run Step s fs u → (∀ e ∈ fs, e.GoesOn) → fs.length ≤ s.pending) ∧
    ((∀ e u, Step s e u → ¬e.GoesOn) → s.raised = events es) := by
  have hinv : Inv es s :=
    h.history Inv (fun _ _ _ _ hi hstep => hi.step hstep) [] inv_start
  refine ⟨hinv.raised, hinv.running, hinv.awake, fun fs u hrun hon => ?_, fun hstuck => ?_⟩
  · have hlt : ∀ s e t, Step s e t → e.GoesOn → t.pending < s.pending :=
      fun _ _ _ => pending_lt
    have hle := hrun.length_add_le State.pending hlt hon
    omega
  · have hnil : s.asyncQueue = [] := by
      by_contra hne
      obtain ⟨e, u, hstep, hon⟩ := hinv.goesOn hne
      exact hstuck e u hstep hon
    have hraised := hinv.raised
    rwa [hnil, List.map_nil, List.append_nil] at hraised

/-! ### Two calls -/

/-- A call with one byte of data. -/
def oneByteCall (b : UInt8) : AsyncCall := ⟨some [b], 0⟩

/-- Two calls of another thread, and the loop until it is in `event_cb` with the first element: the
two signals are one. -/
theorem twoCalls_run : Run Step start
    [.add (.other 0) (oneByteCall 1), .send (.other 0), .add (.other 0) (oneByteCall 2),
      .send (.other 0), .collect, .sigStart, .sigTest, .sigTake]
    { asyncQueue := [(oneByteCall 2).element], loopAt := .eventCb,
      raised := [(oneByteCall 1).event] } :=
  .cons (.add _ _ (by decide) nofun) (.cons (.send _ (by decide))
    (.cons (.add _ _ (by decide) nofun) (.cons (.send _ (by decide))
      (.cons (.collect rfl rfl) (.cons (.sigStart rfl rfl)
        (.cons (.sigTest rfl) (.single (.sigTake rfl))))))))

theorem processed_of_run_twoCalls :
    [(oneByteCall 1).event] ++ [(oneByteCall 2).element].map readElement =
      [(oneByteCall 1).event, (oneByteCall 2).event] :=
  (processed_of_run twoCalls_run).1

/-- While `event_cb` runs, no signal is pending and the idle watcher is not active. -/
theorem not_signalled_of_run :
    ¬∀ (es : List AsyncStep) (s : State), Run Step start es s → s.asyncQueue ≠ [] →
      s.sent = true ∨ s.fed = true ∨ s.idleActive = true := by
  intro hall
  exact absurd (hall _ _ twoCalls_run (List.cons_ne_nil _ _)) (by decide)

end Teonet.AsyncQueue
