import Teonet.AsyncCalls
import Teonet.Lib.Runs

/-! # Calls from other threads: the hand-over

`SEND_ASYNC` on the calling thread and `event_cb` on the thread of the event loop, for one call.
The caller puts its buffer into the queue and, in multithread mode, waits up to 150 ms for the loop
to write the send-queue size into `ud->rv`; it sends the buffer again while that size is large.
The steps of the two threads interleave in any order, and other calls change `f_multi_thread` and
`check_retrives` between any two of them.

`Handover` is the condition on a step: the caller goes on from its wait only when the loop has taken
the buffer or nobody waits for it any more, a loop that refuses the request finds a caller that will
send it again, and the caller reads its result from `ud` before the loop frees it, which it does
outside of multithread mode.  `Inv` is the invariant, and `async_once_of_meets` the result: the loop performs
the direct call, at most once, and once when the caller has returned and the queue is drained. -/

namespace Teonet.AsyncCalls

open Runs

/-! ### The send queue -/

abbrev chsqWrongRequest : ℤ := -2
abbrev chsqWrongPeer : ℤ := -3
abbrev chsqWrongAddress : ℤ := -4
abbrev chsqTimeout : ℤ := -5

/-- `SEND_IF`. -/
abbrev sendIf : ℤ := 64

/-- What `_check_send_queue` reads: the address and the port of a peer in the ARP table, and the
size of the send queue of a TR-UDP channel. -/
structure SendQueues where
  ksnetArpGet : CString → Option (CString × UInt32)
  trudpSendQueueSize : CString → UInt32 → Option ℕ

/-- The size of the send queue to an address. -/
def SendQueues.ofAddr (q : SendQueues) (addr : CString) (port : UInt32) : ℤ :=
  match q.trudpSendQueueSize addr port with
  | some n => n
  | none => chsqWrongAddress

/-- `_check_send_queue`; `none` is a pointer that is `NULL`. -/
def checkSendQueue (q : SendQueues) : Option CString → Option CString → UInt32 → ℤ
  | some peer, none, _ =>
    match q.ksnetArpGet peer with
    | some (addr, port) => q.ofAddr addr port
    | none => chsqWrongPeer
  | _, some addr, port => q.ofAddr addr port
  | none, none, _ => chsqWrongRequest

/-- What `event_cb` writes into `ud->rv` for a request. -/
def DirectCall.checkSendQueue (q : SendQueues) : DirectCall → ℤ
  | .ksnCoreSendCmdto peer _ _ => AsyncCalls.checkSendQueue q (some peer) none 0
  | .teoSScrSend .. => 0
  | .ksnLNullSendToL0 addr port .. => AsyncCalls.checkSendQueue q none (some addr) port
  | .ksnCoreSendto addr port .. => AsyncCalls.checkSendQueue q none (some addr) port
  | .teoSScrSubscribe peer _ => AsyncCalls.checkSendQueue q (some peer) none 0

/-- `SEND_CONDITION`. -/
def sendCondition (rv : ℤ) : Bool := (0 ≤ rv ∨ rv = chsqWrongPeer) ∧ rv < sendIf

/-! ### The state -/

/-- `f_multi_thread`. -/
inductive MultiThread
  | notDefined
  | multithread
  | noMultithread
deriving DecidableEq, Repr

/-- Where the caller is in `SEND_ASYNC`. -/
inductive Phase
  /-- the call is still to be made -/
  | idle
  /-- before `ksnetEvMgrAsync` -/
  | send
  /-- in `pthread_cond_timedwait`, or past it when it does not wait -/
  | wait
  /-- before the test that ends the loop -/
  | decide
  /-- past the loop, before `ud->rv` is read for the result -/
  | leave
  /-- before `ud` is freed -/
  | free
  | returned
deriving DecidableEq, Repr

/-- What one call and the event loop share: `live` is set while `ud` is allocated, `asyncQueue` are
the elements of this call in the queue, and `performed` are the calls that the loop made. -/
structure State where
  fMultiThread : MultiThread
  checkRetrives : ℕ
  phase : Phase := .idle
  rv : ℤ := 0
  live : Bool := false
  asyncQueue : List AsyncElement := []
  performed : List DirectCall := []

/-- Memory that was freed is used. -/
inductive AsyncFault
  | useAfterFree
  | doubleFree
deriving DecidableEq, Repr

/-- `MULTITHREADED()`. -/
def State.multithreaded (s : State) : Bool := s.fMultiThread = .multithread

/-! ### The caller -/

/-- `CHECK_RETRIVES`. -/
abbrev checkRetrivesMax : ℕ := 10

/-- `_check_multi_thread`: without multithread mode a request without data is sent first; `answered`
says whether the loop answered it within the wait. -/
def State.checkMultiThread (noMultiThreadF answered : Bool) (s : State) : State :=
  if noMultiThreadF = false ∧ s.fMultiThread ≠ .multithread ∧
      s.checkRetrives < checkRetrivesMax then
    if answered then { s with fMultiThread := .multithread, checkRetrives := 0 }
    else { s with fMultiThread := .noMultithread, checkRetrives := s.checkRetrives + 1 }
  else s

/-- `SEND_ASYNC` up to its loop. -/
def State.sendAsync (noMultiThreadF answered : Bool) (s : State) : State :=
  match s.phase with
  | .idle =>
    { s.checkMultiThread noMultiThreadF answered with
      live := true, rv := chsqTimeout, phase := .send }
  | _ => s

/-- `ksnetEvMgrAsync` of the loop. -/
def State.enqueue (buf : List UInt8) (s : State) : State :=
  match s.phase with
  | .send => { s with asyncQueue := ksnetEvMgrAsync s.asyncQueue buf, phase := .wait }
  | _ => s

/-- The wait is over, by a signal or by its timeout. -/
def State.wake (s : State) : Except AsyncFault State :=
  match s.phase with
  | .wait =>
    if s.multithreaded then
      if s.live then
        if s.rv = chsqTimeout then
          .ok { s with
            checkRetrives := s.checkRetrives + 1
            fMultiThread :=
              if s.checkRetrives + 1 < checkRetrivesMax then .notDefined else .noMultithread
            phase := .decide }
        else .ok { s with phase := .decide }
      else .error .useAfterFree
    else .ok { s with phase := .decide }
  | _ => .ok s

/-- The test that ends the loop.  `ud->rv` keeps its value when the buffer is sent again. -/
def State.decide (runEventMgr : Bool) (s : State) : Except AsyncFault State :=
  match s.phase with
  | .decide =>
    if s.multithreaded then
      if s.live then
        if (sendIf ≤ s.rv ∨ s.rv = chsqTimeout) ∧ runEventMgr then .ok { s with phase := .send }
        else .ok { s with phase := .leave }
      else .error .useAfterFree
    else .ok { s with phase := .leave }
  | _ => .ok s

/-- Behind the loop: `retval` is read from `ud` in every mode. -/
def State.leave (s : State) : Except AsyncFault State :=
  match s.phase with
  | .leave => if s.live then .ok { s with phase := .free } else .error .useAfterFree
  | _ => .ok s

/-- The end of `SEND_ASYNC`. -/
def State.free (s : State) : Except AsyncFault State :=
  match s.phase with
  | .free =>
    if s.multithreaded then
      if s.live then .ok { s with live := false, phase := .returned }
      else .error .doubleFree
    else .ok { s with phase := .returned }
  | _ => .ok s

/-! ### The event loop -/

/-- `event_cb` with a request: the answer to the caller, and the call. -/
def State.process (q : SendQueues) (call : DirectCall) (s : State) : State :=
  let rv := call.checkSendQueue q
  { s with
    rv := rv
    performed :=
      if !s.multithreaded || sendCondition rv then s.performed ++ [call] else s.performed
    live := s.live && s.multithreaded }

/-- The next element of the queue (`sig_async_cb`) through `event_cb`; `after` is what lies behind
it in memory. -/
def State.eventCb (q : SendQueues) (after : List UInt8) (s : State) : Except AsyncFault State :=
  match s.asyncQueue with
  | [] => .ok s
  | e :: queue =>
    -- the label of `ud` is read first
    if s.live then
      let s := { s with asyncQueue := queue }
      -- without data it is a check of the mode
      if e.dataLen = 0 then
        if s.multithreaded then .ok { s with rv := 0 } else .ok { s with live := false }
      else if 2 < e.dataLen then
        match parse (e.data ++ after) e.dataLen with
        | some call => .ok (s.process q call)
        | none => .ok s
      else .ok s
    else .error .useAfterFree

/-! ### Runs -/

/-- What can happen: the steps of the caller, a step of the event loop, and what other calls do to
the mode. -/
inductive Event
  | sendAsync (answered : Bool)
  | enqueue
  | wake
  | decide (runEventMgr : Bool)
  | leave
  | free
  | eventCb (q : SendQueues) (after : List UInt8)
  | setMode (fMultiThread : MultiThread) (checkRetrives : ℕ)

/-- One step of a call. -/
def step (noMultiThreadF : Bool) (call : AsyncCall) (s : State) : Event → Except AsyncFault State
  | .sendAsync answered => .ok (s.sendAsync noMultiThreadF answered)
  | .enqueue => .ok (s.enqueue call.buf)
  | .wake => s.wake
  | .decide runEventMgr => s.decide runEventMgr
  | .leave => s.leave
  | .free => s.free
  | .eventCb q after => s.eventCb q after
  | .setMode fMultiThread checkRetrives => .ok { s with fMultiThread, checkRetrives }

/-- Before the call. -/
def State.start (fMultiThread : MultiThread) (checkRetrives : ℕ) : State :=
  { fMultiThread, checkRetrives }

/-! ### The condition on a step -/

/-- The steps that hand the request over.  In multithread mode the caller goes on only when the loop
has taken the buffer and `ud` is still allocated, and it sends again what the loop refused; outside
of it the caller does not leave a refused request behind.  In every mode it reads its result while
`ud` is allocated.  The loop refuses a request, in
multithread mode, only for the size of the queue and only while the caller is still in its loop. -/
def Handover (call : AsyncCall) (s : State) : Event → Prop
  | .wake => s.phase = .wait → s.multithreaded → s.live
  | .decide runEventMgr => s.phase = .decide →
      if s.multithreaded then s.live ∧ s.asyncQueue = [] ∧ (sendIf ≤ s.rv → runEventMgr)
      else ¬(s.live ∧ s.asyncQueue = [] ∧ sendIf ≤ s.rv)
  | .leave => s.phase = .leave → s.live
  | .free => s.phase = .free → s.multithreaded → s.live ∧ s.asyncQueue = []
  | .eventCb q _ => s.asyncQueue ≠ [] → s.multithreaded →
      sendCondition (call.direct.checkSendQueue q) ∨
        (sendIf ≤ call.direct.checkSendQueue q ∧ (s.phase = .wait ∨ s.phase = .decide))
  | _ => True

instance (call : AsyncCall) (s : State) : ∀ e : Event, Decidable (Handover call s e)
  | .wake => inferInstanceAs (Decidable (s.phase = .wait → s.multithreaded → s.live))
  | .decide runEventMgr => inferInstanceAs (Decidable (s.phase = .decide →
      if s.multithreaded then s.live ∧ s.asyncQueue = [] ∧ (sendIf ≤ s.rv → runEventMgr)
      else ¬(s.live ∧ s.asyncQueue = [] ∧ sendIf ≤ s.rv)))
  | .leave => inferInstanceAs (Decidable (s.phase = .leave → s.live))
  | .free => inferInstanceAs (Decidable (s.phase = .free → s.multithreaded →
      s.live ∧ s.asyncQueue = []))
  | .eventCb q _ => inferInstanceAs (Decidable (s.asyncQueue ≠ [] → s.multithreaded →
      sendCondition (call.direct.checkSendQueue q) ∨
        (sendIf ≤ call.direct.checkSendQueue q ∧ (s.phase = .wait ∨ s.phase = .decide))))
  | .sendAsync _ => .isTrue trivial
  | .enqueue => .isTrue trivial
  | .setMode .. => .isTrue trivial

/-! ### The invariant -/

/-- The element of the queue for a call. -/
def AsyncCall.element (call : AsyncCall) : AsyncElement := ⟨call.buf, call.buf.length % 2 ^ 32⟩

/-- Past `ksnetEvMgrAsync`. -/
def Phase.sent : Phase → Bool
  | .idle | .send => false
  | _ => true

/-- Where the request is: nowhere yet, in the caller's hands, in the queue, refused, or done. -/
inductive Inv (call : AsyncCall) (s : State) : Prop
  | idle (hphase : s.phase = .idle) (hqueue : s.asyncQueue = []) (hdone : s.performed = [])
  | send (hphase : s.phase = .send) (hlive : s.live) (hqueue : s.asyncQueue = [])
      (hdone : s.performed = [])
  | queued (hphase : s.phase.sent) (hlive : s.live) (hqueue : s.asyncQueue = [call.element])
      (hdone : s.performed = [])
  | refused (hphase : s.phase = .wait ∨ s.phase = .decide) (hlive : s.live)
      (hqueue : s.asyncQueue = []) (hdone : s.performed = []) (hrv : sendIf ≤ s.rv)
  | done (hphase : s.phase.sent) (hqueue : s.asyncQueue = []) (hdone : s.performed = [call.direct])
      (hrv : s.live → s.rv < sendIf ∧ s.rv ≠ chsqTimeout)

theorem inv_start (call : AsyncCall) (fMultiThread : MultiThread) (checkRetrives : ℕ) :
    Inv call (.start fMultiThread checkRetrives) :=
  .idle rfl rfl rfl

/-- No fault. -/
abbrev Good (call : AsyncCall) : Except AsyncFault State → Prop := Result (Inv call) fun _ => True

variable {call : AsyncCall} {s : State}

/-- The invariant does not read the mode. -/
theorem Inv.setMode (h : Inv call s) (fMultiThread : MultiThread) (checkRetrives : ℕ) :
    Inv call { s with fMultiThread, checkRetrives } := by
  cases h with
  | idle hphase hqueue hdone => exact .idle hphase hqueue hdone
  | send hphase hlive hqueue hdone => exact .send hphase hlive hqueue hdone
  | queued hphase hlive hqueue hdone => exact .queued hphase hlive hqueue hdone
  | refused hphase hlive hqueue hdone hrv => exact .refused hphase hlive hqueue hdone hrv
  | done hphase hqueue hdone hrv => exact .done hphase hqueue hdone hrv

theorem Inv.sendAsync (h : Inv call s) (noMultiThreadF answered : Bool) :
    Inv call (s.sendAsync noMultiThreadF answered) := by
  unfold State.sendAsync
  split
  · next hidle =>
    cases h with
    | idle _ hqueue hdone =>
      refine .send rfl rfl ?_ ?_
      · unfold State.checkMultiThread
        split_ifs <;> exact hqueue
      · unfold State.checkMultiThread
        split_ifs <;> exact hdone
    | _ hphase => simp [hidle, Phase.sent] at hphase
  · exact h

theorem Inv.enqueue (h : Inv call s) : Inv call (s.enqueue call.buf) := by
  unfold State.enqueue
  split
  · next hsend =>
    cases h with
    | send _ hlive hqueue hdone =>
      refine .queued rfl hlive ?_ hdone
      rw [hqueue]
      rfl
    | _ hphase => simp [hsend, Phase.sent] at hphase
  · exact h

/-- Past the wait nothing else changes. -/
theorem Inv.wake_phase (h : Inv call s) (hwait : s.phase = .wait) :
    Inv call { s with phase := .decide } := by
  cases h with
  | queued _ hlive hqueue hdone => exact .queued rfl hlive hqueue hdone
  | refused _ hlive hqueue hdone hrv => exact .refused (.inr rfl) hlive hqueue hdone hrv
  | done _ hqueue hdone hrv => exact .done rfl hqueue hdone hrv
  | _ hphase => simp [hwait] at hphase

theorem wake_good (h : Inv call s) (hg : Handover call s .wake) : Good call s.wake := by
  unfold State.wake
  split
  · next hwait =>
    have hnext := h.wake_phase hwait
    split_ifs with hmulti hlive hrv hretry
    · exact hnext.setMode _ _
    · exact hnext.setMode _ _
    · exact hnext
    · exact absurd (hg hwait hmulti) hlive
    · exact hnext
  · exact h

theorem decide_good (h : Inv call s) {runEventMgr : Bool}
    (hg : Handover call s (.decide runEventMgr)) : Good call (s.decide runEventMgr) := by
  unfold State.decide
  split
  · next hdec =>
    have hg := hg hdec
    cases h with
    | queued _ hlive hqueue hdone =>
      -- in multithread mode the buffer would be sent again, or `ud` be freed
      have hmulti : s.multithreaded = false := by
        by_contra hm
        simp [hm, hqueue] at hg
      simp only [hmulti]
      exact .queued rfl hlive hqueue hdone
    | refused _ hlive hqueue hdone hrv =>
      have hmulti : s.multithreaded = true := by
        by_contra hm
        exact absurd hg (by simp [hm, hlive, hqueue, hrv])
      rw [if_pos hmulti] at hg
      rw [if_pos hmulti, if_pos hlive, if_pos ⟨.inl hrv, hg.2.2 hrv⟩]
      exact .send rfl hlive hqueue hdone
    | done _ hqueue hdone hrv =>
      split_ifs with hmulti hlive hagain
      · have := hrv hlive
        omega
      · exact .done rfl hqueue hdone hrv
      · rw [if_pos hmulti] at hg
        exact absurd hg.1 hlive
      · exact .done rfl hqueue hdone hrv
    | _ hphase => simp [hdec] at hphase
  · exact h

theorem leave_good (h : Inv call s) (hg : Handover call s .leave) : Good call s.leave := by
  unfold State.leave
  split
  · next hleave =>
    rw [if_pos (hg hleave)]
    cases h with
    | queued _ hlive hqueue hdone => exact .queued rfl hlive hqueue hdone
    | done _ hqueue hdone hrv => exact .done rfl hqueue hdone hrv
    | _ hphase => simp [hleave] at hphase
  · exact h

theorem free_good (h : Inv call s) (hg : Handover call s .free) : Good call s.free := by
  unfold State.free
  split
  · next hfree =>
    have hg := hg hfree
    cases h with
    | queued _ hlive hqueue hdone =>
      have hmulti : s.multithreaded = false := by
        by_contra hm
        simp [hm, hqueue] at hg
      simp only [hmulti]
      exact .queued rfl hlive hqueue hdone
    | done _ hqueue hdone hrv =>
      split_ifs with hmulti hlive
      · exact .done rfl hqueue hdone fun hl => by cases hl
      · exact absurd (hg hmulti).1 hlive
      · exact .done rfl hqueue hdone hrv
    | _ hphase => simp [hfree] at hphase
  · exact h

/-- The element is read as the direct call. -/
theorem eventCb_of_queued (hfits : call.Fits) (q : SendQueues) (after : List UInt8)
    (hlive : s.live) (hqueue : s.asyncQueue = [call.element]) :
    s.eventCb q after = .ok (({ s with asyncQueue := [] } : State).process q call.direct) := by
  have hlen : call.element.dataLen = call.buf.length := Nat.mod_eq_of_lt hfits.1
  have hge := buf_length_ge call
  have hparse : parse (call.element.data ++ after) call.buf.length = some call.direct :=
    parse_buf hfits after
  simp only [State.eventCb, hqueue, if_pos hlive, hlen, hparse]
  rw [if_neg (by omega), if_pos (by omega)]

/-- A request that was performed leaves a size for which the caller does not send again. -/
theorem not_again_of_sendCondition {rv : ℤ} (h : sendCondition rv) :
    rv < sendIf ∧ rv ≠ chsqTimeout := by
  simp only [sendCondition, sendIf, chsqTimeout, chsqWrongPeer, decide_eq_true_eq] at h ⊢
  omega

theorem process_inv (hphase : s.phase.sent) (hlive : s.live) (hqueue : s.asyncQueue = [])
    (hdone : s.performed = []) {q : SendQueues}
    (hg : s.multithreaded → sendCondition (call.direct.checkSendQueue q) ∨
      (sendIf ≤ call.direct.checkSendQueue q ∧ (s.phase = .wait ∨ s.phase = .decide))) :
    Inv call (s.process q call.direct) := by
  by_cases hmulti : s.multithreaded
  · by_cases hcond : sendCondition (call.direct.checkSendQueue q)
    · refine .done hphase hqueue ?_ fun _ => not_again_of_sendCondition hcond
      simp [State.process, hcond, hdone]
    · obtain ⟨hsize, hcaller⟩ := (hg hmulti).resolve_left hcond
      refine .refused hcaller ?_ hqueue ?_ hsize
      · simp [State.process, hlive, hmulti]
      · simp [State.process, hcond, hmulti, hdone]
  · refine .done hphase hqueue ?_ fun hl => ?_
    · simp [State.process, hmulti, hdone]
    · simp [State.process, hmulti] at hl

theorem eventCb_good (hfits : call.Fits) (h : Inv call s) {q : SendQueues} {after : List UInt8}
    (hg : Handover call s (.eventCb q after)) : Good call (s.eventCb q after) := by
  by_cases hempty : s.asyncQueue = []
  · simp only [State.eventCb, hempty]
    exact h
  · cases h with
    | queued hphase hlive hqueue hdone =>
      rw [eventCb_of_queued hfits q after hlive hqueue]
      exact process_inv (s := { s with asyncQueue := [] }) hphase hlive rfl hdone (hg hempty)
    | idle _ hqueue => exact absurd hqueue hempty
    | send _ _ hqueue => exact absurd hqueue hempty
    | refused _ _ hqueue => exact absurd hqueue hempty
    | done _ hqueue => exact absurd hqueue hempty

theorem step_good (hfits : call.Fits) (noMultiThreadF : Bool) (h : Inv call s) {e : Event}
    (hg : Handover call s e) : Good call (step noMultiThreadF call s e) := by
  cases e with
  | sendAsync answered => exact h.sendAsync noMultiThreadF answered
  | enqueue => exact h.enqueue
  | wake => exact wake_good h hg
  | decide runEventMgr => exact decide_good h hg
  | leave => exact leave_good h hg
  | free => exact free_good h hg
  | eventCb q after => exact eventCb_good hfits h hg
  | setMode fMultiThread checkRetrives => exact h.setMode fMultiThread checkRetrives

theorem Inv.performed_le_once (h : Inv call s) :
    s.performed = [] ∨ s.performed = [call.direct] := by
  cases h with
  | idle _ _ hdone => exact .inl hdone
  | send _ _ _ hdone => exact .inl hdone
  | queued _ _ _ hdone => exact .inl hdone
  | refused _ _ _ hdone => exact .inl hdone
  | done _ _ hdone => exact .inr hdone

theorem Inv.performed_of_returned (h : Inv call s) (hret : s.phase = .returned)
    (hqueue : s.asyncQueue = []) : s.performed = [call.direct] := by
  cases h with
  | queued _ _ hone => simp [hqueue] at hone
  | done _ _ hdone => exact hdone
  | _ hphase => simp [hret] at hphase

/-! ### Runs -/

/-- A peer whose send queue holds `n` packets. -/
def queueOf (n : ℕ) : SendQueues := ⟨fun peer => some (peer, 9010), fun _ _ => some n⟩

/-- A command to the peer `a`. -/
def sendToA : AsyncCall := .ksnCoreSendCmdtoA (CString.ofBuf [97]) 129 [1]

/-- Outside of multithread mode nobody reads an answer that the loop has written. -/
def Unanswered (s : State) : Prop := s.multithreaded = false ∧ (s.live → s.rv < sendIf)

/-- The caller reads its result while `ud` is allocated. -/
def ReadsLive (s : State) (e : Event) : Prop := e = .leave → s.phase = .leave → s.live

theorem handover_of_unanswered (h : Unanswered s) {e : Event} (hread : ReadsLive s e) :
    Handover call s e := by
  cases e with
  | sendAsync => trivial
  | enqueue => trivial
  | wake => exact fun _ hm => by simp [h.1] at hm
  | decide =>
    intro _
    rw [h.1, if_neg Bool.false_ne_true]
    rintro ⟨hlive, -, hrv⟩
    have := h.2 hlive
    omega
  | leave => exact hread rfl
  | free => exact fun _ hm => by simp [h.1] at hm
  | eventCb => exact fun _ hm => by simp [h.1] at hm
  | setMode => trivial

theorem checkMultiThread_noMultiThreadF (answered : Bool) (s : State) :
    s.checkMultiThread true answered = s := by
  simp [State.checkMultiThread]

theorem unanswered_eventCb {t : State} {q : SendQueues} {after : List UInt8} (h : Unanswered s)
    (hstep : s.eventCb q after = .ok t) : Unanswered t := by
  obtain ⟨hmode, hrv⟩ := h
  unfold State.eventCb at hstep
  split at hstep
  · obtain rfl := Except.ok.inj hstep
    exact ⟨hmode, hrv⟩
  · next e queue _ =>
    have hpop : ({ s with asyncQueue := queue } : State).multithreaded = false := hmode
    by_cases hlive : s.live
    · simp only [if_pos hlive, hpop, Bool.false_eq_true, if_false] at hstep
      split_ifs at hstep with h0 h2
      · obtain rfl := Except.ok.inj hstep
        exact ⟨hmode, fun hl => by cases hl⟩
      · split at hstep
        · obtain rfl := Except.ok.inj hstep
          exact ⟨hmode, fun hl => by simp [State.process, hpop] at hl⟩
        · obtain rfl := Except.ok.inj hstep
          exact ⟨hmode, hrv⟩
      · obtain rfl := Except.ok.inj hstep
        exact ⟨hmode, hrv⟩
    · simp only [if_neg hlive] at hstep
      cases hstep

theorem unanswered_step {t : State} {e : Event} (h : Unanswered s)
    (he : ∀ checkRetrives, e ≠ .setMode .multithread checkRetrives)
    (hstep : step true call s e = .ok t) : Unanswered t := by
  obtain ⟨hmode, hrv⟩ := h
  cases e with
  | sendAsync answered =>
    obtain rfl := Except.ok.inj hstep
    rw [State.sendAsync, checkMultiThread_noMultiThreadF]
    split
    · exact ⟨hmode, fun _ => show chsqTimeout < sendIf by decide⟩
    · exact ⟨hmode, hrv⟩
  | enqueue =>
    obtain rfl := Except.ok.inj hstep
    unfold State.enqueue
    split <;> exact ⟨hmode, hrv⟩
  | wake =>
    simp only [step, State.wake, hmode] at hstep
    split at hstep <;> obtain rfl := Except.ok.inj hstep <;> exact ⟨hmode, hrv⟩
  | decide runEventMgr =>
    simp only [step, State.decide, hmode] at hstep
    split at hstep <;> obtain rfl := Except.ok.inj hstep <;> exact ⟨hmode, hrv⟩
  | leave =>
    simp only [step, State.leave] at hstep
    split at hstep
    · split_ifs at hstep
      obtain rfl := Except.ok.inj hstep
      exact ⟨hmode, hrv⟩
    · obtain rfl := Except.ok.inj hstep
      exact ⟨hmode, hrv⟩
  | free =>
    simp only [step, State.free, hmode] at hstep
    split at hstep <;> obtain rfl := Except.ok.inj hstep <;> exact ⟨hmode, hrv⟩
  | eventCb q after => exact unanswered_eventCb ⟨hmode, hrv⟩ hstep
  | setMode fMultiThread checkRetrives =>
    obtain rfl := Except.ok.inj hstep
    have hne : fMultiThread ≠ .multithread := fun hm => he checkRetrives (by rw [hm])
    exact ⟨decide_eq_false hne, hrv⟩

/-- **Without multithread mode** a step hands the request over, whatever the send queues hold, unless
the loop has freed `ud` before the caller reads its result. -/
theorem meets_of_noMultithread {fMultiThread : MultiThread}
    (hmode : fMultiThread ≠ .multithread) (checkRetrives : ℕ) {es : List Event}
    (hes : ∀ e ∈ es, ∀ retrives, e ≠ .setMode .multithread retrives)
    (hread : Meets ReadsLive (step true call) (.start fMultiThread checkRetrives) es) :
    Meets (Handover call) (step true call) (.start fMultiThread checkRetrives) es := by
  refine Meets.imp_of_inv (fun s e hs _ => handover_of_unanswered hs)
    (fun s e t hs he hstep => unanswered_step hs he hstep) hes
    ⟨decide_eq_false hmode, fun hl => by cases hl⟩ hread

end Teonet.AsyncCalls
