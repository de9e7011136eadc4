import Teonet.CQue

/-! # Runs of the callback queue

Any sequence of calls of the queue and of timers that fire, with callbacks that do not call the
queue themselves.  The history of a run has for each event what it returned and what it called;
`Bookkeeping` says what a history tells of the queue, in terms of the history alone: which ids were
added, which have ended, which data was last set for an id.

`CQueInv` is the invariant of a run with fewer than `2 ^ 32 - 1` calls of `ksnCQueAdd`, and
`ksnCQue_bookkeeping_iff` is the result: the queue keeps its books exactly as long as no entry is
executed or removed that has a watcher without `ev_timer_init` and a positive value left in its
`timeout` field.  `KsnCQueClass.Keeps.perform` is for modules that share the queue: what one of them
does to it leaves the entries of the others alone. -/

namespace Teonet

open Runs

variable {α β : Type}

/-! ### Events and histories -/

/-- What can happen to the queue; `timer a` is the event loop that finds the timer of the entry at
`a` expired. -/
inductive CQueOp (α β : Type)
  | add (cb : Option α) (timeout : ℚ) (data : β) (stale : ℚ)
  | exec (id : ℕ)
  | remove (id : ℕ)
  | setData (id : ℕ) (data : β)
  | timer (cq : ℕ)
deriving DecidableEq

/-- An event, the id of the entry it is about, what it returned (`0` for success) and the calls it
made. -/
structure CQueObs (α β : Type) where
  op : CQueOp α β
  id : ℕ
  retval : ℤ
  calls : List (CQueCall α β)
deriving DecidableEq

/-- The queue and the history of the run. -/
structure CQueRun (α β : Type) where
  kq : KsnCQueClass α β
  past : List (CQueObs α β)

/-- One event.  The event loop calls only timers that run. -/
def KsnCQueClass.perform (kq : KsnCQueClass α β) :
    CQueOp α β → Except CQueFault (CQueObs α β × KsnCQueClass α β)
  | .add cb timeout data stale =>
    .ok (⟨.add cb timeout data stale, kq.newId, 0, []⟩, ksnCQueAdd kq cb timeout data stale)
  | .exec id => do
    let (r, calls, kq) ← ksnCQueExec kq id
    return (⟨.exec id, id, r, calls⟩, kq)
  | .remove id => do
    let (r, kq) ← ksnCQueRemove kq id
    return (⟨.remove id, id, r, []⟩, kq)
  | .setData id data => do
    let (r, kq) ← ksnCQueSetData kq id data
    return (⟨.setData id data, id, r, []⟩, kq)
  | .timer a =>
    if a ∈ kq.timers then do
      let cq ← kq.deref a
      let (calls, kq) ← cqTimerCb kq a
      return (⟨.timer a, cq.id, 0, calls⟩, kq)
    else .ok (⟨.timer a, 0, -1, []⟩, kq)

/-- One event of a run. -/
def CQueRun.step (s : CQueRun α β) (op : CQueOp α β) : Except CQueFault (CQueRun α β) := do
  let (o, kq) ← s.kq.perform op
  return ⟨kq, s.past ++ [o]⟩

/-- A queue that was just made. -/
def CQueRun.start (sendEvent eventCb : Bool) : CQueRun α β := ⟨ksnCQueInit sendEvent eventCb, []⟩

/-- The event is a call of `ksnCQueAdd`. -/
def CQueOp.isAdd : CQueOp α β → Bool
  | .add .. => true
  | _ => false

/-- The type that the callback of an entry is called with. -/
def CQueOp.type : CQueOp α β → Option ℕ
  | .exec _ => some 1
  | .timer _ => some 0
  | _ => none

/-- The id that was added. -/
def CQueObs.added (o : CQueObs α β) : Option ℕ := if o.op.isAdd then some o.id else none

/-- The id that was executed, timed out or removed. -/
def CQueObs.ended (o : CQueObs α β) : Option ℕ :=
  match o.op with
  | .exec _ | .remove _ | .timer _ => if o.retval = 0 then some o.id else none
  | _ => none

/-- The id that got user data, and the data. -/
def CQueObs.set (o : CQueObs α β) : Option (ℕ × β) :=
  match o.op with
  | .add _ _ data _ => some (o.id, data)
  | .setData _ data => if o.retval = 0 then some (o.id, data) else none
  | _ => none

/-- The id that a callback is called with. -/
def CQueCall.callbackId : CQueCall α β → Option ℕ
  | .callback _ _ id _ _ => some id
  | .event _ _ => none

def addedIds (past : List (CQueObs α β)) : List ℕ := past.filterMap CQueObs.added

def endedIds (past : List (CQueObs α β)) : List ℕ := past.filterMap CQueObs.ended

/-- The ids of the callbacks that ran, in order. -/
def callbackIds (past : List (CQueObs α β)) : List ℕ :=
  past.flatMap fun o => o.calls.filterMap CQueCall.callbackId

/-- The data that was last set for an id. -/
def lastData (past : List (CQueObs α β)) (id : ℕ) : Option β :=
  ((past.filterMap CQueObs.set).reverse.find? fun p => p.1 = id).map Prod.snd

/-- The callback that `ksnCQueAdd` was given for an id. -/
def AddedWith (past : List (CQueObs α β)) (id : ℕ) (cb : Option α) : Prop :=
  ∃ o ∈ past, o.id = id ∧ ∃ timeout data stale, o.op = .add cb timeout data stale

/-- A callback that runs in `o`, after `pre`, is one it should be: it is that of the entry which
`o` executes or times out, which was not ended before, with the type that goes with `o` and the
data last set. -/
structure CallbackOk (pre : List (CQueObs α β)) (o : CQueObs α β) (cb : α) (id type : ℕ) (data : β) :
    Prop where
  ended : o.ended = some id
  added : AddedWith pre id (some cb)
  not_ended : id ∉ endedIds pre
  type : o.op.type = some type
  data : lastData pre id = some data

/-- The books of the queue agree with the history. -/
structure Bookkeeping (past : List (CQueObs α β)) (kq : KsnCQueClass α β) : Prop where
  wf : kq.WF
  armed : kq.Armed
  id_ne_zero : 0 ∉ addedIds past
  id_nodup : (addedIds past).Nodup
  ended_nodup : (endedIds past).Nodup
  ended_added : ∀ id ∈ endedIds past, id ∈ addedIds past
  pending : ∀ id, (kq.pending id).isSome = true ↔ id ∈ addedIds past ∧ id ∉ endedIds past
  callback_nodup : (callbackIds past).Nodup
  callback : ∀ pre o post cq cb id type data, past = pre ++ o :: post →
    .callback cq cb id type data ∈ o.calls → CallbackOk pre o cb id type data

/-- The entry that `ksnCQueExec` or `ksnCQueRemove` is called for is one whose watcher may be
stopped: it was initialised, or the `timeout` field is not positive. -/
def KsnCQueClass.WatcherOk (kq : KsnCQueClass α β) : CQueOp α β → Prop
  | .exec id | .remove id => ∀ cq, kq.entry id = some cq → cq.Stoppable
  | _ => True

/-! ### One more event in a history -/

section Histories

variable (past : List (CQueObs α β)) (o : CQueObs α β) (id : ℕ)

theorem addedIds_concat : addedIds (past ++ [o]) = addedIds past ++ o.added.toList := by
  rw [addedIds, List.filterMap_append]
  cases h : o.added <;> simp [addedIds, h]

theorem endedIds_concat : endedIds (past ++ [o]) = endedIds past ++ o.ended.toList := by
  rw [endedIds, List.filterMap_append]
  cases h : o.ended <;> simp [endedIds, h]

theorem callbackIds_concat :
    callbackIds (past ++ [o]) = callbackIds past ++ o.calls.filterMap CQueCall.callbackId := by
  simp [callbackIds]

theorem lastData_concat :
    lastData (past ++ [o]) id =
      match o.set with
      | some p => if p.1 = id then some p.2 else lastData past id
      | none => lastData past id := by
  have hlast := lastFor_concat CQueObs.set past o id
  cases hset : o.set <;>
  · rw [hset] at hlast
    exact hlast

theorem AddedWith.concat {past : List (CQueObs α β)} {id : ℕ} {cb : Option α}
    (h : AddedWith past id cb) : AddedWith (past ++ [o]) id cb := by
  obtain ⟨o', ho', hrest⟩ := h
  exact ⟨o', List.mem_append_left _ ho', hrest⟩

end Histories

/-! ### The invariant -/

variable {kq : KsnCQueClass α β} {past : List (CQueObs α β)} {ops : List (CQueOp α β)} {id a : ℕ}
  {cq : KsnCQueData α β}

/-- How many calls of `ksnCQueAdd` there are among the events. -/
def addCount (ops : List (CQueOp α β)) : ℕ := ops.countP CQueOp.isAdd

/-- The invariant of a run in which `ops` are still to come: the books agree with the history, the
entries hold what the history says of their ids, and the ids were given in order. -/
structure CQueInv (ops : List (CQueOp α β)) (past : List (CQueObs α β)) (kq : KsnCQueClass α β) :
    Prop extends Bookkeeping past kq where
  data : ∀ id p, kq.pending id = some p → AddedWith past id p.1 ∧ lastData past id = some p.2
  callback_ended : ∀ id ∈ callbackIds past, id ∈ endedIds past
  next : kq.id = if addedIds past = [] then 0 else (addedIds past).length + 1
  le_length : ∀ id ∈ addedIds past, id ≤ (addedIds past).length
  bound : (addedIds past).length + addCount ops + 1 < 2 ^ 32

theorem CQueInv.newId (h : CQueInv ops past kq) : kq.newId = (addedIds past).length + 1 := by
  unfold KsnCQueClass.newId
  rw [h.next]
  split <;> simp_all

theorem CQueInv.newId_fresh (h : CQueInv ops past kq) : kq.newId ∉ addedIds past := by
  intro hmem
  have hle := h.le_length _ hmem
  rw [h.newId] at hle
  omega

theorem CQueInv.pending_newId (h : CQueInv ops past kq) : kq.cqueMap.get kq.newId = none := by
  cases hid : kq.cqueMap.get kq.newId with
  | none => rfl
  | some a =>
    obtain ⟨cq, -, -, he⟩ := h.wf.entry_of_map hid
    have hp : (kq.pending kq.newId).isSome = true := by rw [KsnCQueClass.pending, he]; rfl
    exact absurd ((h.pending _).mp hp).1 h.newId_fresh

theorem CQueInv.not_ended_of_pending (h : CQueInv ops past kq) {p : Option α × β}
    (hp : kq.pending id = some p) : id ∉ endedIds past :=
  ((h.pending id).mp (by rw [hp]; rfl)).2

/-- The callbacks of the history stay right when the new event calls right. -/
theorem CQueInv.callback_concat (h : CQueInv ops past kq) {o : CQueObs α β}
    (ho : ∀ cq cb id type data, .callback cq cb id type data ∈ o.calls →
      CallbackOk past o cb id type data) :
    ∀ pre o' post cq cb id type data, past ++ [o] = pre ++ o' :: post →
      .callback cq cb id type data ∈ o'.calls → CallbackOk pre o' cb id type data := by
  intro pre o' post cq cb id type data hsplit hcall
  rcases concat_eq_append_cons hsplit with ⟨rfl, rfl, -⟩ | ⟨post', hpast⟩
  · exact ho cq cb id type data hcall
  · exact h.callback pre o' post' cq cb id type data hpast hcall

section Concat

variable {o : CQueObs α β}

/-- The id that an event gives, if it gives one. -/
theorem added_toList (hnew : o.op.isAdd = true → o.id = kq.newId) :
    o.added.toList = if o.op.isAdd then [kq.newId] else [] := by
  unfold CQueObs.added
  cases hop : o.op.isAdd with
  | true => simp [hnew hop]
  | false => rfl

/-- The ids with a new one: none is `0`, none comes twice, and none is larger than their number. -/
theorem CQueInv.added_concat (h : CQueInv (o.op :: ops) past kq)
    (hnew : o.op.isAdd = true → o.id = kq.newId) :
    0 ∉ addedIds (past ++ [o]) ∧ (addedIds (past ++ [o])).Nodup ∧
      ∀ id ∈ addedIds (past ++ [o]), id ≤ (addedIds (past ++ [o])).length := by
  have hid := h.newId
  rw [addedIds_concat, added_toList hnew]
  cases o.op.isAdd with
  | false => simpa using ⟨h.id_ne_zero, h.id_nodup, h.le_length⟩
  | true =>
    refine ⟨?_, List.nodup_append.mpr ⟨h.id_nodup, by simp, ?_⟩, ?_⟩
    · have h0 := h.id_ne_zero
      simp_all
    · rintro id hmem id' hmem' rfl
      obtain rfl : id = kq.newId := by simpa using hmem'
      exact h.newId_fresh hmem
    · intro id hmem
      rw [List.length_append]
      rcases List.mem_append.mp hmem with hmem | hmem
      · have hle := h.le_length id hmem
        omega
      · obtain rfl : id = kq.newId := by simpa using hmem
        exact hid.le

/-- The ids that ended with one more, which was pending. -/
theorem CQueInv.ended_concat (h : CQueInv (o.op :: ops) past kq)
    (hend : ∀ id, o.ended = some id → (kq.pending id).isSome = true) :
    (endedIds (past ++ [o])).Nodup ∧
      ∀ id ∈ endedIds (past ++ [o]), id ∈ addedIds (past ++ [o]) := by
  rw [endedIds_concat, addedIds_concat]
  cases hoe : o.ended with
  | none =>
    refine ⟨by simpa using h.ended_nodup, fun id hmem => List.mem_append_left _ ?_⟩
    exact h.ended_added id (by simpa using hmem)
  | some id =>
    obtain ⟨hadded, hnot⟩ := (h.pending id).mp (hend id hoe)
    constructor
    · refine List.nodup_append.mpr ⟨h.ended_nodup, by simp, ?_⟩
      rintro id' hmem id'' hmem' rfl
      obtain rfl : id' = id := by simpa using hmem'
      exact hnot hmem
    · intro id' hmem
      refine List.mem_append_left _ ?_
      rcases List.mem_append.mp hmem with hmem | hmem
      · exact h.ended_added id' hmem
      · obtain rfl : id' = id := by simpa using hmem
        exact hadded

/-- An id that is given is not one that ended before. -/
theorem CQueInv.not_ended_of_added (h : CQueInv (o.op :: ops) past kq)
    (hnew : o.op.isAdd = true → o.id = kq.newId) (ha : o.added = some id) :
    id ∉ endedIds past := by
  have hid : id ∈ o.added.toList := by simp [ha]
  rw [added_toList hnew] at hid
  cases hop : o.op.isAdd with
  | false => simp [hop] at hid
  | true =>
    rw [hop] at hid
    obtain rfl : id = kq.newId := by simpa using hid
    exact fun hmem => h.newId_fresh (h.ended_added _ hmem)

/-- What is pending after the event are the ids that were given and did not end. -/
theorem CQueInv.pending_concat {kq' : KsnCQueClass α β} (h : CQueInv (o.op :: ops) past kq)
    (hnew : o.op.isAdd = true → o.id = kq.newId)
    (hpending : ∀ id, (kq'.pending id).isSome = true ↔
      (o.added = some id ∨ (kq.pending id).isSome = true) ∧ o.ended ≠ some id) (id : ℕ) :
    (kq'.pending id).isSome = true ↔
      id ∈ addedIds (past ++ [o]) ∧ id ∉ endedIds (past ++ [o]) := by
  rw [hpending, h.pending, addedIds_concat, endedIds_concat]
  simp only [List.mem_append, Option.mem_toList]
  constructor
  · rintro ⟨ha | ⟨ha, hne⟩, hoe⟩
    · exact ⟨.inr ha, by simpa [h.not_ended_of_added hnew ha] using hoe⟩
    · exact ⟨.inl ha, by simpa [hne] using hoe⟩
  · rintro ⟨ha | ha, hoe⟩
    · exact ⟨.inr ⟨ha, fun hm => hoe (.inl hm)⟩, fun he => hoe (.inr he)⟩
    · exact ⟨.inl ha, fun he => hoe (.inr he)⟩

/-- The callbacks with that of the entry that ends. -/
theorem CQueInv.callbacks_concat (h : CQueInv (o.op :: ops) past kq)
    (hend : ∀ id, o.ended = some id → (kq.pending id).isSome = true)
    (hcb : (o.calls.filterMap CQueCall.callbackId).Sublist o.ended.toList) :
    (callbackIds (past ++ [o])).Nodup ∧
      ∀ id ∈ callbackIds (past ++ [o]), id ∈ endedIds (past ++ [o]) := by
  rw [callbackIds_concat, endedIds_concat]
  constructor
  · refine List.nodup_append.mpr ⟨h.callback_nodup, ?_, ?_⟩
    · refine hcb.nodup ?_
      cases o.ended <;> simp
    · rintro id hmem id' hmem' rfl
      have hoe : o.ended = some id := by simpa using hcb.subset hmem'
      exact ((h.pending id).mp (hend id hoe)).2 (h.callback_ended id hmem)
  · intro id hmem
    rcases List.mem_append.mp hmem with hmem | hmem
    · exact List.mem_append_left _ (h.callback_ended id hmem)
    · exact List.mem_append_right _ (hcb.subset hmem)

/-- The counter after the event, and the room for the events to come. -/
theorem CQueInv.next_concat (h : CQueInv (o.op :: ops) past kq)
    (hnew : o.op.isAdd = true → o.id = kq.newId) {n : ℕ}
    (hnext : n = if o.op.isAdd then kq.newId + 1 else kq.id) :
    (n = if addedIds (past ++ [o]) = [] then 0 else (addedIds (past ++ [o])).length + 1) ∧
      (addedIds (past ++ [o])).length + addCount ops + 1 < 2 ^ 32 := by
  have hid := h.newId
  have hn := h.next
  have hb := h.bound
  rw [addCount, List.countP_cons] at hb
  rw [hnext, addedIds_concat, added_toList hnew, addCount]
  cases hop : o.op.isAdd with
  | false => simp_all
  | true =>
    simp_all
    omega

/-- One event: the invariant is kept where the queue changes as the event says it does. -/
theorem CQueInv.concat {kq' : KsnCQueClass α β} (h : CQueInv (o.op :: ops) past kq)
    (hwf : kq'.WF) (harmed : kq'.Armed)
    (hnew : o.op.isAdd = true → o.id = kq.newId)
    (hnext : kq'.id = if o.op.isAdd then kq.newId + 1 else kq.id)
    (hend : ∀ id, o.ended = some id → (kq.pending id).isSome = true)
    (hpending : ∀ id, (kq'.pending id).isSome = true ↔
      (o.added = some id ∨ (kq.pending id).isSome = true) ∧ o.ended ≠ some id)
    (hdata : ∀ id p, kq'.pending id = some p →
      AddedWith (past ++ [o]) id p.1 ∧ lastData (past ++ [o]) id = some p.2)
    (hcb : (o.calls.filterMap CQueCall.callbackId).Sublist o.ended.toList)
    (ho : ∀ cq cb id type data, .callback cq cb id type data ∈ o.calls →
      CallbackOk past o cb id type data) : CQueInv ops (past ++ [o]) kq' := by
  obtain ⟨hzero, hnodup, hle⟩ := h.added_concat hnew
  obtain ⟨hended, hendedAdded⟩ := h.ended_concat hend
  obtain ⟨hcalled, hcalledEnded⟩ := h.callbacks_concat hend hcb
  obtain ⟨hid, hbound⟩ := h.next_concat hnew hnext
  exact
    { wf := hwf
      armed := harmed
      id_ne_zero := hzero
      id_nodup := hnodup
      ended_nodup := hended
      ended_added := hendedAdded
      pending := h.pending_concat hnew hpending
      callback_nodup := hcalled
      callback := h.callback_concat ho
      data := hdata
      callback_ended := hcalledEnded
      next := hid
      le_length := hle
      bound := hbound }

end Concat

/-! ### One lemma for each kind of event -/

/-- An event that changes nothing. -/
theorem CQueInv.idle {o : CQueObs α β} (h : CQueInv (o.op :: ops) past kq) (hadd : o.op.isAdd = false)
    (hend : o.ended = none) (hset : o.set = none) (hcalls : o.calls = []) :
    CQueInv ops (past ++ [o]) kq := by
  have hnone : o.added = none := by rw [CQueObs.added, hadd]; rfl
  refine h.concat h.wf h.armed ?_ ?_ ?_ ?_ ?_ ?_ ?_
  · simp [hadd]
  · simp [hadd]
  · simp [hend]
  · simp [hend, hnone]
  · intro id p hp
    obtain ⟨h1, h2⟩ := h.data id p hp
    exact ⟨h1.concat o, by rw [lastData_concat, hset]; exact h2⟩
  · simp [hcalls]
  · simp [hcalls]

/-- A new entry. -/
theorem CQueInv.add {cb : Option α} {timeout : ℚ} {data : β} {stale : ℚ}
    (h : CQueInv (.add cb timeout data stale :: ops) past kq) :
    CQueInv ops (past ++ [⟨.add cb timeout data stale, kq.newId, 0, []⟩])
      (ksnCQueAdd kq cb timeout data stale) := by
  set o : CQueObs α β := ⟨.add cb timeout data stale, kq.newId, 0, []⟩ with ho
  have hfresh := h.pending_newId
  have hold : kq.pending kq.newId = none := by
    rw [KsnCQueClass.pending, KsnCQueClass.entry, hfresh]
    rfl
  have hpend := pending_ksnCQueAdd h.wf cb timeout data stale
  have hadd : o.added = some kq.newId := rfl
  have hend : o.ended = none := rfl
  refine CQueInv.concat (o := o) h (h.wf.ksnCQueAdd cb timeout data stale ?_)
    (h.armed.ksnCQueAdd cb timeout data stale h.wf) (fun _ => rfl)
    ?_ ?_ ?_ ?_ ?_ ?_
  · simp [hfresh]
  · have hb := h.bound
    have hid := h.newId
    rw [addCount, List.countP_cons] at hb
    rw [ksnCQueAdd_id]
    show (kq.newId + 1) % 2 ^ 32 = kq.newId + 1
    exact Nat.mod_eq_of_lt (by simp [CQueOp.isAdd] at hb; omega)
  · simp [hend]
  · intro id
    rw [hpend, hadd, hend]
    by_cases hid : id = kq.newId
    · simp [hid]
    · simp [hid, Ne.symm hid]
  · intro id p hp
    rw [hpend] at hp
    rw [lastData_concat]
    split at hp
    · rename_i hid
      obtain rfl := Option.some.inj hp
      refine ⟨⟨o, by simp, hid.symm, timeout, data, stale, rfl⟩, ?_⟩
      simp [ho, CQueObs.set, hid]
    · rename_i hid
      obtain ⟨h1, h2⟩ := h.data id p hp
      exact ⟨h1.concat o, by simpa [ho, CQueObs.set, Ne.symm hid] using h2⟩
  · simp [ho]
  · simp [ho]

theorem entry_of_get (hid : kq.cqueMap.get id = some a) (hcq : kq.heap.get a = some cq) :
    kq.entry id = some cq := by
  rw [KsnCQueClass.entry, hid]
  exact hcq

theorem pending_of_get (hid : kq.cqueMap.get id = some a) (hcq : kq.heap.get a = some cq) :
    kq.pending id = some (cq.cb, cq.data) := by
  rw [KsnCQueClass.pending, entry_of_get hid hcq]
  rfl

/-- The callback of an entry and the event after it. -/
theorem filterMap_callback (cq : KsnCQueData α β) (a id type : ℕ) :
    (cq.callback a id type ++ kq.eventOf a type).filterMap CQueCall.callbackId =
      (cq.cb.map fun _ => id).toList := by
  unfold KsnCQueData.callback KsnCQueClass.eventOf
  cases cq.cb <;> cases (kq.eventCb && kq.eventF) <;> rfl

theorem mem_callback {cq : KsnCQueData α β} {a id type : ℕ} {cq' : ℕ} {cb : α} {id' type' : ℕ}
    {data : β} (h : .callback cq' cb id' type' data ∈ cq.callback a id type ++ kq.eventOf a type) :
    cq.cb = some cb ∧ id' = id ∧ type' = type ∧ data = cq.data := by
  unfold KsnCQueData.callback KsnCQueClass.eventOf at h
  cases hcb : cq.cb with
  | none =>
    rw [hcb] at h
    cases hev : kq.eventCb && kq.eventF <;> simp [hev] at h
  | some cb' =>
    rw [hcb] at h
    cases hev : kq.eventCb && kq.eventF <;> simp [hev] at h <;> simp [h]

/-- The end of an entry, which calls what it calls with the right type. -/
theorem CQueInv.end {o : CQueObs α β} (h : CQueInv (o.op :: ops) past kq)
    (hid : kq.cqueMap.get id = some a) (hcq : kq.heap.get a = some cq)
    (hadd : o.op.isAdd = false) (hend : o.ended = some id) (hset : o.set = none)
    (hcalls : o.calls = [] ∨ ∃ type, o.op.type = some type ∧
      o.calls = cq.callback a id type ++ kq.eventOf a type) :
    CQueInv ops (past ++ [o]) (kq.drop id a) := by
  have hnone : o.added = none := by rw [CQueObs.added, hadd]; rfl
  have hpend := pending_drop h.wf hid
  have hp := pending_of_get hid hcq
  refine h.concat (h.wf.drop hid) (h.armed.drop hid) ?_ ?_ ?_ ?_ ?_ ?_ ?_
  · simp [hadd]
  · rw [drop_eq hid]
    simp [hadd]
  · intro id' hid'
    rw [hend] at hid'
    obtain rfl := Option.some.inj hid'
    rw [hp]
    rfl
  · intro id'
    rw [hpend, hnone, hend]
    by_cases hne : id' = id
    · simp [hne]
    · simp [hne, Ne.symm hne]
  · intro id' p hp'
    rw [hpend] at hp'
    split at hp'
    · cases hp'
    · obtain ⟨h1, h2⟩ := h.data id' p hp'
      exact ⟨h1.concat o, by rw [lastData_concat, hset]; exact h2⟩
  · rcases hcalls with hcalls | ⟨type, -, hcalls⟩
    · simp [hcalls]
    · rw [hcalls, filterMap_callback, hend]
      cases cq.cb <;> simp
  · intro cq' cb id' type' data hmem
    rcases hcalls with hcalls | ⟨type, htype, hcalls⟩
    · rw [hcalls] at hmem
      cases hmem
    · rw [hcalls] at hmem
      obtain ⟨hcb, rfl, rfl, rfl⟩ := mem_callback hmem
      obtain ⟨h1, h2⟩ := h.data id' _ hp
      exact ⟨hend, hcb ▸ h1, h.not_ended_of_pending hp, htype, h2⟩

/-- New user data for an entry. -/
theorem CQueInv.setData {data : β} (h : CQueInv (.setData id data :: ops) past kq)
    (hid : kq.cqueMap.get id = some a) (hcq : kq.heap.get a = some cq) :
    CQueInv ops (past ++ [⟨.setData id data, id, 0, []⟩])
      { kq with heap := kq.heap.update a fun cq => { cq with data := data } } := by
  set o : CQueObs α β := ⟨.setData id data, id, 0, []⟩ with ho
  have hset : o.set = some (id, data) := rfl
  have hp := pending_of_get hid hcq
  have hpend := pending_setData h.wf hid data
  refine CQueInv.concat (o := o) h (h.wf.setData a data) (h.armed.setData a data) ?_ rfl ?_ ?_ ?_ ?_ ?_
  · intro hadd
    cases hadd
  · intro id' hid'
    cases hid'
  · intro id'
    rw [hpend]
    by_cases hne : id' = id
    · simp [hne, hp, ho, CQueObs.added, CQueObs.ended, CQueOp.isAdd]
    · simp [hne, ho, CQueObs.added, CQueObs.ended, CQueOp.isAdd]
  · intro id' p hp'
    rw [hpend] at hp'
    rw [lastData_concat, hset]
    split at hp'
    · rename_i hne
      rw [hp] at hp'
      obtain rfl := Option.some.inj hp'
      obtain ⟨h1, -⟩ := h.data id _ hp
      subst hne
      exact ⟨h1.concat o, by simp⟩
    · rename_i hne
      obtain ⟨h1, h2⟩ := h.data id' p hp'
      exact ⟨h1.concat o, by simpa [Ne.symm hne] using h2⟩
  · simp [ho]
  · simp [ho]

/-! ### Runs -/

/-- An event whose watcher may be stopped succeeds, and the books stay right. -/
theorem CQueInv.perform {op : CQueOp α β} (h : CQueInv (op :: ops) past kq) (hw : kq.WatcherOk op) :
    ∃ o kq', kq.perform op = .ok (o, kq') ∧ CQueInv ops (past ++ [o]) kq' := by
  cases op with
  | add cb timeout data stale => exact ⟨_, _, rfl, h.add⟩
  | exec id =>
    cases hid : kq.cqueMap.get id with
    | none =>
      refine ⟨⟨.exec id, id, -1, []⟩, kq, ?_, CQueInv.idle h rfl rfl rfl rfl⟩
      unfold KsnCQueClass.perform ksnCQueExec
      simp only [hid]
      rfl
    | some a =>
      obtain ⟨cq, hcq, -, he⟩ := h.wf.entry_of_map hid
      refine ⟨⟨.exec id, id, 0, cq.callback a id 1 ++ kq.eventOf a 1⟩, kq.drop id a, ?_,
        CQueInv.end h hid hcq rfl rfl rfl (.inr ⟨1, rfl, rfl⟩)⟩
      unfold KsnCQueClass.perform
      simp only [ksnCQueExec_of_stoppable h.wf hid hcq (hw cq he)]
      rfl
  | remove id =>
    cases hid : kq.cqueMap.get id with
    | none =>
      refine ⟨⟨.remove id, id, -1, []⟩, kq, ?_, CQueInv.idle h rfl rfl rfl rfl⟩
      unfold KsnCQueClass.perform ksnCQueRemove
      simp only [hid]
      rfl
    | some a =>
      obtain ⟨cq, hcq, -, he⟩ := h.wf.entry_of_map hid
      refine ⟨⟨.remove id, id, 0, []⟩, kq.drop id a, ?_,
        CQueInv.end h hid hcq rfl rfl rfl (.inl rfl)⟩
      unfold KsnCQueClass.perform
      simp only [ksnCQueRemove_of_stoppable h.wf hid hcq (hw cq he)]
      rfl
  | setData id data =>
    cases hid : kq.cqueMap.get id with
    | none =>
      refine ⟨⟨.setData id data, id, -1, []⟩, kq, ?_, CQueInv.idle h rfl rfl rfl rfl⟩
      unfold KsnCQueClass.perform ksnCQueSetData
      simp only [hid]
      rfl
    | some a =>
      obtain ⟨cq, hcq, -, -⟩ := h.wf.entry_of_map hid
      refine ⟨_, _, ?_, h.setData hid hcq⟩
      unfold KsnCQueClass.perform
      simp only [ksnCQueSetData_of_get hid hcq]
      rfl
  | timer a =>
    unfold KsnCQueClass.perform
    by_cases ha : a ∈ kq.timers
    · obtain ⟨cq, hcq, -⟩ := h.wf.timers a ha
      refine ⟨⟨.timer a, cq.id, 0, cq.callback a cq.id 0 ++ kq.eventOf a 0⟩, kq.drop cq.id a, ?_,
        CQueInv.end h (h.wf.heap_map a cq hcq) hcq rfl rfl rfl (.inr ⟨0, rfl, rfl⟩)⟩
      simp only [if_pos ha, deref_of_get hcq, cqTimerCb_of_get hcq]
      rfl
    · refine ⟨⟨.timer a, 0, -1, []⟩, kq, ?_, CQueInv.idle h rfl rfl rfl rfl⟩
      simp only [if_neg ha]

/-- Otherwise the event loop is told to stop a watcher that it does not know. -/
theorem perform_of_not_watcherOk {op : CQueOp α β} (hw : ¬kq.WatcherOk op) :
    kq.perform op = .error .uninitWatcher := by
  have hstop : ∀ id, ¬(∀ cq, kq.entry id = some cq → cq.Stoppable) →
      ∃ a cq, kq.cqueMap.get id = some a ∧ kq.heap.get a = some cq ∧ ¬cq.Stoppable := by
    intro id hno
    obtain ⟨cq, hno⟩ := not_forall.mp hno
    obtain ⟨he, hno⟩ := Classical.not_imp.mp hno
    obtain ⟨a, hid, hcq⟩ := Option.bind_eq_some_iff.mp he
    exact ⟨a, cq, hid, hcq, hno⟩
  cases op with
  | exec id =>
    obtain ⟨a, cq, hid, hcq, hno⟩ := hstop id hw
    unfold KsnCQueClass.perform
    simp only [ksnCQueExec_of_not_stoppable hid hcq hno]
    rfl
  | remove id =>
    obtain ⟨a, cq, hid, hcq, hno⟩ := hstop id hw
    unfold KsnCQueClass.perform
    simp only [ksnCQueRemove_of_not_stoppable hid hcq hno]
    rfl
  | _ => exact absurd trivial hw

/-- What an event can do to the queue. -/
theorem perform_cases (hwf : kq.WF) {op : CQueOp α β} {o : CQueObs α β} {kq' : KsnCQueClass α β}
    (h : kq.perform op = .ok (o, kq')) :
    kq' = kq ∨
    (∃ cb timeout data stale, op = .add cb timeout data stale ∧
      kq' = ksnCQueAdd kq cb timeout data stale) ∨
    (∃ id a, kq.cqueMap.get id = some a ∧ (op = .exec id ∨ op = .remove id ∨ op = .timer a) ∧
      kq' = kq.drop id a) ∨
    ∃ id a data, kq.cqueMap.get id = some a ∧ op = .setData id data ∧
      kq' = { kq with heap := kq.heap.update a fun cq => { cq with data := data } } := by
  cases op with
  | add cb timeout data stale =>
    obtain ⟨-, rfl⟩ := Prod.mk.inj (Except.ok.inj h)
    exact .inr (.inl ⟨cb, timeout, data, stale, rfl, rfl⟩)
  | exec id =>
    unfold KsnCQueClass.perform at h
    cases hid : kq.cqueMap.get id with
    | none =>
      unfold ksnCQueExec at h
      simp only [hid] at h
      exact .inl (Prod.mk.inj (Except.ok.inj h)).2.symm
    | some a =>
      obtain ⟨cq, hcq, -, -⟩ := hwf.entry_of_map hid
      by_cases hs : cq.Stoppable
      · simp only [ksnCQueExec_of_stoppable hwf hid hcq hs] at h
        exact .inr (.inr (.inl ⟨id, a, hid, .inl rfl, (Prod.mk.inj (Except.ok.inj h)).2.symm⟩))
      · simp only [ksnCQueExec_of_not_stoppable hid hcq hs] at h
        cases h
  | remove id =>
    unfold KsnCQueClass.perform at h
    cases hid : kq.cqueMap.get id with
    | none =>
      unfold ksnCQueRemove at h
      simp only [hid] at h
      exact .inl (Prod.mk.inj (Except.ok.inj h)).2.symm
    | some a =>
      obtain ⟨cq, hcq, -, -⟩ := hwf.entry_of_map hid
      by_cases hs : cq.Stoppable
      · simp only [ksnCQueRemove_of_stoppable hwf hid hcq hs] at h
        exact .inr (.inr (.inl
          ⟨id, a, hid, .inr (.inl rfl), (Prod.mk.inj (Except.ok.inj h)).2.symm⟩))
      · simp only [ksnCQueRemove_of_not_stoppable hid hcq hs] at h
        cases h
  | setData id data =>
    unfold KsnCQueClass.perform at h
    cases hid : kq.cqueMap.get id with
    | none =>
      unfold ksnCQueSetData at h
      simp only [hid] at h
      exact .inl (Prod.mk.inj (Except.ok.inj h)).2.symm
    | some a =>
      obtain ⟨cq, hcq, -, -⟩ := hwf.entry_of_map hid
      simp only [ksnCQueSetData_of_get hid hcq] at h
      exact .inr (.inr (.inr ⟨id, a, data, hid, rfl, (Prod.mk.inj (Except.ok.inj h)).2.symm⟩))
  | timer a =>
    unfold KsnCQueClass.perform at h
    by_cases ha : a ∈ kq.timers
    · obtain ⟨cq, hcq, -⟩ := hwf.timers a ha
      simp only [if_pos ha, deref_of_get hcq, cqTimerCb_of_get hcq] at h
      exact .inr (.inr (.inl ⟨cq.id, a, hwf.heap_map a cq hcq, .inr (.inr rfl),
        (Prod.mk.inj (Except.ok.inj h)).2.symm⟩))
    · simp only [if_neg ha] at h
      exact .inl (Prod.mk.inj (Except.ok.inj h)).2.symm

theorem cqueInv_start (sendEvent eventCb : Bool) (hops : addCount ops + 1 < 2 ^ 32) :
    CQueInv ops (CQueRun.start sendEvent eventCb : CQueRun α β).past
      (CQueRun.start sendEvent eventCb : CQueRun α β).kq where
  wf := ksnCQueInit_wf sendEvent eventCb
  armed a cq h := by
    rw [show (CQueRun.start sendEvent eventCb : CQueRun α β).kq.heap.get a = none from
      Heap.get_empty a] at h
    cases h
  id_ne_zero := by simp [CQueRun.start, addedIds]
  id_nodup := List.nodup_nil
  ended_nodup := List.nodup_nil
  ended_added := by simp [CQueRun.start, endedIds]
  pending id := by
    have hnone := pending_ksnCQueInit (α := α) (β := β) sendEvent eventCb id
    simp [hnone, CQueRun.start, addedIds]
  callback_nodup := List.nodup_nil
  callback pre o post cq cb id type data hsplit := by simp [CQueRun.start] at hsplit
  data id p hp := by
    rw [CQueRun.start, pending_ksnCQueInit] at hp
    cases hp
  callback_ended := by simp [CQueRun.start, callbackIds]
  next := rfl
  le_length := by simp [CQueRun.start, addedIds]
  bound := by simpa [CQueRun.start, addedIds] using hops

theorem cqueStep_ok_iff {s : CQueRun α β} {op : CQueOp α β} (h : CQueInv (op :: ops) s.past s.kq) :
    (∃ t, s.step op = .ok t) ↔ s.kq.WatcherOk op := by
  unfold CQueRun.step
  constructor
  · rintro ⟨t, ht⟩
    by_contra hw
    rw [perform_of_not_watcherOk hw] at ht
    cases ht
  · intro hw
    obtain ⟨o, kq', hok, -⟩ := h.perform hw
    exact ⟨⟨kq', s.past ++ [o]⟩, by rw [hok]; rfl⟩

theorem CQueInv.step {s t : CQueRun α β} {op : CQueOp α β} (h : CQueInv (op :: ops) s.past s.kq)
    (hstep : s.step op = .ok t) : CQueInv ops t.past t.kq := by
  obtain ⟨o, kq', hok, hinv⟩ := h.perform ((cqueStep_ok_iff h).mp ⟨t, hstep⟩)
  unfold CQueRun.step at hstep
  rw [hok] at hstep
  obtain rfl := Except.ok.inj hstep
  exact hinv

/-- **The queue keeps its books** in a run with fewer than `2 ^ 32 - 1` calls of `ksnCQueAdd`
exactly when every call of `ksnCQueExec` and `ksnCQueRemove` finds an entry whose watcher may be
stopped. -/
theorem ksnCQue_bookkeeping_iff (sendEvent eventCb : Bool) (ops : List (CQueOp α β))
    (hops : addCount ops < 2 ^ 32 - 1) :
    (∃ t, ops.foldlM CQueRun.step (.start sendEvent eventCb) = .ok t ∧
        Bookkeeping t.past t.kq) ↔
      Meets (fun s op => s.kq.WatcherOk op) CQueRun.step (.start sendEvent eventCb) ops := by
  have hstart : CQueInv ops (CQueRun.start sendEvent eventCb : CQueRun α β).past
      (CQueRun.start sendEvent eventCb : CQueRun α β).kq :=
    cqueInv_start sendEvent eventCb (by omega)
  have hpres : ∀ (s : CQueRun α β) op ops t, CQueInv (op :: ops) s.past s.kq → s.step op = .ok t →
      CQueInv ops t.past t.kq := fun s op ops t h hstep => h.step hstep
  rw [← foldlM_ok_iff_meets (fun ops s => CQueInv ops s.past s.kq) (fun s op ops h => cqueStep_ok_iff h)
    hpres ops _ hstart]
  constructor
  · rintro ⟨t, ht, -⟩
    exact ⟨t, ht⟩
  · rintro ⟨t, ht⟩
    have hinv := foldlM_inv (fun ops s => CQueInv ops s.past s.kq) hpres ht hstart
    exact ⟨t, ht, hinv.toBookkeeping⟩

/-- Two entries that are executed. -/
theorem ksnCQue_bookkeeping_iff_exec :
    ∃ t, ([.add (some ()) 1 () 0, .add (some ()) 1 () 0, .exec 1, .exec 2] :
        List (CQueOp Unit Unit)).foldlM CQueRun.step (.start true true) = .ok t ∧
      Bookkeeping t.past t.kq := by
  refine (ksnCQue_bookkeeping_iff true true _ (by decide)).mpr ⟨trivial, fun t ht => ?_⟩
  obtain rfl := Except.ok.inj ht
  refine ⟨trivial, fun t ht => ?_⟩
  obtain rfl := Except.ok.inj ht
  refine ⟨fun cq hcq => ?_, fun t ht => ?_⟩
  · obtain rfl := Option.some.inj hcq
    exact fun _ => rfl
  · obtain rfl := Except.ok.inj ht
    refine ⟨fun cq hcq => ?_, fun _ _ => trivial⟩
    obtain rfl := Option.some.inj hcq
    exact fun _ => rfl

/-- Without a timeout the `timeout` field keeps what was on the stack. -/
theorem not_ksnCQue_bookkeeping :
    addCount ([.add (some ()) 0 () 1, .exec 1] : List (CQueOp Unit Unit)) < 2 ^ 32 - 1 ∧
      ¬∃ t, ([.add (some ()) 0 () 1, .exec 1] : List (CQueOp Unit Unit)).foldlM CQueRun.step
          (.start true false) = .ok t ∧ Bookkeeping t.past t.kq := by
  refine ⟨by decide, ?_⟩
  rintro ⟨t, ht, -⟩
  have hfault : ([.add (some ()) 0 () 1, .exec 1] : List (CQueOp Unit Unit)).foldlM CQueRun.step
      (.start true false) = .error .uninitWatcher := by rfl
  rw [hfault] at ht
  cases ht

/-! ### Several modules with one queue -/

/-- What a module may do with the queue that does not use the callback `mine`: it adds callbacks of
its own, and it knows the ids of its own entries only. -/
def KsnCQueClass.Foreign (mine : α) (kq : KsnCQueClass α β) : CQueOp α β → Prop
  | .add cb _ _ _ => cb ≠ some mine
  | .exec id | .remove id | .setData id _ => ∀ cq, kq.entry id = some cq → cq.cb ≠ some mine
  | .timer a => ∀ cq, kq.heap.get a = some cq → cq.cb ≠ some mine

instance KsnCQueClass.Foreign.decidable [DecidableEq α] (mine : α) (kq : KsnCQueClass α β) :
    ∀ op : CQueOp α β, Decidable (kq.Foreign mine op)
  | .add cb _ _ _ => inferInstanceAs (Decidable (cb ≠ some mine))
  | .exec id | .remove id | .setData id _ =>
    inferInstanceAs (Decidable (∀ cq ∈ kq.entry id, cq.cb ≠ some mine))
  | .timer a => inferInstanceAs (Decidable (∀ cq ∈ kq.heap.get a, cq.cb ≠ some mine))

/-- `kq'` is `kq` after a change that leaves the entries with the callback `mine` alone. -/
structure KsnCQueClass.Keeps (mine : α) (kq kq' : KsnCQueClass α β) : Prop where
  wf : kq'.WF
  next : kq.heap.next ≤ kq'.heap.next
  mine : ∀ c cq, cq.cb = some mine → (kq'.heap.get c = some cq ↔ kq.heap.get c = some cq)
  gone : ∀ c, c < kq.heap.next → kq.heap.get c = none → kq'.heap.get c = none

theorem KsnCQueClass.Keeps.refl {mine : α} (hwf : kq.WF) : KsnCQueClass.Keeps mine kq kq :=
  ⟨hwf, le_rfl, fun _ _ _ => Iff.rfl, fun _ _ h => h⟩

theorem KsnCQueClass.Keeps.add {mine : α} (hwf : kq.WF) {cb : Option α} (hcb : cb ≠ some mine)
    (timeout : ℚ) (data : β) (stale : ℚ) (hnone : kq.cqueMap.get kq.newId = none) :
    KsnCQueClass.Keeps mine kq (ksnCQueAdd kq cb timeout data stale) := by
  have hget := heap_get_ksnCQueAdd cb timeout data stale hwf
  simp only [hnone, reduceCtorEq, if_false] at hget
  refine ⟨hwf.ksnCQueAdd cb timeout data stale (by simp [hnone]), ?_, ?_, ?_⟩
  · rw [heap_next_ksnCQueAdd]
    omega
  · intro c cq hmine
    rw [hget]
    by_cases hc : c = kq.heap.next
    · subst hc
      rw [if_pos rfl, Heap.get_next]
      constructor
      · intro he
        obtain rfl := Option.some.inj he
        exact absurd hmine hcb
      · intro he
        cases he
    · rw [if_neg hc]
  · intro c hlt hc
    rw [hget, if_neg (Nat.ne_of_lt hlt), hc]

theorem KsnCQueClass.Keeps.drop {mine : α} (hwf : kq.WF) (hid : kq.cqueMap.get id = some a)
    (hcq : kq.heap.get a = some cq) (hcb : cq.cb ≠ some mine) :
    KsnCQueClass.Keeps mine kq (kq.drop id a) := by
  refine ⟨hwf.drop hid, (heap_next_drop hid).ge, ?_, ?_⟩
  · intro b cq' hmine
    rw [heap_get_drop hid]
    split
    · rename_i hb
      subst hb
      rw [hcq]
      simp only [reduceCtorEq, Option.some.injEq, false_iff]
      rintro rfl
      exact hcb hmine
    · rfl
  · intro b _ hb
    rw [heap_get_drop hid, hb]
    exact ite_self _

theorem KsnCQueClass.Keeps.setData {mine : α} (hwf : kq.WF) (hcq : kq.heap.get a = some cq)
    (hcb : cq.cb ≠ some mine) (data : β) :
    KsnCQueClass.Keeps mine kq
      { kq with heap := kq.heap.update a fun cq => { cq with data := data } } := by
  refine ⟨hwf.setData a data, le_rfl, ?_, ?_⟩
  · intro b cq' hmine
    show (kq.heap.update a _).get b = some cq' ↔ _
    rw [Heap.get_update]
    split
    · rename_i hb
      subst hb
      rw [hcq]
      simp only [Option.map_some, Option.some.injEq]
      constructor
      · rintro rfl
        exact absurd hmine hcb
      · rintro rfl
        exact absurd hmine hcb
    · rfl
  · intro b _ hb
    show (kq.heap.update a _).get b = none
    rw [Heap.get_update]
    split
    · rename_i he
      rw [← he, hb]
      rfl
    · exact hb

/-- What another module does to the queue leaves the entries with `mine` alone, unless it is given
the id of a pending entry. -/
theorem KsnCQueClass.Keeps.perform {mine : α} (hwf : kq.WF) {op : CQueOp α β}
    (hforeign : kq.Foreign mine op)
    (hfresh : op.isAdd = true → kq.cqueMap.get kq.newId = none) {o : CQueObs α β}
    {kq' : KsnCQueClass α β} (h : kq.perform op = .ok (o, kq')) :
    KsnCQueClass.Keeps mine kq kq' := by
  rcases perform_cases hwf h with rfl | ⟨cb, timeout, data, stale, rfl, rfl⟩ |
    ⟨id, c, hid, hop, rfl⟩ | ⟨id, c, data, hid, rfl, rfl⟩
  · exact .refl hwf
  · exact .add hwf hforeign timeout data stale (hfresh rfl)
  · obtain ⟨cq, hcq, -, hentry⟩ := hwf.entry_of_map hid
    rcases hop with rfl | rfl | rfl
    · exact .drop hwf hid hcq (hforeign cq hentry)
    · exact .drop hwf hid hcq (hforeign cq hentry)
    · exact .drop hwf hid hcq (hforeign cq hcq)
  · obtain ⟨cq, hcq, -, hentry⟩ := hwf.entry_of_map hid
    exact .setData hwf hcq (hforeign cq hentry) data

end Teonet
