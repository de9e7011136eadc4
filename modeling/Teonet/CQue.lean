import Mathlib.Algebra.Order.Ring.Rat
import Teonet.Lib.Heap
import Teonet.Lib.Runs

/-! # The callback queue

`ksnCQueAdd` puts a callback into the queue under a new id and starts its timer; `ksnCQueExec`,
`ksnCQueRemove` and the timer end the entry.  The map of the queue holds pointers to entries, and
the event loop holds pointers to the timers inside them, so the heap of entries is a part of the
state: reading through a pointer to an entry that was freed is a fault, and so is stopping a timer
that was never initialised.

`ksnCQueAdd` sets the `timeout` field only where it starts a timer.  Otherwise the field keeps what
was on the stack, which is the argument `stale` here.

The map, the heap and the timers are three views of one set (`KsnCQueClass.WF` and
`KsnCQueClass.Armed`): what an id stands for is `KsnCQueClass.pending`, and each operation is one
change of it (`pending_ksnCQueAdd`, `pending_drop`, `pending_setData`). -/

namespace Teonet

variable {α β : Type}

/-- An entry, with callbacks of type `α` and user data of type `β`.  `wInit` is set where
`ev_timer_init` was called for its watcher `w`. -/
structure KsnCQueData (α β : Type) where
  cb : Option α
  timeout : ℚ
  id : ℕ
  data : β
  wInit : Bool

/-- The queue and what it uses of the process: the blocks of its entries, the timers that run in
the event loop, and whether the application has set `event_cb`. -/
structure KsnCQueClass (α β : Type) where
  id : ℕ
  cqueMap : FinMap ℕ ℕ
  eventF : Bool
  heap : Heap (KsnCQueData α β)
  timers : List ℕ
  eventCb : Bool

/-- What no C program may do. -/
inductive CQueFault
  /-- an entry is read that is not allocated -/
  | useAfterFree
  /-- `ev_timer_stop` is called for a watcher without `ev_timer_init` -/
  | uninitWatcher
deriving DecidableEq, Repr

/-- A call out of the queue: the callback of the entry at `cq`, or the event that follows it. -/
inductive CQueCall (α β : Type)
  | callback (cq : ℕ) (cb : α) (id type : ℕ) (data : β)
  | event (cq type : ℕ)
deriving DecidableEq, Repr

/-! ### The code -/

/-- `ksnCQueInit`. -/
def ksnCQueInit (sendEvent eventCb : Bool) : KsnCQueClass α β where
  id := 0
  cqueMap := FinMap.empty
  eventF := sendEvent
  heap := Heap.empty
  timers := []
  eventCb := eventCb

/-- Read through a pointer to an entry. -/
def KsnCQueClass.deref (kq : KsnCQueClass α β) (a : ℕ) : Except CQueFault (KsnCQueData α β) :=
  match kq.heap.get a with
  | some cq => .ok cq
  | none => .error .useAfterFree

/-- `ev_timer_stop` of a watcher that was initialised: it neither runs nor is it pending. -/
def KsnCQueClass.evTimerStop (kq : KsnCQueClass α β) (a : ℕ) : KsnCQueClass α β :=
  { kq with timers := kq.timers.filter (· ≠ a) }

/-- `if(cq->timeout > 0.0) ev_timer_stop(kev->ev_loop, &cq->w)`. -/
def KsnCQueClass.stopWatcher (kq : KsnCQueClass α β) (a : ℕ) :
    Except CQueFault (KsnCQueClass α β) := do
  let cq ← kq.deref a
  if 0 < cq.timeout then
    if cq.wInit then .ok (kq.evTimerStop a) else .error .uninitWatcher
  else .ok kq

/-- `pblMapRemoveFree(kq->cque_map, &id, ..)`. -/
def KsnCQueClass.pblMapRemoveFree (kq : KsnCQueClass α β) (id : ℕ) : KsnCQueClass α β :=
  match kq.cqueMap.get id with
  | some a => { kq with cqueMap := kq.cqueMap.remove id, heap := kq.heap.free a }
  | none => kq

/-- `if(cq->cb != NULL) cq->cb(id, type, cq->data)`. -/
def KsnCQueData.callback (cq : KsnCQueData α β) (a id type : ℕ) : List (CQueCall α β) :=
  match cq.cb with
  | some cb => [.callback a cb id type cq.data]
  | none => []

/-- `if(kev->event_cb != NULL && cq->kq->event_f) kev->event_cb(kev, EV_K_CQUE_CALLBACK, cq, ..)`:
the entry is read only where the application has set `event_cb`. -/
def KsnCQueClass.sendEvent (kq : KsnCQueClass α β) (a type : ℕ) :
    Except CQueFault (List (CQueCall α β)) := do
  if kq.eventCb then
    let _ ← kq.deref a
    return if kq.eventF then [.event a type] else []
  else return []

/-- `ksnCQueExec`, for callbacks that do not call the queue. -/
def ksnCQueExec (kq : KsnCQueClass α β) (id : ℕ) :
    Except CQueFault (ℤ × List (CQueCall α β) × KsnCQueClass α β) :=
  match kq.cqueMap.get id with
  | none => .ok (-1, [], kq)
  | some a => do
    let kq ← kq.stopWatcher a
    let cq ← kq.deref a
    let event ← kq.sendEvent a 1
    return (0, cq.callback a id 1 ++ event, kq.pblMapRemoveFree id)

/-- `ksnCQueRemove`. -/
def ksnCQueRemove (kq : KsnCQueClass α β) (id : ℕ) :
    Except CQueFault (ℤ × KsnCQueClass α β) :=
  match kq.cqueMap.get id with
  | none => .ok (-1, kq)
  | some a => do
    let kq ← kq.stopWatcher a
    return (0, kq.pblMapRemoveFree id)

/-- `ksnCQueSetData`. -/
def ksnCQueSetData (kq : KsnCQueClass α β) (id : ℕ) (data : β) :
    Except CQueFault (ℤ × KsnCQueClass α β) :=
  match kq.cqueMap.get id with
  | none => .ok (-1, kq)
  | some a => do
    let _ ← kq.deref a
    return (0, { kq with heap := kq.heap.update a fun cq => { cq with data := data } })

/-- `cq_timer_cb`, for callbacks that do not call the queue. -/
def cqTimerCb (kq : KsnCQueClass α β) (a : ℕ) :
    Except CQueFault (List (CQueCall α β) × KsnCQueClass α β) := do
  let cq ← kq.deref a
  let kq := kq.evTimerStop a
  let event ← kq.sendEvent a 0
  return (cq.callback a cq.id 0 ++ event, kq.pblMapRemoveFree cq.id)

/-- The id that the next `ksnCQueAdd` gives: `0` is skipped. -/
def KsnCQueClass.newId (kq : KsnCQueClass α β) : ℕ := if kq.id = 0 then 1 else kq.id

/-- `pblMapAdd` of an entry: it gets a block of its own, and the block of the entry that it
replaces, if there is one, is freed. -/
def KsnCQueClass.pblMapAdd (kq : KsnCQueClass α β) (id : ℕ) (cq : KsnCQueData α β) :
    KsnCQueClass α β :=
  { kq with
    cqueMap := kq.cqueMap.add id kq.heap.next
    heap := match kq.cqueMap.get id with
      | some old => (kq.heap.alloc cq).free old
      | none => kq.heap.alloc cq }

/-- The entry that `ksnCQueAdd` leaves in the map: `data_new`, with the `timeout` field and the
watcher set only for a positive timeout. -/
def KsnCQueClass.newEntry (kq : KsnCQueClass α β) (cb : Option α) (timeout : ℚ) (data : β)
    (stale : ℚ) : KsnCQueData α β where
  cb := cb
  timeout := if 0 < timeout then timeout else stale
  id := kq.newId
  data := data
  wInit := decide (0 < timeout)

/-- `ksnCQueAdd`; the new entry is at `kq.heap.next` and has the id `kq.newId`. -/
def ksnCQueAdd (kq : KsnCQueClass α β) (cb : Option α) (timeout : ℚ) (data : β) (stale : ℚ) :
    KsnCQueClass α β :=
  let a := kq.heap.next
  let kq' := { kq with id := (kq.newId + 1) % 2 ^ 32 }.pblMapAdd kq.newId
    (kq.newEntry cb timeout data stale)
  if 0 < timeout then { kq' with timers := a :: kq'.timers } else kq'

/-! ### The three views -/

/-- `ev_timer_stop` is called for the entry only where its watcher was initialised. -/
def KsnCQueData.Stoppable (cq : KsnCQueData α β) : Prop := 0 < cq.timeout → cq.wInit = true

/-- The map holds exactly the live entries, each under its own id, and a timer that runs is the
initialised watcher of one of them. -/
structure KsnCQueClass.WF (kq : KsnCQueClass α β) : Prop where
  map_heap : ∀ id a, kq.cqueMap.get id = some a → ∃ cq, kq.heap.get a = some cq ∧ cq.id = id
  heap_map : ∀ a cq, kq.heap.get a = some cq → kq.cqueMap.get cq.id = some a
  timers : ∀ a ∈ kq.timers, ∃ cq, kq.heap.get a = some cq ∧ cq.wInit = true
  timeout_pos : ∀ a cq, kq.heap.get a = some cq → cq.wInit = true → 0 < cq.timeout

/-- Every id of the map leads to an entry that is live and has this id.  Unlike `WF` this also holds
while a timer runs whose entry was replaced. -/
def KsnCQueClass.Mapped (kq : KsnCQueClass α β) : Prop :=
  ∀ id a, kq.cqueMap.get id = some a → ∃ cq, kq.heap.get a = some cq ∧ cq.id = id

/-- The timer of every entry with an initialised watcher runs. -/
def KsnCQueClass.Armed (kq : KsnCQueClass α β) : Prop :=
  ∀ a cq, kq.heap.get a = some cq → cq.wInit = true → a ∈ kq.timers

/-- The entry of an id. -/
def KsnCQueClass.entry (kq : KsnCQueClass α β) (id : ℕ) : Option (KsnCQueData α β) :=
  (kq.cqueMap.get id).bind kq.heap.get

/-- What an id stands for: the callback and the user data. -/
def KsnCQueClass.pending (kq : KsnCQueClass α β) (id : ℕ) : Option (Option α × β) :=
  (kq.entry id).map fun cq => (cq.cb, cq.data)

/-- The state after the end of the entry `id` at `a`, whichever way it ends. -/
def KsnCQueClass.drop (kq : KsnCQueClass α β) (id a : ℕ) : KsnCQueClass α β :=
  (kq.evTimerStop a).pblMapRemoveFree id

/-- The event that follows the callback, for an entry that is live. -/
def KsnCQueClass.eventOf (kq : KsnCQueClass α β) (a type : ℕ) : List (CQueCall α β) :=
  if kq.eventCb && kq.eventF then [.event a type] else []

variable {kq : KsnCQueClass α β} {id a : ℕ} {cq : KsnCQueData α β}

theorem deref_of_get (h : kq.heap.get a = some cq) : kq.deref a = .ok cq := by
  rw [KsnCQueClass.deref, h]

theorem sendEvent_of_get (h : kq.heap.get a = some cq) (type : ℕ) :
    kq.sendEvent a type = .ok (kq.eventOf a type) := by
  unfold KsnCQueClass.sendEvent KsnCQueClass.eventOf
  rw [deref_of_get h]
  cases kq.eventCb <;> rfl

theorem evTimerStop_of_not_mem (ha : a ∉ kq.timers) : kq.evTimerStop a = kq := by
  have hfilter : kq.timers.filter (· ≠ a) = kq.timers := by
    apply List.filter_eq_self.mpr
    intro b hb
    simpa using fun hba : b = a => ha (hba ▸ hb)
  rw [KsnCQueClass.evTimerStop, hfilter]

theorem KsnCQueClass.WF.evTimerStop_of_stopped (hwf : kq.WF) (h : kq.heap.get a = some cq)
    (hw : cq.wInit = false) : kq.evTimerStop a = kq := by
  apply evTimerStop_of_not_mem
  intro hmem
  obtain ⟨cq', h', hw'⟩ := hwf.timers a hmem
  rw [h] at h'
  obtain rfl := Option.some.inj h'
  rw [hw] at hw'
  cases hw'

theorem KsnCQueClass.WF.evTimerStop (hwf : kq.WF) (a : ℕ) : (kq.evTimerStop a).WF where
  map_heap := hwf.map_heap
  heap_map := hwf.heap_map
  timers b hb := hwf.timers b (List.mem_filter.mp hb).1
  timeout_pos := hwf.timeout_pos

theorem not_mem_evTimerStop (kq : KsnCQueClass α β) (a : ℕ) : a ∉ (kq.evTimerStop a).timers := by
  simp [KsnCQueClass.evTimerStop]

theorem stopWatcher_of_stoppable (hwf : kq.WF) (h : kq.heap.get a = some cq)
    (hs : cq.Stoppable) : kq.stopWatcher a = .ok (kq.evTimerStop a) := by
  unfold KsnCQueClass.stopWatcher
  rw [deref_of_get h]
  show (if 0 < cq.timeout then _ else _) = _
  by_cases ht : 0 < cq.timeout
  · rw [if_pos ht, if_pos (hs ht)]
  · have hw : cq.wInit = false := by
      cases hc : cq.wInit with
      | false => rfl
      | true => exact absurd (hwf.timeout_pos a cq h hc) ht
    rw [if_neg ht, hwf.evTimerStop_of_stopped h hw]

theorem stopWatcher_of_not_stoppable (h : kq.heap.get a = some cq) (hs : ¬cq.Stoppable) :
    kq.stopWatcher a = .error .uninitWatcher := by
  unfold KsnCQueData.Stoppable at hs
  obtain ⟨ht, hw⟩ := Classical.not_imp.mp hs
  unfold KsnCQueClass.stopWatcher
  rw [deref_of_get h]
  show (if 0 < cq.timeout then _ else _) = _
  rw [if_pos ht, if_neg hw]

/-- Stopping a watcher leaves the entries alone. -/
theorem heap_of_stopWatcher {kq' : KsnCQueClass α β} (h : kq.stopWatcher a = .ok kq') :
    kq'.heap = kq.heap := by
  unfold KsnCQueClass.stopWatcher KsnCQueClass.deref at h
  cases hcq : kq.heap.get a with
  | none =>
    rw [hcq] at h
    cases h
  | some cq =>
    rw [hcq] at h
    change (if 0 < cq.timeout then _ else _) = _ at h
    split_ifs at h
    · obtain rfl := Except.ok.inj h
      rfl
    · obtain rfl := Except.ok.inj h
      rfl

theorem KsnCQueClass.WF.mapped (hwf : kq.WF) : kq.Mapped := hwf.map_heap

theorem KsnCQueClass.Mapped.entry_of_map (hmap : kq.Mapped) (hid : kq.cqueMap.get id = some a) :
    ∃ cq, kq.heap.get a = some cq ∧ cq.id = id ∧ kq.entry id = some cq := by
  obtain ⟨cq, hcq, hcid⟩ := hmap id a hid
  exact ⟨cq, hcq, hcid, by rw [KsnCQueClass.entry, hid]; exact hcq⟩

theorem KsnCQueClass.WF.entry_of_map (hwf : kq.WF) (hid : kq.cqueMap.get id = some a) :
    ∃ cq, kq.heap.get a = some cq ∧ cq.id = id ∧ kq.entry id = some cq :=
  hwf.mapped.entry_of_map hid

/-! ### What each operation does -/

theorem ksnCQueExec_of_stoppable (hwf : kq.WF) (hid : kq.cqueMap.get id = some a)
    (h : kq.heap.get a = some cq) (hs : cq.Stoppable) :
    ksnCQueExec kq id = .ok (0, cq.callback a id 1 ++ kq.eventOf a 1, kq.drop id a) := by
  have h' : (kq.evTimerStop a).heap.get a = some cq := h
  unfold ksnCQueExec
  simp only [hid, stopWatcher_of_stoppable hwf h hs]
  show (do let cq ← (kq.evTimerStop a).deref a; _) = _
  rw [deref_of_get h']
  show (do let event ← (kq.evTimerStop a).sendEvent a 1; _) = _
  rw [sendEvent_of_get h']
  rfl

theorem ksnCQueRemove_of_stoppable (hwf : kq.WF) (hid : kq.cqueMap.get id = some a)
    (h : kq.heap.get a = some cq) (hs : cq.Stoppable) :
    ksnCQueRemove kq id = .ok (0, kq.drop id a) := by
  unfold ksnCQueRemove
  simp only [hid, stopWatcher_of_stoppable hwf h hs]
  rfl

theorem ksnCQueExec_of_not_stoppable (hid : kq.cqueMap.get id = some a)
    (h : kq.heap.get a = some cq) (hs : ¬cq.Stoppable) :
    ksnCQueExec kq id = .error .uninitWatcher := by
  unfold ksnCQueExec
  simp only [hid, stopWatcher_of_not_stoppable h hs]
  rfl

theorem ksnCQueRemove_of_not_stoppable (hid : kq.cqueMap.get id = some a)
    (h : kq.heap.get a = some cq) (hs : ¬cq.Stoppable) :
    ksnCQueRemove kq id = .error .uninitWatcher := by
  unfold ksnCQueRemove
  simp only [hid, stopWatcher_of_not_stoppable h hs]
  rfl

theorem cqTimerCb_of_get (h : kq.heap.get a = some cq) :
    cqTimerCb kq a = .ok (cq.callback a cq.id 0 ++ kq.eventOf a 0, kq.drop cq.id a) := by
  have h' : (kq.evTimerStop a).heap.get a = some cq := h
  unfold cqTimerCb
  rw [deref_of_get h]
  show (do let event ← (kq.evTimerStop a).sendEvent a 0; _) = _
  rw [sendEvent_of_get h']
  rfl

theorem ksnCQueSetData_of_get (hid : kq.cqueMap.get id = some a)
    (h : kq.heap.get a = some cq) (data : β) :
    ksnCQueSetData kq id data =
      .ok (0, { kq with heap := kq.heap.update a fun cq => { cq with data := data } }) := by
  unfold ksnCQueSetData
  simp only [hid, deref_of_get h]
  rfl

theorem ksnCQueInit_wf (sendEvent eventCb : Bool) :
    (ksnCQueInit sendEvent eventCb : KsnCQueClass α β).WF where
  map_heap id a h := by
    rw [show (ksnCQueInit sendEvent eventCb : KsnCQueClass α β).cqueMap.get id = none from
      FinMap.get_empty id] at h
    cases h
  heap_map a cq h := by
    rw [show (ksnCQueInit sendEvent eventCb : KsnCQueClass α β).heap.get a = none from
      Heap.get_empty a] at h
    cases h
  timers a ha := by simp [ksnCQueInit] at ha
  timeout_pos a cq h := by
    rw [show (ksnCQueInit sendEvent eventCb : KsnCQueClass α β).heap.get a = none from
      Heap.get_empty a] at h
    cases h

theorem pending_ksnCQueInit (sendEvent eventCb : Bool) (id : ℕ) :
    (ksnCQueInit sendEvent eventCb : KsnCQueClass α β).pending id = none := by
  unfold KsnCQueClass.pending KsnCQueClass.entry
  rw [show (ksnCQueInit sendEvent eventCb : KsnCQueClass α β).cqueMap.get id = none from
    FinMap.get_empty id]
  rfl

/-! ### The end of an entry -/

theorem drop_eq (hid : kq.cqueMap.get id = some a) :
    kq.drop id a =
      { kq with
        cqueMap := kq.cqueMap.remove id
        heap := kq.heap.free a
        timers := kq.timers.filter (· ≠ a) } := by
  have hid' : (kq.evTimerStop a).cqueMap.get id = some a := hid
  unfold KsnCQueClass.drop KsnCQueClass.pblMapRemoveFree
  rw [hid']
  rfl

theorem heap_get_drop (hid : kq.cqueMap.get id = some a) (b : ℕ) :
    (kq.drop id a).heap.get b = if b = a then none else kq.heap.get b := by
  rw [drop_eq hid]
  exact Heap.get_free _ _ _

theorem heap_next_drop (hid : kq.cqueMap.get id = some a) :
    (kq.drop id a).heap.next = kq.heap.next := by
  rw [drop_eq hid]
  rfl

/-- What is left after the end of an entry was there before. -/
theorem heap_get_of_drop (hid : kq.cqueMap.get id = some a) {b : ℕ}
    (h : (kq.drop id a).heap.get b = some cq) : b ≠ a ∧ kq.heap.get b = some cq := by
  rw [heap_get_drop hid] at h
  split at h
  · cases h
  · exact ⟨‹_›, h⟩

/-- Two ids are not at one address. -/
theorem KsnCQueClass.Mapped.id_unique (hmap : kq.Mapped) {id' : ℕ} (h : kq.cqueMap.get id = some a)
    (h' : kq.cqueMap.get id' = some a) : id' = id := by
  obtain ⟨cq, hcq, rfl⟩ := hmap id a h
  obtain ⟨cq', hcq', rfl⟩ := hmap id' a h'
  rw [hcq] at hcq'
  rw [Option.some.inj hcq']

theorem KsnCQueClass.WF.id_unique (hwf : kq.WF) {id' : ℕ} (h : kq.cqueMap.get id = some a)
    (h' : kq.cqueMap.get id' = some a) : id' = id := hwf.mapped.id_unique h h'

theorem KsnCQueClass.WF.drop (hwf : kq.WF) (hid : kq.cqueMap.get id = some a) :
    (kq.drop id a).WF := by
  rw [drop_eq hid]
  refine ⟨fun id' b h => ?_, fun b cq h => ?_, fun b hb => ?_, fun b cq h hw => ?_⟩
  · simp only [FinMap.get_remove] at h
    obtain ⟨hne, h⟩ : id' ≠ id ∧ kq.cqueMap.get id' = some b := by
      split at h
      · cases h
      · exact ⟨‹_›, h⟩
    have hb : b ≠ a := fun hba => hne (hwf.id_unique hid (hba ▸ h))
    obtain ⟨cq, hcq, hcid⟩ := hwf.map_heap id' b h
    exact ⟨cq, by simp only [Heap.get_free, if_neg hb]; exact hcq, hcid⟩
  · simp only [Heap.get_free] at h
    split at h
    · cases h
    · rename_i hb
      have hcq := hwf.heap_map b cq h
      have hne : cq.id ≠ id := by
        intro he
        rw [he, hid] at hcq
        exact hb (Option.some.inj hcq).symm
      show (kq.cqueMap.remove id).get cq.id = some b
      rw [FinMap.get_remove_of_ne _ hne, hcq]
  · obtain ⟨hb, hne⟩ : b ∈ kq.timers ∧ b ≠ a := by simpa using hb
    simp only [Heap.get_free, if_neg hne]
    exact hwf.timers b hb
  · simp only [Heap.get_free] at h
    split at h
    · cases h
    · exact hwf.timeout_pos b cq h hw

theorem entry_drop (hwf : kq.WF) (hid : kq.cqueMap.get id = some a) (id' : ℕ) :
    (kq.drop id a).entry id' = if id' = id then none else kq.entry id' := by
  rw [drop_eq hid]
  unfold KsnCQueClass.entry
  simp only [FinMap.get_remove]
  split
  · rfl
  · rename_i hne
    cases h : kq.cqueMap.get id' with
    | none => rfl
    | some b =>
      have hb : b ≠ a := fun hba => hne (hwf.id_unique hid (hba ▸ h))
      show (kq.heap.free a).get b = kq.heap.get b
      rw [Heap.get_free, if_neg hb]

theorem pending_drop (hwf : kq.WF) (hid : kq.cqueMap.get id = some a) (id' : ℕ) :
    (kq.drop id a).pending id' = if id' = id then none else kq.pending id' := by
  unfold KsnCQueClass.pending
  rw [entry_drop hwf hid]
  split <;> rfl

theorem KsnCQueClass.Armed.drop (harmed : kq.Armed) (hid : kq.cqueMap.get id = some a) :
    (kq.drop id a).Armed := by
  rw [drop_eq hid]
  intro b cq h hw
  simp only [Heap.get_free] at h
  split at h
  · cases h
  · rename_i hne
    simpa [hne] using harmed b cq h hw

/-! ### New user data -/

/-- What the change of `data` leaves of the entries. -/
theorem get_setData {data : β} {b : ℕ} {cq' : KsnCQueData α β}
    (h : (kq.heap.update a fun cq => { cq with data := data }).get b = some cq') :
    ∃ cq, kq.heap.get b = some cq ∧ cq'.cb = cq.cb ∧ cq'.id = cq.id ∧
      cq'.timeout = cq.timeout ∧ cq'.wInit = cq.wInit := by
  rw [Heap.get_update] at h
  split at h
  · rename_i hb
    obtain ⟨cq, hcq, rfl⟩ := Option.map_eq_some_iff.mp h
    exact ⟨cq, hb ▸ hcq, rfl, rfl, rfl, rfl⟩
  · exact ⟨cq', h, rfl, rfl, rfl, rfl⟩

theorem get_setData_of_get {b : ℕ} (h : kq.heap.get b = some cq) (a : ℕ) (data : β) :
    ∃ cq', (kq.heap.update a fun cq => { cq with data := data }).get b = some cq' ∧
      cq'.id = cq.id ∧ cq'.wInit = cq.wInit := by
  rw [Heap.get_update]
  split
  · rename_i hb
    rw [← hb, h]
    exact ⟨_, rfl, rfl, rfl⟩
  · exact ⟨cq, h, rfl, rfl⟩

theorem KsnCQueClass.WF.setData (hwf : kq.WF) (a : ℕ) (data : β) :
    { kq with heap := kq.heap.update a fun cq => { cq with data := data } }.WF := by
  refine ⟨fun id' b h => ?_, fun b cq' h => ?_, fun b hb => ?_, fun b cq' h hw => ?_⟩
  · obtain ⟨cq, hcq, hcid⟩ := hwf.map_heap id' b h
    obtain ⟨cq', hcq', hid', -⟩ := get_setData_of_get hcq a data
    exact ⟨cq', hcq', hid'.trans hcid⟩
  · obtain ⟨cq, hcq, -, hid', -⟩ := get_setData h
    rw [hid']
    exact hwf.heap_map b cq hcq
  · obtain ⟨cq, hcq, hw⟩ := hwf.timers b hb
    obtain ⟨cq', hcq', -, hw'⟩ := get_setData_of_get hcq a data
    exact ⟨cq', hcq', hw'.trans hw⟩
  · obtain ⟨cq, hcq, -, -, ht, hw'⟩ := get_setData h
    rw [ht]
    exact hwf.timeout_pos b cq hcq (hw' ▸ hw)

theorem KsnCQueClass.Armed.setData (harmed : kq.Armed) (a : ℕ) (data : β) :
    { kq with heap := kq.heap.update a fun cq => { cq with data := data } }.Armed := by
  intro b cq' h hw
  obtain ⟨cq, hcq, -, -, -, hw'⟩ := get_setData h
  exact harmed b cq hcq (hw' ▸ hw)

theorem pending_setData (hwf : kq.WF) (hid : kq.cqueMap.get id = some a) (data : β) (id' : ℕ) :
    { kq with heap := kq.heap.update a fun cq => { cq with data := data } }.pending id' =
      if id' = id then (kq.pending id).map fun p => (p.1, data) else kq.pending id' := by
  unfold KsnCQueClass.pending KsnCQueClass.entry
  by_cases hne : id' = id
  · rw [if_pos hne, hne, hid]
    show ((kq.heap.update a _).get a).map _ = ((kq.heap.get a).map _).map _
    rw [Heap.get_update, if_pos rfl]
    cases kq.heap.get a <;> rfl
  · rw [if_neg hne]
    cases h : kq.cqueMap.get id' with
    | none => rfl
    | some b =>
      have hb : b ≠ a := fun hba => hne (hwf.id_unique hid (hba ▸ h))
      show ((kq.heap.update a _).get b).map _ = (kq.heap.get b).map _
      rw [Heap.get_update, if_neg hb]

/-! ### A new entry -/

section Add

variable (cb : Option α) (timeout : ℚ) (data : β) (stale : ℚ)

theorem ksnCQueAdd_id : (ksnCQueAdd kq cb timeout data stale).id = (kq.newId + 1) % 2 ^ 32 := by
  unfold ksnCQueAdd KsnCQueClass.pblMapAdd
  dsimp only
  split <;> rfl

theorem ksnCQueAdd_cqueMap :
    (ksnCQueAdd kq cb timeout data stale).cqueMap = kq.cqueMap.add kq.newId kq.heap.next := by
  unfold ksnCQueAdd KsnCQueClass.pblMapAdd
  dsimp only
  split <;> rfl

theorem ksnCQueAdd_eventCb : (ksnCQueAdd kq cb timeout data stale).eventCb = kq.eventCb := by
  unfold ksnCQueAdd KsnCQueClass.pblMapAdd
  dsimp only
  split <;> rfl

theorem mem_timers_ksnCQueAdd (b : ℕ) :
    b ∈ (ksnCQueAdd kq cb timeout data stale).timers ↔
      0 < timeout ∧ b = kq.heap.next ∨ b ∈ kq.timers := by
  unfold ksnCQueAdd KsnCQueClass.pblMapAdd
  by_cases ht : 0 < timeout <;> simp [ht]

theorem heap_next_ksnCQueAdd :
    (ksnCQueAdd kq cb timeout data stale).heap.next = kq.heap.next + 1 := by
  unfold ksnCQueAdd KsnCQueClass.pblMapAdd
  dsimp only
  split <;> cases kq.cqueMap.get kq.newId <;> rfl

/-- The block of an entry with the same id is freed. -/
theorem KsnCQueClass.Mapped.heap_get_ksnCQueAdd (hmap : kq.Mapped) (b : ℕ) :
    (ksnCQueAdd kq cb timeout data stale).heap.get b =
      if b = kq.heap.next then some (kq.newEntry cb timeout data stale)
      else if kq.cqueMap.get kq.newId = some b then none
      else kq.heap.get b := by
  have hheap : (ksnCQueAdd kq cb timeout data stale).heap =
      match kq.cqueMap.get kq.newId with
      | some old => (kq.heap.alloc (kq.newEntry cb timeout data stale)).free old
      | none => kq.heap.alloc (kq.newEntry cb timeout data stale) := by
    unfold ksnCQueAdd KsnCQueClass.pblMapAdd
    dsimp only
    split <;> rfl
  rw [hheap]
  cases hid : kq.cqueMap.get kq.newId with
  | none => simp [Heap.get_alloc]
  | some old =>
    obtain ⟨cq, hcq, -⟩ := hmap _ _ hid
    have hne := Heap.ne_next_of_get hcq
    simp only [Heap.get_free, Heap.get_alloc, Option.some.injEq]
    by_cases hb : b = old
    · subst hb
      simp [hne]
    · simp [hb, Ne.symm hb]

theorem heap_get_ksnCQueAdd (hwf : kq.WF) (b : ℕ) :
    (ksnCQueAdd kq cb timeout data stale).heap.get b =
      if b = kq.heap.next then some (kq.newEntry cb timeout data stale)
      else if kq.cqueMap.get kq.newId = some b then none
      else kq.heap.get b := hwf.mapped.heap_get_ksnCQueAdd cb timeout data stale b

/-- `ksnCQueAdd` keeps the map in order, also where it replaces an entry. -/
theorem mapped_ksnCQueAdd (hmap : kq.Mapped) :
    (ksnCQueAdd kq cb timeout data stale).Mapped := by
  intro id' b h
  rw [ksnCQueAdd_cqueMap, FinMap.get_add] at h
  rw [hmap.heap_get_ksnCQueAdd]
  split at h
  · rename_i he
    obtain rfl := Option.some.inj h
    exact ⟨_, if_pos rfl, he.symm⟩
  · rename_i hne
    obtain ⟨cq, hcq, hcid⟩ := hmap id' b h
    have hnot : kq.cqueMap.get kq.newId ≠ some b := fun hb => hne (hmap.id_unique hb h)
    exact ⟨cq, by rw [if_neg (Heap.ne_next_of_get hcq), if_neg hnot, hcq], hcid⟩

theorem heap_get_ksnCQueAdd_of_ne (hwf : kq.WF) {b : ℕ} {cq} (hb : b ≠ kq.heap.next)
    (h : (ksnCQueAdd kq cb timeout data stale).heap.get b = some cq) :
    kq.heap.get b = some cq ∧ kq.cqueMap.get kq.newId ≠ some b := by
  rw [heap_get_ksnCQueAdd cb timeout data stale hwf, if_neg hb] at h
  split at h
  · cases h
  · exact ⟨h, ‹_›⟩

/-- The three views agree after `ksnCQueAdd`, unless it replaces an entry whose timer runs. -/
theorem KsnCQueClass.WF.ksnCQueAdd (hwf : kq.WF)
    (hid : ∀ a, kq.cqueMap.get kq.newId = some a → a ∉ kq.timers) :
    (ksnCQueAdd kq cb timeout data stale).WF := by
  have hget := heap_get_ksnCQueAdd cb timeout data stale hwf
  have hold : ∀ b cq, b ≠ kq.heap.next → _ := fun b cq =>
    @heap_get_ksnCQueAdd_of_ne α β kq cb timeout data stale hwf b cq
  refine ⟨mapped_ksnCQueAdd cb timeout data stale hwf.mapped, fun b cq h => ?_, fun b hmem => ?_,
    fun b cq h hw => ?_⟩
  · rw [ksnCQueAdd_cqueMap]
    by_cases hb : b = kq.heap.next
    · rw [hget, if_pos hb] at h
      obtain rfl := Option.some.inj h
      show (kq.cqueMap.add kq.newId kq.heap.next).get kq.newId = some b
      rw [FinMap.get_add_self, hb]
    · obtain ⟨hcq, hnot⟩ := hold b cq hb h
      have hmap := hwf.heap_map b cq hcq
      have hne : cq.id ≠ kq.newId := fun he => hnot (he ▸ hmap)
      rw [FinMap.get_add_of_ne _ hne, hmap]
  · rw [hget]
    rcases (mem_timers_ksnCQueAdd cb timeout data stale b).mp hmem with ⟨ht, rfl⟩ | hb
    · exact ⟨_, if_pos rfl, by simpa [KsnCQueClass.newEntry] using ht⟩
    · obtain ⟨cq, hcq, hw⟩ := hwf.timers b hb
      have hnot : kq.cqueMap.get kq.newId ≠ some b := fun h => hid b h hb
      exact ⟨cq, by rw [if_neg (Heap.ne_next_of_get hcq), if_neg hnot, hcq], hw⟩
  · by_cases hb : b = kq.heap.next
    · rw [hget, if_pos hb] at h
      obtain rfl := Option.some.inj h
      have ht : 0 < timeout := by simpa [KsnCQueClass.newEntry] using hw
      simp [KsnCQueClass.newEntry, ht]
    · exact hwf.timeout_pos b cq (hold b cq hb h).1 hw

theorem KsnCQueClass.Armed.ksnCQueAdd (hwf : kq.WF) (harmed : kq.Armed) :
    (ksnCQueAdd kq cb timeout data stale).Armed := by
  intro b cq h hw
  rw [mem_timers_ksnCQueAdd]
  by_cases hb : b = kq.heap.next
  · rw [heap_get_ksnCQueAdd cb timeout data stale hwf, if_pos hb] at h
    obtain rfl := Option.some.inj h
    exact .inl ⟨by simpa [KsnCQueClass.newEntry] using hw, hb⟩
  · exact .inr (harmed b cq (heap_get_ksnCQueAdd_of_ne cb timeout data stale hwf hb h).1 hw)

end Add

theorem KsnCQueClass.Mapped.entry_ksnCQueAdd (hmap : kq.Mapped) (cb : Option α) (timeout : ℚ)
    (data : β) (stale : ℚ) (id' : ℕ) :
    (ksnCQueAdd kq cb timeout data stale).entry id' =
      if id' = kq.newId then some (kq.newEntry cb timeout data stale) else kq.entry id' := by
  unfold KsnCQueClass.entry
  rw [ksnCQueAdd_cqueMap, FinMap.get_add]
  have hget := hmap.heap_get_ksnCQueAdd cb timeout data stale
  by_cases hne : id' = kq.newId
  · rw [if_pos hne, if_pos hne]
    exact (hget _).trans (if_pos rfl)
  · rw [if_neg hne, if_neg hne]
    cases h : kq.cqueMap.get id' with
    | none => rfl
    | some b =>
      obtain ⟨cq, hcq, -⟩ := hmap id' b h
      have hnot : kq.cqueMap.get kq.newId ≠ some b := fun hb => hne (hmap.id_unique hb h)
      exact (hget b).trans (by rw [if_neg (Heap.ne_next_of_get hcq), if_neg hnot]; rfl)

theorem pending_ksnCQueAdd (hwf : kq.WF) (cb : Option α) (timeout : ℚ) (data : β) (stale : ℚ)
    (id' : ℕ) :
    (ksnCQueAdd kq cb timeout data stale).pending id' =
      if id' = kq.newId then some (cb, data) else kq.pending id' := by
  unfold KsnCQueClass.pending
  rw [hwf.mapped.entry_ksnCQueAdd]
  split <;> rfl

end Teonet
