import Teonet.CQueIds

/-! # The fields of an entry that `ksnCQueAdd` sets

`ksnCQueAdd` sets the `timeout` field of an entry in the branch that starts its timer and nowhere
else, and `ksnCQueExec`, `ksnCQueRemove` and `teoCqueStopAll` read this field to see whether there is
a timer to stop.  In the functions of this module it is a fault to read the field where it was not
set, whatever the memory holds; without a fault they do what those of `CQue` do
(`ksnCQueExec_of_checked`, `ksnCQueRemove_of_checked`).

`CQueTimeouts` holds in every run, also after the ids have come round: the watcher of an entry is
initialised exactly if the last call of `ksnCQueAdd` that gave its id had a positive timeout.
`clean_iff` is the result. -/

namespace Teonet

open Runs

variable {α β : Type}

/-- What may go wrong when the fields that are set are told from those that are not. -/
inductive CQueFieldFault
  /-- a field is read that was not set -/
  | unset
  | queue (f : CQueFault)
deriving DecidableEq, Repr

/-! ### The code -/

/-- The `timeout` field, if it was set: `ksnCQueAdd` does so where it initialises the watcher. -/
def KsnCQueData.timeoutField (cq : KsnCQueData α β) : Option ℚ :=
  if cq.wInit then some cq.timeout else none

/-- Read `cq->timeout`. -/
def KsnCQueClass.readTimeout (kq : KsnCQueClass α β) (a : ℕ) : Except CQueFieldFault ℚ := do
  let cq ← (kq.deref a).mapError .queue
  match cq.timeoutField with
  | some timeout => .ok timeout
  | none => .error .unset

/-- `ev_timer_stop(kev->ev_loop, &cq->w)`. -/
def KsnCQueClass.stopStarted (kq : KsnCQueClass α β) (a : ℕ) :
    Except CQueFieldFault (KsnCQueClass α β) := do
  let cq ← (kq.deref a).mapError .queue
  if cq.wInit then .ok (kq.evTimerStop a) else .error (.queue .uninitWatcher)

/-- `if(cq->timeout > 0.0 && ..) ev_timer_stop(kev->ev_loop, &cq->w)`; only `teoCqueStopAll` asks
whether the event manager still runs. -/
def KsnCQueClass.stopChecked (kq : KsnCQueClass α β) (running : Bool) (a : ℕ) :
    Except CQueFieldFault (KsnCQueClass α β) := do
  let timeout ← kq.readTimeout a
  if 0 < timeout ∧ running = true then kq.stopStarted a else .ok kq

/-- `ksnCQueExec`, for callbacks that do not call the queue. -/
def ksnCQueExecChecked (kq : KsnCQueClass α β) (id : ℕ) :
    Except CQueFieldFault (ℤ × List (CQueCall α β) × KsnCQueClass α β) :=
  match kq.cqueMap.get id with
  | none => .ok (-1, [], kq)
  | some a => do
    let kq ← kq.stopChecked true a
    let cq ← (kq.deref a).mapError .queue
    let event ← (kq.sendEvent a 1).mapError .queue
    return (0, cq.callback a id 1 ++ event, kq.pblMapRemoveFree id)

/-- `ksnCQueRemove`. -/
def ksnCQueRemoveChecked (kq : KsnCQueClass α β) (id : ℕ) :
    Except CQueFieldFault (ℤ × KsnCQueClass α β) :=
  match kq.cqueMap.get id with
  | none => .ok (-1, kq)
  | some a => do
    let kq ← kq.stopChecked true a
    return (0, kq.pblMapRemoveFree id)

/-- `pblMapClear(kq->cque_map)`. -/
def KsnCQueClass.pblMapClear (kq : KsnCQueClass α β) : KsnCQueClass α β :=
  { kq with
    cqueMap := FinMap.empty
    heap := kq.cqueMap.toPairs.foldl (fun heap entry => heap.free entry.2) kq.heap }

/-- `teoCqueStopAll`, which `ksnCQueDestroy` calls before it frees the queue; `running` is whether
the event manager still runs. -/
def teoCqueStopAll (kq : KsnCQueClass α β) (running : Bool) :
    Except CQueFieldFault (KsnCQueClass α β) := do
  let kq ← kq.cqueMap.toPairs.foldlM (fun kq entry => kq.stopChecked running entry.2) kq
  return kq.pblMapClear

/-- A call that ends entries. -/
inductive CQueEnd
  | exec (id : ℕ)
  | remove (id : ℕ)
  | destroy (running : Bool)
deriving DecidableEq, Repr

def CQueEnd.perform (kq : KsnCQueClass α β) : CQueEnd → Except CQueFieldFault (KsnCQueClass α β)
  | .exec id => (ksnCQueExecChecked kq id).map fun r => r.2.2
  | .remove id => (ksnCQueRemoveChecked kq id).map Prod.snd
  | .destroy running => teoCqueStopAll kq running

/-- The call ends the entry of an id, if there is one. -/
def CQueEnd.isFor : CQueEnd → ℕ → Prop
  | .exec id', id | .remove id', id => id = id'
  | .destroy _, _ => True

/-- The call reads no field that was not set, and stops no timer that was not started. -/
def CQueEnd.Clean (kq : KsnCQueClass α β) (u : CQueEnd) : Prop := ∃ kq', u.perform kq = .ok kq'

/-- The id that was added, and the timeout. -/
def CQueObs.timeout (o : CQueObs α β) : Option (ℕ × ℚ) :=
  match o.op with
  | .add _ timeout _ _ => some (o.id, timeout)
  | _ => none

/-- The timeout with which an id was last added. -/
def addedTimeout (past : List (CQueObs α β)) (id : ℕ) : Option ℚ :=
  lastFor CQueObs.timeout past id

variable {kq kq' : KsnCQueClass α β} {id a : ℕ} {cq : KsnCQueData α β} {running : Bool}

/-! ### What the checked functions do -/

/-- What was on the stack of `ksnCQueAdd` is in no field that was set. -/
theorem timeoutField_newEntry (kq : KsnCQueClass α β) (cb : Option α) (timeout : ℚ) (data : β)
    (stale : ℚ) :
    (kq.newEntry cb timeout data stale).timeoutField =
      if 0 < timeout then some timeout else none := by
  unfold KsnCQueData.timeoutField KsnCQueClass.newEntry
  by_cases ht : 0 < timeout <;> simp [ht]

theorem readTimeout_of_get (h : kq.heap.get a = some cq) :
    kq.readTimeout a = if cq.wInit then .ok cq.timeout else .error .unset := by
  unfold KsnCQueClass.readTimeout
  rw [deref_of_get h]
  show (match cq.timeoutField with | some timeout => _ | none => _) = _
  unfold KsnCQueData.timeoutField
  cases cq.wInit <;> rfl

theorem stopStarted_of_get (h : kq.heap.get a = some cq) (hw : cq.wInit = true) :
    kq.stopStarted a = .ok (kq.evTimerStop a) := by
  unfold KsnCQueClass.stopStarted
  rw [deref_of_get h]
  exact if_pos hw

theorem stopChecked_of_get (h : kq.heap.get a = some cq) (running : Bool) :
    kq.stopChecked running a =
      if cq.wInit then .ok (if 0 < cq.timeout ∧ running = true then kq.evTimerStop a else kq)
      else .error .unset := by
  unfold KsnCQueClass.stopChecked
  rw [readTimeout_of_get h]
  by_cases hw : cq.wInit = true
  · rw [if_pos hw, if_pos hw]
    show (if 0 < cq.timeout ∧ running = true then _ else _) = _
    rw [stopStarted_of_get h hw]
    split_ifs <;> rfl
  · rw [if_neg hw, if_neg hw]
    rfl

/-- Stopping a watcher succeeds exactly where `ksnCQueAdd` has set it up. -/
theorem stopChecked_ok_iff (kq : KsnCQueClass α β) (running : Bool) (a : ℕ) :
    (∃ kq', kq.stopChecked running a = .ok kq') ↔
      ∃ cq, kq.heap.get a = some cq ∧ cq.wInit = true := by
  cases hcq : kq.heap.get a with
  | none =>
    refine iff_of_false ?_ nofun
    unfold KsnCQueClass.stopChecked KsnCQueClass.readTimeout KsnCQueClass.deref
    rw [hcq]
    nofun
  | some cq =>
    rw [stopChecked_of_get hcq]
    cases hw : cq.wInit with
    | false =>
      refine iff_of_false nofun ?_
      rintro ⟨cq', hcq', hw'⟩
      rw [← Option.some.inj hcq', hw] at hw'
      cases hw'
    | true => exact iff_of_true ⟨_, rfl⟩ ⟨cq, rfl, hw⟩

theorem store_of_stopChecked (h : kq.stopChecked running a = .ok kq') :
    kq'.cqueMap = kq.cqueMap ∧ kq'.heap = kq.heap := by
  obtain ⟨cq, hcq, hw⟩ := (stopChecked_ok_iff kq _ a).mp ⟨kq', h⟩
  rw [stopChecked_of_get hcq, if_pos hw] at h
  obtain rfl := Except.ok.inj h
  split_ifs
  · exact ⟨rfl, rfl⟩
  · exact ⟨rfl, rfl⟩

theorem stopWatcher_of_checked (h : kq.stopChecked true a = .ok kq') :
    kq.stopWatcher a = .ok kq' := by
  obtain ⟨cq, hcq, hw⟩ := (stopChecked_ok_iff kq _ a).mp ⟨kq', h⟩
  rw [stopChecked_of_get hcq, if_pos hw] at h
  obtain rfl := Except.ok.inj h
  unfold KsnCQueClass.stopWatcher
  rw [deref_of_get hcq]
  show (if 0 < cq.timeout then _ else _) = _
  by_cases ht : 0 < cq.timeout
  · rw [if_pos ht, if_pos hw, if_pos ⟨ht, rfl⟩]
  · rw [if_neg ht, if_neg fun hboth => ht hboth.1]

/-- Where the checked function finds no fault, the other one does the same. -/
theorem ksnCQueExec_of_checked {r : ℤ × List (CQueCall α β) × KsnCQueClass α β}
    (h : ksnCQueExecChecked kq id = .ok r) : ksnCQueExec kq id = .ok r := by
  unfold ksnCQueExecChecked at h
  unfold ksnCQueExec
  cases hid : kq.cqueMap.get id with
  | none =>
    simp only [hid] at h
    exact congrArg Except.ok (Except.ok.inj h)
  | some a =>
    simp only [hid] at h ⊢
    obtain ⟨kq₁, hstop, h⟩ := bind_eq_ok h
    obtain ⟨cq, hcq, h⟩ := bind_eq_ok h
    obtain ⟨event, hevent, h⟩ := bind_eq_ok h
    rw [stopWatcher_of_checked hstop]
    show (do let cq ← kq₁.deref a; _) = _
    rw [mapError_eq_ok hcq]
    show (do let event ← kq₁.sendEvent a 1; _) = _
    rw [mapError_eq_ok hevent]
    exact congrArg Except.ok (Except.ok.inj h)

theorem ksnCQueRemove_of_checked {r : ℤ × KsnCQueClass α β}
    (h : ksnCQueRemoveChecked kq id = .ok r) : ksnCQueRemove kq id = .ok r := by
  unfold ksnCQueRemoveChecked at h
  unfold ksnCQueRemove
  cases hid : kq.cqueMap.get id with
  | none =>
    simp only [hid] at h
    exact congrArg Except.ok (Except.ok.inj h)
  | some a =>
    simp only [hid] at h ⊢
    obtain ⟨kq₁, hstop, h⟩ := bind_eq_ok h
    rw [stopWatcher_of_checked hstop]
    exact congrArg Except.ok (Except.ok.inj h)

/-! ### Which calls are clean -/

/-- The watcher of the entry of an id, if there is one, was initialised. -/
def KsnCQueClass.SetUp (kq : KsnCQueClass α β) (id : ℕ) : Prop :=
  ∀ cq, kq.entry id = some cq → cq.wInit = true

theorem setUp_of_get_eq_none (hid : kq.cqueMap.get id = none) : kq.SetUp id := by
  intro cq h
  rw [KsnCQueClass.entry, hid] at h
  cases h

/-- An entry is set up exactly if its watcher can be stopped. -/
theorem setUp_iff (hmap : kq.Mapped) (hid : kq.cqueMap.get id = some a) (running : Bool) :
    kq.SetUp id ↔ ∃ kq', kq.stopChecked running a = .ok kq' := by
  obtain ⟨cq, hcq, -, hentry⟩ := hmap.entry_of_map hid
  rw [stopChecked_ok_iff]
  constructor
  · intro h
    exact ⟨cq, hcq, h cq hentry⟩
  · rintro ⟨cq', hcq', hw⟩ cq'' hentry'
    rw [hcq] at hcq'
    rw [hentry] at hentry'
    rw [← Option.some.inj hentry', Option.some.inj hcq', hw]

theorem execChecked_ok_iff (hmap : kq.Mapped) (id : ℕ) :
    (∃ r, ksnCQueExecChecked kq id = .ok r) ↔ kq.SetUp id := by
  unfold ksnCQueExecChecked
  cases hid : kq.cqueMap.get id with
  | none => exact iff_of_true ⟨_, rfl⟩ (setUp_of_get_eq_none hid)
  | some a =>
    rw [setUp_iff hmap hid true]
    refine exists_bind_eq_ok_iff fun kq₁ hstop => ?_
    obtain ⟨cq, hcq, -⟩ := hmap id a hid
    have hcq₁ : kq₁.heap.get a = some cq := by rw [(store_of_stopChecked hstop).2, hcq]
    refine ⟨(0, cq.callback a id 1 ++ kq₁.eventOf a 1, kq₁.pblMapRemoveFree id), ?_⟩
    rw [deref_of_get hcq₁]
    show (do let event ← Except.mapError _ (kq₁.sendEvent a 1); _) = _
    rw [sendEvent_of_get hcq₁]
    rfl

theorem removeChecked_ok_iff (hmap : kq.Mapped) (id : ℕ) :
    (∃ r, ksnCQueRemoveChecked kq id = .ok r) ↔ kq.SetUp id := by
  unfold ksnCQueRemoveChecked
  cases hid : kq.cqueMap.get id with
  | none => exact iff_of_true ⟨_, rfl⟩ (setUp_of_get_eq_none hid)
  | some a =>
    rw [setUp_iff hmap hid true]
    exact exists_bind_eq_ok_iff fun kq₁ _ => ⟨(0, kq₁.pblMapRemoveFree id), rfl⟩

/-- The loop of `teoCqueStopAll` stops the watchers of all entries. -/
theorem stopAll_ok_iff (hmap : kq.Mapped) (running : Bool) :
    (∃ kq', teoCqueStopAll kq running = .ok kq') ↔ ∀ id, kq.SetUp id := by
  have hloop : (∃ kq', kq.cqueMap.toPairs.foldlM (fun kq (entry : ℕ × ℕ) =>
      kq.stopChecked running entry.2) kq = .ok kq') ↔
      ∀ entry ∈ kq.cqueMap.toPairs, ∃ cq, kq.heap.get entry.2 = some cq ∧ cq.wInit = true := by
    refine foldlM_ok_iff_forall (fun kq' => kq'.heap = kq.heap) (fun kq' entry hheap => ?_)
      (fun kq' entry kq'' hheap hstop => ?_) rfl
    · rw [stopChecked_ok_iff, hheap]
    · rw [(store_of_stopChecked hstop).2, hheap]
  constructor
  · rintro ⟨kq', hall⟩ id
    obtain ⟨kq₁, hrun, -⟩ := bind_eq_ok hall
    cases hid : kq.cqueMap.get id with
    | none => exact setUp_of_get_eq_none hid
    | some a =>
      rw [setUp_iff hmap hid running, stopChecked_ok_iff]
      exact hloop.mp ⟨kq₁, hrun⟩ (id, a) ((FinMap.mem_toPairs _ id a).mpr hid)
  · intro h
    obtain ⟨kq₁, hrun⟩ := hloop.mpr fun entry hentry => by
      have hid := (FinMap.mem_toPairs _ entry.1 entry.2).mp hentry
      exact (stopChecked_ok_iff kq running entry.2).mp ((setUp_iff hmap hid running).mp (h entry.1))
    refine ⟨kq₁.pblMapClear, ?_⟩
    unfold teoCqueStopAll
    rw [hrun]
    rfl

/-- A call is clean exactly if the watcher of each entry that it ends was set up. -/
theorem clean_iff_setUp (hmap : kq.Mapped) (u : CQueEnd) :
    u.Clean kq ↔ ∀ id, u.isFor id → kq.SetUp id := by
  cases u with
  | exec id =>
    refine (exists_map_eq_ok_iff _ _).trans ((execChecked_ok_iff hmap id).trans ?_)
    exact ⟨fun h id' hid => hid ▸ h, fun h => h id rfl⟩
  | remove id =>
    refine (exists_map_eq_ok_iff _ _).trans ((removeChecked_ok_iff hmap id).trans ?_)
    exact ⟨fun h id' hid => hid ▸ h, fun h => h id rfl⟩
  | destroy running =>
    refine (stopAll_ok_iff hmap running).trans ?_
    exact ⟨fun h id _ => h id, fun h id => h id trivial⟩

/-! ### Which entries are set up -/

theorem addedTimeout_concat (past : List (CQueObs α β)) (o : CQueObs α β) (id : ℕ) :
    addedTimeout (past ++ [o]) id =
      match o.timeout with
      | some p => if p.1 = id then some p.2 else addedTimeout past id
      | none => addedTimeout past id := by
  have hlast := lastFor_concat CQueObs.timeout past o id
  cases hset : o.timeout <;>
  · rw [hset] at hlast
    exact hlast

theorem addedTimeout_of_not_add {o : CQueObs α β} (hadd : o.op.isAdd = false)
    (past : List (CQueObs α β)) (id : ℕ) : addedTimeout (past ++ [o]) id = addedTimeout past id := by
  have hnone : o.timeout = none := by
    unfold CQueObs.timeout
    cases hop : o.op with
    | add cb timeout data stale =>
      rw [hop] at hadd
      cases hadd
    | _ => rfl
  rw [addedTimeout_concat, hnone]

/-- The map leads to live entries, and the watcher of each was initialised exactly if its id was last
added with a positive timeout. -/
structure CQueTimeouts (past : List (CQueObs α β)) (kq : KsnCQueClass α β) : Prop where
  mapped : kq.Mapped
  added : ∀ id cq, kq.entry id = some cq →
    ∃ timeout, addedTimeout past id = some timeout ∧ cq.wInit = decide (0 < timeout)

/-- Apart from a new one, every entry was there before the event, with the same watcher. -/
theorem StoreChange.entry_of_not_add {op : CQueOp α β} {o : CQueObs α β} {cq' : KsnCQueData α β}
    (h : StoreChange kq op o kq') (hadd : op.isAdd = false) (hentry : kq'.entry id = some cq') :
    ∃ cq, kq.entry id = some cq ∧ cq'.wInit = cq.wInit := by
  unfold KsnCQueClass.entry at hentry ⊢
  cases h with
  | nothing _ _ hmap hheap =>
    rw [hmap, hheap] at hentry
    exact ⟨cq', hentry, rfl⟩
  | add cb timeout data stale hop =>
    rw [hop] at hadd
    cases hadd
  | ended id' a hget _ _ hmap hheap =>
    obtain ⟨b, hb, hcq⟩ := Option.bind_eq_some_iff.mp hentry
    rw [hmap, FinMap.get_remove] at hb
    rw [hheap, Heap.get_free] at hcq
    split at hb
    · cases hb
    · split at hcq
      · cases hcq
      · exact ⟨cq', Option.bind_eq_some_iff.mpr ⟨b, hb, hcq⟩, rfl⟩
  | data a data _ _ hmap hheap =>
    obtain ⟨b, hb, hcq⟩ := Option.bind_eq_some_iff.mp hentry
    rw [hmap] at hb
    rw [hheap] at hcq
    obtain ⟨cq, hcq, -, -, -, hw⟩ := get_setData hcq
    exact ⟨cq, Option.bind_eq_some_iff.mpr ⟨b, hb, hcq⟩, hw⟩

theorem StoreChange.of_isAdd {op : CQueOp α β} {o : CQueObs α β} (h : StoreChange kq op o kq')
    (hadd : op.isAdd = true) :
    ∃ cb timeout data stale, op = .add cb timeout data stale ∧ o.id = kq.newId ∧
      kq' = ksnCQueAdd kq cb timeout data stale := by
  cases h with
  | add cb timeout data stale hop ho hkq => exact ⟨cb, timeout, data, stale, hop, ho, hkq⟩
  | nothing hfalse => cases hfalse.symm.trans hadd
  | ended _ _ _ hfalse => cases hfalse.symm.trans hadd
  | data _ _ hfalse => cases hfalse.symm.trans hadd

theorem CQueTimeouts.step {past : List (CQueObs α β)} {op : CQueOp α β} {o : CQueObs α β}
    (h : CQueTimeouts past kq) (ho : o.op = op) (hc : StoreChange kq op o kq') :
    CQueTimeouts (past ++ [o]) kq' := by
  refine ⟨hc.mapped h.mapped, fun id cq hentry => ?_⟩
  cases hadd : op.isAdd with
  | false =>
    obtain ⟨cq₀, hentry₀, hw⟩ := hc.entry_of_not_add hadd hentry
    rw [addedTimeout_of_not_add (ho ▸ hadd), hw]
    exact h.added id cq₀ hentry₀
  | true =>
    obtain ⟨cb, timeout, data, stale, hop, hid, rfl⟩ := hc.of_isAdd hadd
    have hset : o.timeout = some (kq.newId, timeout) := by
      rw [CQueObs.timeout, ho, hop, hid]
    rw [addedTimeout_concat, hset]
    rw [h.mapped.entry_ksnCQueAdd] at hentry
    split_ifs at hentry with hnew
    · obtain rfl := Option.some.inj hentry
      exact ⟨timeout, if_pos hnew.symm, rfl⟩
    · obtain ⟨timeout', hlast, hw⟩ := h.added id cq hentry
      exact ⟨timeout', (if_neg fun he => hnew he.symm).trans hlast, hw⟩

theorem timeouts_of_run (sendEvent eventCb : Bool) {ops : List (CQueOp α β)} {s : CQueRun α β}
    (h : ops.foldlM CQueRun.step (.start sendEvent eventCb) = .ok s) :
    CQueTimeouts s.past s.kq := by
  refine foldlM_inv (fun _ s => CQueTimeouts s.past s.kq) (fun s op _ t hi hstep => ?_) h
    ⟨(ksnCQueInit_wf sendEvent eventCb).mapped, nofun⟩
  obtain ⟨o, ho, hpast, hchange⟩ := storeChange_of_step hstep
  rw [hpast]
  exact hi.step ho hchange

/-- **Main result.**  In every state that a run reaches, a call of `ksnCQueExec`, `ksnCQueRemove` or
`ksnCQueDestroy` reads only fields that were set, and stops only timers that were started, exactly if
each pending entry that it ends was added with a positive timeout. -/
theorem clean_iff (sendEvent eventCb : Bool) (ops : List (CQueOp α β)) (s : CQueRun α β)
    (h : ops.foldlM CQueRun.step (.start sendEvent eventCb) = .ok s) (u : CQueEnd) :
    u.Clean s.kq ↔ ∀ id, u.isFor id → (s.kq.pending id).isSome = true →
      ∃ timeout, addedTimeout s.past id = some timeout ∧ 0 < timeout := by
  have hinv := timeouts_of_run sendEvent eventCb h
  rw [clean_iff_setUp hinv.mapped]
  refine forall₂_congr fun id _ => ?_
  rw [KsnCQueClass.pending, Option.isSome_map]
  constructor
  · intro hset hpending
    obtain ⟨cq, hentry⟩ := Option.isSome_iff_exists.mp hpending
    obtain ⟨timeout, hlast, hw⟩ := hinv.added id cq hentry
    exact ⟨timeout, hlast, of_decide_eq_true (hw.symm.trans (hset cq hentry))⟩
  · intro hall cq hentry
    obtain ⟨timeout, hlast, hpos⟩ := hall (Option.isSome_iff_exists.mpr ⟨cq, hentry⟩)
    obtain ⟨timeout', hlast', hw⟩ := hinv.added id cq hentry
    rw [hlast] at hlast'
    obtain rfl := Option.some.inj hlast'
    exact hw.trans (decide_eq_true hpos)

/-- The queue is destroyed with an entry that has a timer. -/
theorem clean_iff_destroy :
    [.add (some ()) 1 () 0].foldlM CQueRun.step (.start true true) = .ok firstAdded ∧
      (CQueEnd.destroy true).Clean firstAdded.kq := by
  refine ⟨rfl, (clean_iff true true [.add (some ()) 1 () 0] firstAdded rfl _).mpr ?_⟩
  intro id _ hpending
  unfold firstAdded at hpending
  rw [pending_ksnCQueAdd (ksnCQueInit_wf true true), pending_ksnCQueInit] at hpending
  split_ifs at hpending with hid
  · subst hid
    exact ⟨1, rfl, one_pos⟩
  · cases hpending

/-- An entry without a timeout is executed: its `timeout` field is read all the same. -/
theorem not_clean :
    ¬∀ (ops : List (CQueOp Unit Unit)) (s : CQueRun Unit Unit) (u : CQueEnd),
      ops.foldlM CQueRun.step (.start true true) = .ok s → u.Clean s.kq := by
  intro h
  obtain ⟨kq', hclean⟩ := h [.add (some ()) 0 () 0] _ (.exec 1) rfl
  cases hclean

end Teonet
