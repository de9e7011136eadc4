import Teonet.CQueRuns

/-! # The ids of the callback queue

`ksnCQueAdd` takes the id of a new entry from a 32-bit counter that skips 0, and gives the entry to
`pblMapAdd`, which replaces what has the id already.  `newId_of_run` says which id it is: after
`2 ^ 32 - 1` calls the ids start again from 1, whatever is pending.

`addExact_iff` says when the new entry leaves the others alone.  In a run it does so until the ids come
round (`addExact_of_run`), and `not_addExact` is a run in which an entry is still pending then. -/

namespace Teonet

open Runs

variable {α β : Type} {kq : KsnCQueClass α β} {id a : ℕ} {cq : KsnCQueData α β}

/-- The new entry has an id that is not 0 and was not pending, and every entry that was pending is
there as before, with its timer. -/
structure AddExact (kq : KsnCQueClass α β) (cb : Option α) (timeout : ℚ) (data : β) (stale : ℚ) :
    Prop where
  entry : (ksnCQueAdd kq cb timeout data stale).entry kq.newId =
    some (kq.newEntry cb timeout data stale)
  id_ne_zero : kq.newId ≠ 0
  id_new : kq.entry kq.newId = none
  unchanged : ∀ id a, kq.cqueMap.get id = some a →
    (ksnCQueAdd kq cb timeout data stale).cqueMap.get id = some a ∧
      (ksnCQueAdd kq cb timeout data stale).heap.get a = kq.heap.get a ∧
        (a ∈ (ksnCQueAdd kq cb timeout data stale).timers ↔ a ∈ kq.timers)

theorem newId_ne_zero (kq : KsnCQueClass α β) : kq.newId ≠ 0 := by
  unfold KsnCQueClass.newId
  split
  · exact Nat.one_ne_zero
  · assumption

/-- The address of a new entry is that of no pending one. -/
theorem KsnCQueClass.Mapped.ne_next (hmap : kq.Mapped) (hid : kq.cqueMap.get id = some a) :
    a ≠ kq.heap.next := by
  obtain ⟨cq, hcq, -⟩ := hmap id a hid
  exact Heap.ne_next_of_get hcq

theorem AddExact.get_newId {cb : Option α} {timeout : ℚ} {data : β} {stale : ℚ}
    (h : AddExact kq cb timeout data stale) (hmap : kq.Mapped) :
    kq.cqueMap.get kq.newId = none := by
  cases hid : kq.cqueMap.get kq.newId with
  | none => rfl
  | some a =>
    obtain ⟨cq, -, -, hentry⟩ := hmap.entry_of_map hid
    rw [h.id_new] at hentry
    cases hentry

theorem AddExact.of_newId (hmap : kq.Mapped) (hnew : kq.cqueMap.get kq.newId = none)
    (cb : Option α) (timeout : ℚ) (data : β) (stale : ℚ) : AddExact kq cb timeout data stale := by
  refine ⟨?_, newId_ne_zero kq, ?_, fun id a hid => ⟨?_, ?_, ?_⟩⟩
  · exact (hmap.entry_ksnCQueAdd cb timeout data stale kq.newId).trans (if_pos rfl)
  · rw [KsnCQueClass.entry, hnew]
    rfl
  · have hne : id ≠ kq.newId := fun he => by
      rw [he, hnew] at hid
      cases hid
    rw [ksnCQueAdd_cqueMap, FinMap.get_add_of_ne _ hne, hid]
  · have hkept : kq.cqueMap.get kq.newId ≠ some a := fun h => by
      rw [hnew] at h
      cases h
    rw [hmap.heap_get_ksnCQueAdd, if_neg (hmap.ne_next hid), if_neg hkept]
  · rw [mem_timers_ksnCQueAdd]
    exact or_iff_right fun h => hmap.ne_next hid h.2

/-- **A new entry** leaves the pending ones alone exactly if none of them has the id at which the
counter stands. -/
theorem addExact_iff (hmap : kq.Mapped) (cb : Option α) (timeout : ℚ) (data : β) (stale : ℚ) :
    AddExact kq cb timeout data stale ↔ kq.cqueMap.get kq.newId = none := by
  constructor
  · intro h
    exact h.get_newId hmap
  · intro hnew
    exact .of_newId hmap hnew cb timeout data stale

/-- A queue with an entry that waits for its timer. -/
def onePending : KsnCQueClass Unit Unit := ksnCQueAdd (ksnCQueInit true true) (some ()) 1 () 0

/-- A second entry, under the id 2. -/
theorem addExact_iff_second :
    (onePending.cqueMap.get 1).isSome ∧ onePending.timers.length = 1 ∧ onePending.newId = 2 ∧
      AddExact onePending (some ()) 1 () 0 :=
  ⟨rfl, rfl, rfl, (addExact_iff
    (mapped_ksnCQueAdd (some ()) 1 () 0 (ksnCQueInit_wf true true).mapped) (some ()) 1 () 0).mpr rfl⟩

/-- Where `ksnCQueAdd` replaces an entry, the event loop keeps the timer inside the block that was
freed, and the timer callback reads it. -/
theorem perform_timer_of_replaced (hmap : kq.Mapped) (hid : kq.cqueMap.get kq.newId = some a)
    (ha : a ∈ kq.timers) (cb : Option α) (timeout : ℚ) (data : β) (stale : ℚ) :
    (ksnCQueAdd kq cb timeout data stale).perform (.timer a) = .error .useAfterFree := by
  have hmem : a ∈ (ksnCQueAdd kq cb timeout data stale).timers :=
    (mem_timers_ksnCQueAdd cb timeout data stale a).mpr (.inr ha)
  have hfree : (ksnCQueAdd kq cb timeout data stale).heap.get a = none := by
    rw [hmap.heap_get_ksnCQueAdd, if_neg (hmap.ne_next hid), if_pos hid]
  unfold KsnCQueClass.perform KsnCQueClass.deref
  dsimp only
  rw [if_pos hmem, hfree]
  rfl

/-! ### What an event does to the entries -/

/-- What an event can do to the counter, the map and the entries, also when a timer runs whose entry
was replaced. -/
inductive StoreChange (kq : KsnCQueClass α β) (op : CQueOp α β) (o : CQueObs α β)
    (kq' : KsnCQueClass α β) : Prop
  | nothing (hadd : op.isAdd = false) (hid : kq'.id = kq.id) (hmap : kq'.cqueMap = kq.cqueMap)
      (hheap : kq'.heap = kq.heap)
  | add (cb : Option α) (timeout : ℚ) (data : β) (stale : ℚ)
      (hop : op = .add cb timeout data stale) (ho : o.id = kq.newId)
      (hkq : kq' = ksnCQueAdd kq cb timeout data stale)
  | ended (id a : ℕ) (hget : kq.cqueMap.get id = some a) (hadd : op.isAdd = false)
      (hid : kq'.id = kq.id) (hmap : kq'.cqueMap = kq.cqueMap.remove id)
      (hheap : kq'.heap = kq.heap.free a)
  | data (a : ℕ) (data : β) (hadd : op.isAdd = false) (hid : kq'.id = kq.id)
      (hmap : kq'.cqueMap = kq.cqueMap)
      (hheap : kq'.heap = kq.heap.update a fun cq => { cq with data := data })

/-- Stopping a watcher changes nothing but the timers. -/
theorem store_of_stopWatcher {kq' : KsnCQueClass α β} (h : kq.stopWatcher a = .ok kq') :
    kq'.id = kq.id ∧ kq'.cqueMap = kq.cqueMap ∧ kq'.heap = kq.heap := by
  refine ⟨?_, ?_, heap_of_stopWatcher h⟩ <;>
  · unfold KsnCQueClass.stopWatcher at h
    obtain ⟨cq, -, h⟩ := bind_eq_ok h
    split_ifs at h
    all_goals
      obtain rfl := Except.ok.inj h
      rfl

theorem pblMapRemoveFree_of_get (hid : kq.cqueMap.get id = some a) :
    kq.pblMapRemoveFree id =
      { kq with cqueMap := kq.cqueMap.remove id, heap := kq.heap.free a } := by
  rw [KsnCQueClass.pblMapRemoveFree, hid]

section Operations

variable {op : CQueOp α β} {o : CQueObs α β} {kq' : KsnCQueClass α β}

/-- The end of an entry after its watcher was stopped. -/
theorem storeChange_of_stopWatcher (hadd : op.isAdd = false) (hid : kq.cqueMap.get id = some a)
    (h : kq.stopWatcher a = .ok kq') : StoreChange kq op o (kq'.pblMapRemoveFree id) := by
  obtain ⟨hcounter, hmap, hheap⟩ := store_of_stopWatcher h
  rw [pblMapRemoveFree_of_get (by rw [hmap, hid])]
  exact .ended id a hid hadd hcounter (congrArg (FinMap.remove · id) hmap)
    (congrArg (Heap.free · a) hheap)

theorem storeChange_of_exec (hadd : op.isAdd = false) {r : ℤ} {calls : List (CQueCall α β)}
    (h : ksnCQueExec kq id = .ok (r, calls, kq')) : StoreChange kq op o kq' := by
  unfold ksnCQueExec at h
  cases hid : kq.cqueMap.get id with
  | none =>
    simp only [hid] at h
    obtain rfl := (Prod.mk.inj (Prod.mk.inj (Except.ok.inj h)).2).2
    exact .nothing hadd rfl rfl rfl
  | some a =>
    simp only [hid] at h
    obtain ⟨kq₁, hstop, h⟩ := bind_eq_ok h
    obtain ⟨cq, -, h⟩ := bind_eq_ok h
    obtain ⟨event, -, h⟩ := bind_eq_ok h
    obtain rfl := (Prod.mk.inj (Prod.mk.inj (Except.ok.inj h)).2).2
    exact storeChange_of_stopWatcher hadd hid hstop

theorem storeChange_of_remove (hadd : op.isAdd = false) {r : ℤ}
    (h : ksnCQueRemove kq id = .ok (r, kq')) : StoreChange kq op o kq' := by
  unfold ksnCQueRemove at h
  cases hid : kq.cqueMap.get id with
  | none =>
    simp only [hid] at h
    obtain rfl := (Prod.mk.inj (Except.ok.inj h)).2
    exact .nothing hadd rfl rfl rfl
  | some a =>
    simp only [hid] at h
    obtain ⟨kq₁, hstop, h⟩ := bind_eq_ok h
    obtain rfl := (Prod.mk.inj (Except.ok.inj h)).2
    exact storeChange_of_stopWatcher hadd hid hstop

theorem storeChange_of_setData (hadd : op.isAdd = false) {r : ℤ} {data : β}
    (h : ksnCQueSetData kq id data = .ok (r, kq')) : StoreChange kq op o kq' := by
  unfold ksnCQueSetData at h
  cases hid : kq.cqueMap.get id with
  | none =>
    simp only [hid] at h
    obtain rfl := (Prod.mk.inj (Except.ok.inj h)).2
    exact .nothing hadd rfl rfl rfl
  | some a =>
    simp only [hid] at h
    obtain ⟨cq, -, h⟩ := bind_eq_ok h
    obtain rfl := (Prod.mk.inj (Except.ok.inj h)).2
    exact .data a data hadd rfl rfl rfl

/-- The timer ends the entry that has the id now, also if it is not its own. -/
theorem storeChange_of_timer (hadd : op.isAdd = false) {calls : List (CQueCall α β)}
    (h : cqTimerCb kq a = .ok (calls, kq')) : StoreChange kq op o kq' := by
  obtain ⟨cq, -, h⟩ := bind_eq_ok h
  obtain ⟨event, -, h⟩ := bind_eq_ok h
  obtain rfl := (Prod.mk.inj (Except.ok.inj h)).2
  cases hid : kq.cqueMap.get cq.id with
  | none =>
    have hid' : (kq.evTimerStop a).cqueMap.get cq.id = none := hid
    rw [KsnCQueClass.pblMapRemoveFree, hid']
    exact .nothing hadd rfl rfl rfl
  | some b =>
    have hid' : (kq.evTimerStop a).cqueMap.get cq.id = some b := hid
    rw [pblMapRemoveFree_of_get hid']
    exact .ended cq.id b hid hadd rfl rfl rfl

theorem storeChange_of_perform (h : kq.perform op = .ok (o, kq')) :
    o.op = op ∧ StoreChange kq op o kq' := by
  cases op with
  | add cb timeout data stale =>
    obtain ⟨rfl, rfl⟩ := Prod.mk.inj (Except.ok.inj h)
    exact ⟨rfl, .add cb timeout data stale rfl rfl rfl⟩
  | exec id =>
    obtain ⟨⟨r, calls, kq₁⟩, hexec, hret⟩ := bind_eq_ok h
    obtain ⟨rfl, rfl⟩ := Prod.mk.inj (Except.ok.inj hret)
    exact ⟨rfl, storeChange_of_exec rfl hexec⟩
  | remove id =>
    obtain ⟨⟨r, kq₁⟩, hremove, hret⟩ := bind_eq_ok h
    obtain ⟨rfl, rfl⟩ := Prod.mk.inj (Except.ok.inj hret)
    exact ⟨rfl, storeChange_of_remove rfl hremove⟩
  | setData id data =>
    obtain ⟨⟨r, kq₁⟩, hset, hret⟩ := bind_eq_ok h
    obtain ⟨rfl, rfl⟩ := Prod.mk.inj (Except.ok.inj hret)
    exact ⟨rfl, storeChange_of_setData rfl hset⟩
  | timer a =>
    unfold KsnCQueClass.perform at h
    dsimp only at h
    split_ifs at h
    · obtain ⟨cq, -, h⟩ := bind_eq_ok h
      obtain ⟨⟨calls, kq₁⟩, htimer, hret⟩ := bind_eq_ok h
      obtain ⟨rfl, rfl⟩ := Prod.mk.inj (Except.ok.inj hret)
      exact ⟨rfl, storeChange_of_timer rfl htimer⟩
    · obtain ⟨rfl, rfl⟩ := Prod.mk.inj (Except.ok.inj h)
      exact ⟨rfl, .nothing rfl rfl rfl rfl⟩

end Operations

/-- The map leads to live entries after each event. -/
theorem StoreChange.mapped {op : CQueOp α β} {o : CQueObs α β} {kq' : KsnCQueClass α β}
    (h : StoreChange kq op o kq') (hmapped : kq.Mapped) : kq'.Mapped := by
  cases h with
  | nothing hadd hid hmap hheap =>
    intro id' b h
    rw [hheap]
    exact hmapped id' b (hmap ▸ h)
  | add cb timeout data stale hop ho hkq =>
    subst hkq
    exact mapped_ksnCQueAdd cb timeout data stale hmapped
  | ended id a hget hadd hid hmap hheap =>
    intro id' b h
    rw [hmap, FinMap.get_remove] at h
    split at h
    · cases h
    · rename_i hne
      obtain ⟨cq, hcq, hcid⟩ := hmapped id' b h
      have hb : b ≠ a := fun hba => hne (hmapped.id_unique hget (hba ▸ h))
      exact ⟨cq, by rw [hheap, Heap.get_free, if_neg hb, hcq], hcid⟩
  | data a data hadd hid hmap hheap =>
    intro id' b h
    obtain ⟨cq, hcq, hcid⟩ := hmapped id' b (hmap ▸ h)
    obtain ⟨cq', hcq', hid', -⟩ := get_setData_of_get hcq a data
    exact ⟨cq', by rw [hheap, hcq'], hid'.trans hcid⟩

/-- A step of a run, as a change. -/
theorem storeChange_of_step {s t : CQueRun α β} {op : CQueOp α β} (h : s.step op = .ok t) :
    ∃ o, o.op = op ∧ t.past = s.past ++ [o] ∧ StoreChange s.kq op o t.kq := by
  obtain ⟨⟨o, kq'⟩, hperform, hret⟩ := bind_eq_ok h
  obtain rfl := Except.ok.inj hret
  obtain ⟨ho, hchange⟩ := storeChange_of_perform hperform
  exact ⟨o, ho, rfl, hchange⟩

/-! ### The ids of a run -/

/-- The id that comes after `n` calls of `ksnCQueAdd`. -/
def nthId (n : ℕ) : ℕ := n % (2 ^ 32 - 1) + 1

theorem newId_ksnCQueAdd {n : ℕ} (h : kq.newId = nthId n) (cb : Option α) (timeout : ℚ) (data : β)
    (stale : ℚ) : (ksnCQueAdd kq cb timeout data stale).newId = nthId (n + 1) := by
  unfold nthId at h ⊢
  rw [KsnCQueClass.newId, ksnCQueAdd_id, h]
  split_ifs <;> omega

/-- The next id is the one after `n` calls, and every pending entry has the id of one of these. -/
structure IdsInOrder (n : ℕ) (kq : KsnCQueClass α β) : Prop where
  next : kq.newId = nthId n
  pending : ∀ id, kq.cqueMap.get id ≠ none → ∃ m < n, id = nthId m

theorem IdsInOrder.ksnCQueAdd {n : ℕ} (h : IdsInOrder n kq) (cb : Option α) (timeout : ℚ)
    (data : β) (stale : ℚ) : IdsInOrder (n + 1) (ksnCQueAdd kq cb timeout data stale) := by
  refine ⟨newId_ksnCQueAdd h.next cb timeout data stale, fun id hid => ?_⟩
  rw [ksnCQueAdd_cqueMap, FinMap.get_add] at hid
  split_ifs at hid with hnew
  · exact ⟨n, Nat.lt_succ_self n, hnew.trans h.next⟩
  · obtain ⟨m, hm, hid⟩ := h.pending id hid
    exact ⟨m, Nat.lt_succ_of_lt hm, hid⟩

/-- An event that adds no entry leaves the counter alone, and no id comes into the map. -/
theorem StoreChange.idsInOrder {op : CQueOp α β} {o : CQueObs α β} {kq' : KsnCQueClass α β} {n : ℕ}
    (h : StoreChange kq op o kq') (hn : IdsInOrder n kq) :
    IdsInOrder (n + addCount [op]) kq' := by
  have hkeep : op.isAdd = false → kq'.id = kq.id →
      (∀ id, kq'.cqueMap.get id ≠ none → kq.cqueMap.get id ≠ none) →
        IdsInOrder (n + addCount [op]) kq' := by
    intro hadd hid hmap
    have hcount : addCount [op] = 0 := by simp [addCount, hadd]
    rw [hcount, Nat.add_zero]
    refine ⟨?_, fun id h => hn.pending id (hmap id h)⟩
    rw [← hn.next, KsnCQueClass.newId, KsnCQueClass.newId, hid]
  cases h with
  | nothing hadd hid hmap => exact hkeep hadd hid fun id h => hmap ▸ h
  | add cb timeout data stale hop _ hkq =>
    subst hop hkq
    exact hn.ksnCQueAdd cb timeout data stale
  | ended id a hget hadd hid hmap =>
    refine hkeep hadd hid fun id' h => ?_
    rw [hmap, FinMap.get_remove] at h
    split_ifs at h
    · exact absurd rfl h
    · exact h
  | data a data hadd hid hmap => exact hkeep hadd hid fun id h => hmap ▸ h

theorem idsInOrder_of_run (sendEvent eventCb : Bool) (ops : List (CQueOp α β)) {s : CQueRun α β}
    (h : ops.foldlM CQueRun.step (.start sendEvent eventCb) = .ok s) :
    IdsInOrder (addCount ops) s.kq := by
  have hstart : IdsInOrder 0 (ksnCQueInit sendEvent eventCb : KsnCQueClass α β) :=
    ⟨rfl, fun id h => absurd (FinMap.get_empty id) h⟩
  have hinv := foldlM_inv
    (fun rest s => ∃ n, n + addCount rest = addCount ops ∧ IdsInOrder n s.kq)
    (fun s op rest t hi hstep => ?_) h ⟨0, Nat.zero_add _, hstart⟩
  · obtain ⟨n, hn, hids⟩ := hinv
    rwa [← hn]
  · obtain ⟨n, hn, hids⟩ := hi
    obtain ⟨o, -, -, hchange⟩ := storeChange_of_step hstep
    refine ⟨n + addCount [op], ?_, hchange.idsInOrder hids⟩
    have hcons : addCount (op :: rest) = addCount [op] + addCount rest := by
      simp only [addCount, List.countP_cons, List.countP_nil]
      omega
    rw [← hn, hcons]
    omega

/-- **The ids of a run**: the next id tells how many entries have been added, up to a multiple of
`2 ^ 32 - 1`. -/
theorem newId_of_run (sendEvent eventCb : Bool) (ops : List (CQueOp α β)) {s : CQueRun α β}
    (h : ops.foldlM CQueRun.step (.start sendEvent eventCb) = .ok s) :
    s.kq.newId = nthId (addCount ops) :=
  (idsInOrder_of_run sendEvent eventCb ops h).next

/-- In every run the map leads to live entries. -/
theorem mapped_of_run (sendEvent eventCb : Bool) {ops : List (CQueOp α β)} {s : CQueRun α β}
    (h : ops.foldlM CQueRun.step (.start sendEvent eventCb) = .ok s) : s.kq.Mapped := by
  refine foldlM_inv (fun _ s => s.kq.Mapped) (fun s op _ t hmap hstep => ?_) h
    (ksnCQueInit_wf sendEvent eventCb).mapped
  obtain ⟨o, -, -, hchange⟩ := storeChange_of_step hstep
  exact hchange.mapped hmap

/-- Until the ids come round, every new entry leaves the pending ones alone. -/
theorem addExact_of_run (sendEvent eventCb : Bool) {ops : List (CQueOp α β)} {s : CQueRun α β}
    (h : ops.foldlM CQueRun.step (.start sendEvent eventCb) = .ok s)
    (hops : addCount ops < 2 ^ 32 - 1) (cb : Option α) (timeout : ℚ) (data : β) (stale : ℚ) :
    AddExact s.kq cb timeout data stale := by
  have hids := idsInOrder_of_run sendEvent eventCb ops h
  refine .of_newId (mapped_of_run sendEvent eventCb h) ?_ cb timeout data stale
  by_contra hpending
  obtain ⟨m, hm, hid⟩ := hids.pending _ hpending
  have hnext := hids.next.symm.trans hid
  unfold nthId at hnext
  omega

/-! ### An entry that waits while the ids come round -/

theorem step_of_perform {s : CQueRun α β} {op : CQueOp α β} {o : CQueObs α β}
    {kq' : KsnCQueClass α β} (h : s.kq.perform op = .ok (o, kq')) :
    s.step op = .ok ⟨kq', s.past ++ [o]⟩ := by
  rw [CQueRun.step, h]
  rfl

theorem perform_of_remove {kq' : KsnCQueClass α β} (h : ksnCQueRemove kq id = .ok (0, kq')) :
    kq.perform (.remove id) = .ok (⟨.remove id, id, 0, []⟩, kq') := by
  rw [KsnCQueClass.perform, h]
  rfl

section Passing

variable (kq) (cb : Option α) (timeout : ℚ) (data : β) (stale : ℚ)

/-- The queue after an entry was added and removed again. -/
def KsnCQueClass.passed : KsnCQueClass α β :=
  (ksnCQueAdd kq cb timeout data stale).drop kq.newId kq.heap.next

variable {kq}

theorem get_newId_ksnCQueAdd :
    (ksnCQueAdd kq cb timeout data stale).cqueMap.get kq.newId = some kq.heap.next := by
  rw [ksnCQueAdd_cqueMap, FinMap.get_add_self]

theorem passed_id : (kq.passed cb timeout data stale).id = (kq.newId + 1) % 2 ^ 32 := by
  rw [KsnCQueClass.passed, drop_eq (get_newId_ksnCQueAdd cb timeout data stale)]
  exact ksnCQueAdd_id cb timeout data stale

theorem passed_cqueMap :
    (kq.passed cb timeout data stale).cqueMap =
      (kq.cqueMap.add kq.newId kq.heap.next).remove kq.newId := by
  rw [KsnCQueClass.passed, drop_eq (get_newId_ksnCQueAdd cb timeout data stale),
    ksnCQueAdd_cqueMap]

/-- An entry whose timer runs can be removed. -/
theorem ksnCQueRemove_newId (hwf : kq.WF) (hfree : kq.cqueMap.get kq.newId = none)
    (ht : 0 < timeout) :
    (kq.passed cb timeout data stale).WF ∧
      ksnCQueRemove (ksnCQueAdd kq cb timeout data stale) kq.newId =
        .ok (0, kq.passed cb timeout data stale) := by
  have hget : (ksnCQueAdd kq cb timeout data stale).cqueMap.get kq.newId = some kq.heap.next :=
    get_newId_ksnCQueAdd cb timeout data stale
  have hadded : (ksnCQueAdd kq cb timeout data stale).WF :=
    hwf.ksnCQueAdd cb timeout data stale fun a ha => by
      rw [hfree] at ha
      cases ha
  have hcq := (heap_get_ksnCQueAdd cb timeout data stale hwf kq.heap.next).trans (if_pos rfl)
  refine ⟨hadded.drop hget, ksnCQueRemove_of_stoppable hadded hget hcq fun _ => ?_⟩
  exact decide_eq_true ht

end Passing

/-- The only entry has the id `1`, and the counter stands at `n`. -/
structure Waiting (n : ℕ) (kq : KsnCQueClass α β) : Prop where
  wf : kq.WF
  get_ne_none : ∀ id, kq.cqueMap.get id ≠ none ↔ id = 1
  size : kq.cqueMap.size = 1
  id : kq.id = n

section Waiting

variable {n : ℕ}

theorem Waiting.newId (h : Waiting n kq) (hlow : 2 ≤ n) :
    kq.newId = n ∧ kq.cqueMap.get n = none := by
  have hnew : kq.newId = n := by
    rw [KsnCQueClass.newId, h.id, if_neg (by omega)]
  refine ⟨hnew, ?_⟩
  by_contra hsome
  have hone := (h.get_ne_none n).mp hsome
  omega

/-- The first entry still waits after another one was added and removed. -/
theorem Waiting.passed (h : Waiting n kq) (hlow : 2 ≤ n) (cb : Option α) {timeout : ℚ} (data : β)
    (stale : ℚ) (ht : 0 < timeout) :
    Waiting ((n + 1) % 2 ^ 32) (kq.passed cb timeout data stale) := by
  obtain ⟨hnew, hfree⟩ := h.newId hlow
  have hmap : (kq.passed cb timeout data stale).cqueMap =
      (kq.cqueMap.add n kq.heap.next).remove n := by
    rw [passed_cqueMap, hnew]
  refine ⟨(ksnCQueRemove_newId cb timeout data stale h.wf (hnew ▸ hfree) ht).1, fun id => ?_, ?_, ?_⟩
  · rw [hmap, FinMap.get_remove, FinMap.get_add, ← h.get_ne_none]
    split_ifs with heq
    · rw [heq, hfree]
    · rfl
  · have hadd := FinMap.size_add_of_absent kq.cqueMap hfree kq.heap.next
    have hremove := FinMap.size_remove _ (FinMap.get_add_self kq.cqueMap n kq.heap.next)
    have hone := h.size
    rw [hmap]
    omega
  · rw [passed_id, hnew]

/-- The events that add the entry `n` and remove it. -/
def passing (n : ℕ) : List (CQueOp Unit Unit) := [.add (some ()) 1 () 0, .remove n]

theorem Waiting.round {s : CQueRun Unit Unit} (h : Waiting n s.kq) (hlow : 2 ≤ n) :
    ∃ t, (passing n).foldlM CQueRun.step s = .ok t ∧ Waiting ((n + 1) % 2 ^ 32) t.kq := by
  obtain ⟨hnew, hfree⟩ := h.newId hlow
  obtain ⟨-, hremove⟩ := ksnCQueRemove_newId (some ()) 1 () 0 h.wf (hnew ▸ hfree) one_pos
  rw [hnew] at hremove
  refine ⟨⟨s.kq.passed (some ()) 1 () 0, s.past ++ [⟨.add (some ()) 1 () 0, s.kq.newId, 0, []⟩] ++
    [⟨.remove n, n, 0, []⟩]⟩, ?_, h.passed hlow (some ()) () 0 one_pos⟩
  refine (foldlM_cons_of_ok rfl _).trans ?_
  exact foldlM_cons_of_ok (step_of_perform (perform_of_remove hremove)) []

/-- A run whose only event has added the first entry. -/
def firstAdded : CQueRun Unit Unit :=
  ⟨ksnCQueAdd (ksnCQueInit true true) (some ()) 1 () 0, [⟨.add (some ()) 1 () 0, 1, 0, []⟩]⟩

theorem waiting_firstAdded : Waiting 2 firstAdded.kq := by
  unfold firstAdded
  refine ⟨(ksnCQueInit_wf true true).ksnCQueAdd (some ()) 1 () 0 nofun, fun id => ?_, rfl, rfl⟩
  rw [ksnCQueAdd_cqueMap, FinMap.get_add]
  split_ifs with hone
  · exact iff_of_true nofun hone
  · exact iff_of_false (fun h => h rfl) hone

/-- There is a run that brings the counter back while the first entry still waits. -/
theorem exists_run_waiting :
    ∃ (ops : List (CQueOp Unit Unit)) (s : CQueRun Unit Unit),
      ops.foldlM CQueRun.step (.start true true) = .ok s ∧ Waiting 0 s.kq := by
  obtain ⟨k, hk⟩ : ∃ k, 2 + k = 2 ^ 32 := ⟨2 ^ 32 - 2, by omega⟩
  have hround : ∀ n (s : CQueRun Unit Unit), n < k → Waiting ((2 + n) % 2 ^ 32) s.kq →
      ∃ t, (passing (2 + n)).foldlM CQueRun.step s = .ok t ∧
        Waiting ((2 + (n + 1)) % 2 ^ 32) t.kq := by
    intro n s hn hwaiting
    have hmod : (2 + n) % 2 ^ 32 = 2 + n := Nat.mod_eq_of_lt (by omega)
    rw [hmod] at hwaiting
    exact hwaiting.round (by omega)
  have hfirst : Waiting ((2 + 0) % 2 ^ 32) firstAdded.kq := waiting_firstAdded
  obtain ⟨s, hrun, hwaiting⟩ :=
    foldlM_rounds (fun n (s : CQueRun Unit Unit) => Waiting ((2 + n) % 2 ^ 32) s.kq) hround
      hfirst k le_rfl
  rw [hk, Nat.mod_self] at hwaiting
  exact ⟨.add (some ()) 1 () 0 :: _, s, (foldlM_cons_of_ok rfl _).trans hrun, hwaiting⟩

end Waiting

/-- A new entry takes the place of one that waits: those in between have used up the ids. -/
theorem not_addExact :
    ¬∀ (ops : List (CQueOp Unit Unit)) (s : CQueRun Unit Unit),
      ops.foldlM CQueRun.step (.start true true) = .ok s → s.kq.cqueMap.size < 2 ^ 32 - 1 →
        AddExact s.kq (some ()) 1 () 0 := by
  intro h
  obtain ⟨ops, s, hrun, hwaiting⟩ := exists_run_waiting
  have hsize : s.kq.cqueMap.size < 2 ^ 32 - 1 := by
    rw [hwaiting.size]
    decide
  have hnone := (h ops s hrun hsize).get_newId hwaiting.wf.mapped
  have hnew : s.kq.newId = 1 := by
    rw [KsnCQueClass.newId, if_pos hwaiting.id]
  rw [hnew] at hnone
  exact (hwaiting.get_ne_none 1).mpr rfl hnone

end Teonet
