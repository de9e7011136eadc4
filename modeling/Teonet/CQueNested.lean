import Teonet.CQueRuns

/-! # Callbacks that call the queue

Here a callback of the queue, and the event after it, may call the queue themselves, to any depth.
`ksnCQueExec` and `cq_timer_cb` are cut at the two points where control leaves them; what has still
to be done when it comes back is a frame on the stack.  An event is a call that whatever runs on
top makes, a timer that fires while nothing runs, or the return of the call on top.

`Undisturbed` is the condition on an event: it does not execute or remove an entry that a frame
below has still to read, it does not execute an entry whose callback is running, and
`ksnCQueAdd` gives no id that is in use.  `Inv` is the invariant, and `cque_nested_of_meets` the
result: then each callback is called at most once, and no entry is read after it was freed.
`foldlM_exec_ret` connects the cut functions with `ksnCQueExec`. -/

namespace Teonet.CQueNested

open Runs

variable {α β : Type}

/-! ### The code, cut where control leaves it -/

/-- A call of `ksnCQueExec` (or of `cq_timer_cb`, if `timer` is set) that is in progress: the
callback of the entry at `cq` runs, or, if `event` is set, the event after it. -/
structure Frame where
  timer : Bool
  id : ℕ
  cq : ℕ
  event : Bool
deriving DecidableEq, Repr

/-- The queue, the calls in progress, the innermost first, and the entries whose callbacks were
called, in order. -/
structure State (α β : Type) where
  kq : KsnCQueClass α β
  stack : List Frame
  called : List ℕ

/-- The end of the function: `pblMapRemoveFree` of the argument `id` of `ksnCQueExec`, or of
`cq->id` in `cq_timer_cb`. -/
def State.finish (s : State α β) (f : Frame) : Except CQueFault (State α β) :=
  if f.timer then do
    let cq ← s.kq.deref f.cq
    return { s with kq := s.kq.pblMapRemoveFree cq.id }
  else return { s with kq := s.kq.pblMapRemoveFree f.id }

/-- The part after the callback: the event, if there is one. -/
def State.afterCallback (s : State α β) (f : Frame) : Except CQueFault (State α β) :=
  if s.kq.eventCb then do
    let _ ← s.kq.deref f.cq
    if s.kq.eventF then return { s with stack := { f with event := true } :: s.stack }
    else s.finish f
  else s.finish f

/-- The part after the timer was stopped: the callback, if there is one. -/
def State.enter (s : State α β) (f : Frame) : Except CQueFault (State α β) := do
  let cq ← s.kq.deref f.cq
  match cq.cb with
  | some _ => return { s with stack := f :: s.stack, called := s.called ++ [f.cq] }
  | none => s.afterCallback f

/-! ### Events -/

/-- What can happen: a call that is made, or a timer that expires, or the return of the innermost
callback. -/
inductive Event (α β : Type)
  | op (op : CQueOp α β)
  | ret
deriving DecidableEq

/-- A call of the queue.  The event loop calls a timer only when nothing else runs. -/
def State.call (s : State α β) : CQueOp α β → Except CQueFault (State α β)
  | .add cb timeout data stale => .ok { s with kq := ksnCQueAdd s.kq cb timeout data stale }
  | .exec id =>
    match s.kq.cqueMap.get id with
    | none => .ok s
    | some a => do
      let kq ← s.kq.stopWatcher a
      { s with kq := kq }.enter ⟨false, id, a, false⟩
  | .remove id => do
    let (_, kq) ← ksnCQueRemove s.kq id
    return { s with kq := kq }
  | .setData id data => do
    let (_, kq) ← ksnCQueSetData s.kq id data
    return { s with kq := kq }
  | .timer a =>
    if s.stack = [] ∧ a ∈ s.kq.timers then do
      let cq ← s.kq.deref a
      { s with kq := s.kq.evTimerStop a }.enter ⟨true, cq.id, a, false⟩
    else .ok s

/-- The innermost callback, or event, returns. -/
def State.ret (s : State α β) : Except CQueFault (State α β) :=
  match s.stack with
  | [] => .ok s
  | f :: rest =>
    if f.event then { s with stack := rest }.finish f
    else { s with stack := rest }.afterCallback f

def State.step (s : State α β) : Event α β → Except CQueFault (State α β)
  | .op op => s.call op
  | .ret => s.ret

/-- A queue that was just made, with nothing running. -/
def State.start (sendEvent eventCb : Bool) : State α β := ⟨ksnCQueInit sendEvent eventCb, [], []⟩

/-! ### The condition on an event -/

/-- The call has still to read its entry when control comes back to it. -/
def Frame.reads (eventCb : Bool) (f : Frame) : Bool := f.timer || (!f.event && eventCb)

/-- An event that leaves the calls in progress alone. -/
def Undisturbed (s : State α β) : Event α β → Prop
  | .op (.exec id) => ∀ a cq, s.kq.cqueMap.get id = some a → s.kq.heap.get a = some cq →
      ∀ f ∈ s.stack, f.cq = a → cq.cb = none ∧ f.reads s.kq.eventCb = false
  | .op (.remove id) => ∀ a, s.kq.cqueMap.get id = some a →
      ∀ f ∈ s.stack, f.cq = a → f.reads s.kq.eventCb = false
  | .op (.add ..) => (∀ a, s.kq.cqueMap.get s.kq.newId = some a → a ∉ s.kq.timers) ∧
      ∀ f ∈ s.stack, f.id ≠ s.kq.newId
  | _ => True

/-! ### The invariant -/

/-- The calls in progress can go on, and a callback that was called is not called again. -/
structure Inv (s : State α β) : Prop where
  wf : s.kq.WF
  live : ∀ f ∈ s.stack, f.reads s.kq.eventCb = true → ∃ cq, s.kq.heap.get f.cq = some cq
  frame_id : ∀ f ∈ s.stack, ∀ cq, s.kq.heap.get f.cq = some cq → cq.id = f.id
  own : ∀ f ∈ s.stack, ∀ a, s.kq.cqueMap.get f.id = some a → a = f.cq
  stopped : ∀ f ∈ s.stack, f.cq ∉ s.kq.timers
  old : ∀ f ∈ s.stack, f.cq < s.kq.heap.next
  below : s.stack.Pairwise fun f g => f.cq = g.cq → g.reads s.kq.eventCb = false
  called_nodup : s.called.Nodup
  called_old : ∀ a ∈ s.called, a < s.kq.heap.next
  called_running : ∀ a ∈ s.called, ∀ cq, s.kq.heap.get a = some cq → ∃ f ∈ s.stack, f.cq = a

/-- Not the fault that the invariant excludes. -/
abbrev Good : Except CQueFault (State α β) → Prop := Result Inv (· = .useAfterFree)

variable {s : State α β} {f : Frame} {id a : ℕ} {cq : KsnCQueData α β}

theorem inv_start (sendEvent eventCb : Bool) :
    Inv (State.start sendEvent eventCb : State α β) where
  wf := ksnCQueInit_wf sendEvent eventCb
  live f hf := by cases hf
  frame_id f hf := by cases hf
  own f hf := by cases hf
  stopped f hf := by cases hf
  old f hf := by cases hf
  below := List.Pairwise.nil
  called_nodup := List.nodup_nil
  called_old a ha := by cases ha
  called_running a ha := by cases ha

/-! ### The end of a call -/

/-- An entry is dropped that no call in progress has still to read.  Calls that are about that
entry may end with it. -/
theorem Inv.drop (h : Inv s) {stack : List Frame} (hsub : stack.Sublist s.stack)
    (hid : s.kq.cqueMap.get id = some a)
    (hread : ∀ f ∈ stack, f.cq = a → f.reads s.kq.eventCb = false)
    (hrest : ∀ f ∈ s.stack, f.cq ≠ a → f ∈ stack) :
    Inv { s with kq := s.kq.drop id a, stack := stack } := by
  have hwf := h.wf.drop hid
  have hmem : ∀ f ∈ stack, f ∈ s.stack := fun f hf => hsub.subset hf
  rw [drop_eq hid] at hwf ⊢
  have hget : ∀ {b cq}, (s.kq.heap.free a).get b = some cq → b ≠ a ∧ s.kq.heap.get b = some cq := by
    intro b cq hb
    rw [Heap.get_free] at hb
    split at hb
    · cases hb
    · exact ⟨‹_›, hb⟩
  refine
    { wf := hwf
      live := fun f hf hr => ?_
      frame_id := fun f hf cq hcq => h.frame_id f (hmem f hf) cq (hget hcq).2
      own := fun f hf b hb => ?_
      stopped := fun f hf ht => h.stopped f (hmem f hf) (List.mem_filter.mp ht).1
      old := fun f hf => h.old f (hmem f hf)
      below := h.below.sublist hsub
      called_nodup := h.called_nodup
      called_old := h.called_old
      called_running := fun b hb cq hcq => ?_ }
  · obtain ⟨cq, hcq⟩ := h.live f (hmem f hf) hr
    have hne : f.cq ≠ a := fun he => by rw [hread f hf he] at hr; cases hr
    exact ⟨cq, (Heap.get_free _ _ _).trans ((if_neg hne).trans hcq)⟩
  · replace hb : (s.kq.cqueMap.remove id).get f.id = some b := hb
    rw [FinMap.get_remove] at hb
    split at hb
    · cases hb
    · exact h.own f (hmem f hf) b hb
  · obtain ⟨hne, hcq'⟩ := hget hcq
    obtain ⟨f, hf, rfl⟩ := h.called_running b hb cq hcq'
    exact ⟨f, hrest f hf hne, rfl⟩

/-- A call in progress that ends. -/
theorem Inv.pop (h : Inv { s with stack := f :: s.stack }) :
    Inv { s with kq := s.kq.pblMapRemoveFree f.id } := by
  have hf : f ∈ f :: s.stack := List.mem_cons_self
  have hbelow := List.pairwise_cons.mp h.below
  cases hid : s.kq.cqueMap.get f.id with
  | none =>
    have hnone : ∀ cq, s.kq.heap.get f.cq ≠ some cq := by
      intro cq hcq
      have hmap := h.wf.heap_map f.cq cq hcq
      rw [h.frame_id f hf cq hcq] at hmap
      exact absurd (hid ▸ hmap) (by simp)
    have hkq : s.kq.pblMapRemoveFree f.id = s.kq := by
      unfold KsnCQueClass.pblMapRemoveFree
      rw [hid]
    rw [hkq]
    refine
      { wf := h.wf
        live := fun g hg => h.live g (List.mem_cons_of_mem f hg)
        frame_id := fun g hg => h.frame_id g (List.mem_cons_of_mem f hg)
        own := fun g hg => h.own g (List.mem_cons_of_mem f hg)
        stopped := fun g hg => h.stopped g (List.mem_cons_of_mem f hg)
        old := fun g hg => h.old g (List.mem_cons_of_mem f hg)
        below := hbelow.2
        called_nodup := h.called_nodup
        called_old := h.called_old
        called_running := fun b hb cq hcq => ?_ }
    obtain ⟨g, hg, rfl⟩ := h.called_running b hb cq hcq
    rcases List.mem_cons.mp hg with rfl | hg
    · exact absurd hcq (hnone cq)
    · exact ⟨g, hg, rfl⟩
  | some b =>
    obtain rfl := h.own f hf b hid
    have hkq : s.kq.pblMapRemoveFree f.id = s.kq.drop f.id f.cq := by
      have hstop : s.kq.evTimerStop f.cq = s.kq := evTimerStop_of_not_mem (h.stopped f hf)
      rw [KsnCQueClass.drop, hstop]
    rw [hkq]
    refine h.drop (List.sublist_cons_self f s.stack) hid ?_ ?_
    · exact fun g hg he => hbelow.1 g hg he.symm
    · intro g hg hne
      rcases List.mem_cons.mp hg with rfl | hg
      · exact absurd rfl hne
      · exact hg

theorem finish_good (h : Inv { s with stack := f :: s.stack }) : Good (s.finish f) := by
  have hf : f ∈ f :: s.stack := List.mem_cons_self
  unfold State.finish
  cases ht : f.timer with
  | false => exact h.pop
  | true =>
    obtain ⟨cq, hcq⟩ := h.live f hf (by rw [Frame.reads, ht]; rfl)
    rw [deref_of_get hcq]
    show Inv { s with kq := s.kq.pblMapRemoveFree cq.id }
    rw [h.frame_id f hf cq hcq]
    exact h.pop

/-- The callback of the innermost call has returned and the event runs. -/
theorem Inv.event (h : Inv { s with stack := f :: s.stack }) :
    Inv { s with stack := { f with event := true } :: s.stack } := by
  have hbelow := List.pairwise_cons.mp h.below
  have hreads : ∀ {eventCb}, Frame.reads eventCb { f with event := true } = true →
      f.reads eventCb = true := by
    intro eventCb hr
    simp_all [Frame.reads]
  refine
    { wf := h.wf
      live := ?_
      frame_id := ?_
      own := ?_
      stopped := ?_
      old := ?_
      below := List.pairwise_cons.mpr hbelow
      called_nodup := h.called_nodup
      called_old := h.called_old
      called_running := ?_ }
  · intro g hg hr
    rcases List.mem_cons.mp hg with rfl | hg
    · exact h.live f List.mem_cons_self (hreads hr)
    · exact h.live g (List.mem_cons_of_mem f hg) hr
  · exact List.forall_mem_cons.mpr (List.forall_mem_cons.mp h.frame_id)
  · exact List.forall_mem_cons.mpr (List.forall_mem_cons.mp h.own)
  · exact List.forall_mem_cons.mpr (List.forall_mem_cons.mp h.stopped)
  · exact List.forall_mem_cons.mpr (List.forall_mem_cons.mp h.old)
  · intro b hb cq hcq
    obtain ⟨g, hg, rfl⟩ := h.called_running b hb cq hcq
    rcases List.mem_cons.mp hg with rfl | hg
    · exact ⟨_, List.mem_cons_self, rfl⟩
    · exact ⟨g, List.mem_cons_of_mem _ hg, rfl⟩

theorem afterCallback_good (h : Inv { s with stack := f :: s.stack }) (he : f.event = false) :
    Good (s.afterCallback f) := by
  unfold State.afterCallback
  cases hev : s.kq.eventCb with
  | false => exact finish_good h
  | true =>
    obtain ⟨cq, hcq⟩ := h.live f List.mem_cons_self (by
      simp [Frame.reads, he, hev])
    rw [deref_of_get hcq]
    show Good (if s.kq.eventF then _ else _)
    cases s.kq.eventF with
    | false => exact finish_good h
    | true => exact h.event

/-! ### The start of a call -/

/-- A call that starts on an entry whose timer is stopped. -/
theorem Inv.push (h : Inv s) (hcq : s.kq.heap.get f.cq = some cq) (hid : cq.id = f.id)
    (hstop : f.cq ∉ s.kq.timers)
    (hread : ∀ g ∈ s.stack, g.cq = f.cq → g.reads s.kq.eventCb = false) :
    Inv { s with stack := f :: s.stack } where
  wf := h.wf
  live := List.forall_mem_cons.mpr ⟨fun _ => ⟨cq, hcq⟩, h.live⟩
  frame_id := by
    refine List.forall_mem_cons.mpr ⟨fun cq' hcq' => ?_, h.frame_id⟩
    rw [hcq] at hcq'
    rw [← Option.some.inj hcq', hid]
  own := by
    refine List.forall_mem_cons.mpr ⟨fun a ha => ?_, h.own⟩
    have hmap := h.wf.heap_map f.cq cq hcq
    rw [hid, ha] at hmap
    exact Option.some.inj hmap
  stopped := List.forall_mem_cons.mpr ⟨hstop, h.stopped⟩
  old := List.forall_mem_cons.mpr ⟨Heap.lt_next_of_get hcq, h.old⟩
  below := List.pairwise_cons.mpr ⟨fun g hg he => hread g hg he.symm, h.below⟩
  called_nodup := h.called_nodup
  called_old := h.called_old
  called_running b hb cq' hcq' := by
    obtain ⟨g, hg, rfl⟩ := h.called_running b hb cq' hcq'
    exact ⟨g, List.mem_cons_of_mem f hg, rfl⟩

theorem enter_good (h : Inv s) (hcq : s.kq.heap.get f.cq = some cq) (hid : cq.id = f.id)
    (hev : f.event = false) (hstop : f.cq ∉ s.kq.timers)
    (hread : ∀ g ∈ s.stack, g.cq = f.cq → cq.cb = none ∧ g.reads s.kq.eventCb = false) :
    Good (s.enter f) := by
  have hpush := h.push hcq hid hstop fun g hg he => (hread g hg he).2
  unfold State.enter
  rw [deref_of_get hcq]
  show Good (match cq.cb with
    | some _ => .ok { s with stack := f :: s.stack, called := s.called ++ [f.cq] }
    | none => s.afterCallback f)
  cases hcb : cq.cb with
  | none => exact afterCallback_good hpush hev
  | some cb =>
    have hnew : f.cq ∉ s.called := by
      intro hmem
      obtain ⟨g, hg, he⟩ := h.called_running f.cq hmem cq hcq
      rw [(hread g hg he).1] at hcb
      cases hcb
    refine
      { wf := hpush.wf
        live := hpush.live
        frame_id := hpush.frame_id
        own := hpush.own
        stopped := hpush.stopped
        old := hpush.old
        below := hpush.below
        called_nodup := ?_
        called_old := ?_
        called_running := ?_ }
    · refine List.nodup_append.mpr ⟨h.called_nodup, by simp, ?_⟩
      rintro b hb b' hb' rfl
      obtain rfl : b = f.cq := by simpa using hb'
      exact hnew hb
    · intro b hb
      rcases List.mem_append.mp hb with hb | hb
      · exact h.called_old b hb
      · obtain rfl : b = f.cq := by simpa using hb
        exact Heap.lt_next_of_get hcq
    · intro b hb cq' hcq'
      rcases List.mem_append.mp hb with hb | hb
      · exact hpush.called_running b hb cq' hcq'
      · obtain rfl : b = f.cq := by simpa using hb
        exact ⟨f, List.mem_cons_self, rfl⟩

/-! ### One lemma for each kind of event -/

/-- The entry's timer is stopped. -/
theorem Inv.evTimerStop (h : Inv s) (a : ℕ) : Inv { s with kq := s.kq.evTimerStop a } where
  wf := h.wf.evTimerStop a
  live := h.live
  frame_id := h.frame_id
  own := h.own
  stopped f hf ht := h.stopped f hf (List.mem_filter.mp ht).1
  old := h.old
  below := h.below
  called_nodup := h.called_nodup
  called_old := h.called_old
  called_running := h.called_running

theorem exec_good (h : Inv s) (hg : Undisturbed s (.op (.exec id))) :
    Good (s.call (.exec id)) := by
  unfold State.call
  cases hid : s.kq.cqueMap.get id with
  | none =>
    simp only [hid]
    exact h
  | some a =>
    obtain ⟨cq, hcq, hcid, -⟩ := h.wf.entry_of_map hid
    by_cases hs : cq.Stoppable
    · simp only [hid, stopWatcher_of_stoppable h.wf hcq hs]
      exact enter_good (f := ⟨false, id, a, false⟩) (h.evTimerStop a) hcq hcid rfl
        (not_mem_evTimerStop s.kq a) (hg a cq hid hcq)
    · simp only [hid, stopWatcher_of_not_stoppable hcq hs]
      exact fun hf => CQueFault.noConfusion hf

theorem remove_good (h : Inv s) (hg : Undisturbed s (.op (.remove id))) :
    Good (s.call (.remove id)) := by
  unfold State.call
  cases hid : s.kq.cqueMap.get id with
  | none =>
    unfold ksnCQueRemove
    simp only [hid]
    exact h
  | some a =>
    obtain ⟨cq, hcq, -, -⟩ := h.wf.entry_of_map hid
    by_cases hs : cq.Stoppable
    · simp only [ksnCQueRemove_of_stoppable h.wf hid hcq hs]
      exact h.drop (List.Sublist.refl _) hid (hg a hid) fun f hf _ => hf
    · simp only [ksnCQueRemove_of_not_stoppable hid hcq hs]
      exact fun hf => CQueFault.noConfusion hf

theorem setData_good (h : Inv s) (data : β) : Good (s.call (.setData id data)) := by
  unfold State.call
  cases hid : s.kq.cqueMap.get id with
  | none =>
    unfold ksnCQueSetData
    simp only [hid]
    exact h
  | some a =>
    obtain ⟨cq, hcq, -, -⟩ := h.wf.entry_of_map hid
    simp only [ksnCQueSetData_of_get hid hcq]
    exact
      { wf := h.wf.setData a data
        live := fun f hf hr => by
          obtain ⟨cq, hcq⟩ := h.live f hf hr
          obtain ⟨cq', hcq', -⟩ := get_setData_of_get hcq a data
          exact ⟨cq', hcq'⟩
        frame_id := fun f hf cq' hcq' => by
          obtain ⟨cq, hcq, -, hcid, -⟩ := get_setData hcq'
          exact hcid.trans (h.frame_id f hf cq hcq)
        own := h.own
        stopped := h.stopped
        old := h.old
        below := h.below
        called_nodup := h.called_nodup
        called_old := h.called_old
        called_running := fun b hb cq' hcq' => by
          obtain ⟨cq, hcq, -⟩ := get_setData hcq'
          exact h.called_running b hb cq hcq }

theorem add_good (h : Inv s) {cb : Option α} {timeout : ℚ} {data : β} {stale : ℚ}
    (hg : Undisturbed s (.op (.add cb timeout data stale))) :
    Good (s.call (.add cb timeout data stale)) := by
  obtain ⟨htimer, hids⟩ := hg
  have hold : ∀ f ∈ s.stack, f.cq ≠ s.kq.heap.next := fun f hf => Nat.ne_of_lt (h.old f hf)
  have hback : ∀ b cq, b ≠ s.kq.heap.next → _ := fun b cq =>
    @heap_get_ksnCQueAdd_of_ne α β s.kq cb timeout data stale h.wf b cq
  exact
    { wf := h.wf.ksnCQueAdd cb timeout data stale htimer
      live := fun f hf hr => by
        rw [ksnCQueAdd_eventCb] at hr
        obtain ⟨cq, hcq⟩ := h.live f hf hr
        -- the entry that is replaced, if there is one, is not the one this call reads
        have hnot : s.kq.cqueMap.get s.kq.newId ≠ some f.cq := by
          intro hmap
          obtain ⟨cq', hcq', hcid⟩ := h.wf.map_heap _ _ hmap
          exact hids f hf ((h.frame_id f hf cq' hcq').symm.trans hcid)
        refine ⟨cq, ?_⟩
        rw [heap_get_ksnCQueAdd cb timeout data stale h.wf, if_neg (hold f hf), if_neg hnot, hcq]
      frame_id := fun f hf cq hcq => h.frame_id f hf cq (hback f.cq cq (hold f hf) hcq).1
      own := fun f hf a ha => by
        rw [ksnCQueAdd_cqueMap, FinMap.get_add_of_ne _ (hids f hf)] at ha
        exact h.own f hf a ha
      stopped := fun f hf ht => by
        rcases (mem_timers_ksnCQueAdd cb timeout data stale f.cq).mp ht with ⟨-, he⟩ | ht
        · exact hold f hf he
        · exact h.stopped f hf ht
      old := fun f hf => by
        rw [heap_next_ksnCQueAdd]
        exact Nat.lt_succ_of_lt (h.old f hf)
      below := by
        rw [ksnCQueAdd_eventCb]
        exact h.below
      called_nodup := h.called_nodup
      called_old := fun b hb => by
        rw [heap_next_ksnCQueAdd]
        exact Nat.lt_succ_of_lt (h.called_old b hb)
      called_running := fun b hb cq hcq =>
        h.called_running b hb cq (hback b cq (Nat.ne_of_lt (h.called_old b hb)) hcq).1 }

theorem timer_good (h : Inv s) (a : ℕ) : Good (s.call (.timer a)) := by
  unfold State.call
  by_cases hidle : s.stack = [] ∧ a ∈ s.kq.timers
  · obtain ⟨cq, hcq, -⟩ := h.wf.timers a hidle.2
    simp only [if_pos hidle, deref_of_get hcq]
    refine enter_good (f := ⟨true, cq.id, a, false⟩) (h.evTimerStop a) hcq rfl rfl
      (not_mem_evTimerStop s.kq a) ?_
    intro g hg
    rw [show ({ s with kq := s.kq.evTimerStop a } : State α β).stack = [] from hidle.1] at hg
    cases hg
  · simp only [if_neg hidle]
    exact h

theorem ret_good (h : Inv s) : Good s.ret := by
  unfold State.ret
  cases hstack : s.stack with
  | nil => exact h
  | cons f rest =>
    have h' : Inv { ({ s with stack := rest } : State α β) with stack := f :: rest } := by
      rw [← hstack]
      exact h
    cases he : f.event with
    | true => simpa [he] using finish_good h'
    | false => simpa [he] using afterCallback_good h' he

theorem step_good (h : Inv s) {e : Event α β} (hg : Undisturbed s e) : Good (s.step e) := by
  cases e with
  | ret => exact ret_good h
  | op op =>
    cases op with
    | add cb timeout data stale => exact add_good h hg
    | exec id => exact exec_good h hg
    | remove id => exact remove_good h hg
    | setData id data => exact setData_good h data
    | timer a => exact timer_good h a

/-! ### Runs -/

/-- The entry whose callback is called. -/
def callee : CQueCall α β → Option ℕ
  | .callback cq _ _ _ _ => some cq
  | .event _ _ => none

/-- With nothing running, and with callbacks that just return, this is `ksnCQueExec`. -/
theorem foldlM_exec_ret (kq : KsnCQueClass α β) (called : List ℕ) (id : ℕ) :
    [.op (.exec id), .ret, .ret].foldlM State.step ⟨kq, [], called⟩ =
      (ksnCQueExec kq id).map fun r => ⟨r.2.2, [], called ++ r.2.1.filterMap callee⟩ := by
  simp only [List.foldlM_cons, List.foldlM_nil, State.step, State.call, ksnCQueExec]
  cases hid : kq.cqueMap.get id with
  | none => simp [State.ret, Except.map, pure, Except.pure, bind, Except.bind]
  | some a =>
    cases hstop : kq.stopWatcher a with
    | error f => simp [hstop, Except.map, bind, Except.bind]
    | ok kq' =>
      cases hcq : kq'.heap.get a with
      | none => simp [hstop, State.enter, KsnCQueClass.deref, hcq, Except.map, bind, Except.bind]
      | some cq =>
        have hderef := deref_of_get hcq
        have hsend := sendEvent_of_get hcq 1
        cases hcb : cq.cb <;> cases hev : kq'.eventCb <;> cases hf : kq'.eventF <;>
          simp [hstop, State.enter, State.afterCallback, State.finish, State.ret, hderef, hsend, hcb,
            hev, hf, KsnCQueData.callback, KsnCQueClass.eventOf, callee, Except.map, bind,
            Except.bind, pure, Except.pure]

/-- **Callbacks that call the queue**: in a run whose events all leave the calls in progress alone,
no entry is read after it was freed, and no callback is called twice. -/
theorem cque_nested_of_meets (sendEvent eventCb : Bool) (es : List (Event α β))
    (hmeets : Meets Undisturbed State.step (.start sendEvent eventCb) es) :
    es.foldlM State.step (.start sendEvent eventCb) ≠ .error .useAfterFree ∧
      ∀ t, es.foldlM State.step (.start sendEvent eventCb) = .ok t → t.called.Nodup := by
  have hres : Good (es.foldlM State.step (.start sendEvent eventCb)) :=
    hmeets.result (fun s e h hg => step_good h hg) (inv_start sendEvent eventCb)
  constructor
  · intro hfault
    rw [hfault] at hres
    exact hres rfl
  · intro t ht
    rw [ht] at hres
    exact hres.called_nodup

/-- A callback that adds an entry and executes it. -/
theorem cque_nested_of_meets_exec :
    ([.op (.add (some ()) 1 () 0), .op (.exec 1), .op (.add (some ()) 1 () 0), .op (.exec 2)] :
        List (Event Unit Unit)).foldlM State.step (.start true true) ≠ .error .useAfterFree := by
  refine (cque_nested_of_meets true true
    [.op (.add (some ()) 1 () 0), .op (.exec 1), .op (.add (some ()) 1 () 0), .op (.exec 2)]
    ⟨⟨?_, ?_⟩, fun t ht => ?_⟩).1
  · intro a ha
    cases ha
  · intro f hf
    cases hf
  obtain rfl := Except.ok.inj ht
  refine ⟨fun a cq _ _ f hf => ?_, fun t ht => ?_⟩
  · cases hf
  obtain rfl := Except.ok.inj ht
  refine ⟨⟨?_, ?_⟩, fun t ht => ?_⟩
  · intro a ha
    cases ha
  · intro f hf
    obtain rfl := List.mem_singleton.mp hf
    decide
  obtain rfl := Except.ok.inj ht
  refine ⟨fun a cq ha _ f hf he => ?_, fun _ _ => trivial⟩
  obtain rfl := Option.some.inj ha
  obtain rfl := List.mem_singleton.mp hf
  cases he

/-- A callback that executes its own id is called again, and one that removes its own id leaves
`ksnCQueExec` with an entry that is gone. -/
theorem not_cque_nested :
    (∃ t, ([.op (.add (some ()) 1 () 0), .op (.exec 1), .op (.exec 1)] :
        List (Event Unit Unit)).foldlM State.step (.start true true) = .ok t ∧
      ¬t.called.Nodup) ∧
    ([.op (.add (some ()) 1 () 0), .op (.exec 1), .op (.remove 1), .ret] :
        List (Event Unit Unit)).foldlM State.step (.start true true) = .error .useAfterFree :=
  ⟨⟨_, rfl, by decide⟩, rfl⟩

end Teonet.CQueNested
