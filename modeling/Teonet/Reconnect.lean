import Teonet.CQueRuns
import Teonet.Peers

/-! # Reconnecting

`net_recon.c`: for a peer that is gone the host asks its r-host to reconnect.  The request is noted
in `map`, and a callback in `kev->kq` has the record as its data; after five seconds, or when the
r-host answers that it does not know the peer, the callback removes the record, and after the five
seconds it asks again, if the peer is not back.

The callback runs inside `ksnCQueExec` or `cq_timer_cb`, which remove its entry only after it has
returned, so the two are given here with the callback in its place; with an entry of another module
they are the functions of `cque.c` (`queueExec_of_not_mine`, `queueTimer_of_not_mine`).  Records and
entries have heaps of their own, and reading one that was freed is a fault.

`Paired` is the correspondence of records and entries.  `paired_of_meets` says that every run keeps
it, without a fault, as long as `ksnCQueAdd` gives no id that is pending; `not_paired` runs the 32-bit
counter round to such an id. -/

namespace Teonet

open Runs

/-! ### State -/

def cmdReconnect : UInt8 := 75

/-- The callbacks in the queue: that of this module, and those of the rest of the program. -/
inductive ReconnectCb
  | ksnReconnectCQueCallback
  | other
deriving DecidableEq, Repr

/-- `reconnect_map_data`; the fields are null pointers until they are set. -/
structure ReconnectMapData where
  cq : Option ℕ := none
  peer : Option CString := none
deriving DecidableEq, Repr

/-- The module, the callback queue, whose entries have pointers as data, the ARP table and
`teo_cfg.r_host_name`. -/
structure KsnReconnectClass where
  map : FinMap CString ℕ
  heap : Heap ReconnectMapData
  kq : KsnCQueClass ReconnectCb ℕ
  arp : KsnetArpClass
  rHostName : CString

/-- What the module must not do; `other` is a fault of another module. -/
inductive ReconnectFault
  /-- a record is read that was freed -/
  | freed
  /-- a null pointer is read -/
  | null
  | queue (f : CQueFault)
  | other (f : CQueFault)
deriving DecidableEq, Repr

/-- The calls that the functions make. -/
inductive ReconnectCall
  /-- `ksnCoreSendCmdto` -/
  | sendCmdto (toName : CString) (cmd : UInt8) (data : List UInt8)
  /-- `EV_K_CQUE_CALLBACK` -/
  | queue (call : CQueCall ReconnectCb ℕ)
deriving DecidableEq, Repr

/-! ### The code -/

/-- The host has an r-host. -/
def KsnReconnectClass.Connected (kr : KsnReconnectClass) : Prop :=
  kr.rHostName ≠ CString.empty ∧ kr.arp.get kr.rHostName ≠ none

instance (kr : KsnReconnectClass) : Decidable kr.Connected :=
  inferInstanceAs (Decidable (_ ∧ _))

/-- `ksnReconnectSend`.  The r-host is in the table, so `ksnCoreSendCmdto` finds it. -/
def ksnReconnectSend (kr : KsnReconnectClass) (peer : CString) :
    ℤ × List ReconnectCall × KsnReconnectClass :=
  if kr.Connected then
    match kr.map.get peer with
    | some _ => (1, [], kr)
    | none =>
      let mapData := kr.heap.next
      let cq := kr.kq.heap.next
      (0, [.sendCmdto kr.rHostName cmdReconnect peer.toBuf],
        { kr with
          map := kr.map.add peer mapData
          heap := (kr.heap.alloc {}).update mapData fun d => { d with peer := some peer, cq := some cq }
          kq := ksnCQueAdd kr.kq (some .ksnReconnectCQueCallback) 5 mapData 0 })
  else (-1, [], kr)

/-- `ksnReconnectCQueCallback` with the record at `data`.  `pblMapRemove` finds a record by the
peer's name and frees it; the name is freed last. -/
def ksnReconnectCQueCallback (kr : KsnReconnectClass) (type data : ℕ) :
    Except ReconnectFault (List ReconnectCall × KsnReconnectClass) :=
  match kr.heap.get data with
  | none => .error .freed
  | some d =>
    match d.peer with
    | none => .error .null
    | some name =>
      match kr.map.get name with
      | none => .ok ([], kr)
      | some a =>
        match kr.heap.get a with
        | none => .error .freed
        | some mapData =>
          let kr := { kr with map := kr.map.remove name, heap := kr.heap.free a }
          if type = 0 then
            match mapData.peer with
            | none => .error .null
            | some peer =>
              if kr.arp.get peer ≠ none then .ok ([], kr)
              else .ok (ksnReconnectSend kr peer).2
          else .ok ([], kr)

/-- `if(cq->cb != NULL) cq->cb(cq->id, type, cq->data)`; the callbacks of other modules do not
concern this one. -/
def KsnReconnectClass.runCallback (kr : KsnReconnectClass) (cb : Option ReconnectCb)
    (type data : ℕ) : Except ReconnectFault (List ReconnectCall × KsnReconnectClass) :=
  match cb with
  | some .ksnReconnectCQueCallback => ksnReconnectCQueCallback kr type data
  | some .other | none => .ok ([], kr)

/-- `ksnCQueExec` with its callback. -/
def KsnReconnectClass.queueExec (kr : KsnReconnectClass) (id : ℕ) :
    Except ReconnectFault (List ReconnectCall × KsnReconnectClass) :=
  match kr.kq.cqueMap.get id with
  | none => .ok ([], kr)
  | some a => do
    let kq ← (kr.kq.stopWatcher a).mapError .queue
    let cq ← (kq.deref a).mapError .queue
    let (calls, kr) ← { kr with kq := kq }.runCallback cq.cb 1 cq.data
    let event ← (kr.kq.sendEvent a 1).mapError .queue
    return (calls ++ event.map .queue, { kr with kq := kr.kq.pblMapRemoveFree id })

/-- `cq_timer_cb` with its callback. -/
def KsnReconnectClass.queueTimer (kr : KsnReconnectClass) (a : ℕ) :
    Except ReconnectFault (List ReconnectCall × KsnReconnectClass) := do
  let cq ← (kr.kq.deref a).mapError .queue
  let (calls, kr) ← { kr with kq := kr.kq.evTimerStop a }.runCallback cq.cb 0 cq.data
  let event ← (kr.kq.sendEvent a 0).mapError .queue
  let cq ← (kr.kq.deref a).mapError .queue
  return (calls ++ event.map .queue, { kr with kq := kr.kq.pblMapRemoveFree cq.id })

/-- `ksnReconnectProcessAnswer`; `mem` is the memory at `rd->data`. -/
def ksnReconnectProcessAnswer (kr : KsnReconnectClass) (mem : List UInt8) :
    Except ReconnectFault (List ReconnectCall × KsnReconnectClass) :=
  match kr.map.get (CString.ofBuf mem) with
  | none => .ok ([], kr)
  | some a =>
    match kr.heap.get a with
    | none => .error .freed
    | some d =>
      match d.cq with
      | none => .error .null
      | some c => do
        let cq ← (kr.kq.deref c).mapError .queue
        kr.queueExec cq.id

/-! ### Events -/

/-- What can happen. -/
inductive ReconnectOp
  /-- `ksnReconnectSend` -/
  | send (peer : CString)
  /-- a `CMD_RECONNECT_ANSWER` packet arrives -/
  | answer (mem : List UInt8)
  /-- the timer of an entry of the queue expires -/
  | timer (c : ℕ)
  /-- the ARP table changes, or the r-host's name -/
  | arp (arp : KsnetArpClass) (rHostName : CString)
  /-- another module uses the queue -/
  | other (op : CQueOp ReconnectCb ℕ)

/-- One event.  Other modules have entries of their own. -/
def KsnReconnectClass.step (kr : KsnReconnectClass) :
    ReconnectOp → Except ReconnectFault KsnReconnectClass
  | .send peer => .ok (ksnReconnectSend kr peer).2.2
  | .answer mem => (ksnReconnectProcessAnswer kr mem).map Prod.snd
  | .timer c => if c ∈ kr.kq.timers then (kr.queueTimer c).map Prod.snd else .ok kr
  | .arp arp rHostName => .ok { kr with arp := arp, rHostName := rHostName }
  | .other op =>
    if kr.kq.Foreign .ksnReconnectCQueCallback op then
      ((kr.kq.perform op).mapError .other).map fun r => { kr with kq := r.2 }
    else .ok kr

/-- `ksnReconnectInit`, with a new queue. -/
def ksnReconnectInit (sendEvent eventCb : Bool) (arp : KsnetArpClass) (rHostName : CString) :
    KsnReconnectClass where
  map := FinMap.empty
  heap := Heap.empty
  kq := ksnCQueInit sendEvent eventCb
  arp := arp
  rHostName := rHostName

/-! ### Records and entries -/

/-- The entry is one of this module. -/
def KsnCQueData.IsReconnect (cq : KsnCQueData ReconnectCb ℕ) : Prop :=
  cq.cb = some .ksnReconnectCQueCallback

/-- Each record of the map has its own pending callback, whose data it is, and each pending callback
of this module has a record of the map as its data; the record has the name that it is found
under. -/
structure Paired (kr : KsnReconnectClass) : Prop where
  record : ∀ peer a, kr.map.get peer = some a → ∃ d c cq, kr.heap.get a = some d ∧
    d.peer = some peer ∧ d.cq = some c ∧ kr.kq.heap.get c = some cq ∧
    kr.kq.cqueMap.get cq.id = some c ∧ cq.IsReconnect ∧ cq.data = a
  callback : ∀ id c, kr.kq.cqueMap.get id = some c → ∀ cq, kr.kq.heap.get c = some cq →
    cq.IsReconnect → ∃ d peer, kr.heap.get cq.data = some d ∧ d.cq = some c ∧
      d.peer = some peer ∧ kr.map.get peer = some cq.data

/-- The event asks the r-host anew: the peer has no record, or its callback runs and it is not in the
table. -/
def Asks (kr : KsnReconnectClass) : ReconnectOp → Prop
  | .send peer => kr.Connected ∧ kr.map.get peer = none
  | .timer c => kr.Connected ∧ c ∈ kr.kq.timers ∧ ∃ cq d peer, kr.kq.heap.get c = some cq ∧
      cq.IsReconnect ∧ kr.heap.get cq.data = some d ∧ d.peer = some peer ∧ kr.arp.get peer = none
  | .other (.add cb _ _ _) => cb ≠ some .ksnReconnectCQueCallback
  | _ => False

/-- The queue does not give the id of a pending entry (which it could do only after its 32-bit
counter has wrapped). -/
def FreshReconnect (kr : KsnReconnectClass) (op : ReconnectOp) : Prop :=
  Asks kr op → kr.kq.cqueMap.get kr.kq.newId = none

/-! ### The invariant -/

/-- `Paired`, but for the entry that is `running`: its record has been removed, and its timer is
stopped. -/
structure ReconnectInv (running : Option ℕ) (kr : KsnReconnectClass) : Prop where
  wf : kr.kq.WF
  record : ∀ peer a, kr.map.get peer = some a → ∃ d c cq, kr.heap.get a = some d ∧
    d.peer = some peer ∧ d.cq = some c ∧ kr.kq.heap.get c = some cq ∧ cq.IsReconnect ∧
    cq.data = a ∧ cq.wInit = true ∧ running ≠ some c
  callback : ∀ c cq, kr.kq.heap.get c = some cq → cq.IsReconnect → running ≠ some c →
    ∃ d peer, kr.heap.get cq.data = some d ∧ d.cq = some c ∧ d.peer = some peer ∧
      kr.map.get peer = some cq.data
  stopped : ∀ c, running = some c → c ∉ kr.kq.timers
  live : ∀ c, running = some c → ∃ cq, kr.kq.heap.get c = some cq

variable {kr kr' : KsnReconnectClass} {running : Option ℕ} {peer : CString} {a c : ℕ}
  {d : ReconnectMapData} {cq : KsnCQueData ReconnectCb ℕ}

theorem ReconnectInv.paired (h : ReconnectInv none kr) : Paired kr where
  record peer a hget := by
    obtain ⟨d, c, cq, hd, hpeer, hdcq, hcq, hmine, hdata, -, -⟩ := h.record peer a hget
    exact ⟨d, c, cq, hd, hpeer, hdcq, hcq, h.wf.heap_map c cq hcq, hmine, hdata⟩
  callback id c hid cq hcq hmine := by
    obtain ⟨d, peer, hd, hdcq, hpeer, hget⟩ := h.callback c cq hcq hmine (Option.some_ne_none c).symm
    exact ⟨d, peer, hd, hdcq, hpeer, hget⟩

theorem inv_ksnReconnectInit (sendEvent eventCb : Bool) (arp : KsnetArpClass)
    (rHostName : CString) :
    ReconnectInv none (ksnReconnectInit sendEvent eventCb arp rHostName) where
  wf := ksnCQueInit_wf sendEvent eventCb
  record peer a h := by
    rw [ksnReconnectInit, FinMap.get_empty] at h
    cases h
  callback c cq h := by
    rw [ksnReconnectInit, ksnCQueInit, Heap.get_empty] at h
    cases h
  stopped c h := by cases h
  live c h := by cases h

/-! ### A new request -/

/-- The state after a request for `peer`. -/
def KsnReconnectClass.asked (kr : KsnReconnectClass) (peer : CString) : KsnReconnectClass :=
  { kr with
    map := kr.map.add peer kr.heap.next
    heap := (kr.heap.alloc {}).update kr.heap.next fun d =>
      { d with peer := some peer, cq := some kr.kq.heap.next }
    kq := ksnCQueAdd kr.kq (some .ksnReconnectCQueCallback) 5 kr.heap.next 0 }

theorem ksnReconnectSend_of_asks (hconn : kr.Connected) (hnone : kr.map.get peer = none) :
    (ksnReconnectSend kr peer).2.2 = kr.asked peer := by
  rw [ksnReconnectSend, if_pos hconn, hnone]
  rfl

theorem ksnReconnectSend_of_not (h : ¬(kr.Connected ∧ kr.map.get peer = none)) :
    (ksnReconnectSend kr peer).2.2 = kr := by
  rw [ksnReconnectSend]
  split_ifs with hconn
  · cases hget : kr.map.get peer with
    | none => exact absurd ⟨hconn, hget⟩ h
    | some a => rfl
  · rfl

theorem heap_get_asked (kr : KsnReconnectClass) (peer : CString) (b : ℕ) :
    (kr.asked peer).heap.get b =
      if b = kr.heap.next then some { peer := some peer, cq := some kr.kq.heap.next }
      else kr.heap.get b := by
  show ((kr.heap.alloc {}).update kr.heap.next _).get b = _
  rw [Heap.get_update, Heap.get_alloc_self, Heap.get_alloc]
  split_ifs <;> rfl

theorem kq_heap_get_asked (hwf : kr.kq.WF) (hfresh : kr.kq.cqueMap.get kr.kq.newId = none)
    (peer : CString) (b : ℕ) :
    (kr.asked peer).kq.heap.get b =
      if b = kr.kq.heap.next then
        some (kr.kq.newEntry (some .ksnReconnectCQueCallback) 5 kr.heap.next 0)
      else kr.kq.heap.get b := by
  show (ksnCQueAdd kr.kq _ _ _ _).heap.get b = _
  rw [heap_get_ksnCQueAdd _ _ _ _ hwf, hfresh]
  simp

theorem ReconnectInv.asked (h : ReconnectInv running kr) (hnone : kr.map.get peer = none)
    (hfresh : kr.kq.cqueMap.get kr.kq.newId = none) : ReconnectInv running (kr.asked peer) := by
  have hheap := heap_get_asked kr peer
  have hkq := kq_heap_get_asked h.wf hfresh peer
  have hrunning : running ≠ some kr.kq.heap.next := by
    intro hrun
    obtain ⟨cq, hcq⟩ := h.live _ hrun
    exact Heap.ne_next_of_get hcq rfl
  have hwf : (ksnCQueAdd kr.kq (some .ksnReconnectCQueCallback) 5 kr.heap.next 0).WF :=
    h.wf.ksnCQueAdd _ _ _ _ (by simp [hfresh])
  refine ⟨hwf, fun peer' a hget => ?_,
    fun c cq hcq hmine hrun => ?_, fun c hrun hmem => ?_, fun c hrun => ?_⟩
  · change (kr.map.add peer kr.heap.next).get peer' = some a at hget
    rw [FinMap.get_add] at hget
    split_ifs at hget with hpeer
    · obtain rfl := Option.some.inj hget
      have hinit : (kr.kq.newEntry (some .ksnReconnectCQueCallback) 5 kr.heap.next 0).wInit =
          true := by
        simp [KsnCQueClass.newEntry]
      exact ⟨_, _, _, (hheap _).trans (if_pos rfl), congrArg some hpeer.symm, rfl,
        (hkq _).trans (if_pos rfl), rfl, rfl, hinit, hrunning⟩
    · obtain ⟨d, c, cq, hd, hdpeer, hdcq, hcq, hrest⟩ := h.record peer' a hget
      exact ⟨d, c, cq, by rw [hheap, if_neg (Heap.ne_next_of_get hd), hd], hdpeer, hdcq,
        by rw [hkq, if_neg (Heap.ne_next_of_get hcq), hcq], hrest⟩
  · rw [hkq] at hcq
    split_ifs at hcq with hc
    · obtain rfl := Option.some.inj hcq
      exact ⟨_, peer, (hheap _).trans (if_pos rfl), by rw [hc], rfl, FinMap.get_add_self _ _ _⟩
    · obtain ⟨d, peer', hd, hdcq, hdpeer, hget⟩ := h.callback c cq hcq hmine hrun
      have hne : peer' ≠ peer := by
        rintro rfl
        rw [hnone] at hget
        cases hget
      exact ⟨d, peer', by rw [hheap, if_neg (Heap.ne_next_of_get hd), hd], hdcq, hdpeer,
        (FinMap.get_add_of_ne _ hne _).trans hget⟩
  · rcases (mem_timers_ksnCQueAdd _ _ _ _ c).mp hmem with ⟨-, rfl⟩ | hold
    · exact hrunning hrun
    · exact h.stopped c hrun hold
  · obtain ⟨cq, hcq⟩ := h.live c hrun
    exact ⟨cq, by rw [hkq, if_neg (Heap.ne_next_of_get hcq), hcq]⟩

/-! ### The callback -/

/-- The state after the record at `a` has been removed. -/
def KsnReconnectClass.without (kr : KsnReconnectClass) (peer : CString) (a : ℕ) :
    KsnReconnectClass :=
  { kr with map := kr.map.remove peer, heap := kr.heap.free a }

/-- The callback with a record of the map. -/
theorem ksnReconnectCQueCallback_eq (hd : kr.heap.get a = some d) (hpeer : d.peer = some peer)
    (hget : kr.map.get peer = some a) (type : ℕ) :
    ksnReconnectCQueCallback kr type a =
      .ok (if type = 0 ∧ kr.arp.get peer = none then (ksnReconnectSend (kr.without peer a) peer).2
        else ([], kr.without peer a)) := by
  rw [ksnReconnectCQueCallback, hd]
  dsimp only
  rw [hpeer]
  dsimp only
  rw [hget]
  dsimp only
  rw [hd]
  dsimp only
  by_cases htype : type = 0
  · rw [if_pos htype, hpeer]
    dsimp only
    by_cases harp : kr.arp.get peer = none
    · rw [if_neg (not_not_intro harp), if_pos ⟨htype, harp⟩]
      rfl
    · rw [if_pos harp, if_neg fun h => harp h.2]
      rfl
  · rw [if_neg htype, if_neg fun h => htype h.1]
    rfl

/-- An entry of this module begins to run: its timer is stopped, and its record is removed. -/
theorem ReconnectInv.start (h : ReconnectInv none kr) (hcq : kr.kq.heap.get c = some cq)
    (hdata : kr.heap.get cq.data = some d) (hdcq : d.cq = some c) (hpeer : d.peer = some peer)
    (hget : kr.map.get peer = some cq.data) :
    ReconnectInv (some c) ({ kr with kq := kr.kq.evTimerStop c }.without peer cq.data) := by
  have hheap : ∀ b, b ≠ cq.data → (kr.heap.free cq.data).get b = kr.heap.get b := by
    intro b hb
    rw [Heap.get_free, if_neg hb]
  refine ⟨h.wf.evTimerStop c, fun peer' a' hget' => ?_, fun c' cq' hcq' hmine' hrun => ?_,
    fun c' hrun => ?_, fun c' hrun => ?_⟩
  · change (kr.map.remove peer).get peer' = some a' at hget'
    rw [FinMap.get_remove] at hget'
    split_ifs at hget' with hne
    obtain ⟨d', c', cq', hd', hdpeer', hdcq', hcq', hmine', hdata', hinit, -⟩ :=
      h.record peer' a' hget'
    have ha' : a' ≠ cq.data := by
      rintro rfl
      obtain rfl := Option.some.inj (hd'.symm.trans hdata)
      exact hne (Option.some.inj (hdpeer'.symm.trans hpeer))
    refine ⟨d', c', cq', (hheap a' ha').trans hd', hdpeer', hdcq', hcq', hmine', hdata', hinit, ?_⟩
    rintro hcc
    obtain rfl := Option.some.inj hcc
    obtain rfl := Option.some.inj (hcq'.symm.trans hcq)
    exact ha' hdata'.symm
  · change kr.kq.heap.get c' = some cq' at hcq'
    obtain ⟨d', peer', hd', hdcq', hdpeer', hget'⟩ :=
      h.callback c' cq' hcq' hmine' (Option.some_ne_none c').symm
    have hdata' : cq'.data ≠ cq.data := by
      intro heq
      obtain rfl := Option.some.inj ((heq ▸ hd').symm.trans hdata)
      exact hrun (hdcq.symm.trans hdcq')
    have hne : peer' ≠ peer := by
      rintro rfl
      exact hdata' (Option.some.inj (hget'.symm.trans hget))
    exact ⟨d', peer', (hheap _ hdata').trans hd', hdcq', hdpeer',
      (FinMap.get_remove_of_ne _ hne).trans hget'⟩
  · obtain rfl := Option.some.inj hrun
    exact not_mem_evTimerStop kr.kq c
  · obtain rfl := Option.some.inj hrun
    exact ⟨cq, hcq⟩

/-- An entry that has run is removed. -/
theorem ReconnectInv.finish (h : ReconnectInv (some c) kr) (hcq : kr.kq.heap.get c = some cq) :
    ReconnectInv none { kr with kq := kr.kq.pblMapRemoveFree cq.id } := by
  have hid := h.wf.heap_map c cq hcq
  have hdrop : kr.kq.pblMapRemoveFree cq.id = kr.kq.drop cq.id c := by
    rw [KsnCQueClass.drop, evTimerStop_of_not_mem (h.stopped c rfl)]
  rw [hdrop]
  refine ⟨h.wf.drop hid, fun peer a hget => ?_, fun c' cq' hcq' hmine _ => ?_, nofun, nofun⟩
  · obtain ⟨d, c', cq', hd, hpeer, hdcq, hcq', hmine, hdata, hinit, hne⟩ := h.record peer a hget
    have hcc : c' ≠ c := fun heq => hne (congrArg some heq.symm)
    exact ⟨d, c', cq', hd, hpeer, hdcq, by rw [heap_get_drop hid, if_neg hcc, hcq'], hmine, hdata,
      hinit, (Option.some_ne_none c').symm⟩
  · obtain ⟨hcc, hold⟩ := heap_get_of_drop hid hcq'
    exact h.callback c' cq' hold hmine fun heq => hcc (Option.some.inj heq).symm

/-- The queue changes, but not the entries of this module. -/
theorem ReconnectInv.setQueue (h : ReconnectInv none kr) {kq : KsnCQueClass ReconnectCb ℕ}
    (hk : KsnCQueClass.Keeps .ksnReconnectCQueCallback kr.kq kq) :
    ReconnectInv none { kr with kq := kq } := by
  refine ⟨hk.wf, fun peer a hget => ?_, fun c cq hcq hmine hrun => ?_, nofun, nofun⟩
  · obtain ⟨d, c, cq, hd, hpeer, hdcq, hcq, hmine, hrest⟩ := h.record peer a hget
    exact ⟨d, c, cq, hd, hpeer, hdcq, (hk.mine c cq hmine).mpr hcq, hmine, hrest⟩
  · exact h.callback c cq ((hk.mine c cq hmine).mp hcq) hmine hrun

/-! ### One event -/

/-- The callback of an entry whose timer has expired, run in place. -/
theorem ReconnectInv.run (h : ReconnectInv none kr) (hcq : kr.kq.heap.get c = some cq)
    (hmine : cq.IsReconnect) (hmem : c ∈ kr.kq.timers) (hfresh : FreshReconnect kr (.timer c)) :
    ∃ calls kr', { kr with kq := kr.kq.evTimerStop c }.runCallback cq.cb 0 cq.data =
      .ok (calls, kr') ∧ ReconnectInv (some c) kr' ∧ kr'.kq.heap.get c = some cq := by
  obtain ⟨d, peer, hd, hdcq, hpeer, hget⟩ :=
    h.callback c cq hcq hmine (Option.some_ne_none c).symm
  have hstart := h.start hcq hd hdcq hpeer hget
  set stopped : KsnReconnectClass := { kr with kq := kr.kq.evTimerStop c }
  have hd' : stopped.heap.get cq.data = some d := hd
  have hget' : stopped.map.get peer = some cq.data := hget
  rw [hmine, KsnReconnectClass.runCallback, ksnReconnectCQueCallback_eq hd' hpeer hget']
  by_cases harp : kr.arp.get peer = none
  · rw [if_pos ⟨rfl, harp⟩]
    refine ⟨_, _, rfl, ?_⟩
    have hnone : (stopped.without peer cq.data).map.get peer = none :=
      (FinMap.get_remove ..).trans (if_pos rfl)
    by_cases hconn : (stopped.without peer cq.data).Connected
    · have hnew : kr.kq.cqueMap.get kr.kq.newId = none :=
        hfresh ⟨hconn, hmem, cq, d, peer, hcq, hmine, hd, hpeer, harp⟩
      rw [ksnReconnectSend_of_asks hconn hnone]
      exact ⟨hstart.asked hnone hnew,
        (kq_heap_get_asked hstart.wf hnew peer c).trans
          ((if_neg (Heap.ne_next_of_get hcq)).trans hcq)⟩
    · rw [ksnReconnectSend_of_not fun hasks => hconn hasks.1]
      exact ⟨hstart, hcq⟩
  · rw [if_neg fun hagain => harp hagain.2]
    exact ⟨_, _, rfl, hstart, hcq⟩

/-- An entry that is executed is removed with its record. -/
theorem queueExec_eq (h : ReconnectInv none kr) (hcq : kr.kq.heap.get c = some cq)
    (hmine : cq.IsReconnect) (hinit : cq.wInit = true) (hd : kr.heap.get cq.data = some d)
    (hpeer : d.peer = some peer) (hget : kr.map.get peer = some cq.data) :
    ∃ calls, kr.queueExec cq.id =
      .ok (calls, { kr.without peer cq.data with kq := kr.kq.drop cq.id c }) := by
  have hrun : { kr with kq := kr.kq.evTimerStop c }.runCallback cq.cb 1 cq.data =
      .ok ([], { kr with kq := kr.kq.evTimerStop c }.without peer cq.data) := by
    have heq := @ksnReconnectCQueCallback_eq { kr with kq := kr.kq.evTimerStop c } peer cq.data d
      hd hpeer hget 1
    rw [hmine, KsnReconnectClass.runCallback, heq, if_neg fun hagain => absurd hagain.1 one_ne_zero]
  have hcq' : ({ kr with kq := kr.kq.evTimerStop c }.without peer cq.data).kq.heap.get c =
      some cq := hcq
  have hderef : (kr.kq.evTimerStop c).deref c = .ok cq := deref_of_get hcq
  rw [KsnReconnectClass.queueExec, h.wf.heap_map c cq hcq]
  dsimp only
  rw [stopWatcher_of_stoppable h.wf hcq fun _ => hinit]
  simp only [Except.mapError, bind, Except.bind, hderef, hrun, sendEvent_of_get hcq']
  exact ⟨_, rfl⟩

theorem runCallback_of_not_mine (hmine : ¬cq.IsReconnect) (type data : ℕ) :
    kr.runCallback cq.cb type data = .ok ([], kr) := by
  unfold KsnReconnectClass.runCallback
  split
  · exact absurd ‹_› hmine
  · rfl
  · rfl

/-- With an entry of another module this is `ksnCQueExec`. -/
theorem queueExec_of_not_mine {id : ℕ}
    (hmine : ∀ cq, kr.kq.entry id = some cq → ¬cq.IsReconnect) :
    (kr.queueExec id).map Prod.snd =
      ((ksnCQueExec kr.kq id).mapError .queue).map fun r => { kr with kq := r.2.2 } := by
  unfold KsnReconnectClass.queueExec ksnCQueExec
  cases hid : kr.kq.cqueMap.get id with
  | none => rfl
  | some a =>
    dsimp only
    cases hstop : kr.kq.stopWatcher a with
    | error f => rfl
    | ok kq =>
      cases hcq : kq.heap.get a with
      | none => simp [KsnCQueClass.deref, hcq, Except.mapError, Except.map, bind, Except.bind]
      | some cq =>
        have hentry : kr.kq.entry id = some cq := by
          rw [KsnCQueClass.entry, hid]
          exact (heap_of_stopWatcher hstop) ▸ hcq
        simp [deref_of_get hcq, runCallback_of_not_mine (hmine cq hentry), sendEvent_of_get hcq,
          Except.mapError, Except.map, bind, Except.bind, pure, Except.pure]

/-- With an entry of another module this is `cq_timer_cb`. -/
theorem queueTimer_of_not_mine (hcq : kr.kq.heap.get c = some cq) (hmine : ¬cq.IsReconnect) :
    (kr.queueTimer c).map Prod.snd =
      ((cqTimerCb kr.kq c).mapError .queue).map fun r => { kr with kq := r.2 } := by
  have hcq' : (kr.kq.evTimerStop c).heap.get c = some cq := hcq
  rw [KsnReconnectClass.queueTimer, cqTimerCb, deref_of_get hcq]
  simp only [Except.mapError, Except.map, bind, Except.bind, runCallback_of_not_mine hmine,
    sendEvent_of_get hcq', deref_of_get hcq']
  rfl

/-- An answer for a peer with a record executes the record's entry. -/
theorem ksnReconnectProcessAnswer_eq {mem : List UInt8}
    (hget : kr.map.get (CString.ofBuf mem) = some a) (hd : kr.heap.get a = some d)
    (hdcq : d.cq = some c) (hcq : kr.kq.heap.get c = some cq) :
    ksnReconnectProcessAnswer kr mem = kr.queueExec cq.id := by
  rw [ksnReconnectProcessAnswer, hget]
  simp only [hd, hdcq, deref_of_get hcq, Except.mapError, bind, Except.bind]

/-- Not a fault of this module. -/
abbrev ReconnectResult : Except ReconnectFault KsnReconnectClass → Prop :=
  Result (ReconnectInv none) fun f => ∀ g, f ≠ .other g

theorem queueExec_result (h : ReconnectInv none kr) (hcq : kr.kq.heap.get c = some cq)
    (hmine : cq.IsReconnect) (hinit : cq.wInit = true) :
    ReconnectResult ((kr.queueExec cq.id).map Prod.snd) := by
  obtain ⟨d, peer, hd, hdcq, hpeer, hget⟩ :=
    h.callback c cq hcq hmine (Option.some_ne_none c).symm
  obtain ⟨calls, hexec⟩ := queueExec_eq h hcq hmine hinit hd hpeer hget
  rw [hexec]
  exact (h.start hcq hd hdcq hpeer hget).finish hcq

theorem queueTimer_result (h : ReconnectInv none kr) (hmem : c ∈ kr.kq.timers)
    (hfresh : FreshReconnect kr (.timer c)) :
    ReconnectResult ((kr.queueTimer c).map Prod.snd) := by
  obtain ⟨cq, hcq, -⟩ := h.wf.timers c hmem
  by_cases hmine : cq.IsReconnect
  · obtain ⟨calls, kr', hrun, hinv, hcq'⟩ := h.run hcq hmine hmem hfresh
    rw [KsnReconnectClass.queueTimer, deref_of_get hcq]
    simp only [Except.mapError, bind, Except.bind, hrun, sendEvent_of_get hcq', deref_of_get hcq']
    exact hinv.finish hcq'
  · rw [queueTimer_of_not_mine hcq hmine, cqTimerCb_of_get hcq]
    exact h.setQueue (.drop h.wf (h.wf.heap_map c cq hcq) hcq hmine)

/-- **Step lemma**. -/
theorem step_result (h : ReconnectInv none kr) {op : ReconnectOp} (hfresh : FreshReconnect kr op) :
    ReconnectResult (kr.step op) := by
  cases op with
  | send peer =>
    show ReconnectInv none (ksnReconnectSend kr peer).2.2
    by_cases hasks : kr.Connected ∧ kr.map.get peer = none
    · rw [ksnReconnectSend_of_asks hasks.1 hasks.2]
      exact h.asked hasks.2 (hfresh hasks)
    · rw [ksnReconnectSend_of_not hasks]
      exact h
  | answer mem =>
    cases hget : kr.map.get (CString.ofBuf mem) with
    | none =>
      rw [KsnReconnectClass.step, ksnReconnectProcessAnswer, hget]
      exact h
    | some a =>
      obtain ⟨d, c, cq, hd, -, hdcq, hcq, hmine, -, hinit, -⟩ := h.record _ a hget
      rw [KsnReconnectClass.step, ksnReconnectProcessAnswer_eq hget hd hdcq hcq]
      exact queueExec_result h hcq hmine hinit
  | timer c =>
    rw [KsnReconnectClass.step]
    split_ifs with hmem
    · exact queueTimer_result h hmem hfresh
    · exact h
  | arp arp rHostName => exact ⟨h.wf, h.record, h.callback, h.stopped, h.live⟩
  | other op =>
    rw [KsnReconnectClass.step]
    split_ifs with hforeign
    · cases hop : kr.kq.perform op with
      | error f => exact fun hown => hown f rfl
      | ok r =>
        refine h.setQueue (.perform h.wf hforeign (fun hadd => hfresh ?_) hop)
        cases op with
        | add cb timeout data stale => exact hforeign
        | exec | remove | setData | timer => cases hadd
    · exact h

/-! ### Runs -/

/-- **Main result.**  In every run in which `ksnCQueAdd` gives no id that is pending, records and
pending callbacks correspond to each other after each event, and this module does not read a record
or an entry that was freed. -/
theorem paired_of_meets (sendEvent eventCb : Bool) (arp : KsnetArpClass) (rHostName : CString)
    (ops : List ReconnectOp)
    (hmeets : Meets FreshReconnect KsnReconnectClass.step
      (ksnReconnectInit sendEvent eventCb arp rHostName) ops) :
    (∀ kr, ops.foldlM KsnReconnectClass.step (ksnReconnectInit sendEvent eventCb arp rHostName) =
      .ok kr → Paired kr) ∧
    ∀ f, ops.foldlM KsnReconnectClass.step (ksnReconnectInit sendEvent eventCb arp rHostName) =
      .error f → ∃ g, f = .other g := by
  have hres : ReconnectResult
      (ops.foldlM KsnReconnectClass.step (ksnReconnectInit sendEvent eventCb arp rHostName)) :=
    hmeets.result (fun kr op h hfresh => step_result h hfresh)
      (inv_ksnReconnectInit sendEvent eventCb arp rHostName)
  refine ⟨fun kr hkr => ?_, fun f hf => ?_⟩
  · rw [hkr] at hres
    exact hres.paired
  · rw [hf] at hres
    by_contra hother
    exact hres fun g hg => hother ⟨g, hg⟩

/-- A host whose r-host is `r`, with address `::1`. -/
def askingHost : KsnReconnectClass :=
  ksnReconnectInit false false
    (FinMap.empty.add (CString.ofBuf [114]) ⟨localhost, 9000, 1, none⟩) (CString.ofBuf [114])

/-- The host asks for `p` and `q`, and the r-host does not know `p`. -/
theorem paired_of_meets_answer :
    ∃ kr, [.send (CString.ofBuf [112]), .send (CString.ofBuf [113]), .answer [112, 0]].foldlM
      KsnReconnectClass.step askingHost = .ok kr ∧ Paired kr := by
  have hmeets : Meets FreshReconnect KsnReconnectClass.step askingHost
      [.send (CString.ofBuf [112]), .send (CString.ofBuf [113]), .answer [112, 0]] := by
    refine ⟨fun _ => FinMap.get_empty _, fun kr hkr => ?_⟩
    obtain rfl := Except.ok.inj hkr
    exact ⟨fun _ => rfl, fun _ _ => ⟨nofun, fun _ _ => trivial⟩⟩
  exact ⟨_, rfl, (paired_of_meets _ _ _ _ _ hmeets).1 _ rfl⟩

/-! ### The counter comes round -/

/-- The only request is for `waiting`, its entry has the id `1`, and the counter is at `n`. -/
structure Rounds (waiting : CString) (n : ℕ) (kr : KsnReconnectClass) : Prop where
  inv : ReconnectInv none kr
  connected : kr.Connected
  only : ∀ peer, kr.map.get peer ≠ none ↔ peer = waiting
  ids : ∀ id c, kr.kq.cqueMap.get id = some c → id = 1
  id : kr.kq.id = n

variable {waiting : CString} {n : ℕ}

theorem Rounds.get_eq_none (h : Rounds waiting n kr) (hpeer : peer ≠ waiting) :
    kr.map.get peer = none := by
  by_contra hsome
  exact hpeer ((h.only peer).mp hsome)

/-- The state after a request that is answered. -/
def KsnReconnectClass.answered (kr : KsnReconnectClass) (peer : CString) : KsnReconnectClass :=
  { (kr.asked peer).without peer kr.heap.next with
    kq := (kr.asked peer).kq.drop kr.kq.newId kr.kq.heap.next }

theorem asked_answer (h : ReconnectInv none kr) (hnone : kr.map.get peer = none)
    (hfresh : kr.kq.cqueMap.get kr.kq.newId = none) :
    (kr.asked peer).step (.answer peer.toBuf) = .ok (kr.answered peer) := by
  have hbuf : CString.ofBuf peer.toBuf = peer := CString.ofBuf_toBuf peer
  have hget : (kr.asked peer).map.get peer = some kr.heap.next := FinMap.get_add_self _ _ _
  have hd := (heap_get_asked kr peer kr.heap.next).trans (if_pos rfl)
  have hcq := (kq_heap_get_asked h.wf hfresh peer kr.kq.heap.next).trans (if_pos rfl)
  obtain ⟨calls, hexec⟩ := queueExec_eq (h.asked hnone hfresh) hcq rfl rfl hd rfl hget
  rw [KsnReconnectClass.step, ksnReconnectProcessAnswer_eq (by rwa [hbuf]) hd rfl hcq]
  exact congrArg (Except.map Prod.snd) hexec

theorem kq_answered (kr : KsnReconnectClass) (peer : CString) :
    (kr.answered peer).kq.id = (kr.kq.newId + 1) % 2 ^ 32 ∧
      (kr.answered peer).kq.cqueMap =
        (kr.kq.cqueMap.add kr.kq.newId kr.kq.heap.next).remove kr.kq.newId := by
  have hmap : (kr.asked peer).kq.cqueMap = kr.kq.cqueMap.add kr.kq.newId kr.kq.heap.next :=
    ksnCQueAdd_cqueMap _ _ _ _
  have hid : (kr.asked peer).kq.cqueMap.get kr.kq.newId = some kr.kq.heap.next := by
    rw [hmap, FinMap.get_add_self]
  have hdrop : (kr.answered peer).kq = _ := drop_eq hid
  rw [hdrop]
  exact ⟨ksnCQueAdd_id _ _ _ _, congrArg (FinMap.remove · kr.kq.newId) hmap⟩

/-- A request for another peer that is answered. -/
theorem Rounds.round (h : Rounds waiting n kr) (hpeer : peer ≠ waiting) (hlow : 2 ≤ n) :
    ∃ kr', [.send peer, .answer peer.toBuf].foldlM KsnReconnectClass.step kr = .ok kr' ∧
      Rounds waiting ((n + 1) % 2 ^ 32) kr' := by
  have hnew : kr.kq.newId = n := by
    rw [KsnCQueClass.newId, h.id, if_neg (by omega)]
  have hfresh : kr.kq.cqueMap.get kr.kq.newId = none := by
    rw [hnew]
    cases hn : kr.kq.cqueMap.get n with
    | none => rfl
    | some c =>
      have hone := h.ids n c hn
      omega
  have hnone := h.get_eq_none hpeer
  have hasked : ReconnectInv none (kr.asked peer) := h.inv.asked hnone hfresh
  have hsend : kr.step (.send peer) = .ok (kr.asked peer) :=
    congrArg Except.ok (ksnReconnectSend_of_asks h.connected hnone)
  have hanswer := asked_answer h.inv hnone hfresh
  have hinv : ReconnectInv none (kr.answered peer) := by
    have hfree : FreshReconnect (kr.asked peer) (.answer peer.toBuf) := nofun
    have hres := step_result hasked hfree
    rwa [hanswer] at hres
  refine ⟨kr.answered peer, ?_, hinv, h.connected, fun peer' => ?_, fun id c hc => ?_, ?_⟩
  · rw [foldlM_cons_of_ok hsend, foldlM_cons_of_ok hanswer]
    rfl
  · show ((kr.map.add peer kr.heap.next).remove peer).get peer' ≠ none ↔ _
    rw [FinMap.get_remove, FinMap.get_add, ← h.only]
    split_ifs with heq
    · rw [heq, hnone]
    · rfl
  · rw [(kq_answered kr peer).2, FinMap.get_remove, FinMap.get_add] at hc
    split_ifs at hc with hne
    exact h.ids id c hc
  · rw [(kq_answered kr peer).1, hnew]

/-- At the end of the counter a request takes the place of the first one. -/
theorem Rounds.last (h : Rounds waiting 0 kr) (hpeer : peer ≠ waiting) :
    ∃ kr', kr.step (.send peer) = .ok kr' ∧ ¬Paired kr' := by
  have hnone := h.get_eq_none hpeer
  have hnew : kr.kq.newId = 1 := by
    rw [KsnCQueClass.newId, if_pos h.id]
  refine ⟨kr.asked peer, congrArg Except.ok (ksnReconnectSend_of_asks h.connected hnone),
    fun hpaired => ?_⟩
  obtain ⟨a, ha⟩ := Option.ne_none_iff_exists'.mp ((h.only waiting).mpr rfl)
  obtain ⟨d, c, cq, -, -, -, hcq, hid, -, hdata⟩ := hpaired.record waiting a
    ((FinMap.get_add_of_ne _ hpeer.symm _).trans ha)
  change (ksnCQueAdd kr.kq _ _ _ _).heap.get c = some cq at hcq
  change (ksnCQueAdd kr.kq _ _ _ _).cqueMap.get cq.id = some c at hid
  rw [ksnCQueAdd_cqueMap, FinMap.get_add] at hid
  split_ifs at hid with hlast
  · obtain rfl := Option.some.inj hid
    rw [heap_get_ksnCQueAdd _ _ _ _ h.inv.wf, if_pos rfl] at hcq
    obtain rfl := Option.some.inj hcq
    obtain ⟨d', -, -, hd', -⟩ := h.inv.record waiting a ha
    exact Heap.ne_next_of_get hd' hdata.symm
  · exact hlast ((h.ids cq.id c hid).trans hnew.symm)

/-- A request of the host loses its callback: those in between have used up the ids. -/
theorem not_paired :
    ¬∀ (sendEvent eventCb : Bool) (arp : KsnetArpClass) (rHostName : CString)
      (ops : List ReconnectOp) (kr : KsnReconnectClass),
      (∀ op ∈ ops, ∀ o, op ≠ .other o) →
      ops.foldlM KsnReconnectClass.step (ksnReconnectInit sendEvent eventCb arp rHostName) =
        .ok kr → Paired kr := by
  intro h
  set p : CString := CString.ofBuf [112]
  set q : CString := CString.ofBuf [113]
  have hqp : q ≠ p := by decide
  have hfirst : Rounds p 2 (askingHost.asked p) := by
    refine ⟨(inv_ksnReconnectInit _ _ _ _).asked rfl rfl, by decide, fun peer => ?_,
      fun id c hid => ?_, rfl⟩
    · show (FinMap.empty.add p _).get peer ≠ none ↔ _
      rw [FinMap.get_add]
      split_ifs with hpeer <;> simp [hpeer]
    · change (ksnCQueAdd askingHost.kq _ _ _ _).cqueMap.get id = some c at hid
      rw [ksnCQueAdd_cqueMap, FinMap.get_add] at hid
      split_ifs at hid with hone
      · exact hone
      · cases hid
  obtain ⟨k, hk⟩ : ∃ k, 2 + k = 2 ^ 32 := ⟨2 ^ 32 - 2, by norm_num⟩
  have hround : ∀ n kr, n < k → Rounds p ((2 + n) % 2 ^ 32) kr →
      ∃ kr', [.send q, .answer q.toBuf].foldlM KsnReconnectClass.step kr = .ok kr' ∧
        Rounds p ((2 + (n + 1)) % 2 ^ 32) kr' := by
    intro n kr hn hrounds
    have hmod : (2 + n) % 2 ^ 32 = 2 + n := Nat.mod_eq_of_lt (by omega)
    rw [hmod] at hrounds
    exact hrounds.round hqp (by omega)
  obtain ⟨kr₁, hrun, hrounds⟩ := foldlM_replicate _ hround hfirst k le_rfl
  rw [hk, Nat.mod_self] at hrounds
  obtain ⟨kr₂, hlast, hnot⟩ := hrounds.last hqp
  have hstart : askingHost.step (.send p) = .ok (askingHost.asked p) :=
    congrArg Except.ok (ksnReconnectSend_of_asks (by decide) rfl)
  have hall : (.send p :: ((List.replicate k [.send q, .answer q.toBuf]).flatten ++
      [.send q])).foldlM KsnReconnectClass.step askingHost = .ok kr₂ := by
    rw [foldlM_cons_of_ok hstart, foldlM_append_of_ok hrun, foldlM_cons_of_ok hlast]
    rfl
  refine hnot (h _ _ _ _ _ kr₂ (fun op hop o heq => ?_) hall)
  subst heq
  simp at hop

end Teonet
