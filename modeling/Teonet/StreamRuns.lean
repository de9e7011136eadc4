import Teonet.StreamRecords

/-! # Runs of the stream module

Local calls, packets of any peers, disconnects and timers in any order, with other modules that use
the same callback queue for entries of their own.

`step_follows` is what one event does.  From it follows, for every run in which the queue gives no
id that is pending, what a `CREATED` packet does (`ksnStreamCreate_created_iff`), and that closing
or creating anew a stream that waits is the only way to an entry that has outlived its record
(`connectEntries_of_meets`).  `not_ksnStreamCreate_refuses` says that a stream which exists already
is always replaced. -/

namespace Teonet

open Runs

variable {ks ks' : KsnStreamClass} {key : List UInt8} {a c id : ℕ} {d : KsnStreamMapData}
  {cq : KsnCQueData KqCallback ℕ}

/-! ### Events -/

/-- What can happen. -/
inductive StreamOp
  /-- the application calls `ksnStreamCreate` with `CMD_ST_CREATE` -/
  | create (toPeer streamName : CString) (pipeIn pipeOut : Option (ℤ × ℤ))
  /-- a `CMD_STREAM` packet arrives -/
  | packet (peer : CString) (sp : StreamPacket) (pipeIn pipeOut : Option (ℤ × ℤ))
  /-- the application calls `ksnStreamClose` -/
  | close (toPeer streamName : CString)
  /-- a peer is disconnected -/
  | closePeer (peerName : CString)
  /-- the timer of an entry of the queue expires -/
  | timer (c : ℕ)
  /-- another module uses the queue -/
  | other (op : CQueOp KqCallback ℕ)

/-- What another module may do with the queue: it adds callbacks of its own, and it knows the ids
of its own entries only. -/
def KsnStreamClass.foreign (ks : KsnStreamClass) : CQueOp KqCallback ℕ → Bool
  | .add cb _ _ _ => cb ≠ some .kqConnectCb
  | .exec id | .remove id | .setData id _ =>
    match ks.kq.entry id with
    | some cq => cq.cb ≠ some .kqConnectCb
    | none => true
  | .timer _ => false

/-- One event. -/
def KsnStreamClass.step (ks : KsnStreamClass) : StreamOp → Except StreamFault KsnStreamClass
  | .create toPeer streamName pipeIn pipeOut =>
    (ksnStreamCreate ks toPeer streamName .create pipeIn pipeOut).map fun r => r.2.2
  | .packet peer sp pipeIn pipeOut => (cmdStreamCb ks peer sp pipeIn pipeOut).map fun r => r.2.2
  | .close toPeer streamName => (ksnStreamClose ks toPeer streamName .close).map fun r => r.2
  | .closePeer peerName => (ksnStreamClosePeer ks peerName).map fun r => r.2
  | .timer c => if c ∈ ks.kq.timers then (ks.queueTimer c).map fun r => r.2 else .ok ks
  | .other op =>
    if ks.foreign op then
      ((ks.kq.perform op).mapError .queue).map fun r => { ks with kq := r.2 }
    else .ok ks

/-- The module when the program starts. -/
def KsnStreamClass.start (sendEvent eventCb : Bool) : KsnStreamClass where
  map := FinMap.empty
  heap := Heap.empty
  watchers := []
  kq := ksnCQueInit sendEvent eventCb

/-! ### The queue in the hands of other modules -/

theorem QueueKept.of_keeps {kq kq' : KsnCQueClass KqCallback ℕ}
    (h : KsnCQueClass.Keeps .kqConnectCb kq kq') : QueueKept kq kq' :=
  ⟨h.wf, h.next, h.mine, h.gone⟩

theorem foreign_of_foreign {op : CQueOp KqCallback ℕ} (h : ks.foreign op = true) :
    ks.kq.Foreign .kqConnectCb op := by
  cases op with
  | add cb timeout data stale =>
    simpa [KsnStreamClass.foreign, KsnCQueClass.Foreign] using h
  | timer c => cases h
  | exec id | remove id | setData id data =>
    intro cq hentry
    simpa [KsnStreamClass.foreign, hentry] using h

/-- What another module does to the queue leaves the entries of this module alone. -/
theorem foreign_perform (hwf : ks.WF) {op : CQueOp KqCallback ℕ} (hforeign : ks.foreign op = true)
    (hfresh : op.isAdd = true → ks.kq.cqueMap.get ks.kq.newId = none)
    {o : CQueObs KqCallback ℕ} {kq : KsnCQueClass KqCallback ℕ}
    (h : ks.kq.perform op = .ok (o, kq)) : QueueKept ks.kq kq :=
  .of_keeps (.perform hwf.queue (foreign_of_foreign hforeign) hfresh h)

/-! ### Steps -/

/-- The queue does not give the id of a pending entry (which it could do only after its 32-bit
counter has wrapped). -/
def FreshId (ks : KsnStreamClass) : StreamOp → Prop
  | .create _ _ (some _) (some _) | .other (.add ..) => ks.kq.cqueMap.get ks.kq.newId = none
  | _ => True

/-- A stream that waits for its peer is not closed and not created anew. -/
def KeepsWaiting (ks : KsnStreamClass) : StreamOp → Prop
  | .create toPeer streamName (some _) (some _) => ¬ks.Waiting (streamKey toPeer streamName)
  | .packet peer sp pipeIn pipeOut =>
    (sp.cmd = cmdStCreate ∧ pipeIn ≠ none ∧ pipeOut ≠ none) ∨ sp.cmd = cmdStClose →
      ¬ks.Waiting (streamKey peer (CString.ofBuf sp.data))
  | .close toPeer streamName => ¬ks.Waiting (streamKey toPeer streamName)
  | .closePeer peerName => ∀ streamName, ¬ks.Waiting (streamKey peerName streamName)
  | _ => True

/-- What is known of a state `ks'` that comes after `ks`, where `keeps` says that no stream that
waits was closed or created anew. -/
structure Follows (keeps : Prop) (ks ks' : KsnStreamClass) : Prop where
  wf : ks'.WF
  noOrphan : keeps → ks.NoOrphan → ks'.NoOrphan

theorem Follows.refl (hwf : ks.WF) (keeps : Prop) : Follows keeps ks ks := ⟨hwf, fun _ h => h⟩

/-- A new record leaves the entries with their records. -/
theorem KsnStreamClass.NoOrphan.insert (h : ks.NoOrphan) (hwf : ks.WF) {peer name : CString}
    (hnot : ¬ks.Waiting (streamKey peer name)) (hins : Inserted ks ks' peer name d) :
    ks'.NoOrphan := by
  intro c cq hcq hconn
  rw [hins.heap]
  rcases hins.entry_cases hcq with hcq' | ⟨-, hdata, -⟩
  · obtain ⟨d', hd'⟩ := h c cq hcq' hconn
    have hne := Nat.ne_of_lt (hwf.data_old c cq hcq' hconn)
    have hmap : ks.map.get (streamKey peer name) ≠ some cq.data :=
      fun hk => hwf.not_data hk hnot hcq' hconn rfl
    exact ⟨d', by rw [if_neg hne, if_neg hmap, hd']⟩
  · exact ⟨d, if_pos hdata⟩

/-- A new record whose fields are set after it was put into the map. -/
theorem heap_get_update_pblMapAdd (hwf : ks.WF) (key : List UInt8) (d : KsnStreamMapData)
    (f : KsnStreamMapData → KsnStreamMapData) (b : ℕ) :
    ((ks.pblMapAdd key d).2.heap.update ks.heap.next f).get b =
      if b = ks.heap.next then some (f d)
      else if ks.map.get key = some b then none
      else ks.heap.get b := by
  have hget := heap_get_pblMapAdd hwf key d
  rw [Heap.get_update]
  split
  · rw [hget, if_pos rfl]
    rfl
  · rename_i hb
    rw [hget, if_neg hb]

/-- `ksnStreamCreate` with `CMD_ST_CREATE`. -/
theorem create_follows (hwf : ks.WF) (toPeer streamName : CString) (pipeIn pipeOut : Option (ℤ × ℤ))
    (hfresh : FreshId ks (.create toPeer streamName pipeIn pipeOut))
    {r : ℤ × List StreamEffect × KsnStreamClass}
    (h : ksnStreamCreate ks toPeer streamName .create pipeIn pipeOut = .ok r) :
    Follows (KeepsWaiting ks (.create toPeer streamName pipeIn pipeOut)) ks r.2.2 := by
  by_cases hpipe : pipeIn = none ∨ pipeOut = none
  · rw [ksnStreamCreate_of_no_pipe ks toPeer streamName (.inl rfl) hpipe] at h
    obtain rfl := Except.ok.inj h
    exact .refl hwf _
  obtain ⟨hin, hout⟩ := not_or.mp hpipe
  obtain ⟨pipeIn, rfl⟩ := Option.ne_none_iff_exists'.mp hin
  obtain ⟨pipeOut, rfl⟩ := Option.ne_none_iff_exists'.mp hout
  rw [ksnStreamCreate_create] at h
  obtain rfl := Except.ok.inj h
  set key := streamKey toPeer streamName with hkey
  set d₀ : KsnStreamMapData :=
    { created := false, pipeIn := pipeIn, pipeOut := pipeOut, key := some key, cq := none } with hd₀
  have hnone : ks.kq.cqueMap.get ks.kq.newId = none := hfresh
  have hkq : ∀ c,
      (ksnCQueAdd ks.kq (some .kqConnectCb) ksnStreamConnectTimeout ks.heap.next 0).heap.get c =
        if c = ks.kq.heap.next then
          some (ks.kq.newEntry (some .kqConnectCb) ksnStreamConnectTimeout ks.heap.next 0)
        else ks.kq.heap.get c := by
    intro c
    rw [heap_get_ksnCQueAdd _ _ _ _ hwf.queue]
    simp [hnone]
  have hins : Inserted ks
      { (ks.pblMapAdd key d₀).2 with
        kq := ksnCQueAdd ks.kq (some .kqConnectCb) ksnStreamConnectTimeout ks.heap.next 0
        heap := (ks.pblMapAdd key d₀).2.heap.update ks.heap.next fun d =>
          { d with cq := some ks.kq.heap.next } }
      toPeer streamName { d₀ with cq := some ks.kq.heap.next } :=
    { queue := hwf.queue.ksnCQueAdd (some .kqConnectCb) ksnStreamConnectTimeout ks.heap.next 0
        (by simp [hnone])
      key := rfl
      map := map_pblMapAdd ks key d₀
      heap := heap_get_update_pblMapAdd hwf key d₀ _
      heap_next := heap_next_pblMapAdd ks key d₀
      kq_next := by
        show _ ≤ (ksnCQueAdd ks.kq _ _ _ _).heap.next
        rw [heap_next_ksnCQueAdd]
        omega
      keep := fun c hc => (hkq c).trans (if_neg fun he => hc (by rw [he]))
      accepted := fun hc => by cases hc
      waiting := fun c hc => by
        obtain rfl := Option.some.inj hc
        exact ⟨rfl, rfl, _, (hkq _).trans (if_pos rfl), rfl, rfl, rfl⟩ }
  exact ⟨hwf.insert hins, fun hnot hno => hno.insert hwf hnot hins⟩

/-- `ksnStreamCreate` with `CMD_ST_CREATE_GOT`. -/
theorem createGot_follows (hwf : ks.WF) (toPeer streamName : CString)
    (pipeIn pipeOut : Option (ℤ × ℤ)) {r : ℤ × List StreamEffect × KsnStreamClass}
    (h : ksnStreamCreate ks toPeer streamName .createGot pipeIn pipeOut = .ok r) :
    Follows (pipeIn ≠ none ∧ pipeOut ≠ none → ¬ks.Waiting (streamKey toPeer streamName)) ks
      r.2.2 := by
  by_cases hpipe : pipeIn = none ∨ pipeOut = none
  · rw [ksnStreamCreate_of_no_pipe ks toPeer streamName (.inr rfl) hpipe] at h
    obtain rfl := Except.ok.inj h
    exact .refl hwf _
  obtain ⟨hin, hout⟩ := not_or.mp hpipe
  obtain ⟨pipeIn, rfl⟩ := Option.ne_none_iff_exists'.mp hin
  obtain ⟨pipeOut, rfl⟩ := Option.ne_none_iff_exists'.mp hout
  rw [ksnStreamCreate_createGot] at h
  obtain rfl := Except.ok.inj h
  set key := streamKey toPeer streamName with hkey
  set d₀ : KsnStreamMapData :=
    { created := false, pipeIn := pipeIn, pipeOut := pipeOut, key := some key, cq := none } with hd₀
  have hkq : ((ks.pblMapAdd key d₀).2.connectWatchers ks.heap.next).kq = ks.kq :=
    kq_pblMapAdd ks key d₀
  have hins : Inserted ks ((ks.pblMapAdd key d₀).2.connectWatchers ks.heap.next) toPeer streamName
      { d₀ with created := true } :=
    { queue := by
        rw [hkq]
        exact hwf.queue
      key := rfl
      map := map_pblMapAdd ks key d₀
      heap := heap_get_update_pblMapAdd hwf key d₀ _
      heap_next := heap_next_pblMapAdd ks key d₀
      kq_next := by rw [hkq]
      keep := fun c _ => by rw [hkq]
      accepted := fun _ => rfl
      waiting := fun c hc => by cases hc }
  exact ⟨hwf.insert hins, fun hnot hno => hno.insert hwf (hnot ⟨by simp, by simp⟩) hins⟩

/-- A `CREATED` packet. -/
theorem created_follows (hwf : ks.WF) (toPeer streamName : CString)
    (pipeIn pipeOut : Option (ℤ × ℤ)) {r : ℤ × List StreamEffect × KsnStreamClass}
    (h : ksnStreamCreate ks toPeer streamName .created pipeIn pipeOut = .ok r) (keeps : Prop) :
    Follows keeps ks r.2.2 := by
  cases hkey : ks.map.get (streamKey toPeer streamName) with
  | none =>
    unfold ksnStreamCreate at h
    simp only [reduceCtorEq, or_self, if_false, if_true, hkey] at h
    obtain rfl := Except.ok.inj h
    exact .refl hwf _
  | some a =>
    obtain ⟨d, hd, -⟩ := hwf.map_heap _ _ hkey
    rcases ksnStreamCreate_created hwf toPeer streamName pipeIn pipeOut hkey hd with
      ⟨-, he⟩ | ⟨c, -, -, he⟩ | ⟨c, cq, effects, hc, hcr, hcq, hid, hconn, hdata, he⟩
    · rw [he] at h
      cases h
    · rw [he] at h
      cases h
    · rw [he] at h
      obtain rfl := Except.ok.inj h
      refine ⟨hwf.connected hd hc hcr hid, fun _ hno => ?_⟩
      intro b cq' hb hconn'
      obtain ⟨d', hd'⟩ := hno b cq' (heap_get_of_drop hid hb).2 hconn'
      show ∃ d', (ks.heap.update a _).get cq'.data = some d'
      rw [Heap.get_update]
      split
      · exact ⟨_, by rw [hd]; rfl⟩
      · exact ⟨d', hd'⟩

/-- `ksnStreamClose`. -/
theorem close_follows (hwf : ks.WF) (toPeer streamName : CString) {sendF : StreamCmd}
    (hsend : sendF ≠ .closeNotremove) {r : List StreamEffect × KsnStreamClass}
    (h : ksnStreamClose ks toPeer streamName sendF = .ok r) :
    Follows (¬ks.Waiting (streamKey toPeer streamName)) ks r.2 ∧
      ∀ k, r.2.Waiting k → ks.Waiting k := by
  rcases ksnStreamClose_eq hwf toPeer streamName hsend with
    ⟨-, he⟩ | ⟨a, effects, watchers, hkey, he⟩
  · rw [he] at h
    obtain rfl := Except.ok.inj h
    exact ⟨.refl hwf _, fun _ hw => hw⟩
  · rw [he] at h
    obtain rfl := Except.ok.inj h
    refine ⟨⟨hwf.remove hkey watchers, fun hnot hno => hno.remove hwf hkey hnot watchers⟩, ?_⟩
    rintro k ⟨b, d, hb, hd, hrest⟩
    replace hb : (ks.map.remove _).get k = some b := hb
    replace hd : (ks.heap.free a).get b = some d := hd
    rw [FinMap.get_remove] at hb
    rw [Heap.get_free] at hd
    split at hb
    · cases hb
    · split at hd
      · cases hd
      · exact ⟨b, d, hb, hd, hrest⟩

/-- One round of `closePeerLoop`: the peer has no stream left, or one of them is closed. -/
theorem closePeerLoop_cases {peerName : CString} {fuel : ℕ}
    {r : List StreamEffect × KsnStreamClass}
    (h : closePeerLoop ks peerName (fuel + 1) = .ok r) :
    ((∀ k a, ks.map.get k = some a → keyPeer k ≠ peerName) ∧ r.2 = ks) ∨
      ∃ k a r₁ r₂, ks.map.get k = some a ∧ keyPeer k = peerName ∧
        ksnStreamClose ks (keyPeer k) (keyName k) .closeGot = .ok r₁ ∧
        closePeerLoop r₁.2 peerName fuel = .ok r₂ ∧ r.2 = r₂.2 := by
  unfold closePeerLoop at h
  cases hfind : ks.map.toPairs.find? fun p => keyPeer p.1 = peerName with
  | none =>
    simp only [hfind] at h
    obtain rfl := Except.ok.inj h
    refine .inl ⟨fun k a hkey => ?_, rfl⟩
    simpa using List.find?_eq_none.mp hfind _ ((FinMap.mem_toPairs _ _ _).mpr hkey)
  | some p =>
    have hpeer : keyPeer p.1 = peerName := by simpa using List.find?_some hfind
    have hkey := (FinMap.mem_toPairs _ _ _).mp (List.mem_of_find?_eq_some hfind)
    simp only [hfind] at h
    obtain ⟨r₁, hclose, h⟩ := bind_eq_ok h
    obtain ⟨r₂, hrest, h⟩ := bind_eq_ok h
    obtain rfl := Except.ok.inj h
    exact .inr ⟨p.1, p.2, r₁, r₂, hkey, hpeer, hclose, hrest, rfl⟩

theorem closePeerLoop_follows (hwf : ks.WF) (peerName : CString) (fuel : ℕ)
    {r : List StreamEffect × KsnStreamClass} (h : closePeerLoop ks peerName fuel = .ok r) :
    Follows (∀ streamName, ¬ks.Waiting (streamKey peerName streamName)) ks r.2 := by
  induction fuel generalizing ks r with
  | zero =>
    obtain rfl := Except.ok.inj h
    exact .refl hwf _
  | succ fuel ih =>
    rcases closePeerLoop_cases h with ⟨-, he⟩ | ⟨k, a, r₁, r₂, -, hpeer, hclose, hrest, he⟩
    · rw [he]
      exact .refl hwf _
    · obtain ⟨hfirst, hback⟩ := close_follows hwf _ _ (by decide) hclose
      have hlast := ih hfirst.wf hrest
      rw [he]
      refine ⟨hlast.wf, fun hnot hno => ?_⟩
      refine hlast.noOrphan (fun name hw => hnot name (hback _ hw)) (hfirst.noOrphan ?_ hno)
      rw [hpeer]
      exact hnot _

/-- The fuel of `ksnStreamClosePeer` is enough: no stream of the peer is left. -/
theorem closePeerLoop_map (hwf : ks.WF) (peerName : CString) (fuel : ℕ)
    (hfuel : ks.map.toPairs.length ≤ fuel) {r : List StreamEffect × KsnStreamClass}
    (h : closePeerLoop ks peerName fuel = .ok r) (streamName : CString) :
    r.2.map.get (streamKey peerName streamName) = none := by
  induction fuel generalizing ks r with
  | zero =>
    obtain rfl := Except.ok.inj h
    cases hkey : ks.map.get (streamKey peerName streamName) with
    | none => rfl
    | some a =>
      have hmem := (FinMap.mem_toPairs _ _ _).mpr hkey
      have hlen := List.length_pos_of_mem hmem
      omega
  | succ fuel ih =>
    rcases closePeerLoop_cases h with ⟨hno, he⟩ | ⟨k, a, r₁, r₂, hkey, -, hclose, hrest, he⟩
    · rw [he]
      cases hkey : ks.map.get (streamKey peerName streamName) with
      | none => rfl
      | some a => exact absurd (keyPeer_streamKey _ _) (hno _ _ hkey)
    · have hlen := FinMap.length_toPairs_remove ks.map hkey
      obtain ⟨d, hd, hk⟩ := hwf.map_heap k a hkey
      obtain ⟨peer, name, hk', -⟩ := hwf.heap_map a d hd
      rw [hk'] at hk
      obtain rfl := Option.some.inj hk
      rw [keyPeer_streamKey, keyName_streamKey] at hclose
      rcases ksnStreamClose_eq hwf peer name (show StreamCmd.closeGot ≠ .closeNotremove by decide) with
        ⟨hnone, -⟩ | ⟨a', effects, watchers, hkey', he'⟩
      · rw [hkey] at hnone
        cases hnone
      · rw [he'] at hclose
        obtain rfl := Except.ok.inj hclose
        rw [he]
        exact ih (hwf.remove hkey' watchers) (by simp only; omega) hrest

/-- A timer of the queue. -/
theorem queueTimer_follows (hwf : ks.WF) (hc : c ∈ ks.kq.timers)
    {r : List StreamEffect × KsnStreamClass} (h : ks.queueTimer c = .ok r) (keeps : Prop) :
    Follows keeps ks r.2 := by
  obtain ⟨cq, hcq, -⟩ := hwf.queue.timers c hc
  have hid := hwf.queue.heap_map c cq hcq
  rcases queueTimer_cases hwf hcq h with ⟨hno, he⟩ | ⟨d, key, watchers, hconn, hd, hback, hkey, he⟩
  · rw [he]
    refine ⟨hwf.dropEntry hid fun a d hd hdc => ?_, fun _ horphan => horphan.dropEntry hid⟩
    cases hcr : d.created with
    | true => rfl
    | false =>
      obtain ⟨cq', hcq', hconn, -⟩ := hwf.waiting a d c hd hdc hcr
      rw [hcq] at hcq'
      exact absurd (Option.some.inj hcq' ▸ hconn) hno
  · rw [he]
    have hremoved := hwf.remove hkey watchers
    refine ⟨hremoved.dropEntry hid fun a d' hd' hdc => ?_, fun _ horphan => ?_⟩
    · cases hcr : d'.created with
      | true => rfl
      | false =>
        -- the entry is that of the record which is gone
        obtain ⟨cq', hcq', -, hdata⟩ := hremoved.waiting a d' c hd' hdc hcr
        replace hcq' : ks.kq.heap.get c = some cq' := hcq'
        rw [hcq] at hcq'
        obtain rfl := Option.some.inj hcq'
        replace hd' : (ks.heap.free cq.data).get a = some d' := hd'
        rw [Heap.get_free, if_pos hdata.symm] at hd'
        cases hd'
    · intro b cq' hb hconn'
      obtain ⟨hne, hcq'⟩ := heap_get_of_drop hid hb
      obtain ⟨d', hd'⟩ := horphan b cq' hcq' hconn'
      refine ⟨d', (Heap.get_free _ _ _).trans ((if_neg fun hdata => hne ?_).trans hd')⟩
      have hb' := hwf.back b cq' d hcq' hconn' (hdata ▸ hd)
      rw [hback] at hb'
      exact (Option.some.inj hb').symm

/-- A `CMD_STREAM` packet. -/
theorem cmdStreamCb_follows (hwf : ks.WF) (peer : CString) (sp : StreamPacket)
    (pipeIn pipeOut : Option (ℤ × ℤ)) {r : ℤ × List StreamEffect × KsnStreamClass}
    (h : cmdStreamCb ks peer sp pipeIn pipeOut = .ok r) :
    Follows (KeepsWaiting ks (.packet peer sp pipeIn pipeOut)) ks r.2.2 := by
  unfold cmdStreamCb at h
  dsimp only at h
  split at h
  · rename_i hcmd
    obtain ⟨r₁, hr₁, h⟩ := bind_eq_ok h
    obtain rfl := Except.ok.inj h
    obtain ⟨hwf', hno⟩ := createGot_follows hwf _ _ _ _ hr₁
    exact ⟨hwf', fun hkeep => hno fun hpipes => hkeep (.inl ⟨hcmd, hpipes⟩)⟩
  · split at h
    · obtain ⟨r₁, hr₁, h⟩ := bind_eq_ok h
      obtain rfl := Except.ok.inj h
      exact created_follows hwf _ _ _ _ hr₁ _
    · split at h
      · rename_i hcmd
        obtain ⟨r₁, hr₁, h⟩ := bind_eq_ok h
        obtain rfl := Except.ok.inj h
        obtain ⟨hwf', hno⟩ := (close_follows hwf _ _ (by decide) hr₁).1
        exact ⟨hwf', fun hkeep => hno (hkeep (.inr hcmd))⟩
      · split at h
        · split at h
          · obtain rfl := Except.ok.inj h
            exact .refl hwf _
          · obtain ⟨d, -, h⟩ := bind_eq_ok h
            obtain rfl := Except.ok.inj h
            exact .refl hwf _
        · obtain rfl := Except.ok.inj h
          exact .refl hwf _

/-- **What one event does**, where the queue gives fresh ids. -/
theorem step_follows (hwf : ks.WF) {op : StreamOp} (hfresh : FreshId ks op)
    (h : ks.step op = .ok ks') : Follows (KeepsWaiting ks op) ks ks' := by
  cases op with
  | create toPeer streamName pipeIn pipeOut =>
    obtain ⟨r, hr, rfl⟩ := map_eq_ok h
    exact create_follows hwf toPeer streamName pipeIn pipeOut hfresh hr
  | packet peer sp pipeIn pipeOut =>
    obtain ⟨r, hr, rfl⟩ := map_eq_ok h
    exact cmdStreamCb_follows hwf peer sp pipeIn pipeOut hr
  | close toPeer streamName =>
    obtain ⟨r, hr, rfl⟩ := map_eq_ok h
    exact (close_follows hwf toPeer streamName (by decide) hr).1
  | closePeer peerName =>
    obtain ⟨r, hr, rfl⟩ := map_eq_ok h
    exact closePeerLoop_follows hwf peerName _ hr
  | timer c =>
    replace h : (if c ∈ ks.kq.timers then (ks.queueTimer c).map fun r => r.2 else .ok ks) = .ok ks' :=
      h
    split at h
    · obtain ⟨r, hr, rfl⟩ := map_eq_ok h
      exact queueTimer_follows hwf ‹_› hr _
    · obtain rfl := Except.ok.inj h
      exact .refl hwf _
  | other op =>
    replace h : (if ks.foreign op then
      ((ks.kq.perform op).mapError StreamFault.queue).map fun r => { ks with kq := r.2 }
      else .ok ks) = .ok ks' := h
    split at h
    · rename_i hforeign
      obtain ⟨⟨o, kq⟩, hr, rfl⟩ := map_eq_ok h
      have hnew : op.isAdd = true → ks.kq.cqueMap.get ks.kq.newId = none := by
        intro hadd
        cases op with
        | add cb timeout data stale => exact hfresh
        | _ => cases hadd
      have hkept := foreign_perform hwf hforeign hnew (mapError_eq_ok hr)
      exact ⟨hwf.setQueue hkept, fun _ hno => hno.setQueue hkept⟩
    · obtain rfl := Except.ok.inj h
      exact .refl hwf _

/-! ### Runs -/

/-- A local call for the stream `s` to the peer `p`. -/
def askForStream : StreamOp :=
  .create (CString.ofBuf [112]) (CString.ofBuf [115]) (some (3, 4)) (some (5, 6))

/-- A packet of the peer `p` for the stream `s`. -/
def streamPacketOp (cmd : ℕ) : StreamOp :=
  .packet (CString.ofBuf [112]) ⟨cmd, 0, 2, [115, 0]⟩ (some (3, 4)) (some (5, 6))

theorem start_wf (sendEvent eventCb : Bool) : (KsnStreamClass.start sendEvent eventCb).WF := by
  have hmap : ∀ k, (KsnStreamClass.start sendEvent eventCb).map.get k = none :=
    fun k => FinMap.get_empty k
  have hheap : ∀ a, (KsnStreamClass.start sendEvent eventCb).heap.get a = none :=
    fun a => Heap.get_empty a
  have hkq : ∀ c, (KsnStreamClass.start sendEvent eventCb).kq.heap.get c = none :=
    fun c => Heap.get_empty c
  exact
    { queue := ksnCQueInit_wf sendEvent eventCb
      map_heap := by simp [hmap]
      heap_map := by simp [hheap]
      accepted := by simp [hheap]
      waiting := by simp [hheap]
      finished := by simp [hheap]
      entry_old := by simp [hheap]
      data_old := by simp [hkq]
      back := by simp [hkq]
      started := by simp [hkq] }

theorem start_noOrphan (sendEvent eventCb : Bool) :
    (KsnStreamClass.start sendEvent eventCb).NoOrphan := by
  intro c cq hcq
  rw [show (KsnStreamClass.start sendEvent eventCb).kq.heap.get c = none from Heap.get_empty c] at hcq
  cases hcq

theorem wf_of_meets {sendEvent eventCb : Bool} {ops : List StreamOp}
    (hmeets : Meets FreshId KsnStreamClass.step (.start sendEvent eventCb) ops)
    (hrun : ops.foldlM KsnStreamClass.step (.start sendEvent eventCb) = .ok ks) : ks.WF :=
  hmeets.foldlM_inv (fun _ _ _ hwf hfresh hstep => (step_follows hwf hfresh hstep).wf) hrun
    (start_wf sendEvent eventCb)

/-- **The entries keep their records**: in a run in which no stream that waits for its peer is
closed or created anew, every pending `kq_connect_cb` entry has as its data the record of a stream
that this host asked for and that waits. -/
theorem connectEntries_of_meets (sendEvent eventCb : Bool) (ops : List StreamOp)
    (hmeets : Meets (fun ks op => FreshId ks op ∧ KeepsWaiting ks op) KsnStreamClass.step
      (.start sendEvent eventCb) ops)
    (hrun : ops.foldlM KsnStreamClass.step (.start sendEvent eventCb) = .ok ks) :
    ks.ConnectEntries := by
  have hpres : ∀ (s : KsnStreamClass) op t, s.WF ∧ s.NoOrphan →
      FreshId s op ∧ KeepsWaiting s op → s.step op = .ok t → t.WF ∧ t.NoOrphan := by
    intro s op t hi hguard hstep
    have hf := step_follows hi.1 hguard.1 hstep
    exact ⟨hf.wf, hf.noOrphan hguard.2 hi.2⟩
  obtain ⟨hwf, hno⟩ := hmeets.foldlM_inv hpres hrun
    ⟨start_wf sendEvent eventCb, start_noOrphan sendEvent eventCb⟩
  exact hwf.connectEntries hno

/-- A stream that is asked for. -/
theorem connectEntries_of_meets_create :
    ∃ ks, [askForStream].foldlM KsnStreamClass.step (.start false true) = .ok ks ∧
      ks.ConnectEntries := by
  refine ⟨_, rfl, connectEntries_of_meets false true [askForStream] ⟨⟨rfl, ?_⟩, ?_⟩ rfl⟩
  · rintro ⟨a, d, ha, -⟩
    cases ha
  · exact fun _ _ => trivial

/-- A stream that waits for its peer is closed: the entry is left with a record that is gone. -/
theorem not_connectEntries :
    ∃ ks, [askForStream, .close (CString.ofBuf [112]) (CString.ofBuf [115])].foldlM
        KsnStreamClass.step (.start false true) = .ok ks ∧ ¬ks.ConnectEntries := by
  refine ⟨_, rfl, fun h => ?_⟩
  obtain ⟨k, d, -, hd, -⟩ := h 1 0 _ rfl rfl rfl
  cases hd

/-- A `CREATED` packet for this key makes the module execute an entry that is pending, and that is
the one of the stream: `data->cq` points to a live entry with the record as its data. -/
def KsnStreamClass.ExecutesPending (ks : KsnStreamClass) (key : List UInt8) : Prop :=
  ∀ a d, ks.map.get key = some a → ks.heap.get a = some d →
    ∃ c cq, d.cq = some c ∧ ks.kq.heap.get c = some cq ∧ ks.kq.cqueMap.get cq.id = some c ∧
      cq.IsConnect ∧ cq.data = a

/-- **`CREATED` packets**: in every state that a run reaches, the packet is handled, and executes an
entry that is pending, exactly when the stream is not there or the two fields say that it was asked
for by this host and is not created yet. -/
theorem ksnStreamCreate_created_iff (sendEvent eventCb : Bool) (ops : List StreamOp)
    (hmeets : Meets FreshId KsnStreamClass.step (.start sendEvent eventCb) ops)
    (hrun : ops.foldlM KsnStreamClass.step (.start sendEvent eventCb) = .ok ks)
    (peer streamName : CString) (pipeIn pipeOut : Option (ℤ × ℤ)) :
    (∃ r, ksnStreamCreate ks peer streamName .created pipeIn pipeOut = .ok r) ∧
        ks.ExecutesPending (streamKey peer streamName) ↔
      ∀ a d, ks.map.get (streamKey peer streamName) = some a → ks.heap.get a = some d →
        d.cq ≠ none ∧ d.created = false := by
  have hwf := wf_of_meets hmeets hrun
  constructor
  · rintro ⟨⟨r, hr⟩, -⟩ a d hkey hd
    rcases ksnStreamCreate_created hwf peer streamName pipeIn pipeOut hkey hd with
      ⟨-, he⟩ | ⟨c, -, -, he⟩ | ⟨c, cq, effects, hc, hcr, -⟩
    · rw [hr] at he
      cases he
    · rw [hr] at he
      cases he
    · exact ⟨by rw [hc]; simp, hcr⟩
  · intro hcond
    cases hkey : ks.map.get (streamKey peer streamName) with
    | none =>
      refine ⟨⟨(-3, [], ks), ?_⟩, fun a d ha => ?_⟩
      · unfold ksnStreamCreate
        simp only [reduceCtorEq, or_self, if_false, if_true, hkey]
      · rw [hkey] at ha
        cases ha
    | some a =>
      obtain ⟨d, hd, -⟩ := hwf.map_heap _ _ hkey
      obtain ⟨hne, hcr⟩ := hcond a d hkey hd
      rcases ksnStreamCreate_created hwf peer streamName pipeIn pipeOut hkey hd with
        ⟨hnone, -⟩ | ⟨c, -, hcr', -⟩ | ⟨c, cq, effects, hc, -, hcq, hid, hconn, hdata, he⟩
      · exact absurd hnone hne
      · rw [hcr] at hcr'
        cases hcr'
      · refine ⟨⟨_, he⟩, fun a' d' ha' hd' => ?_⟩
        rw [hkey] at ha'
        obtain rfl := Option.some.inj ha'
        rw [hd] at hd'
        obtain rfl := Option.some.inj hd'
        exact ⟨c, cq, hc, hcq, hid, hconn, hdata⟩

/-- The answer of a peer that was asked. -/
theorem ksnStreamCreate_created_iff_answer :
    ∃ ks, [askForStream].foldlM KsnStreamClass.step (.start false true) = .ok ks ∧
      ks.ExecutesPending (streamKey (CString.ofBuf [112]) (CString.ofBuf [115])) := by
  refine ⟨_, rfl, ((ksnStreamCreate_created_iff false true [askForStream] ⟨rfl, fun _ _ => trivial⟩
    rfl (CString.ofBuf [112]) (CString.ofBuf [115]) none none).mpr ?_).2⟩
  intro a d ha hd
  obtain rfl := Option.some.inj ha
  obtain rfl := Option.some.inj hd
  decide

/-- A peer that asks for a stream and says that it is created, and a peer that says so twice. -/
theorem not_ksnStreamCreate_created :
    [streamPacketOp cmdStCreate, streamPacketOp cmdStCreated].foldlM KsnStreamClass.step
        (.start false true) = .error .nullEntry ∧
      [askForStream, streamPacketOp cmdStCreated, streamPacketOp cmdStCreated].foldlM
        KsnStreamClass.step (.start false true) = .error (.queue .useAfterFree) :=
  ⟨rfl, rfl⟩

/-! ### Streams that exist already -/

/-- The call is refused with `-2`, and the record with this key, the pipes in it, the watchers and
the callback queue are what they were. -/
def KsnStreamClass.Refuses (ks : KsnStreamClass) (key : List UInt8)
    (x : Except StreamFault (ℤ × List StreamEffect × KsnStreamClass)) : Prop :=
  ∃ effects ks', x = .ok (-2, effects, ks') ∧ ks'.map.get key = ks.map.get key ∧
    (∀ a, ks.map.get key = some a → ks'.heap.get a = ks.heap.get a) ∧
    ks'.watchers = ks.watchers ∧ ks'.kq = ks.kq

theorem heap_get_pblMapAdd_old (hkey : ks.map.get key = some a) (d : KsnStreamMapData) :
    (ks.pblMapAdd key d).2.heap.get a = none := by
  unfold KsnStreamClass.pblMapAdd
  simp only [hkey]
  exact (Heap.get_free _ _ _).trans (if_pos rfl)

/-- **A stream that exists is never kept**: `pblMapAdd` has replaced the record before its result
is looked at, and `0`, which it returns then, counts as success. -/
theorem not_ksnStreamCreate_refuses (ks : KsnStreamClass) (toPeer streamName : CString)
    {sendF : StreamCmd} (hsend : sendF = .create ∨ sendF = .createGot)
    (pipeIn pipeOut : Option (ℤ × ℤ)) (hkey : ks.map.get (streamKey toPeer streamName) = some a) :
    ¬ks.Refuses (streamKey toPeer streamName)
        (ksnStreamCreate ks toPeer streamName sendF pipeIn pipeOut) ∧
      (pipeIn ≠ none → pipeOut ≠ none → ∃ effects ks',
        ksnStreamCreate ks toPeer streamName sendF pipeIn pipeOut = .ok (0, effects, ks') ∧
          ks'.heap.get a = none) := by
  by_cases hpipe : pipeIn = none ∨ pipeOut = none
  · have hnone := ksnStreamCreate_of_no_pipe ks toPeer streamName hsend hpipe
    rw [hnone]
    refine ⟨?_, fun hin hout => ?_⟩
    · rintro ⟨effects, ks', he, -⟩
      cases he
    · rcases hpipe with h | h
      · exact absurd h hin
      · exact absurd h hout
  obtain ⟨hin, hout⟩ := not_or.mp hpipe
  obtain ⟨pipeIn, rfl⟩ := Option.ne_none_iff_exists'.mp hin
  obtain ⟨pipeOut, rfl⟩ := Option.ne_none_iff_exists'.mp hout
  have hgone : ∀ d f, ((ks.pblMapAdd (streamKey toPeer streamName) d).2.heap.update
      ks.heap.next f).get a = none := by
    intro d f
    have hold := heap_get_pblMapAdd_old hkey d
    rw [Heap.get_update]
    split
    · rename_i he
      rw [← he, hold]
      rfl
    · exact hold
  rcases hsend with rfl | rfl
  · rw [ksnStreamCreate_create]
    refine ⟨?_, fun _ _ => ⟨_, _, rfl, hgone _ _⟩⟩
    rintro ⟨effects, ks', he, -⟩
    cases he
  · rw [ksnStreamCreate_createGot]
    refine ⟨?_, fun _ _ => ⟨_, _, rfl, hgone _ _⟩⟩
    rintro ⟨effects, ks', he, -⟩
    cases he

/-- A peer asks for a stream that exists. -/
theorem not_ksnStreamCreate_refuses_packet :
    ∃ ks, [askForStream].foldlM KsnStreamClass.step (.start false true) = .ok ks ∧
      ¬ks.Refuses (streamKey (CString.ofBuf [112]) (CString.ofBuf [115]))
        (ksnStreamCreate ks (CString.ofBuf [112]) (CString.ofBuf [115]) .createGot (some (7, 8))
          (some (9, 10))) :=
  ⟨_, rfl, (not_ksnStreamCreate_refuses _ _ _ (.inr rfl) _ _ rfl).1⟩

/-- A stream that waits for its peer is replaced when the peer asks for it as well. -/
theorem ksnStreamCreate_replaces :
    ∃ ks effects ks', [askForStream].foldlM KsnStreamClass.step (.start false true) = .ok ks ∧
      ks.map.get (streamKey (CString.ofBuf [112]) (CString.ofBuf [115])) = some 0 ∧
      ksnStreamCreate ks (CString.ofBuf [112]) (CString.ofBuf [115]) .createGot (some (7, 8))
        (some (9, 10)) = .ok (0, effects, ks') ∧
      ks'.map.get (streamKey (CString.ofBuf [112]) (CString.ofBuf [115])) = some 1 ∧
      ks'.heap.get 0 = none :=
  ⟨_, _, _, rfl, rfl, rfl, rfl, rfl⟩

end Teonet
