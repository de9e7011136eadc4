import Teonet.Stream

/-! # Streams and their entries in the callback queue

`KsnStreamClass.WF` says how records and entries of the queue fit together: a record of a stream
that waits for its peer and its entry point to each other, and `data->cq` of any other record is
`NULL` or points to an entry that is gone.  An entry may outlive its record, though; `NoOrphan` is
the state in which none has.

One lemma for each change of the state says that the two are kept (`WF.remove`, `WF.insert`,
`WF.dropEntry`, `WF.connected`, `WF.setQueue`), and one for each function of the module says which
changes it makes. -/

namespace Teonet

open Runs

/-! ### The invariant -/

/-- The entry is that of a stream which waits for its peer. -/
def KsnCQueData.IsConnect (cq : KsnCQueData KqCallback ℕ) : Prop := cq.cb = some .kqConnectCb

/-- Records and entries of the queue fit together. -/
structure KsnStreamClass.WF (ks : KsnStreamClass) : Prop where
  queue : ks.kq.WF
  map_heap : ∀ k a, ks.map.get k = some a → ∃ d, ks.heap.get a = some d ∧ d.key = some k
  heap_map : ∀ a d, ks.heap.get a = some d →
    ∃ peer name, d.key = some (streamKey peer name) ∧ ks.map.get (streamKey peer name) = some a
  accepted : ∀ a d, ks.heap.get a = some d → d.cq = none → d.created = true
  waiting : ∀ a d c, ks.heap.get a = some d → d.cq = some c → d.created = false →
    ∃ cq, ks.kq.heap.get c = some cq ∧ cq.IsConnect ∧ cq.data = a
  finished : ∀ a d c, ks.heap.get a = some d → d.cq = some c → d.created = true →
    ks.kq.heap.get c = none
  entry_old : ∀ a d c, ks.heap.get a = some d → d.cq = some c → c < ks.kq.heap.next
  data_old : ∀ c cq, ks.kq.heap.get c = some cq → cq.IsConnect → cq.data < ks.heap.next
  back : ∀ c cq d, ks.kq.heap.get c = some cq → cq.IsConnect →
    ks.heap.get cq.data = some d → d.cq = some c
  started : ∀ c cq, ks.kq.heap.get c = some cq → cq.IsConnect → cq.wInit = true

/-- No entry has outlived its record. -/
def KsnStreamClass.NoOrphan (ks : KsnStreamClass) : Prop :=
  ∀ c cq, ks.kq.heap.get c = some cq → cq.IsConnect → ∃ d, ks.heap.get cq.data = some d

/-- Every pending `kq_connect_cb` entry has as its data a record in the map, of a stream that was
asked for by this host (so it has that entry) and is not created yet. -/
def KsnStreamClass.ConnectEntries (ks : KsnStreamClass) : Prop :=
  ∀ id c cq, ks.kq.cqueMap.get id = some c → ks.kq.heap.get c = some cq → cq.IsConnect →
    ∃ k d, ks.map.get k = some cq.data ∧ ks.heap.get cq.data = some d ∧ d.cq = some c ∧
      d.created = false

variable {ks ks' : KsnStreamClass} {key : List UInt8} {a c id : ℕ} {d : KsnStreamMapData}
  {cq : KsnCQueData KqCallback ℕ}

/-- The record that an entry points to points back, and still waits. -/
theorem KsnStreamClass.WF.waiting_of_entry (hwf : ks.WF) (hcq : ks.kq.heap.get c = some cq)
    (hconn : cq.IsConnect) (hd : ks.heap.get cq.data = some d) :
    d.cq = some c ∧ d.created = false := by
  have hback := hwf.back c cq d hcq hconn hd
  refine ⟨hback, ?_⟩
  cases hc : d.created with
  | false => rfl
  | true =>
    rw [hwf.finished _ _ _ hd hback hc] at hcq
    cases hcq

theorem KsnStreamClass.WF.connectEntries (hwf : ks.WF) (h : ks.NoOrphan) : ks.ConnectEntries := by
  intro id c cq _ hcq hconn
  obtain ⟨d, hd⟩ := h c cq hcq hconn
  obtain ⟨peer, name, -, hmap⟩ := hwf.heap_map _ _ hd
  exact ⟨_, d, hmap, hd, hwf.waiting_of_entry hcq hconn hd⟩

/-- Two keys are not at one record. -/
theorem KsnStreamClass.WF.key_unique (hwf : ks.WF) {key' : List UInt8}
    (h : ks.map.get key = some a) (h' : ks.map.get key' = some a) : key' = key := by
  obtain ⟨d, hd, hk⟩ := hwf.map_heap _ _ h
  obtain ⟨d', hd', hk'⟩ := hwf.map_heap _ _ h'
  rw [hd] at hd'
  obtain rfl := Option.some.inj hd'
  rw [hk] at hk'
  exact (Option.some.inj hk').symm

/-- The stream with this key waits for its peer. -/
def KsnStreamClass.Waiting (ks : KsnStreamClass) (key : List UInt8) : Prop :=
  ∃ a d, ks.map.get key = some a ∧ ks.heap.get a = some d ∧ d.cq ≠ none ∧ d.created = false

/-! ### The end of a record -/

theorem KsnStreamClass.WF.remove (hwf : ks.WF) (hkey : ks.map.get key = some a)
    (watchers : List ℕ) :
    ({ ks with
        map := ks.map.remove key
        heap := ks.heap.free a
        watchers := watchers } : KsnStreamClass).WF := by
  have hget : ∀ b d, (ks.heap.free a).get b = some d → b ≠ a ∧ ks.heap.get b = some d := by
    intro b d hb
    rw [Heap.get_free] at hb
    split at hb
    · cases hb
    · exact ⟨‹_›, hb⟩
  refine
    { queue := hwf.queue
      map_heap := fun k b hb => ?_
      heap_map := fun b d hb => ?_
      accepted := fun b d hb => hwf.accepted b d (hget b d hb).2
      waiting := fun b d c hb => hwf.waiting b d c (hget b d hb).2
      finished := fun b d c hb => hwf.finished b d c (hget b d hb).2
      entry_old := fun b d c hb => hwf.entry_old b d c (hget b d hb).2
      data_old := hwf.data_old
      back := fun c cq d hcq hconn hd => hwf.back c cq d hcq hconn (hget _ d hd).2
      started := hwf.started }
  · replace hb : (ks.map.remove key).get k = some b := hb
    rw [FinMap.get_remove] at hb
    split at hb
    · cases hb
    · rename_i hne
      obtain ⟨d, hd, hk⟩ := hwf.map_heap k b hb
      have hba : b ≠ a := fun he => hne (hwf.key_unique hkey (he ▸ hb))
      exact ⟨d, (Heap.get_free _ _ _).trans ((if_neg hba).trans hd), hk⟩
  · obtain ⟨hba, hd⟩ := hget b d hb
    obtain ⟨peer, name, hk, hmap⟩ := hwf.heap_map b d hd
    refine ⟨peer, name, hk, ?_⟩
    have hne : streamKey peer name ≠ key := by
      intro he
      rw [he, hkey] at hmap
      exact hba (Option.some.inj hmap).symm
    exact (FinMap.get_remove_of_ne _ hne).trans hmap

/-- The record of a stream that does not wait has no entry. -/
theorem KsnStreamClass.WF.not_data (hwf : ks.WF) (hkey : ks.map.get key = some a)
    (hnot : ¬ks.Waiting key) (hcq : ks.kq.heap.get c = some cq) (hconn : cq.IsConnect) :
    cq.data ≠ a := by
  rintro rfl
  obtain ⟨d, hd, -⟩ := hwf.map_heap key _ hkey
  obtain ⟨hback, hcreated⟩ := hwf.waiting_of_entry hcq hconn hd
  exact hnot ⟨_, d, hkey, hd, by rw [hback]; simp, hcreated⟩

theorem KsnStreamClass.NoOrphan.remove (h : ks.NoOrphan) (hwf : ks.WF)
    (hkey : ks.map.get key = some a) (hnot : ¬ks.Waiting key) (watchers : List ℕ) :
    ({ ks with
        map := ks.map.remove key
        heap := ks.heap.free a
        watchers := watchers } : KsnStreamClass).NoOrphan := by
  intro c cq hcq hconn
  obtain ⟨d, hd⟩ := h c cq hcq hconn
  exact ⟨d, (Heap.get_free _ _ _).trans
    ((if_neg (hwf.not_data hkey hnot hcq hconn)).trans hd)⟩

/-- What `ksnStreamClose` does. -/
theorem ksnStreamClose_eq (hwf : ks.WF) (toPeer streamName : CString) {sendF : StreamCmd}
    (hsend : sendF ≠ .closeNotremove) :
    (ks.map.get (streamKey toPeer streamName) = none ∧
      ksnStreamClose ks toPeer streamName sendF = .ok ([], ks)) ∨
    ∃ a effects watchers, ks.map.get (streamKey toPeer streamName) = some a ∧
      ksnStreamClose ks toPeer streamName sendF =
        .ok (effects,
          { ks with
            map := ks.map.remove (streamKey toPeer streamName)
            heap := ks.heap.free a
            watchers := watchers }) := by
  unfold ksnStreamClose
  cases hkey : ks.map.get (streamKey toPeer streamName) with
  | none => exact .inl ⟨rfl, by simp only [hkey]⟩
  | some a =>
    obtain ⟨d, hd, hk⟩ := hwf.map_heap _ _ hkey
    have hderef : ks.deref a = .ok d := by rw [KsnStreamClass.deref, hd]
    refine .inr ⟨a,
      if d.created then
        (if sendF ≠ .closeGot then [.sendTo toPeer streamName cmdStClose] else []) ++
          ks.event (.disconnected (streamKey toPeer streamName))
      else [],
      if d.created then ks.watchers.filter (· ≠ a) else ks.watchers, rfl, ?_⟩
    simp only [hkey, hderef, bind, Except.bind, hk, if_pos hsend]
    rfl

/-! ### A new record -/

theorem pblMapAdd_rc_nonneg (ks : KsnStreamClass) (key : List UInt8) (d : KsnStreamMapData) :
    0 ≤ (ks.pblMapAdd key d).1 := by
  unfold KsnStreamClass.pblMapAdd
  split <;> simp

theorem map_pblMapAdd (ks : KsnStreamClass) (key : List UInt8) (d : KsnStreamMapData) :
    (ks.pblMapAdd key d).2.map = ks.map.add key ks.heap.next := by
  unfold KsnStreamClass.pblMapAdd
  split <;> rfl

theorem kq_pblMapAdd (ks : KsnStreamClass) (key : List UInt8) (d : KsnStreamMapData) :
    (ks.pblMapAdd key d).2.kq = ks.kq := by
  unfold KsnStreamClass.pblMapAdd
  split <;> rfl

theorem heap_next_pblMapAdd (ks : KsnStreamClass) (key : List UInt8) (d : KsnStreamMapData) :
    (ks.pblMapAdd key d).2.heap.next = ks.heap.next + 1 := by
  unfold KsnStreamClass.pblMapAdd
  split <;> rfl

/-- The record that had the key is freed. -/
theorem heap_get_pblMapAdd (hwf : ks.WF) (key : List UInt8) (d : KsnStreamMapData) (b : ℕ) :
    (ks.pblMapAdd key d).2.heap.get b =
      if b = ks.heap.next then some d
      else if ks.map.get key = some b then none
      else ks.heap.get b := by
  unfold KsnStreamClass.pblMapAdd
  cases hkey : ks.map.get key with
  | none => simp [Heap.get_alloc]
  | some old =>
    obtain ⟨d', hd', -⟩ := hwf.map_heap _ _ hkey
    have hne := Heap.ne_next_of_get hd'
    simp only [Heap.get_free, Heap.get_alloc, Option.some.injEq]
    by_cases hb : b = old
    · subst hb
      simp [hne]
    · simp [hb, Ne.symm hb]

/-- `ks'` is `ks` with a new record, which replaces the record with the same key, if there is one,
and which is created, or comes with a new entry of its own. -/
structure Inserted (ks ks' : KsnStreamClass) (peer name : CString) (d : KsnStreamMapData) :
    Prop where
  queue : ks'.kq.WF
  key : d.key = some (streamKey peer name)
  map : ks'.map = ks.map.add (streamKey peer name) ks.heap.next
  heap : ∀ b, ks'.heap.get b =
    if b = ks.heap.next then some d
    else if ks.map.get (streamKey peer name) = some b then none
    else ks.heap.get b
  heap_next : ks'.heap.next = ks.heap.next + 1
  kq_next : ks.kq.heap.next ≤ ks'.kq.heap.next
  keep : ∀ c, d.cq ≠ some c → ks'.kq.heap.get c = ks.kq.heap.get c
  accepted : d.cq = none → d.created = true
  waiting : ∀ c, d.cq = some c → c = ks.kq.heap.next ∧ d.created = false ∧
    ∃ cq, ks'.kq.heap.get c = some cq ∧ cq.IsConnect ∧ cq.data = ks.heap.next ∧ cq.wInit = true

section Inserted

variable {peer name : CString} {b : ℕ} {d' : KsnStreamMapData}

theorem Inserted.get_new (h : Inserted ks ks' peer name d) :
    ks'.heap.get ks.heap.next = some d := by
  rw [h.heap, if_pos rfl]

/-- A record of `ks'` is the new one, or was there before under another key. -/
theorem Inserted.get_cases (h : Inserted ks ks' peer name d) (hb : ks'.heap.get b = some d') :
    (b = ks.heap.next ∧ d' = d) ∨
      (ks.heap.get b = some d' ∧ ks.map.get (streamKey peer name) ≠ some b) := by
  rw [h.heap] at hb
  split at hb
  · exact .inl ⟨‹_›, (Option.some.inj hb).symm⟩
  · split at hb
    · cases hb
    · exact .inr ⟨hb, ‹_›⟩

/-- The entries of the records that were there before are not the new one. -/
theorem Inserted.entry_of_lt (h : Inserted ks ks' peer name d) (hlt : c < ks.kq.heap.next) :
    ks'.kq.heap.get c = ks.kq.heap.get c :=
  h.keep c fun hc => Nat.ne_of_lt hlt (h.waiting c hc).1

/-- An entry of `ks'` was there before, or is that of the new record. -/
theorem Inserted.entry_cases (h : Inserted ks ks' peer name d)
    (hcq : ks'.kq.heap.get c = some cq) :
    ks.kq.heap.get c = some cq ∨ (d.cq = some c ∧ cq.data = ks.heap.next ∧ cq.wInit = true) := by
  by_cases hc : d.cq = some c
  · obtain ⟨-, -, cq', hg, -, hdata, hw⟩ := h.waiting c hc
    rw [hcq] at hg
    obtain rfl := Option.some.inj hg
    exact .inr ⟨hc, hdata, hw⟩
  · exact .inl ((h.keep c hc).symm.trans hcq)

/-- The map leads to a record with the key. -/
theorem Inserted.map_heap (h : Inserted ks ks' peer name d) (hwf : ks.WF)
    (hb : ks'.map.get key = some b) : ∃ d', ks'.heap.get b = some d' ∧ d'.key = some key := by
  rw [h.map, FinMap.get_add] at hb
  split at hb
  · rename_i hk
    obtain rfl := Option.some.inj hb
    exact ⟨d, h.get_new, hk ▸ h.key⟩
  · rename_i hk
    obtain ⟨d', hd', hk'⟩ := hwf.map_heap key b hb
    have hnot : ks.map.get (streamKey peer name) ≠ some b := fun hm => hk (hwf.key_unique hm hb)
    exact ⟨d', by rw [h.heap, if_neg (Heap.ne_next_of_get hd'), if_neg hnot, hd'], hk'⟩

/-- A record is in the map under its key. -/
theorem Inserted.heap_map (h : Inserted ks ks' peer name d) (hwf : ks.WF)
    (hb : ks'.heap.get b = some d') :
    ∃ peer' name', d'.key = some (streamKey peer' name') ∧
      ks'.map.get (streamKey peer' name') = some b := by
  rcases h.get_cases hb with ⟨rfl, rfl⟩ | ⟨hd', hnot⟩
  · exact ⟨peer, name, h.key, by rw [h.map, FinMap.get_add_self]⟩
  · obtain ⟨peer', name', hk, hm⟩ := hwf.heap_map b d' hd'
    have hne : streamKey peer' name' ≠ streamKey peer name := fun he => hnot (he ▸ hm)
    exact ⟨peer', name', hk, by rw [h.map, FinMap.get_add_of_ne _ hne, hm]⟩

/-- The record of an entry points back to it. -/
theorem Inserted.back (h : Inserted ks ks' peer name d) (hwf : ks.WF)
    (hcq : ks'.kq.heap.get c = some cq) (hconn : cq.IsConnect)
    (hd : ks'.heap.get cq.data = some d') : d'.cq = some c := by
  rcases h.entry_cases hcq with hold | ⟨hc, hdata, -⟩
  · rcases h.get_cases hd with ⟨he, -⟩ | ⟨hd', -⟩
    · exact absurd he (Nat.ne_of_lt (hwf.data_old c cq hold hconn))
    · exact hwf.back c cq d' hold hconn hd'
  · rw [hdata, h.get_new] at hd
    rw [← Option.some.inj hd]
    exact hc

theorem KsnStreamClass.WF.insert (hwf : ks.WF) (h : Inserted ks ks' peer name d) : ks'.WF := by
  refine
    { queue := h.queue
      map_heap := fun k b hb => h.map_heap hwf hb
      heap_map := fun b d' hb => h.heap_map hwf hb
      accepted := fun b d' hb hc => ?_
      waiting := fun b d' c hb hc hcr => ?_
      finished := fun b d' c hb hc hcr => ?_
      entry_old := fun b d' c hb hc => ?_
      data_old := fun c cq hg hconn => ?_
      back := fun c cq d' hg hconn hd => h.back hwf hg hconn hd
      started := fun c cq hg hconn => ?_ }
  · rcases h.get_cases hb with ⟨-, rfl⟩ | ⟨hd', -⟩
    · exact h.accepted hc
    · exact hwf.accepted b d' hd' hc
  · rcases h.get_cases hb with ⟨rfl, rfl⟩ | ⟨hd', -⟩
    · obtain ⟨-, -, cq, hg, hconn, hdata, -⟩ := h.waiting c hc
      exact ⟨cq, hg, hconn, hdata⟩
    · obtain ⟨cq, hg, hrest⟩ := hwf.waiting b d' c hd' hc hcr
      exact ⟨cq, (h.entry_of_lt (hwf.entry_old b d' c hd' hc)).trans hg, hrest⟩
  · rcases h.get_cases hb with ⟨-, rfl⟩ | ⟨hd', -⟩
    · rw [(h.waiting c hc).2.1] at hcr
      cases hcr
    · rw [h.entry_of_lt (hwf.entry_old b d' c hd' hc)]
      exact hwf.finished b d' c hd' hc hcr
  · rcases h.get_cases hb with ⟨-, rfl⟩ | ⟨hd', -⟩
    · obtain ⟨-, -, cq, hg, -⟩ := h.waiting c hc
      exact Heap.lt_next_of_get hg
    · exact lt_of_lt_of_le (hwf.entry_old b d' c hd' hc) h.kq_next
  · rw [h.heap_next]
    rcases h.entry_cases hg with hold | ⟨-, hdata, -⟩
    · exact Nat.lt_succ_of_lt (hwf.data_old c cq hold hconn)
    · omega
  · rcases h.entry_cases hg with hold | ⟨-, -, hw⟩
    · exact hwf.started c cq hold hconn
    · exact hw

end Inserted

/-! ### Entries that come and go -/

/-- An entry ends that no waiting stream has. -/
theorem KsnStreamClass.WF.dropEntry (hwf : ks.WF) (hid : ks.kq.cqueMap.get id = some c)
    (hno : ∀ a d, ks.heap.get a = some d → d.cq = some c → d.created = true) :
    ({ ks with kq := ks.kq.drop id c } : KsnStreamClass).WF := by
  refine
    { queue := hwf.queue.drop hid
      map_heap := hwf.map_heap
      heap_map := hwf.heap_map
      accepted := hwf.accepted
      waiting := fun a d b hd hb hcr => ?_
      finished := fun a d b hd hb hcr => ?_
      entry_old := fun a d b hd hb => by
        rw [heap_next_drop hid]
        exact hwf.entry_old a d b hd hb
      data_old := fun b cq hb => hwf.data_old b cq (heap_get_of_drop hid hb).2
      back := fun b cq d hb => hwf.back b cq d (heap_get_of_drop hid hb).2
      started := fun b cq hb => hwf.started b cq (heap_get_of_drop hid hb).2 }
  · obtain ⟨cq, hcq, hrest⟩ := hwf.waiting a d b hd hb hcr
    have hne : b ≠ c := by
      rintro rfl
      rw [hno a d hd hb] at hcr
      cases hcr
    exact ⟨cq, by rw [heap_get_drop hid, if_neg hne, hcq], hrest⟩
  · rw [heap_get_drop hid, hwf.finished a d b hd hb hcr]
    exact ite_self _

theorem KsnStreamClass.NoOrphan.dropEntry (h : ks.NoOrphan)
    (hid : ks.kq.cqueMap.get id = some c) :
    ({ ks with kq := ks.kq.drop id c } : KsnStreamClass).NoOrphan := by
  intro b cq hb hconn
  exact h b cq (heap_get_of_drop hid hb).2 hconn

/-- A record after `connect_watchers` is the record from before, created if it is the one. -/
theorem get_connectWatchers {b : ℕ} {d' : KsnStreamMapData}
    (hb : (ks.connectWatchers a).heap.get b = some d') :
    ∃ d₀, ks.heap.get b = some d₀ ∧ d'.key = d₀.key ∧ d'.cq = d₀.cq ∧
      d'.created = (if b = a then true else d₀.created) := by
  replace hb : (ks.heap.update a fun d => { d with created := true }).get b = some d' := hb
  rw [Heap.get_update] at hb
  split at hb
  · rename_i he
    obtain ⟨d₀, hd₀, rfl⟩ := Option.map_eq_some_iff.mp hb
    exact ⟨d₀, he ▸ hd₀, rfl, rfl, (if_pos he).symm⟩
  · rename_i he
    exact ⟨d', hb, rfl, rfl, (if_neg he).symm⟩

theorem get_connectWatchers_of_get {b : ℕ} (a : ℕ) (hb : ks.heap.get b = some d) :
    ∃ d', (ks.connectWatchers a).heap.get b = some d' ∧ d'.key = d.key := by
  show ∃ d', (ks.heap.update a fun d => { d with created := true }).get b = some d' ∧ _
  rw [Heap.get_update]
  split
  · rename_i he
    rw [← he, hb]
    exact ⟨_, rfl, rfl⟩
  · exact ⟨d, hb, rfl⟩

/-- The peer has answered: the record is created and its entry ends. -/
theorem KsnStreamClass.WF.connected (hwf : ks.WF) (hd : ks.heap.get a = some d)
    (hc : d.cq = some c) (hcr : d.created = false) (hid : ks.kq.cqueMap.get id = some c) :
    ({ ks.connectWatchers a with kq := ks.kq.drop id c } : KsnStreamClass).WF := by
  obtain ⟨cq, hcq, hconn, hdata⟩ := hwf.waiting a d c hd hc hcr
  have hfree : ∀ b cq, (ks.kq.drop id c).heap.get b = some cq → ks.kq.heap.get b = some cq :=
    fun b cq hb => (heap_get_of_drop hid hb).2
  refine
    { queue := hwf.queue.drop hid
      map_heap := fun k b hb => ?_
      heap_map := fun b d' hb => ?_
      accepted := fun b d' hb hn => ?_
      waiting := fun b d' e hb he hcr' => ?_
      finished := fun b d' e hb he hcr' => ?_
      entry_old := fun b d' e hb he => ?_
      data_old := fun b cq hb => hwf.data_old b cq (hfree b cq hb)
      back := fun b cq d' hb hconn' hd' => ?_
      started := fun b cq hb => hwf.started b cq (hfree b cq hb) }
  · obtain ⟨d₀, hd₀, hk⟩ := hwf.map_heap k b hb
    obtain ⟨d', hd', hk'⟩ := get_connectWatchers_of_get a hd₀
    exact ⟨d', hd', hk'.trans hk⟩
  · obtain ⟨d₀, hd₀, hk, -⟩ := get_connectWatchers hb
    rw [hk]
    exact hwf.heap_map b d₀ hd₀
  · obtain ⟨d₀, hd₀, -, hcq', hcr'⟩ := get_connectWatchers hb
    rw [hcr', hwf.accepted b d₀ hd₀ (hcq' ▸ hn)]
    exact ite_self _
  · obtain ⟨d₀, hd₀, -, hcq', hcr₀⟩ := get_connectWatchers hb
    rw [hcr₀] at hcr'
    split at hcr'
    · cases hcr'
    · rename_i hne
      obtain ⟨cq', hg, hconn', hdata'⟩ := hwf.waiting b d₀ e hd₀ (hcq' ▸ he) hcr'
      have hec : e ≠ c := by
        rintro rfl
        rw [hcq] at hg
        obtain rfl := Option.some.inj hg
        exact hne (hdata'.symm.trans hdata)
      exact ⟨cq', by rw [heap_get_drop hid, if_neg hec, hg], hconn', hdata'⟩
  · obtain ⟨d₀, hd₀, -, hcq', hcr₀⟩ := get_connectWatchers hb
    rw [heap_get_drop hid]
    split
    · rfl
    · rename_i hne
      have hba : b ≠ a := by
        rintro rfl
        rw [hd] at hd₀
        obtain rfl := Option.some.inj hd₀
        rw [hcq', hc] at he
        exact hne (Option.some.inj he).symm
      rw [hcr₀, if_neg hba] at hcr'
      exact hwf.finished b d₀ e hd₀ (hcq' ▸ he) hcr'
  · obtain ⟨d₀, hd₀, -, hcq', -⟩ := get_connectWatchers hb
    rw [heap_next_drop hid]
    exact hwf.entry_old b d₀ e hd₀ (hcq' ▸ he)
  · obtain ⟨d₀, hd₀, -, hcq', -⟩ := get_connectWatchers hd'
    rw [hcq']
    exact hwf.back b cq d₀ (hfree b cq hb) hconn' hd₀

/-- `kq'` is `kq` after a change that leaves the entries of this module alone. -/
structure QueueKept (kq kq' : KsnCQueClass KqCallback ℕ) : Prop where
  queue : kq'.WF
  next : kq.heap.next ≤ kq'.heap.next
  connect : ∀ c cq, cq.IsConnect → (kq'.heap.get c = some cq ↔ kq.heap.get c = some cq)
  gone : ∀ c, c < kq.heap.next → kq.heap.get c = none → kq'.heap.get c = none

/-- The queue changes, but not the entries of this module. -/
theorem KsnStreamClass.WF.setQueue (hwf : ks.WF) {kq : KsnCQueClass KqCallback ℕ}
    (h : QueueKept ks.kq kq) : ({ ks with kq := kq } : KsnStreamClass).WF where
  queue := h.queue
  map_heap := hwf.map_heap
  heap_map := hwf.heap_map
  accepted := hwf.accepted
  waiting a d c hd hc hcr := by
    obtain ⟨cq, hcq, hconn, hdata⟩ := hwf.waiting a d c hd hc hcr
    exact ⟨cq, (h.connect c cq hconn).mpr hcq, hconn, hdata⟩
  finished a d c hd hc hcr :=
    h.gone c (hwf.entry_old a d c hd hc) (hwf.finished a d c hd hc hcr)
  entry_old a d c hd hc := lt_of_lt_of_le (hwf.entry_old a d c hd hc) h.next
  data_old c cq hcq hconn := hwf.data_old c cq ((h.connect c cq hconn).mp hcq) hconn
  back c cq d hcq hconn hd := hwf.back c cq d ((h.connect c cq hconn).mp hcq) hconn hd
  started c cq hcq hconn := hwf.started c cq ((h.connect c cq hconn).mp hcq) hconn

theorem KsnStreamClass.NoOrphan.setQueue (hno : ks.NoOrphan) {kq : KsnCQueClass KqCallback ℕ}
    (h : QueueKept ks.kq kq) : ({ ks with kq := kq } : KsnStreamClass).NoOrphan :=
  fun c cq hcq hconn => hno c cq ((h.connect c cq hconn).mp hcq) hconn

/-! ### What the operations do -/

/-- `ksnStreamCreate` with `CMD_ST_CREATE`, where both pipes are made. -/
theorem ksnStreamCreate_create (ks : KsnStreamClass) (toPeer streamName : CString)
    (pipeIn pipeOut : ℤ × ℤ) :
    ksnStreamCreate ks toPeer streamName .create (some pipeIn) (some pipeOut) =
      let ks' := (ks.pblMapAdd (streamKey toPeer streamName)
        { created := false, pipeIn := pipeIn, pipeOut := pipeOut,
          key := some (streamKey toPeer streamName), cq := none }).2
      .ok (0, [.sendTo toPeer streamName cmdStCreate],
        { ks' with
          kq := ksnCQueAdd ks.kq (some .kqConnectCb) ksnStreamConnectTimeout ks.heap.next 0
          heap := ks'.heap.update ks.heap.next fun d => { d with cq := some ks.kq.heap.next } }) := by
  unfold ksnStreamCreate
  simp only [true_or, if_true, pblMapAdd_rc_nonneg, kq_pblMapAdd]

/-- `ksnStreamCreate` with `CMD_ST_CREATE_GOT`, where both pipes are made. -/
theorem ksnStreamCreate_createGot (ks : KsnStreamClass) (toPeer streamName : CString)
    (pipeIn pipeOut : ℤ × ℤ) :
    ksnStreamCreate ks toPeer streamName .createGot (some pipeIn) (some pipeOut) =
      let ks' := (ks.pblMapAdd (streamKey toPeer streamName)
        { created := false, pipeIn := pipeIn, pipeOut := pipeOut,
          key := some (streamKey toPeer streamName), cq := none }).2
      .ok (0, ks'.event (.connected (streamKey toPeer streamName)) ++
          [.sendTo toPeer streamName cmdStCreated],
        ks'.connectWatchers ks.heap.next) := by
  unfold ksnStreamCreate
  simp only [or_true, if_true, pblMapAdd_rc_nonneg, reduceCtorEq, if_false]

/-- Without both pipes nothing happens. -/
theorem ksnStreamCreate_of_no_pipe (ks : KsnStreamClass) (toPeer streamName : CString)
    {sendF : StreamCmd} (hsend : sendF = .create ∨ sendF = .createGot)
    {pipeIn pipeOut : Option (ℤ × ℤ)} (hpipe : pipeIn = none ∨ pipeOut = none) :
    ksnStreamCreate ks toPeer streamName sendF pipeIn pipeOut = .ok (-1, [], ks) := by
  unfold ksnStreamCreate
  simp only [if_pos hsend]
  rcases hpipe with rfl | rfl
  · rfl
  · cases pipeIn <;> rfl

theorem runCalls_eventOf (ks : KsnStreamClass) (kq : KsnCQueClass KqCallback ℕ) (c type : ℕ) :
    ks.runCalls (kq.eventOf c type) = .ok ([], ks) := by
  unfold KsnCQueClass.eventOf
  split <;> rfl

/-- The calls that the queue makes for an entry of this module come down to `kq_connect_cb`. -/
theorem runCalls_of_isConnect (ks : KsnStreamClass) (kq : KsnCQueClass KqCallback ℕ)
    (hconn : cq.IsConnect) (c id type : ℕ) :
    ks.runCalls (cq.callback c id type ++ kq.eventOf c type) = kqConnectCb ks type cq.data := by
  have hcb : cq.cb = some .kqConnectCb := hconn
  unfold KsnCQueData.callback
  cases hk : kqConnectCb ks type cq.data <;>
    simp [KsnStreamClass.runCalls, KsnStreamClass.runCall, runCalls_eventOf, bind, Except.bind, pure,
      Except.pure, hcb, hk]

theorem runCalls_of_not_isConnect (ks : KsnStreamClass) (kq : KsnCQueClass KqCallback ℕ)
    (hconn : ¬cq.IsConnect) (c id type : ℕ) :
    ks.runCalls (cq.callback c id type ++ kq.eventOf c type) = .ok ([], ks) := by
  unfold KsnCQueData.callback
  cases hcb : cq.cb with
  | none => exact runCalls_eventOf ks kq c type
  | some cb =>
    cases cb with
    | kqConnectCb => exact absurd hcb hconn
    | other =>
      simp [KsnStreamClass.runCalls, KsnStreamClass.runCall, runCalls_eventOf, bind, Except.bind,
        pure, Except.pure]

/-- `kq_connect_cb` of a stream that was answered. -/
theorem kqConnectCb_success (hd : ks.heap.get a = some d) :
    kqConnectCb ks 1 a = .ok ([], ks) := by
  unfold kqConnectCb KsnStreamClass.deref
  rw [hd]
  rfl

/-- What a `CREATED` packet does. -/
theorem ksnStreamCreate_created (hwf : ks.WF) (toPeer streamName : CString)
    (pipeIn pipeOut : Option (ℤ × ℤ)) (hkey : ks.map.get (streamKey toPeer streamName) = some a)
    (hd : ks.heap.get a = some d) :
    (d.cq = none ∧ ksnStreamCreate ks toPeer streamName .created pipeIn pipeOut =
      .error .nullEntry) ∨
    (∃ c, d.cq = some c ∧ d.created = true ∧
      ksnStreamCreate ks toPeer streamName .created pipeIn pipeOut =
        .error (.queue .useAfterFree)) ∨
    ∃ c cq effects, d.cq = some c ∧ d.created = false ∧ ks.kq.heap.get c = some cq ∧
      ks.kq.cqueMap.get cq.id = some c ∧ cq.IsConnect ∧ cq.data = a ∧
      ksnStreamCreate ks toPeer streamName .created pipeIn pipeOut =
        .ok (0, effects, { ks.connectWatchers a with kq := ks.kq.drop cq.id c }) := by
  have hget : (ks.connectWatchers a).heap.get a = some { d with created := true } := by
    show (ks.heap.update a _).get a = _
    rw [Heap.get_update, if_pos rfl, hd]
    rfl
  have hderef : (ks.connectWatchers a).deref a = .ok { d with created := true } := by
    rw [KsnStreamClass.deref, hget]
  unfold ksnStreamCreate
  simp only [reduceCtorEq, or_self, if_false, if_true, hkey, hderef, bind, Except.bind]
  cases hc : d.cq with
  | none => exact .inl ⟨rfl, rfl⟩
  | some c =>
    cases hcr : d.created with
    | true =>
      have hgone := hwf.finished a d c hd hc hcr
      have hfault : (ks.connectWatchers a).kq.deref c = .error .useAfterFree := by
        show ks.kq.deref c = _
        rw [KsnCQueClass.deref, hgone]
      refine .inr (.inl ⟨c, rfl, rfl, ?_⟩)
      simp only [hfault]
      rfl
    | false =>
      obtain ⟨cq, hcq, hconn, hdata⟩ := hwf.waiting a d c hd hc hcr
      have hid := hwf.queue.heap_map c cq hcq
      have hstop : cq.Stoppable := fun _ => hwf.started c cq hcq hconn
      have hexec : ksnCQueExec (ks.connectWatchers a).kq cq.id = _ :=
        ksnCQueExec_of_stoppable hwf.queue hid hcq hstop
      have hcalls : (ks.connectWatchers a).runCalls
          (cq.callback c cq.id 1 ++ (ks.connectWatchers a).kq.eventOf c 1) =
          .ok ([], ks.connectWatchers a) := by
        rw [runCalls_of_isConnect _ _ hconn, hdata, kqConnectCb_success hget]
      have hderef' : (ks.connectWatchers a).kq.deref c = .ok cq := deref_of_get hcq
      refine .inr (.inr ⟨c, cq, ks.event (.connected (streamKey toPeer streamName)) ++ [], rfl, rfl,
        hcq, hid, hconn, hdata, ?_⟩)
      simp only [hderef', Except.mapError, hexec, hcalls]
      rfl

/-- What a timer of the queue does. -/
theorem queueTimer_cases (hwf : ks.WF) (hcq : ks.kq.heap.get c = some cq)
    {r : List StreamEffect × KsnStreamClass} (h : ks.queueTimer c = .ok r) :
    (¬cq.IsConnect ∧ r.2 = { ks with kq := ks.kq.drop cq.id c }) ∨
    ∃ d key watchers, cq.IsConnect ∧ ks.heap.get cq.data = some d ∧ d.cq = some c ∧
      ks.map.get key = some cq.data ∧
      r.2 =
        { ks with
          map := ks.map.remove key
          heap := ks.heap.free cq.data
          watchers := watchers
          kq := ks.kq.drop cq.id c } := by
  unfold KsnStreamClass.queueTimer at h
  simp only [cqTimerCb_of_get hcq, Except.mapError, bind, Except.bind] at h
  by_cases hconn : cq.IsConnect
  · simp only [runCalls_of_isConnect _ _ hconn] at h
    cases hd : ks.heap.get cq.data with
    | none =>
      have hfault : kqConnectCb ks 0 cq.data = .error .useAfterFree := by
        unfold kqConnectCb KsnStreamClass.deref
        rw [hd]
        rfl
      rw [hfault] at h
      cases h
    | some d =>
      obtain ⟨peer, name, hk, hmap⟩ := hwf.heap_map _ d hd
      rcases ksnStreamClose_eq hwf peer name (show StreamCmd.closeGot ≠ .closeNotremove by decide) with
        ⟨hnone, -⟩ | ⟨a, effects, watchers, hkey, hclose⟩
      · rw [hnone] at hmap
        cases hmap
      · rw [hmap] at hkey
        obtain rfl := Option.some.inj hkey
        have hcb : kqConnectCb ks 0 cq.data = .ok (ks.event (.connectTimeout cq.data) ++ effects,
            { ks with
              map := ks.map.remove (streamKey peer name)
              heap := ks.heap.free cq.data
              watchers := watchers }) := by
          unfold kqConnectCb KsnStreamClass.deref
          rw [hd]
          simp only [bind, Except.bind, if_true, hk, keyPeer_streamKey, keyName_streamKey, hclose]
          rfl
        rw [hcb] at h
        obtain rfl := Except.ok.inj h
        exact .inr ⟨d, _, watchers, hconn, rfl, hwf.back c cq d hcq hconn hd, hmap, rfl⟩
  · simp only [runCalls_of_not_isConnect _ _ hconn] at h
    obtain rfl := Except.ok.inj h
    exact .inl ⟨hconn, rfl⟩

end Teonet
