import Teonet.StreamRuns

/-! # Closing the streams of a peer

`ksnStreamClosePeer` walks over the map and closes the first stream of the peer that it meets.  The
walk is over then: the function calls itself for the rest, with a walk of its own, and breaks off.

Nothing in the code bounds the depth of these calls, so `ksnStreamClosePeerBy` has no result when
they are nested too deep, and it says nothing about the order in which a walk meets the entries.
Each stream of the peer that is closed is one less for the next call, which bounds the depth
(`exists_closePeerBy_eq_some`), and `PeerClosed` is what has happened at the end.

All that this needs is that the map has a record of its own for each stream, which holds in every
state that the module can reach (`ownsRecords_of_run`). -/

namespace Teonet

open Runs

variable {ks ks' : KsnStreamClass} {key : List UInt8} {a : ℕ} {d : KsnStreamMapData}
  {peerName : CString} {effects : List StreamEffect}

/-! ### The code -/

/-- The outcome of a call: there is none when calls are nested too deep. -/
abbrev CloseOutcome : Type := Option (Except StreamFault (List StreamEffect × KsnStreamClass))

/-- The loop of `ksnStreamClosePeer` over the entries that the iterator still gives; `again` is the
call of the function by itself. -/
def closePeerWalk (again : KsnStreamClass → CloseOutcome) (peerName : CString)
    (ks : KsnStreamClass) : List (List UInt8 × ℕ) → CloseOutcome
  | [] => some (.ok ([], ks))
  | (key, _) :: entries =>
    if keyPeer key = peerName then
      match ksnStreamClose ks (keyPeer key) (keyName key) .closeGot with
      | .error f => some (.error f)
      | .ok (effects, ks') => (again ks').map (·.map fun r => (effects ++ r.1, r.2))
    else closePeerWalk again peerName ks entries

/-- `ksnStreamClosePeer`, with calls nested at most `depth` deep, when a walk over a map meets its
entries in the order `order`. -/
def ksnStreamClosePeerBy (order : FinMap (List UInt8) ℕ → List (List UInt8 × ℕ))
    (peerName : CString) : ℕ → KsnStreamClass → CloseOutcome
  | 0, _ => none
  | depth + 1, ks =>
    closePeerWalk (ksnStreamClosePeerBy order peerName depth) peerName ks (order ks.map)

/-! ### Records of the map -/

/-- The map has a record of its own for each stream, with a key that can be freed. -/
structure KsnStreamClass.OwnsRecords (ks : KsnStreamClass) : Prop where
  record : ∀ k a, ks.map.get k = some a → ∃ d, ks.heap.get a = some d ∧ d.key ≠ none
  shape : ∀ k a, ks.map.get k = some a → ∃ peer name, k = streamKey peer name
  unique : ∀ k k' a, ks.map.get k = some a → ks.map.get k' = some a → k = k'

theorem KsnStreamClass.WF.ownsRecords (hwf : ks.WF) : ks.OwnsRecords where
  record k a hk := by
    obtain ⟨d, hd, hkey⟩ := hwf.map_heap k a hk
    exact ⟨d, hd, by simp [hkey]⟩
  shape k a hk := by
    obtain ⟨d, hd, hkey⟩ := hwf.map_heap k a hk
    obtain ⟨peer, name, hkey', -⟩ := hwf.heap_map a d hd
    rw [hkey] at hkey'
    exact ⟨peer, name, Option.some.inj hkey'⟩
  unique _ _ _ hk hk' := hwf.key_unique hk' hk

/-- The application was told that the stream of this record is connected. -/
def KsnStreamClass.isCreated (ks : KsnStreamClass) (a : ℕ) : Bool :=
  (ks.heap.get a).any (·.created)

/-- The streams of a peer. -/
def KsnStreamClass.streamsOf (ks : KsnStreamClass) (peerName : CString) : List (List UInt8 × ℕ) :=
  ks.map.toPairs.filter fun p => keyPeer p.1 = peerName

/-- The created streams of a peer. -/
def KsnStreamClass.createdOf (ks : KsnStreamClass) (peerName : CString) : List (List UInt8 × ℕ) :=
  (ks.streamsOf peerName).filter fun p => ks.isCreated p.2

theorem mem_streamsOf {p : List UInt8 × ℕ} :
    p ∈ ks.streamsOf peerName ↔ ks.map.get p.1 = some p.2 ∧ keyPeer p.1 = peerName := by
  rw [KsnStreamClass.streamsOf, List.mem_filter, FinMap.mem_toPairs, decide_eq_true_iff]

/-! ### One stream is closed -/

/-- The state after a stream is closed because its peer is gone. -/
def KsnStreamClass.dropStream (ks : KsnStreamClass) (key : List UInt8) (a : ℕ) : KsnStreamClass :=
  { ks with
    map := ks.map.remove key
    heap := ks.heap.free a
    watchers := if ks.isCreated a then ks.watchers.filter (· ≠ a) else ks.watchers }

theorem ksnStreamClose_closeGot (howns : ks.OwnsRecords) (hkey : ks.map.get key = some a) :
    ksnStreamClose ks (keyPeer key) (keyName key) .closeGot =
      .ok (if ks.isCreated a then ks.event (.disconnected key) else [], ks.dropStream key a) := by
  obtain ⟨d, hd, hk⟩ := howns.record key a hkey
  obtain ⟨peer, name, rfl⟩ := howns.shape key a hkey
  have hcreated : ks.isCreated a = d.created := by rw [KsnStreamClass.isCreated, hd]; rfl
  have hderef : ks.deref a = .ok d := by rw [KsnStreamClass.deref, hd]
  rw [keyPeer_streamKey, keyName_streamKey, KsnStreamClass.dropStream, hcreated]
  unfold ksnStreamClose
  simp only [hkey, hderef, bind, Except.bind, if_neg hk]
  rfl

theorem KsnStreamClass.OwnsRecords.dropStream (howns : ks.OwnsRecords)
    (hkey : ks.map.get key = some a) : (ks.dropStream key a).OwnsRecords := by
  have hget : ∀ k b, (ks.dropStream key a).map.get k = some b →
      b ≠ a ∧ ks.map.get k = some b := by
    intro k b hb
    replace hb : (ks.map.remove key).get k = some b := hb
    rw [FinMap.get_remove] at hb
    split at hb
    · cases hb
    · rename_i hne
      refine ⟨?_, hb⟩
      rintro rfl
      exact hne (howns.unique k key b hb hkey)
  refine ⟨fun k b hb => ?_, fun k b hb => howns.shape k b (hget k b hb).2,
    fun k k' b hb hb' => howns.unique k k' b (hget k b hb).2 (hget k' b hb').2⟩
  obtain ⟨d, hd, hk⟩ := howns.record k b (hget k b hb).2
  exact ⟨d, (Heap.get_free _ _ _).trans ((if_neg (hget k b hb).1).trans hd), hk⟩

/-- The stream that is closed is one of the peer's, and the others are left. -/
theorem perm_streamsOf_dropStream (hkey : ks.map.get key = some a) (hpeer : keyPeer key = peerName) :
    (ks.streamsOf peerName).Perm ((key, a) :: (ks.dropStream key a).streamsOf peerName) := by
  have hperm := (FinMap.perm_toPairs_remove ks.map hkey).filter fun p => keyPeer p.1 = peerName
  rwa [List.filter_cons_of_pos (by simpa using hpeer)] at hperm

theorem isCreated_dropStream {b : ℕ} (hne : b ≠ a) :
    (ks.dropStream key a).isCreated b = ks.isCreated b := by
  show ((ks.heap.free a).get b).any _ = _
  rw [Heap.get_free, if_neg hne, KsnStreamClass.isCreated]

theorem perm_createdOf_dropStream (howns : ks.OwnsRecords) (hkey : ks.map.get key = some a)
    (hpeer : keyPeer key = peerName) :
    (ks.createdOf peerName).Perm
      ((if ks.isCreated a then [(key, a)] else []) ++
        (ks.dropStream key a).createdOf peerName) := by
  have hrest : ((ks.dropStream key a).streamsOf peerName).filter (fun p => ks.isCreated p.2) =
      (ks.dropStream key a).createdOf peerName := by
    refine List.filter_congr fun p hp => (isCreated_dropStream ?_).symm
    rintro rfl
    have hget : (ks.map.remove key).get p.1 = some p.2 := (mem_streamsOf.mp hp).1
    rw [FinMap.get_remove] at hget
    split at hget
    · cases hget
    · rename_i hne
      exact hne (howns.unique p.1 key p.2 hget hkey)
  have hperm := (perm_streamsOf_dropStream hkey hpeer).filter fun p => ks.isCreated p.2
  rw [List.filter_cons, hrest] at hperm
  refine hperm.trans (.of_eq ?_)
  split <;> rfl

/-! ### All of them are closed -/

/-- What `ksnStreamClosePeer` has done at its end. -/
structure PeerClosed (ks : KsnStreamClass) (peerName : CString) (effects : List StreamEffect)
    (ks' : KsnStreamClass) : Prop where
  /-- The streams of the peer are gone from the map, and nothing else is. -/
  map : ∀ k, ks'.map.get k = if keyPeer k = peerName then none else ks.map.get k
  /-- Their records are freed, and no other is changed. -/
  heap : ∀ a, ks'.heap.get a =
    if a ∈ (ks.streamsOf peerName).map Prod.snd then none else ks.heap.get a
  /-- The watchers of the created ones are stopped. -/
  watchers : ks'.watchers = ks.watchers.filter (· ∉ (ks.createdOf peerName).map Prod.snd)
  kq : ks'.kq = ks.kq
  /-- One event for each of the created ones is all that the application and the peers see. -/
  effects : effects.Perm
    (if ks.kq.eventCb then (ks.createdOf peerName).map fun p => .disconnected p.1 else [])

theorem PeerClosed.refl (hnone : ks.streamsOf peerName = []) : PeerClosed ks peerName [] ks := by
  have hcreated : ks.createdOf peerName = [] := by rw [KsnStreamClass.createdOf, hnone]; rfl
  refine ⟨fun k => ?_, fun a => by simp [hnone], by simp [hcreated], rfl, by simp [hcreated]⟩
  split
  · rename_i hpeer
    cases hk : ks.map.get k with
    | none => rfl
    | some a =>
      have hmem : (k, a) ∈ ks.streamsOf peerName := mem_streamsOf.mpr ⟨hk, hpeer⟩
      rw [hnone] at hmem
      cases hmem
  · rfl

/-- One stream of the peer, and then the others. -/
theorem PeerClosed.cons (howns : ks.OwnsRecords) (hkey : ks.map.get key = some a)
    (hpeer : keyPeer key = peerName)
    (h : PeerClosed (ks.dropStream key a) peerName effects ks') :
    PeerClosed ks peerName
      ((if ks.isCreated a then ks.event (.disconnected key) else []) ++ effects) ks' := by
  have hstreams := perm_streamsOf_dropStream hkey hpeer
  have hcreated := perm_createdOf_dropStream howns hkey hpeer
  refine ⟨fun k => ?_, fun b => ?_, ?_, h.kq, ?_⟩
  · have hget : (ks.dropStream key a).map.get k = if k = key then none else ks.map.get k :=
      FinMap.get_remove _ _ _
    rw [h.map, hget]
    by_cases hk : k = key
    · rw [if_pos hk, hk, if_pos hpeer, if_pos hpeer]
    · rw [if_neg hk]
  · have hget : (ks.dropStream key a).heap.get b = if b = a then none else ks.heap.get b :=
      Heap.get_free _ _ _
    rw [h.heap, hget]
    have hmem : b ∈ (ks.streamsOf peerName).map Prod.snd ↔
        b = a ∨ b ∈ ((ks.dropStream key a).streamsOf peerName).map Prod.snd := by
      rw [(hstreams.map Prod.snd).mem_iff, List.map_cons, List.mem_cons]
    by_cases hb : b = a
    · rw [if_pos hb, if_pos (hmem.mpr (.inl hb)), ite_self]
    · rw [if_neg hb]
      by_cases hin : b ∈ ((ks.dropStream key a).streamsOf peerName).map Prod.snd
      · rw [if_pos hin, if_pos (hmem.mpr (.inr hin))]
      · rw [if_neg hin, if_neg fun h => (hmem.mp h).elim hb hin]
  · have hmem : ∀ b, b ∈ (ks.createdOf peerName).map Prod.snd ↔
        (ks.isCreated a = true ∧ b = a) ∨
          b ∈ ((ks.dropStream key a).createdOf peerName).map Prod.snd := by
      intro b
      rw [(hcreated.map Prod.snd).mem_iff, List.map_append, List.mem_append]
      split <;> simp_all
    rw [h.watchers]
    simp only [hmem]
    show List.filter _ (if _ then _ else _) = _
    cases ks.isCreated a with
    | false => simp
    | true =>
      rw [if_pos rfl, List.filter_filter]
      refine List.filter_congr fun b _ => ?_
      simp [Bool.and_comm]
  · have hrest : effects.Perm (if ks.kq.eventCb then
        ((ks.dropStream key a).createdOf peerName).map fun p => .disconnected p.1 else []) :=
      h.effects
    refine (hrest.append_left _).trans ?_
    unfold KsnStreamClass.event
    cases ks.kq.eventCb with
    | false => simp
    | true =>
      have hevent := hcreated.map fun p : List UInt8 × ℕ => StreamEffect.disconnected p.1
      refine .trans (.of_eq ?_) hevent.symm
      rw [List.map_append]
      cases ks.isCreated a <;> rfl

/-- The walk closes the first stream of the peer that it meets. -/
theorem closePeerWalk_cases (peerName : CString) (howns : ks.OwnsRecords)
    {entries : List (List UInt8 × ℕ)} (hentries : ∀ p ∈ entries, ks.map.get p.1 = some p.2) :
    ((∀ p ∈ entries, keyPeer p.1 ≠ peerName) ∧
      ∀ again, closePeerWalk again peerName ks entries = some (.ok ([], ks))) ∨
    ∃ key a, ks.map.get key = some a ∧ keyPeer key = peerName ∧
      ∀ again, closePeerWalk again peerName ks entries =
        (again (ks.dropStream key a)).map (·.map fun r =>
          ((if ks.isCreated a then ks.event (.disconnected key) else []) ++ r.1, r.2)) := by
  induction entries with
  | nil => exact .inl ⟨by simp, fun _ => rfl⟩
  | cons p entries ih =>
    obtain ⟨key, a⟩ := p
    rw [List.forall_mem_cons] at hentries ⊢
    simp only [closePeerWalk]
    by_cases hpeer : keyPeer key = peerName
    · refine .inr ⟨key, a, hentries.1, hpeer, fun again => ?_⟩
      simp only [if_pos hpeer, ksnStreamClose_closeGot howns hentries.1]
    · simp only [if_neg hpeer]
      rcases ih hentries.2 with ⟨hnone, he⟩ | hsome
      · exact .inl ⟨⟨hpeer, hnone⟩, he⟩
      · exact .inr hsome

/-- The calls are nested no deeper than there are streams of the peer. -/
theorem exists_closePeerBy_eq_some {order : FinMap (List UInt8) ℕ → List (List UInt8 × ℕ)}
    (horder : ∀ m, (order m).Perm m.toPairs) (peerName : CString) (howns : ks.OwnsRecords) :
    ∃ effects ks', PeerClosed ks peerName effects ks' ∧
      ∀ depth, (ks.streamsOf peerName).length < depth →
        ksnStreamClosePeerBy order peerName depth ks = some (.ok (effects, ks')) := by
  induction hn : (ks.streamsOf peerName).length using Nat.strong_induction_on generalizing ks with
  | _ n ih =>
    have hentries : ∀ p ∈ order ks.map, ks.map.get p.1 = some p.2 :=
      fun p hp => (FinMap.mem_toPairs _ _ _).mp ((horder ks.map).mem_iff.mp hp)
    rcases closePeerWalk_cases peerName howns hentries with
      ⟨hnone, he⟩ | ⟨key, a, hkey, hpeer, he⟩
    · refine ⟨[], ks, .refl ?_, fun depth hdepth => ?_⟩
      · refine List.filter_eq_nil_iff.mpr fun p hp => ?_
        simpa using hnone p ((horder ks.map).mem_iff.mpr hp)
      · obtain ⟨depth, rfl⟩ := Nat.exists_eq_add_one_of_ne_zero (Nat.ne_zero_of_lt hdepth)
        exact he _
    · have hlen := (perm_streamsOf_dropStream hkey hpeer).length_eq
      rw [List.length_cons] at hlen
      obtain ⟨effects, ks', hclosed, hrest⟩ := ih _ (by omega) (howns.dropStream hkey) rfl
      refine ⟨_, ks', hclosed.cons howns hkey hpeer, fun depth hdepth => ?_⟩
      obtain ⟨depth, rfl⟩ := Nat.exists_eq_add_one_of_ne_zero (Nat.ne_zero_of_lt hdepth)
      rw [ksnStreamClosePeerBy, he, hrest depth (by omega)]
      rfl

/-- A stream of another peer keeps its record. -/
theorem KsnStreamClass.OwnsRecords.not_mem_streamsOf (howns : ks.OwnsRecords)
    (hkey : ks.map.get key = some a) (hpeer : keyPeer key ≠ peerName) :
    a ∉ (ks.streamsOf peerName).map Prod.snd := by
  intro hmem
  obtain ⟨p, hp, rfl⟩ := List.mem_map.mp hmem
  rw [mem_streamsOf] at hp
  exact hpeer (howns.unique key p.1 p.2 hkey hp.1 ▸ hp.2)

/-- A stream that another peer has is what it was. -/
def KsnStreamClass.SameStream (ks ks' : KsnStreamClass) (key : List UInt8) (a : ℕ) : Prop :=
  ks'.map.get key = some a ∧ ks'.heap.get a = ks.heap.get a ∧
    (a ∈ ks'.watchers ↔ a ∈ ks.watchers)

theorem PeerClosed.others (h : PeerClosed ks peerName effects ks') (howns : ks.OwnsRecords)
    (hkey : ks.map.get key = some a) (hpeer : keyPeer key ≠ peerName) :
    ks.SameStream ks' key a := by
  have hout := howns.not_mem_streamsOf hkey hpeer
  have hcreated : a ∉ (ks.createdOf peerName).map Prod.snd :=
    fun hmem => hout ((List.filter_sublist.map Prod.snd).subset hmem)
  refine ⟨by rw [h.map, if_neg hpeer, hkey], by rw [h.heap, if_neg hout], ?_⟩
  rw [h.watchers, List.mem_filter, decide_eq_true hcreated]
  exact and_iff_left rfl

/-- No stream has two events, and no packet is sent. -/
theorem PeerClosed.nodup_effects (h : PeerClosed ks peerName effects ks') : effects.Nodup := by
  rw [h.effects.nodup_iff]
  split
  · have hkeys : ((ks.createdOf peerName).map Prod.fst).Nodup :=
      ((List.filter_sublist.trans List.filter_sublist).map Prod.fst).nodup
        (FinMap.nodup_toPairs ks.map)
    have hmap := hkeys.map (f := StreamEffect.disconnected) fun _ _ he => by simpa using he
    rwa [List.map_map] at hmap
  · exact List.nodup_nil

theorem PeerClosed.mem_effects (h : PeerClosed ks peerName effects ks') (e : StreamEffect) :
    e ∈ effects ↔ ks.kq.eventCb = true ∧
      ∃ key a, ks.map.get key = some a ∧ keyPeer key = peerName ∧ ks.isCreated a = true ∧
        e = .disconnected key := by
  rw [h.effects.mem_iff]
  cases ks.kq.eventCb with
  | false => simp
  | true =>
    simp only [if_true, List.mem_map, KsnStreamClass.createdOf, List.mem_filter, true_and]
    constructor
    · rintro ⟨p, ⟨hp, hcreated⟩, rfl⟩
      rw [mem_streamsOf] at hp
      exact ⟨p.1, p.2, hp.1, hp.2, hcreated, rfl⟩
    · rintro ⟨key, a, hkey, hpeer, hcreated, rfl⟩
      exact ⟨(key, a), ⟨mem_streamsOf.mpr ⟨hkey, hpeer⟩, hcreated⟩, rfl⟩

/-! ### Every map that the module can have -/

/-- The map is the same, and its records are where they were, with keys. -/
theorem KsnStreamClass.OwnsRecords.of_same (howns : ks.OwnsRecords) (hmap : ks'.map = ks.map)
    (hheap : ∀ k a d, ks.map.get k = some a → ks.heap.get a = some d → d.key ≠ none →
      ∃ d', ks'.heap.get a = some d' ∧ d'.key ≠ none) : ks'.OwnsRecords := by
  refine ⟨fun k a hk => ?_, hmap ▸ howns.shape, hmap ▸ howns.unique⟩
  rw [hmap] at hk
  obtain ⟨d, hd, hkey⟩ := howns.record k a hk
  exact hheap k a d hk hd hkey

theorem KsnStreamClass.OwnsRecords.setQueue (howns : ks.OwnsRecords)
    (kq : KsnCQueClass KqCallback ℕ) : ({ ks with kq := kq } : KsnStreamClass).OwnsRecords :=
  howns.of_same rfl fun _ _ d _ hd hkey => ⟨d, hd, hkey⟩

theorem KsnStreamClass.OwnsRecords.update (howns : ks.OwnsRecords) (b : ℕ)
    (f : KsnStreamMapData → KsnStreamMapData) (hf : ∀ d, (f d).key = d.key) (watchers : List ℕ) :
    ({ ks with heap := ks.heap.update b f, watchers := watchers } : KsnStreamClass).OwnsRecords := by
  refine howns.of_same rfl fun k a d _ hd hkey => ?_
  by_cases hab : a = b
  · refine ⟨f d, (Heap.get_update _ _ _ _).trans ?_, by rwa [hf]⟩
    rw [if_pos hab, ← hab, hd]
    rfl
  · exact ⟨d, (Heap.get_update _ _ _ _).trans ((if_neg hab).trans hd), hkey⟩

theorem KsnStreamClass.OwnsRecords.connectWatchers (howns : ks.OwnsRecords) (a : ℕ) :
    (ks.connectWatchers a).OwnsRecords :=
  howns.update a (fun d => { d with created := true }) (fun _ => rfl) _

theorem KsnStreamClass.OwnsRecords.pblMapAdd (howns : ks.OwnsRecords) (peer name : CString)
    (hk : d.key ≠ none) : (ks.pblMapAdd (streamKey peer name) d).2.OwnsRecords := by
  have hold : ∀ k a, ks.map.get k = some a → a ≠ ks.heap.next := by
    intro k a hkey
    obtain ⟨d', hd', -⟩ := howns.record k a hkey
    exact Heap.ne_next_of_get hd'
  have hget : ∀ k b, (ks.map.add (streamKey peer name) ks.heap.next).get k = some b →
      (k = streamKey peer name ∧ b = ks.heap.next) ∨
        (k ≠ streamKey peer name ∧ ks.map.get k = some b) := by
    intro k b hb
    rw [FinMap.get_add] at hb
    split at hb
    · exact .inl ⟨‹_›, (Option.some.inj hb).symm⟩
    · exact .inr ⟨‹_›, hb⟩
  have hmap := map_pblMapAdd ks (streamKey peer name) d
  refine ⟨fun k b hb => ?_, fun k b hb => ?_, fun k k' b hb hb' => ?_⟩
  · have hlive : ∀ old, ks.map.get (streamKey peer name) = some old → b ≠ old := by
      rintro old hkey rfl
      rcases hget k b (hmap ▸ hb) with ⟨-, hnext⟩ | ⟨hne, hkb⟩
      · exact hold _ _ hkey hnext
      · exact hne (howns.unique _ _ _ hkb hkey)
    have halloc : ∃ d', (ks.heap.alloc d).get b = some d' ∧ d'.key ≠ none := by
      rcases hget k b (hmap ▸ hb) with ⟨-, rfl⟩ | ⟨-, hkb⟩
      · exact ⟨d, Heap.get_alloc_self _ _, hk⟩
      · obtain ⟨d', hd', hkey⟩ := howns.record k b hkb
        exact ⟨d', Heap.get_alloc_of_get hd' _, hkey⟩
    unfold KsnStreamClass.pblMapAdd
    cases hkey : ks.map.get (streamKey peer name) with
    | none => exact halloc
    | some old =>
      obtain ⟨d', hd', hkey'⟩ := halloc
      exact ⟨d', (Heap.get_free _ _ _).trans ((if_neg (hlive old hkey)).trans hd'), hkey'⟩
  · rcases hget k b (hmap ▸ hb) with ⟨rfl, -⟩ | ⟨-, hkb⟩
    · exact ⟨peer, name, rfl⟩
    · exact howns.shape k b hkb
  · rcases hget k b (hmap ▸ hb) with ⟨rfl, hnext⟩ | ⟨-, hkb⟩ <;>
      rcases hget k' b (hmap ▸ hb') with ⟨rfl, hnext'⟩ | ⟨-, hkb'⟩
    · rfl
    · exact absurd hnext (hold _ _ hkb')
    · exact absurd hnext' (hold _ _ hkb)
    · exact howns.unique k k' b hkb hkb'

theorem KsnStreamClass.OwnsRecords.close (howns : ks.OwnsRecords) (toPeer streamName : CString)
    {sendF : StreamCmd} (hsend : sendF ≠ .closeNotremove) {r : List StreamEffect × KsnStreamClass}
    (h : ksnStreamClose ks toPeer streamName sendF = .ok r) : r.2.OwnsRecords := by
  unfold ksnStreamClose at h
  cases hkey : ks.map.get (streamKey toPeer streamName) with
  | none =>
    simp only [hkey] at h
    obtain rfl := Except.ok.inj h
    exact howns
  | some a =>
    simp only [hkey] at h
    obtain ⟨d, -, h⟩ := bind_eq_ok h
    split at h
    · cases h
    · obtain rfl := Except.ok.inj h
      exact (howns.dropStream hkey).of_same rfl fun _ _ d _ hd hk => ⟨d, hd, hk⟩

theorem KsnStreamClass.OwnsRecords.runCalls (howns : ks.OwnsRecords)
    (calls : List (CQueCall KqCallback ℕ)) {r : List StreamEffect × KsnStreamClass}
    (h : ks.runCalls calls = .ok r) : r.2.OwnsRecords := by
  induction calls generalizing ks r with
  | nil =>
    obtain rfl := Except.ok.inj h
    exact howns
  | cons call calls ih =>
    obtain ⟨r₁, hr₁, h⟩ := bind_eq_ok h
    obtain ⟨r₂, hr₂, h⟩ := bind_eq_ok h
    obtain rfl := Except.ok.inj h
    suffices hfirst : r₁.2.OwnsRecords by
      have hrest := ih hfirst hr₂
      exact hrest
    unfold KsnStreamClass.runCall at hr₁
    split at hr₁
    · obtain ⟨d, -, hr₁⟩ := bind_eq_ok hr₁
      split at hr₁
      · split at hr₁
        · cases hr₁
        · obtain ⟨r₃, hr₃, hr₁⟩ := bind_eq_ok hr₁
          obtain rfl := Except.ok.inj hr₁
          have hclosed := howns.close _ _ (by decide) hr₃
          exact hclosed
      · obtain rfl := Except.ok.inj hr₁
        exact howns
    · obtain rfl := Except.ok.inj hr₁
      exact howns

theorem KsnStreamClass.OwnsRecords.create (howns : ks.OwnsRecords) (toPeer streamName : CString)
    (sendF : StreamCmd) (pipeIn pipeOut : Option (ℤ × ℤ))
    {r : ℤ × List StreamEffect × KsnStreamClass}
    (h : ksnStreamCreate ks toPeer streamName sendF pipeIn pipeOut = .ok r) :
    r.2.2.OwnsRecords := by
  by_cases hsend : sendF = .create ∨ sendF = .createGot
  · rcases pipeIn with - | pipeIn
    · rw [ksnStreamCreate_of_no_pipe ks toPeer streamName hsend (.inl rfl)] at h
      obtain rfl := Except.ok.inj h
      exact howns
    rcases pipeOut with - | pipeOut
    · rw [ksnStreamCreate_of_no_pipe ks toPeer streamName hsend (.inr rfl)] at h
      obtain rfl := Except.ok.inj h
      exact howns
    have hadd := howns.pblMapAdd toPeer streamName
      (d := ⟨false, pipeIn, pipeOut, some (streamKey toPeer streamName), none⟩) (by simp)
    rcases hsend with rfl | rfl
    · rw [ksnStreamCreate_create] at h
      obtain rfl := Except.ok.inj h
      have hupdate := hadd.update ks.heap.next
        (fun d => { d with cq := some ks.kq.heap.next }) (fun _ => rfl) []
      exact hupdate.of_same rfl fun _ _ d _ hd hk => ⟨d, hd, hk⟩
    · rw [ksnStreamCreate_createGot] at h
      obtain rfl := Except.ok.inj h
      exact hadd.connectWatchers _
  · unfold ksnStreamCreate at h
    simp only [if_neg hsend] at h
    split at h
    · cases hkey : ks.map.get (streamKey toPeer streamName) with
      | none =>
        simp only [hkey] at h
        obtain rfl := Except.ok.inj h
        exact howns
      | some a =>
        simp only [hkey] at h
        obtain ⟨d, -, h⟩ := bind_eq_ok h
        split at h
        · cases h
        · obtain ⟨cq, -, h⟩ := bind_eq_ok h
          obtain ⟨⟨o, calls, kq⟩, -, h⟩ := bind_eq_ok h
          obtain ⟨r₁, hr₁, h⟩ := bind_eq_ok h
          obtain rfl := Except.ok.inj h
          exact ((howns.connectWatchers a).runCalls calls hr₁).setQueue kq
    · obtain rfl := Except.ok.inj h
      exact howns

theorem KsnStreamClass.OwnsRecords.cmdStreamCb (howns : ks.OwnsRecords) (peer : CString)
    (sp : StreamPacket) (pipeIn pipeOut : Option (ℤ × ℤ)) {r : ℤ × List StreamEffect × KsnStreamClass}
    (h : Teonet.cmdStreamCb ks peer sp pipeIn pipeOut = .ok r) : r.2.2.OwnsRecords := by
  unfold Teonet.cmdStreamCb at h
  dsimp only at h
  split at h
  · obtain ⟨r₁, hr₁, h⟩ := bind_eq_ok h
    obtain rfl := Except.ok.inj h
    have hcreate := howns.create _ _ _ _ _ hr₁
    exact hcreate
  split at h
  · obtain ⟨r₁, hr₁, h⟩ := bind_eq_ok h
    obtain rfl := Except.ok.inj h
    have hcreate := howns.create _ _ _ _ _ hr₁
    exact hcreate
  split at h
  · obtain ⟨r₁, hr₁, h⟩ := bind_eq_ok h
    obtain rfl := Except.ok.inj h
    have hclose := howns.close _ _ (by decide) hr₁
    exact hclose
  split at h
  · split at h
    · obtain rfl := Except.ok.inj h
      exact howns
    · obtain ⟨d, -, h⟩ := bind_eq_ok h
      obtain rfl := Except.ok.inj h
      exact howns
  · obtain rfl := Except.ok.inj h
    exact howns

theorem KsnStreamClass.OwnsRecords.closePeerLoop (howns : ks.OwnsRecords) (peerName : CString)
    (fuel : ℕ) {r : List StreamEffect × KsnStreamClass}
    (h : Teonet.closePeerLoop ks peerName fuel = .ok r) : r.2.OwnsRecords := by
  induction fuel generalizing ks r with
  | zero =>
    obtain rfl := Except.ok.inj h
    exact howns
  | succ fuel ih =>
    rcases closePeerLoop_cases h with ⟨-, he⟩ | ⟨k, a, r₁, r₂, -, -, hclose, hrest, he⟩
    · rwa [he]
    · rw [he]
      exact ih (howns.close _ _ (by decide) hclose) hrest

/-- No event takes a record from the map, or gives it to two streams; a queue that gives an id twice
does not matter. -/
theorem step_ownsRecords (howns : ks.OwnsRecords) {op : StreamOp} (h : ks.step op = .ok ks') :
    ks'.OwnsRecords := by
  cases op with
  | create toPeer streamName pipeIn pipeOut =>
    obtain ⟨r, hr, rfl⟩ := map_eq_ok h
    exact howns.create _ _ _ _ _ hr
  | packet peer sp pipeIn pipeOut =>
    obtain ⟨r, hr, rfl⟩ := map_eq_ok h
    exact howns.cmdStreamCb _ _ _ _ hr
  | close toPeer streamName =>
    obtain ⟨r, hr, rfl⟩ := map_eq_ok h
    exact howns.close _ _ (by decide) hr
  | closePeer peerName =>
    obtain ⟨r, hr, rfl⟩ := map_eq_ok h
    exact howns.closePeerLoop _ _ hr
  | timer c =>
    simp only [KsnStreamClass.step] at h
    split at h
    · obtain ⟨r, hr, rfl⟩ := map_eq_ok h
      obtain ⟨r₁, -, hr⟩ := bind_eq_ok hr
      obtain ⟨r₂, hr₂, hr⟩ := bind_eq_ok hr
      obtain rfl := Except.ok.inj hr
      exact (howns.runCalls _ hr₂).setQueue _
    · obtain rfl := Except.ok.inj h
      exact howns
  | other op =>
    simp only [KsnStreamClass.step] at h
    split at h
    · obtain ⟨r, -, rfl⟩ := map_eq_ok h
      exact howns.setQueue _
    · obtain rfl := Except.ok.inj h
      exact howns

theorem ownsRecords_of_run {sendEvent eventCb : Bool} {ops : List StreamOp}
    (hrun : ops.foldlM KsnStreamClass.step (.start sendEvent eventCb) = .ok ks) : ks.OwnsRecords :=
  foldlM_inv (fun _ ks => ks.OwnsRecords) (fun _ _ _ _ howns hstep => step_ownsRecords howns hstep)
    hrun (start_wf sendEvent eventCb).ownsRecords

/-! ### The order of the model's map -/

theorem closePeerWalk_eq_find (again : KsnStreamClass → CloseOutcome) (peerName : CString)
    (entries : List (List UInt8 × ℕ)) :
    closePeerWalk again peerName ks entries =
      match entries.find? fun p => keyPeer p.1 = peerName with
      | none => some (.ok ([], ks))
      | some p =>
        match ksnStreamClose ks (keyPeer p.1) (keyName p.1) .closeGot with
        | .error f => some (.error f)
        | .ok (effects, ks') => (again ks').map (·.map fun r => (effects ++ r.1, r.2)) := by
  induction entries with
  | nil => rfl
  | cons p entries ih =>
    rw [closePeerWalk, List.find?_cons]
    by_cases hpeer : keyPeer p.1 = peerName
    · simp only [hpeer, if_true, decide_true]
    · simp only [hpeer, if_false, decide_false]
      exact ih

/-- `ksnStreamClosePeer` takes the entries in the order of `FinMap.toPairs`, and its fuel is
enough. -/
theorem ksnStreamClosePeerBy_toPairs (howns : ks.OwnsRecords) (peerName : CString) (fuel : ℕ)
    (hfuel : ks.map.toPairs.length ≤ fuel) :
    ksnStreamClosePeerBy FinMap.toPairs peerName (fuel + 1) ks =
      some (closePeerLoop ks peerName fuel) := by
  induction fuel generalizing ks with
  | zero =>
    rw [ksnStreamClosePeerBy, List.length_eq_zero_iff.mp (Nat.le_zero.mp hfuel)]
    rfl
  | succ fuel ih =>
    rw [ksnStreamClosePeerBy, closePeerWalk_eq_find, closePeerLoop]
    cases hfind : ks.map.toPairs.find? fun p => keyPeer p.1 = peerName with
    | none => rfl
    | some p =>
      have hkey := (FinMap.mem_toPairs _ _ _).mp (List.mem_of_find?_eq_some hfind)
      have hlen := FinMap.length_toPairs_remove ks.map hkey
      have hrest := ih (howns.dropStream hkey) (show (ks.map.remove p.1).toPairs.length ≤ fuel by omega)
      simp only [ksnStreamClose_closeGot howns hkey, hrest, bind, Except.bind, Option.map_some]
      cases closePeerLoop (ks.dropStream p.1 p.2) peerName fuel <;> rfl

/-- What `ksnStreamClosePeer` does. -/
theorem exists_ksnStreamClosePeer_eq_ok (howns : ks.OwnsRecords) (peerName : CString) :
    ∃ effects ks', ksnStreamClosePeer ks peerName = .ok (effects, ks') ∧
      PeerClosed ks peerName effects ks' := by
  obtain ⟨effects, ks', hclosed, hrun⟩ :=
    exists_closePeerBy_eq_some (fun m => List.Perm.refl m.toPairs) peerName howns
  have hlen : (ks.streamsOf peerName).length ≤ ks.map.toPairs.length := List.length_filter_le _ _
  have hloop := ksnStreamClosePeerBy_toPairs howns peerName _ le_rfl
  rw [hrun _ (by omega)] at hloop
  exact ⟨effects, ks', (Option.some.inj hloop).symm, hclosed⟩

/-! ### All walks -/

/-- **The streams of a peer are closed**: in whatever order the walks meet the entries, the calls
come to an end, no deeper than there are streams of the peer.  Then exactly the keys that begin with
the name of the peer are gone, each created stream among them has had its event once, nothing was
sent, and the streams of the other peers are what they were. -/
theorem ksnStreamClosePeer_closes (order : FinMap (List UInt8) ℕ → List (List UInt8 × ℕ))
    (horder : ∀ m, (order m).Perm m.toPairs) (peerName : CString) (ks : KsnStreamClass)
    (howns : ks.OwnsRecords) :
    ∃ effects ks',
      (∀ depth, (ks.streamsOf peerName).length < depth →
        ksnStreamClosePeerBy order peerName depth ks = some (.ok (effects, ks'))) ∧
      PeerClosed ks peerName effects ks' ∧
      effects.Nodup ∧
      (∀ e, e ∈ effects ↔ ks.kq.eventCb = true ∧
        ∃ key a, ks.map.get key = some a ∧ keyPeer key = peerName ∧ ks.isCreated a = true ∧
          e = .disconnected key) ∧
      (∀ key a, ks.map.get key = some a → keyPeer key ≠ peerName → ks.SameStream ks' key a) := by
  obtain ⟨effects, ks', hclosed, hrun⟩ := exists_closePeerBy_eq_some horder peerName howns
  exact ⟨effects, ks', hrun, hclosed, hclosed.nodup_effects, hclosed.mem_effects,
    fun key a hkey hpeer => hclosed.others howns hkey hpeer⟩

/-- The stream `name` of the peer `peer`. -/
def letterKey (peer name : UInt8) : List UInt8 :=
  streamKey (CString.ofBuf [peer]) (CString.ofBuf [name])

/-- Two streams of the peer `p`, one of which waits, and one of the peer `q`. -/
def twoPeers : KsnStreamClass where
  map := ((FinMap.empty.add (letterKey 112 115) 0).add (letterKey 112 116) 1).add
    (letterKey 113 115) 2
  heap := ((Heap.empty.alloc ⟨true, (3, 4), (5, 6), some (letterKey 112 115), none⟩).alloc
    ⟨false, (7, 8), (9, 10), some (letterKey 112 116), some 0⟩).alloc
    ⟨true, (11, 12), (13, 14), some (letterKey 113 115), none⟩
  watchers := [2, 0]
  kq := ksnCQueInit false true

theorem twoPeers_ownsRecords : twoPeers.OwnsRecords := by
  have hcases : ∀ k a, twoPeers.map.get k = some a →
      (k = letterKey 113 115 ∧ a = 2) ∨ (k = letterKey 112 116 ∧ a = 1) ∨
        (k = letterKey 112 115 ∧ a = 0) := by
    intro k a hk
    have hmem := (FinMap.mem_toPairs _ _ _).mpr hk
    rw [show twoPeers.map.toPairs =
      [(letterKey 113 115, 2), (letterKey 112 116, 1), (letterKey 112 115, 0)] from rfl] at hmem
    simpa using hmem
  refine ⟨fun k a hk => ?_, fun k a hk => ?_, fun k k' a hk hk' => ?_⟩
  · rcases hcases k a hk with ⟨rfl, rfl⟩ | ⟨rfl, rfl⟩ | ⟨rfl, rfl⟩
    all_goals exact ⟨_, rfl, by simp⟩
  · rcases hcases k a hk with ⟨rfl, rfl⟩ | ⟨rfl, rfl⟩ | ⟨rfl, rfl⟩
    all_goals exact ⟨_, _, rfl⟩
  · rcases hcases k a hk with ⟨rfl, rfl⟩ | ⟨rfl, rfl⟩ | ⟨rfl, rfl⟩ <;>
      rcases hcases k' _ hk' with ⟨rfl, h⟩ | ⟨rfl, h⟩ | ⟨rfl, h⟩ <;> first | rfl | omega

/-- The peer `p` goes, and the walks meet the entries in the order in which they came. -/
theorem ksnStreamClosePeer_closes_twoPeers :
    ∃ effects ks',
      ksnStreamClosePeerBy (fun m => m.toPairs.reverse) (CString.ofBuf [112]) 3 twoPeers =
        some (.ok (effects, ks')) ∧
      twoPeers.SameStream ks' (letterKey 113 115) 2 := by
  obtain ⟨effects, ks', hrun, -, -, -, hothers⟩ :=
    ksnStreamClosePeer_closes (fun m => m.toPairs.reverse) (fun m => m.toPairs.reverse_perm)
      (CString.ofBuf [112]) twoPeers twoPeers_ownsRecords
  exact ⟨effects, ks', hrun 3 (by decide), hothers _ _ rfl (by decide)⟩

end Teonet
