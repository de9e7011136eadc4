import Teonet.CommandData
import Teonet.Lib.FinMap
import Teonet.Lib.Runs
import Mathlib.Data.Set.Insert
import Mathlib.Data.List.Count

/-! # Subscriptions

`subscribe.c`: for every event a list of the subscribers, by name.  `find_in_list` decides for a
subscription whether the name is already there, and for an unsubscription where it is; it never
finds the empty name, which may come with a packet.

Each operation asks for something (`SScrAsk`), and `subscribersAfter` is what it asks for on the sets
of subscribers.  `Subscribed` says that the lists are these sets, without repetitions: an operation
keeps it exactly when it does not concern the empty name while that is subscribed, and
`delivers_iff` lifts this to runs. -/

namespace Teonet

open Bytes Runs

/-! ### The module -/

/-- `teoSScrListData`. -/
structure TeoSScrListData where
  ev : UInt16
  cmd : UInt8 := 0
  l0F : Bool := false
  port : Int16 := 0
  addr : CString := .empty
  data : CString
deriving DecidableEq

/-- `teoSScrClass`: the list of each event. -/
abbrev TeoSScrClass : Type := FinMap UInt16 (List TeoSScrListData)

/-- `find_in_list`; `-1` is `none`. -/
def findInList (sscr : TeoSScrClass) (peerName : CString) (ev : UInt16) : Option ℕ :=
  match sscr.get ev with
  | none => none
  | some list => list.findIdx? fun d => peerName ≠ .empty ∧ d.data = peerName

/-- The element that `teoSScrSubscription` adds; `arp` is the L0 server of an L0 client. -/
def newListData (peerName : CString) (ev : UInt16) (arp : Option (CString × ℕ)) :
    TeoSScrListData :=
  match arp with
  | none => { ev := ev, data := peerName }
  | some (addr, port) =>
    { ev := ev, data := peerName, l0F := true, addr := addr, port := Int16.ofNat port }

/-- `teoSScrSubscription`. -/
def teoSScrSubscription (sscr : TeoSScrClass) (peerName : CString) (ev : UInt16)
    (arp : Option (CString × ℕ)) : TeoSScrClass :=
  match sscr.get ev with
  | none => sscr.add ev [newListData peerName ev arp]
  | some list =>
    match findInList sscr peerName ev with
    | none => sscr.add ev (list ++ [newListData peerName ev arp])
    | some _ => sscr

/-- `teoSScrUnSubscription`, with its return value. -/
def teoSScrUnSubscription (sscr : TeoSScrClass) (peerName : CString) (ev : UInt16) :
    TeoSScrClass × Bool :=
  match sscr.get ev with
  | none => (sscr, false)
  | some list =>
    match findInList sscr peerName ev with
    | some idx => (sscr.add ev (list.eraseIdx idx), true)
    | none => (sscr, false)

/-- One event of `teoSScrUnSubscriptionAll`; `r.2` is `retval`. -/
def unSubscriptionNext (peerName : CString) (r : TeoSScrClass × ℕ) (ev : UInt16) :
    TeoSScrClass × ℕ :=
  let (sscr, removed) := teoSScrUnSubscription r.1 peerName ev
  (sscr, r.2 + removed.toNat)

/-- `teoSScrUnSubscriptionAll`, with its return value. -/
def teoSScrUnSubscriptionAll (sscr : TeoSScrClass) (peerName : CString) : TeoSScrClass × ℕ :=
  (sscr.toPairs.map Prod.fst).foldl (unSubscriptionNext peerName) (sscr, 0)

/-- `teoSScrNumberOfSubscribers`. -/
def teoSScrNumberOfSubscribers (sscr : TeoSScrClass) : ℕ := sscr.weight List.length

/-- The data of a `CMD_SUBSCRIBE_ANSWER`. -/
structure TeoSScrData where
  ev : UInt16
  cmd : UInt8
  data : List UInt8
deriving DecidableEq

/-- How a subscriber is told. -/
inductive SScrCall
  /-- `ksnCoreSendCmdto` -/
  | sendCmdto (name : CString) (data : TeoSScrData)
  /-- `ksnLNullSendToL0` -/
  | sendToL0 (addr : CString) (port : ℤ) (name : CString) (data : TeoSScrData)
deriving DecidableEq

/-- The subscriber that is told. -/
def SScrCall.name : SScrCall → CString
  | .sendCmdto name _ => name
  | .sendToL0 _ _ name _ => name

/-- `teoSScrSend`. -/
def teoSScrSend (sscr : TeoSScrClass) (ev : UInt16) (data : List UInt8) (cmd : UInt8) :
    List SScrCall :=
  match sscr.get ev with
  | none => []
  | some list => list.map fun d =>
    if d.l0F then .sendToL0 d.addr d.port.toInt d.data { ev := ev, cmd := cmd, data := data }
    else .sendCmdto d.data { ev := ev, cmd := cmd, data := data }

/-- The event that a `CMD_SUBSCRIBE` is about: two bytes, or a number in text. -/
def subscribeEv (rd : KsnCorePacketData) : UInt16 :=
  let buf := rd.data ++ rd.after
  if 6 ≤ rd.data.length ∧ buf.take 5 = textPrefix then
    UInt16.ofNat (atoi (CString.ofBuf (buf.drop 5)) % 65536).toNat
  else UInt16.ofNat (getLe16 buf)

/-- `cmd_subscribe_cb`, as far as it changes the lists; `arp` is the address and port of
`rd->arp`. -/
def cmdSubscribeCb (sscr : TeoSScrClass) (rd : KsnCorePacketData) (arp : CString × ℕ) :
    TeoSScrClass :=
  let l0 := if rd.l0F then some arp else none
  if rd.cmd = cmdSubscribe then teoSScrSubscription sscr rd.fromName (subscribeEv rd) l0
  else if rd.cmd = cmdUnsubscribe then
    (teoSScrUnSubscription sscr rd.fromName (UInt16.ofNat (getLe16 (rd.data ++ rd.after)))).1
  else if rd.cmd = cmdSubscribeRnd then
    teoSScrSubscription sscr (CString.ofBuf ((rd.data ++ rd.after).drop 2)) (subscribeEv rd) l0
  else sscr

/-- The calls that change the lists. -/
inductive SScrOp
  | subscription (peerName : CString) (ev : UInt16) (arp : Option (CString × ℕ))
  | unSubscription (peerName : CString) (ev : UInt16)
  | unSubscriptionAll (peerName : CString)
  | command (rd : KsnCorePacketData) (arp : CString × ℕ)

/-- One call. -/
def sscrStep (sscr : TeoSScrClass) : SScrOp → TeoSScrClass
  | .subscription peerName ev arp => teoSScrSubscription sscr peerName ev arp
  | .unSubscription peerName ev => (teoSScrUnSubscription sscr peerName ev).1
  | .unSubscriptionAll peerName => (teoSScrUnSubscriptionAll sscr peerName).1
  | .command rd arp => cmdSubscribeCb sscr rd arp

/-! ### What the calls ask for -/

/-- What a call asks for. -/
inductive SScrAsk
  | subscribe (name : CString) (ev : UInt16)
  | unSubscribe (name : CString) (ev : UInt16)
  | unSubscribeAll (name : CString)
  | nothing

/-- What a packet asks for: its sender is subscribed, or the peers of a type. -/
def commandAsk (rd : KsnCorePacketData) : SScrAsk :=
  if rd.cmd = cmdSubscribe then .subscribe rd.fromName (subscribeEv rd)
  else if rd.cmd = cmdUnsubscribe then
    .unSubscribe rd.fromName (UInt16.ofNat (getLe16 (rd.data ++ rd.after)))
  else if rd.cmd = cmdSubscribeRnd then
    .subscribe (CString.ofBuf ((rd.data ++ rd.after).drop 2)) (subscribeEv rd)
  else .nothing

/-- See `SScrAsk`. -/
def SScrOp.ask : SScrOp → SScrAsk
  | .subscription peerName ev _ => .subscribe peerName ev
  | .unSubscription peerName ev => .unSubscribe peerName ev
  | .unSubscriptionAll peerName => .unSubscribeAll peerName
  | .command rd _ => commandAsk rd

/-- The subscribers of each event. -/
abbrev Subscribers : Type := UInt16 → Set CString

/-- The subscribers after what was asked for. -/
def Subscribers.after (subs : Subscribers) : SScrAsk → Subscribers
  | .subscribe name ev => fun e => if e = ev then insert name (subs e) else subs e
  | .unSubscribe name ev => fun e => if e = ev then subs e \ {name} else subs e
  | .unSubscribeAll name => fun e => subs e \ {name}
  | .nothing => subs

/-- The subscribers after a call. -/
def subscribersAfter (subs : Subscribers) (op : SScrOp) : Subscribers := subs.after op.ask

/-- The condition on a call: it does not concern the empty name while that is subscribed. -/
def SScrGuard (subs : Subscribers) (op : SScrOp) : Prop :=
  match op.ask with
  | .subscribe name ev => name = .empty → .empty ∉ subs ev
  | .unSubscribe name ev => name = .empty → .empty ∉ subs ev
  | .unSubscribeAll name => name = .empty → ∀ ev, .empty ∉ subs ev
  | .nothing => True

/-! ### The lists as sets -/

/-- The names in the list of an event. -/
def names (sscr : TeoSScrClass) (ev : UInt16) : List CString :=
  ((sscr.get ev).getD []).map TeoSScrListData.data

/-- The lists hold the subscribers, each once. -/
def Subscribed (sscr : TeoSScrClass) (subs : Subscribers) : Prop :=
  ∀ ev, (names sscr ev).Nodup ∧ ∀ n, n ∈ names sscr ev ↔ n ∈ subs ev

/-- `teoSScrSend` tells every subscriber once and nobody else. -/
def Delivers (sscr : TeoSScrClass) (subs : Subscribers) : Prop :=
  ∀ (ev : UInt16) (data : List UInt8) (cmd : UInt8) (n : CString),
    (n ∈ subs ev → ((teoSScrSend sscr ev data cmd).map SScrCall.name).count n = 1) ∧
    (n ∉ subs ev → ((teoSScrSend sscr ev data cmd).map SScrCall.name).count n = 0)

variable {sscr : TeoSScrClass} {subs : Subscribers} {n : CString} {ev : UInt16}

theorem teoSScrSend_names (sscr : TeoSScrClass) (ev : UInt16) (data : List UInt8) (cmd : UInt8) :
    (teoSScrSend sscr ev data cmd).map SScrCall.name = names sscr ev := by
  unfold teoSScrSend names
  cases sscr.get ev with
  | none => rfl
  | some list =>
    dsimp only
    rw [List.map_map, Option.getD_some]
    refine List.map_congr_left fun d _ => ?_
    dsimp only [Function.comp]
    split_ifs <;> rfl

theorem delivers_iff_subscribed : Delivers sscr subs ↔ Subscribed sscr subs := by
  constructor
  · intro h ev
    have hcount : ∀ n, (n ∈ subs ev → (names sscr ev).count n = 1) ∧
        (n ∉ subs ev → (names sscr ev).count n = 0) := by
      intro n
      have hn := h ev [] 0 n
      rwa [teoSScrSend_names] at hn
    refine ⟨List.nodup_iff_count_le_one.mpr fun n => ?_, fun n => ?_⟩
    · by_cases hn : n ∈ subs ev
      · rw [(hcount n).1 hn]
      · rw [(hcount n).2 hn]
        exact Nat.zero_le 1
    · by_cases hn : n ∈ subs ev
      · refine ⟨fun _ => hn, fun _ => List.count_pos_iff.mp ?_⟩
        rw [(hcount n).1 hn]
        exact Nat.one_pos
      · exact ⟨fun hmem => absurd hmem (List.count_eq_zero.mp ((hcount n).2 hn)),
          fun hmem => absurd hmem hn⟩
  · intro h ev data cmd n
    obtain ⟨hnodup, hmem⟩ := h ev
    rw [teoSScrSend_names]
    exact ⟨fun hn => List.count_eq_one_of_mem hnodup ((hmem n).mpr hn),
      fun hn => List.count_eq_zero.mpr fun hin => hn ((hmem n).mp hin)⟩

/-! ### One call -/

theorem findInList_isSome (sscr : TeoSScrClass) (n : CString) (ev : UInt16) :
    (findInList sscr n ev).isSome ↔ n ≠ .empty ∧ n ∈ names sscr ev := by
  unfold findInList names
  cases sscr.get ev with
  | none => simp
  | some list =>
    rw [List.findIdx?_isSome]
    simp only [List.any_eq_true, decide_eq_true_eq, Option.getD_some, List.mem_map]
    exact ⟨fun ⟨d, hd, hne, hn⟩ => ⟨hne, d, hd, hn⟩, fun ⟨hne, d, hd, hn⟩ => ⟨d, hd, hne, hn⟩⟩

/-- The list of an event; an event without one has no subscribers. -/
def subscribers (sscr : TeoSScrClass) (ev : UInt16) : List TeoSScrListData :=
  (sscr.get ev).getD []

theorem names_eq (sscr : TeoSScrClass) (ev : UInt16) :
    names sscr ev = (subscribers sscr ev).map TeoSScrListData.data := rfl

theorem subscribers_add (sscr : TeoSScrClass) (ev e : UInt16) (list : List TeoSScrListData) :
    subscribers (sscr.add ev list) e = if e = ev then list else subscribers sscr e := by
  unfold subscribers
  rw [FinMap.get_add]
  split_ifs <;> rfl

theorem newListData_data (n : CString) (ev : UInt16) (arp : Option (CString × ℕ)) :
    (newListData n ev arp).data = n := by
  cases arp <;> rfl

/-- **A subscription** adds an element for the name, unless it is found. -/
theorem subscribers_teoSScrSubscription (sscr : TeoSScrClass) (n : CString) (ev e : UInt16)
    (arp : Option (CString × ℕ)) :
    subscribers (teoSScrSubscription sscr n ev arp) e =
      if e = ev ∧ ¬ (n ≠ .empty ∧ n ∈ names sscr ev) then
        subscribers sscr ev ++ [newListData n ev arp]
      else subscribers sscr e := by
  have hfind := findInList_isSome sscr n ev
  unfold teoSScrSubscription
  cases hget : sscr.get ev with
  | none =>
    have hnil : subscribers sscr ev = [] := by
      rw [subscribers, hget]
      rfl
    dsimp only
    rw [subscribers_add, names_eq, hnil]
    simp
  | some list =>
    have hlist : subscribers sscr ev = list := by
      rw [subscribers, hget]
      rfl
    dsimp only
    cases hidx : findInList sscr n ev with
    | none =>
      rw [hidx] at hfind
      have hnot : ¬ (n ≠ .empty ∧ n ∈ names sscr ev) := fun h => by simpa using hfind.mpr h
      simp only [hnot, not_false_eq_true, and_true]
      rw [subscribers_add, hlist]
    | some idx =>
      rw [hidx] at hfind
      have hfound : n ≠ .empty ∧ n ∈ names sscr ev := hfind.mp rfl
      rw [if_neg fun h => h.2 hfound]

theorem names_teoSScrSubscription (sscr : TeoSScrClass) (n : CString) (ev e : UInt16)
    (arp : Option (CString × ℕ)) :
    names (teoSScrSubscription sscr n ev arp) e =
      if e = ev ∧ ¬ (n ≠ .empty ∧ n ∈ names sscr ev) then names sscr ev ++ [n]
      else names sscr e := by
  rw [names_eq, subscribers_teoSScrSubscription]
  split_ifs with h
  · rw [List.map_append, List.map_singleton, newListData_data, ← names_eq]
  · rfl

/-- **An unsubscription** removes the first element for the name, unless it is the empty one, and
returns whether there was one. -/
theorem subscribers_teoSScrUnSubscription (sscr : TeoSScrClass) (n : CString) (ev e : UInt16) :
    subscribers (teoSScrUnSubscription sscr n ev).1 e =
      if e = ev ∧ n ≠ .empty then (subscribers sscr ev).eraseP fun d => d.data = n
      else subscribers sscr e := by
  have hfind := findInList_isSome sscr n ev
  have habsent : ¬ (n ≠ .empty ∧ n ∈ names sscr ev) →
      subscribers sscr e = if e = ev ∧ n ≠ .empty then
        (subscribers sscr ev).eraseP fun d => d.data = n else subscribers sscr e := by
    intro hnot
    split_ifs with h
    · rw [List.eraseP_of_forall_not, h.1]
      intro d hd hn
      exact hnot ⟨h.2, List.mem_map.mpr ⟨d, hd, of_decide_eq_true hn⟩⟩
    · rfl
  unfold teoSScrUnSubscription
  cases hget : sscr.get ev with
  | none =>
    refine habsent fun h => ?_
    rw [names, hget] at h
    exact absurd h.2 (by simp)
  | some list =>
    dsimp only
    cases hidx : findInList sscr n ev with
    | none =>
      rw [hidx] at hfind
      exact habsent fun h => by simpa using hfind.mpr h
    | some idx =>
      have hne : n ≠ .empty := (hfind.mp (by rw [hidx]; rfl)).1
      have herase : list.eraseIdx idx = (subscribers sscr ev).eraseP fun d => d.data = n := by
        unfold findInList at hidx
        rw [hget] at hidx
        simp only [hne, ne_eq, not_false_eq_true, true_and] at hidx
        rw [subscribers, hget, Option.getD_some, List.eraseP_eq_eraseIdx, hidx]
      rw [subscribers_add, herase]
      simp [hne]

theorem names_teoSScrUnSubscription (sscr : TeoSScrClass) (n : CString) (ev e : UInt16) :
    names (teoSScrUnSubscription sscr n ev).1 e =
      if e = ev ∧ n ≠ .empty then (names sscr ev).erase n else names sscr e := by
  rw [names_eq, subscribers_teoSScrUnSubscription]
  split_ifs with h
  · have hsame : (fun x => x == n) ∘ TeoSScrListData.data =
        fun d : TeoSScrListData => decide (d.data = n) := by
      funext d
      exact beq_eq_decide d.data n
    rw [names_eq, List.erase_eq_eraseP', List.eraseP_map, hsame]
  · rfl

/-- A call keeps the lists and the subscribers together exactly on the condition: a subscription, -/
theorem Subscribed.subscribe_iff (h : Subscribed sscr subs) (n : CString) (ev : UInt16)
    (arp : Option (CString × ℕ)) :
    Subscribed (teoSScrSubscription sscr n ev arp) (subs.after (.subscribe n ev)) ↔
      (n = .empty → .empty ∉ subs ev) := by
  obtain ⟨hnodup, hmem⟩ := h ev
  have hnames := fun e => names_teoSScrSubscription sscr n ev e arp
  constructor
  · rintro h' rfl hin
    have hnew := (h' ev).1
    rw [hnames, if_pos ⟨rfl, fun hfound => hfound.1 rfl⟩] at hnew
    exact (List.nodup_append.mp hnew).2.2 _ ((hmem _).mpr hin) _ (List.mem_singleton_self _) rfl
  · intro hguard e
    have hafter : subs.after (.subscribe n ev) e =
        if e = ev then insert n (subs e) else subs e := rfl
    rw [hnames, hafter]
    by_cases he : e = ev
    · subst he
      rw [if_pos rfl]
      by_cases hfound : n ≠ .empty ∧ n ∈ names sscr e
      · rw [if_neg fun hadd => hadd.2 hfound,
          Set.insert_eq_of_mem ((hmem n).mp hfound.2)]
        exact ⟨hnodup, hmem⟩
      · have hnot : n ∉ names sscr e := by
          intro hin
          by_cases hempty : n = .empty
          · exact hguard hempty (hempty ▸ (hmem n).mp hin)
          · exact hfound ⟨hempty, hin⟩
        rw [if_pos ⟨rfl, hfound⟩]
        refine ⟨List.nodup_append.mpr ⟨hnodup, List.nodup_singleton n, ?_⟩, fun m => ?_⟩
        · rintro a ha b hb rfl
          rw [List.mem_singleton] at hb
          exact hnot (hb ▸ ha)
        · rw [List.mem_append, List.mem_singleton, hmem, Set.mem_insert_iff, or_comm]
    · rw [if_neg fun hadd => he hadd.1, if_neg he]
      exact h e

/-- an unsubscription, -/
theorem Subscribed.unSubscribe_iff (h : Subscribed sscr subs) (n : CString) (ev : UInt16) :
    Subscribed (teoSScrUnSubscription sscr n ev).1 (subs.after (.unSubscribe n ev)) ↔
      (n = .empty → .empty ∉ subs ev) := by
  obtain ⟨hnodup, hmem⟩ := h ev
  have hnames := names_teoSScrUnSubscription sscr n ev
  have hafter : ∀ e, subs.after (.unSubscribe n ev) e =
      if e = ev then subs e \ {n} else subs e := fun _ => rfl
  constructor
  · rintro h' rfl hin
    have hgone := ((h' ev).2 .empty).mp (by
      rw [hnames, if_neg fun hrem => hrem.2 rfl]
      exact (hmem _).mpr hin)
    rw [hafter, if_pos rfl] at hgone
    exact hgone.2 rfl
  · intro hguard e
    rw [hnames, hafter]
    by_cases he : e = ev
    · subst he
      rw [if_pos rfl]
      by_cases hempty : n = .empty
      · have hnot : n ∉ subs e := hempty ▸ hguard hempty
        rw [if_neg fun hrem => hrem.2 hempty, Set.sdiff_singleton_eq_self hnot]
        exact ⟨hnodup, hmem⟩
      · rw [if_pos ⟨rfl, hempty⟩]
        refine ⟨hnodup.erase n, fun m => ?_⟩
        rw [hnodup.mem_erase_iff, hmem, Set.mem_sdiff, Set.mem_singleton_iff, and_comm]
    · rw [if_neg fun hrem => he hrem.1, if_neg he]
      exact h e

/-- An unsubscription from the events of a list. -/
theorem Subscribed.unSubscribe_events (h : Subscribed sscr subs) {n : CString} (hne : n ≠ .empty)
    (evs : List UInt16) :
    Subscribed (evs.foldl (fun s ev => (teoSScrUnSubscription s n ev).1) sscr)
      (fun e => if e ∈ evs then subs e \ {n} else subs e) := by
  induction evs generalizing sscr subs with
  | nil => simpa using h
  | cons ev evs ih =>
    have hnext := ih ((h.unSubscribe_iff n ev).mpr fun he => absurd he hne)
    intro e
    obtain ⟨hnodup, hmem⟩ := hnext e
    refine ⟨hnodup, fun m => ?_⟩
    rw [List.foldl_cons, hmem]
    change (m ∈ if e ∈ evs then (if e = ev then subs e \ {n} else subs e) \ {n}
      else if e = ev then subs e \ {n} else subs e) ↔ _
    by_cases he : e = ev
    · by_cases hin : e ∈ evs
      · simp [he ▸ hin, he]
      · simp [he ▸ hin, he]
    · simp [he]

/-- The lists are what the unsubscriptions leave one after the other. -/
theorem teoSScrUnSubscriptionAll_fst (sscr : TeoSScrClass) (n : CString) :
    (teoSScrUnSubscriptionAll sscr n).1 =
      (sscr.toPairs.map Prod.fst).foldl (fun s ev => (teoSScrUnSubscription s n ev).1) sscr := by
  unfold teoSScrUnSubscriptionAll
  generalize sscr.toPairs.map Prod.fst = evs
  suffices h : ∀ r : TeoSScrClass × ℕ, (evs.foldl (unSubscriptionNext n) r).1 =
      evs.foldl (fun s ev => (teoSScrUnSubscription s n ev).1) r.1 from h (sscr, 0)
  induction evs with
  | nil => exact fun _ => rfl
  | cons ev evs ih => exact fun r => ih (unSubscriptionNext n r ev)

theorem teoSScrUnSubscription_empty (sscr : TeoSScrClass) (ev : UInt16) :
    (teoSScrUnSubscription sscr .empty ev).1 = sscr := by
  have hfind := findInList_isSome sscr .empty ev
  unfold teoSScrUnSubscription
  cases sscr.get ev with
  | none => rfl
  | some list =>
    dsimp only
    cases hidx : findInList sscr .empty ev with
    | none => rfl
    | some idx =>
      rw [hidx] at hfind
      exact absurd rfl (hfind.mp rfl).1

/-- and an unsubscription from all events. -/
theorem Subscribed.unSubscribeAll_iff (h : Subscribed sscr subs) (n : CString) :
    Subscribed (teoSScrUnSubscriptionAll sscr n).1 (subs.after (.unSubscribeAll n)) ↔
      (n = .empty → ∀ ev, .empty ∉ subs ev) := by
  have hafter : ∀ e, subs.after (.unSubscribeAll n) e = subs e \ {n} := fun _ => rfl
  rw [teoSScrUnSubscriptionAll_fst]
  by_cases hempty : n = .empty
  · have hsame : (sscr.toPairs.map Prod.fst).foldl
        (fun s ev => (teoSScrUnSubscription s n ev).1) sscr = sscr := by
      generalize sscr.toPairs.map Prod.fst = evs
      induction evs with
      | nil => rfl
      | cons ev evs ih => rw [List.foldl_cons, hempty, teoSScrUnSubscription_empty, ← hempty, ih]
    rw [hsame]
    refine ⟨fun h' _ ev hin => ?_, fun hguard ev => ?_⟩
    · have hgone := ((h' ev).2 .empty).mp (((h ev).2 .empty).mpr hin)
      rw [hafter, hempty] at hgone
      exact hgone.2 rfl
    · rw [hafter, Set.sdiff_singleton_eq_self (hempty ▸ hguard hempty ev)]
      exact h ev
  · refine ⟨fun _ he => absurd he hempty, fun _ e => ?_⟩
    obtain ⟨hnodup, hmem⟩ := h.unSubscribe_events hempty (sscr.toPairs.map Prod.fst) e
    refine ⟨hnodup, fun m => (hmem m).trans ?_⟩
    rw [hafter]
    dsimp only
    by_cases he : e ∈ sscr.toPairs.map Prod.fst
    · rw [if_pos he]
    · -- an event without a list has no subscribers
      have hnone : sscr.get e = none := by
        cases hget : sscr.get e with
        | none => rfl
        | some list =>
          exact absurd (List.mem_map_of_mem ((FinMap.mem_toPairs _ _ _).mpr hget)) he
      have hnot : m ∉ subs e := by
        rw [← (h e).2 m, names, hnone]
        simp
      rw [if_neg he, Set.mem_sdiff]
      exact ⟨fun hm => absurd hm hnot, fun hm => absurd hm.1 hnot⟩

theorem cmdSubscribeCb_iff (h : Subscribed sscr subs) (rd : KsnCorePacketData)
    (arp : CString × ℕ) :
    Subscribed (cmdSubscribeCb sscr rd arp) (subs.after (commandAsk rd)) ↔
      SScrGuard subs (.command rd arp) := by
  have hguard : SScrGuard subs (.command rd arp) = match commandAsk rd with
      | .subscribe name ev => name = .empty → .empty ∉ subs ev
      | .unSubscribe name ev => name = .empty → .empty ∉ subs ev
      | .unSubscribeAll name => name = .empty → ∀ ev, .empty ∉ subs ev
      | .nothing => True := rfl
  rw [hguard]
  unfold cmdSubscribeCb commandAsk
  by_cases hsub : rd.cmd = cmdSubscribe
  · simp only [if_pos hsub]
    exact h.subscribe_iff _ _ _
  · by_cases hunsub : rd.cmd = cmdUnsubscribe
    · simp only [if_neg hsub, if_pos hunsub]
      exact h.unSubscribe_iff _ _
    · by_cases hrnd : rd.cmd = cmdSubscribeRnd
      · simp only [if_neg hsub, if_neg hunsub, if_pos hrnd]
        exact h.subscribe_iff _ _ _
      · simp only [if_neg hsub, if_neg hunsub, if_neg hrnd]
        exact iff_of_true h trivial

theorem sscrStep_iff (op : SScrOp) (h : Subscribed sscr subs) :
    Subscribed (sscrStep sscr op) (subscribersAfter subs op) ↔ SScrGuard subs op := by
  cases op with
  | subscription peerName ev arp => exact h.subscribe_iff peerName ev arp
  | unSubscription peerName ev => exact h.unSubscribe_iff peerName ev
  | unSubscriptionAll peerName => exact h.unSubscribeAll_iff peerName
  | command rd arp => exact cmdSubscribeCb_iff h rd arp

/-- **Who is told**: in every state of a run each subscriber of an event is told once and nobody
else is, exactly when no call of the run concerns the empty name while that is subscribed to the
event. -/
theorem delivers_iff (ops : List SScrOp) :
    (∀ past, past <+: ops → (∀ ev, (names (past.foldl sscrStep FinMap.empty) ev).Nodup) ∧
        Delivers (past.foldl sscrStep FinMap.empty) (past.foldl subscribersAfter fun _ => ∅)) ↔
      Always SScrGuard subscribersAfter (fun _ => ∅) ops := by
  have hstart : Subscribed FinMap.empty fun _ => ∅ := by
    intro ev
    have hnil : names FinMap.empty ev = [] := by
      rw [names, FinMap.get_empty]
      rfl
    rw [hnil]
    exact ⟨List.nodup_nil, fun n => by simp⟩
  rw [← always_iff (fun _ _ op h => sscrStep_iff op h) hstart ops]
  refine forall₂_congr fun past _ => ?_
  rw [delivers_iff_subscribed]
  exact ⟨fun h => h.2, fun h => ⟨fun ev => (h ev).1, h⟩⟩

/-- A `CMD_SUBSCRIBE_RND` for event 5 without a type, twice. -/
def emptyType : SScrOp :=
  .command { addr := .empty, port := 9000, cmd := cmdSubscribeRnd, data := [5, 0, 0] }
    (.empty, 9000)

/-- The empty name stands twice in the list. -/
theorem not_delivers :
    ¬ ∀ ops : List SScrOp, ∀ past, past <+: ops →
      (∀ ev, (names (past.foldl sscrStep FinMap.empty) ev).Nodup) ∧
        Delivers (past.foldl sscrStep FinMap.empty)
          (past.foldl subscribersAfter fun _ => ∅) := by
  intro h
  have hnodup := (h [emptyType, emptyType] _ (List.prefix_refl _)).1 5
  exact absurd hnodup (by decide)

end Teonet
