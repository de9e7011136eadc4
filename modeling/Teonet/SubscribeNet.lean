import Teonet.Lib.Parties
import Teonet.SubscribeRoutes

/-! # Publishers and subscribers

Any number of hosts that subscribe to each other's events, over the links of `Lib/Parties` (the
TR-UDP channels, which keep the order).  A host asks with `teoSScrSubscribe` and
`teoSScrUnSubscribe`; the other one handles the commands in `cmd_subscribe_cb`, sends its events
with `teoSScrSend`, and what comes back raises `EV_K_SUBSCRIBE`.  All of them may do so at any time,
and others than hosts, L0 clients say, may be among the subscribers.

`sscrNet_delivers` is the result for every run: a host is told of exactly the events that the other
one has sent while it was subscribed there, in order and each once; and once its requests have
arrived, it is subscribed to those events that it asked for last. -/

namespace Teonet

open Bytes Parties Runs

/-! ### The hosts -/

/-- The hosts: their names and addresses, and the host that `ksnCoreSendCmdto` reaches by a name. -/
structure SScrNet (ι : Type) where
  name : ι → CString
  addr : ι → CString
  port : ι → ℕ
  hostOf : CString → Option ι

/-- The data of the packets: a command for `cmd_subscribe_cb`, or a `CMD_SUBSCRIBE_ANSWER`. -/
inductive SScrMessage
  | command (cmd : UInt8) (data : List UInt8)
  | answer (data : TeoSScrData)
deriving DecidableEq

/-- What happens at a host: it calls a function of the module, or a packet comes in that is not from
one of the hosts. -/
inductive SScrHappens
  | subscribe (peerName : CString) (ev : UInt16)
  | unSubscribe (peerName : CString) (ev : UInt16)
  | send (ev : UInt16) (data : List UInt8) (cmd : UInt8)
  | call (op : SScrOp)

/-- The events that the module raises. -/
inductive SScrTold
  /-- `EV_K_SUBSCRIBED` -/
  | subscribed (rd : KsnCorePacketData)
  /-- `EV_K_SUBSCRIBE` -/
  | subscribe (fromName : CString) (data : TeoSScrData)
deriving DecidableEq

/-- `teoSScrSubscribe`: the command and its data. -/
def teoSScrSubscribe (ev : UInt16) : SScrMessage := .command cmdSubscribe (le16 ev.toNat)

/-- `teoSScrUnSubscribe`. -/
def teoSScrUnSubscribe (ev : UInt16) : SScrMessage := .command cmdUnsubscribe (le16 ev.toNat)

/-- The events of `cmd_subscribe_cb`. -/
def cmdSubscribeEvents (rd : KsnCorePacketData) : List SScrTold :=
  if rd.cmd = cmdSubscribe ∨ rd.cmd = cmdSubscribeRnd then [.subscribed rd] else []

variable {ι : Type} [DecidableEq ι] (net : SScrNet ι)

/-- A packet from a host. -/
def SScrNet.packet (k : ι) (cmd : UInt8) (data : List UInt8) : KsnCorePacketData where
  addr := net.addr k
  port := net.port k
  fromName := net.name k
  fromLen := nameLen (net.name k)
  cmd := cmd
  data := data

/-- A command to a name. -/
def SScrNet.sendCmdto (n : CString) (m : SScrMessage) : List (ι × SScrMessage) :=
  ((net.hostOf n).map fun k => (k, m)).toList

/-- What a call of `teoSScrSend` sends to the hosts. -/
def SScrNet.sendCall : SScrCall → List (ι × SScrMessage)
  | .sendCmdto n data => net.sendCmdto n (.answer data)
  | .sendToL0 _ _ _ _ => []

/-- What a host does. -/
def SScrNet.handle : Handler ι TeoSScrClass SScrMessage SScrHappens SScrTold
  | _, sscr, .happens (.subscribe peerName ev) =>
    (sscr, net.sendCmdto peerName (teoSScrSubscribe ev), [])
  | _, sscr, .happens (.unSubscribe peerName ev) =>
    (sscr, net.sendCmdto peerName (teoSScrUnSubscribe ev), [])
  | _, sscr, .happens (.send ev data cmd) =>
    (sscr, (teoSScrSend sscr ev data cmd).flatMap net.sendCall, [])
  | _, sscr, .happens (.call op) => (sscrStep sscr op, [], [])
  | _, sscr, .receives k (.command cmd data) =>
    (cmdSubscribeCb sscr (net.packet k cmd data) (net.addr k, net.port k), [],
      cmdSubscribeEvents (net.packet k cmd data))
  | _, sscr, .receives k (.answer data) => (sscr, [], [.subscribe (net.name k) data])

/-- A name reaches the host that has it, and only this one. -/
structure SScrNet.Sound : Prop where
  hostOf_name : ∀ i, net.hostOf (net.name i) = some i
  name_of_hostOf : ∀ n i, net.hostOf n = some i → n = net.name i
  name_ne : ∀ i, net.name i ≠ .empty

/-- A name that is no host's. -/
def SScrNet.Other (n : CString) : Prop := n ≠ .empty ∧ net.hostOf n = none

/-- The calls at a host are not about the hosts, which ask for themselves. -/
def SScrNet.Fair (_ : ι) : SScrHappens → Prop
  | .call op => match op.ask with
    | .subscribe n _ => net.Other n
    | .unSubscribe n _ => net.Other n
    | .unSubscribeAll n => net.Other n
    | .nothing => True
  | _ => True

/-- The hosts when they have just started. -/
structure SScrNetStart (s : Net ι TeoSScrClass SScrMessage) : Prop where
  party : ∀ i, s.party i = FinMap.empty
  link : ∀ i j, s.link i j = []

/-! ### What is owed -/

/-- What a host is asked for by an input. -/
def SScrNet.asks : Input ι SScrMessage SScrHappens → SScrAsk
  | .happens (.call op) => op.ask
  | .receives k (.command cmd data) => commandAsk (net.packet k cmd data)
  | _ => .nothing

open Classical in
/-- An event for a name that is sent while the name is subscribed. -/
noncomputable def owes (n : CString) (subs : Subscribers) :
    Input ι SScrMessage SScrHappens → List TeoSScrData
  | .happens (.send ev data cmd) =>
    if n ∈ subs ev then [{ ev := ev, cmd := cmd, data := data }] else []
  | _ => []

/-- The events that a host sends while a name is subscribed. -/
noncomputable def SScrNet.owed (n : CString) :
    Subscribers → List (Input ι SScrMessage SScrHappens) → List TeoSScrData :=
  outputs fun subs x => (subs.after (net.asks x), owes n subs x)

/-- What a host has been told by another one. -/
def SScrNet.toldBy (j : ι) (os : List SScrTold) : List TeoSScrData :=
  os.filterMap fun
    | .subscribe n data => if n = net.name j then some data else none
    | .subscribed _ => none

/-- The answers among messages, -/
def answers (l : List SScrMessage) : List TeoSScrData :=
  l.filterMap fun
    | .answer data => some data
    | .command _ _ => none

/-- and the commands. -/
def commands (l : List SScrMessage) : List SScrMessage :=
  l.filter fun
    | .answer _ => false
    | .command _ _ => true

/-- Whether a host wants to be told of an event by another one, after what happens. -/
def SScrNet.wantsNext (j : ι) (ev : UInt16) (b : Bool) : SScrHappens → Bool
  | .subscribe n e => if n = net.name j ∧ e = ev then true else b
  | .unSubscribe n e => if n = net.name j ∧ e = ev then false else b
  | _ => b

/-- The last request of a host to another one about an event was to subscribe. -/
def SScrNet.wants (j : ι) (ev : UInt16) (hs : List SScrHappens) : Bool :=
  hs.foldl (net.wantsNext j ev) false

variable {net} {sscr : TeoSScrClass} {subs : Subscribers} {n : CString} {ev : UInt16} {i j k : ι}

/-! ### Requests -/

omit [DecidableEq ι] in
theorem getLe16_request (ev : UInt16) :
    UInt16.ofNat (getLe16 (le16 ev.toNat ++ ([] : List UInt8))) = ev := by
  rw [getLe16_le16_append_of_lt ev.toNat_lt]
  exact UInt16.ofNat_toNat

omit [DecidableEq ι] in
theorem subscribeEv_packet (net : SScrNet ι) (k : ι) (ev : UInt16) :
    subscribeEv (net.packet k cmdSubscribe (le16 ev.toNat)) = ev := by
  have hbinary : IsText (net.packet k cmdSubscribe (le16 ev.toNat)) → False := fun htext => by
    have hlen : 6 ≤ (le16 ev.toNat).length := htext.1
    rw [le_length] at hlen
    omega
  rw [(subscribeEv_eq_iff _).mpr fun htext => (hbinary htext).elim]
  exact getLe16_request ev

omit [DecidableEq ι] in
/-- The command of `teoSScrSubscribe` subscribes its sender, -/
theorem cmdSubscribeCb_subscribe (net : SScrNet ι) (k : ι) (ev : UInt16) (arp : CString × ℕ) :
    cmdSubscribeCb sscr (net.packet k cmdSubscribe (le16 ev.toNat)) arp =
      teoSScrSubscription sscr (net.name k) ev none := by
  have hev := subscribeEv_packet net k ev
  unfold cmdSubscribeCb
  rw [hev]
  rfl

omit [DecidableEq ι] in
/-- and that of `teoSScrUnSubscribe` takes this back. -/
theorem cmdSubscribeCb_unSubscribe (net : SScrNet ι) (k : ι) (ev : UInt16) (arp : CString × ℕ) :
    cmdSubscribeCb sscr (net.packet k cmdUnsubscribe (le16 ev.toNat)) arp =
      (teoSScrUnSubscription sscr (net.name k) ev).1 := by
  have hev := getLe16_request ev
  unfold cmdSubscribeCb
  rw [show (net.packet k cmdUnsubscribe (le16 ev.toNat)).data ++
    (net.packet k cmdUnsubscribe (le16 ev.toNat)).after = le16 ev.toNat ++ [] from rfl, hev]
  rfl

omit [DecidableEq ι] in
theorem commandAsk_subscribe (net : SScrNet ι) (k : ι) (ev : UInt16) :
    commandAsk (net.packet k cmdSubscribe (le16 ev.toNat)) = .subscribe (net.name k) ev := by
  have hev := subscribeEv_packet net k ev
  unfold commandAsk
  rw [hev]
  rfl

omit [DecidableEq ι] in
theorem commandAsk_unSubscribe (net : SScrNet ι) (k : ι) (ev : UInt16) :
    commandAsk (net.packet k cmdUnsubscribe (le16 ev.toNat)) = .unSubscribe (net.name k) ev := by
  have hev := getLe16_request ev
  unfold commandAsk
  rw [show (net.packet k cmdUnsubscribe (le16 ev.toNat)).data ++
    (net.packet k cmdUnsubscribe (le16 ev.toNat)).after = le16 ev.toNat ++ [] from rfl, hev]
  rfl

/-- What a host sends to another one. -/
def SScrMessage.Ok (_ _ : ι) (m : SScrMessage) : Prop :=
  (∃ ev, m = teoSScrSubscribe ev ∨ m = teoSScrUnSubscribe ev) ∨ ∃ data, m = .answer data

/-! ### What a host keeps -/

/-- The hosts in the lists are there as peers. -/
def Plain (net : SScrNet ι) (sscr : TeoSScrClass) : Prop :=
  ∀ ev, ∀ d ∈ subscribers sscr ev, net.hostOf d.data ≠ none → d.l0F = false

/-- The lists of a host hold the subscribers, and the hosts among them as peers. -/
structure Publishes (net : SScrNet ι) (sscr : TeoSScrClass) (subs : Subscribers) : Prop where
  subscribed : Subscribed sscr subs
  empty : ∀ ev, .empty ∉ subs ev
  plain : Plain net sscr

omit [DecidableEq ι] in
theorem Publishes.start : Publishes net FinMap.empty fun _ => ∅ where
  subscribed ev := by
    have hnil : names FinMap.empty ev = [] := by
      rw [names, FinMap.get_empty]
      rfl
    rw [hnil]
    exact ⟨List.nodup_nil, fun n => by simp⟩
  empty ev := Set.notMem_empty _
  plain ev d hd := by
    rw [subscribers, FinMap.get_empty] at hd
    exact absurd hd List.not_mem_nil

omit [DecidableEq ι] in
theorem Publishes.subscription (h : Publishes net sscr subs) (hn : n ≠ .empty)
    (arp : Option (CString × ℕ)) (hplain : net.hostOf n ≠ none → arp = none) :
    Publishes net (teoSScrSubscription sscr n ev arp) (subs.after (.subscribe n ev)) where
  subscribed := (h.subscribed.subscribe_iff n ev arp).mpr fun he => absurd he hn
  empty e := by
    show ¬ .empty ∈ if e = ev then insert n (subs e) else subs e
    split_ifs
    · exact fun hin => hin.elim (fun he => hn he.symm) (h.empty e)
    · exact h.empty e
  plain e d hd := by
    rw [subscribers_teoSScrSubscription] at hd
    split_ifs at hd
    · rcases List.mem_append.mp hd with hd | hd
      · exact h.plain ev d hd
      · obtain rfl := List.mem_singleton.mp hd
        rw [newListData_data]
        intro hhost
        rw [hplain hhost]
        rfl
    · exact h.plain e d hd

omit [DecidableEq ι] in
theorem Publishes.unSubscription (h : Publishes net sscr subs) (hn : n ≠ .empty) :
    Publishes net (teoSScrUnSubscription sscr n ev).1 (subs.after (.unSubscribe n ev)) where
  subscribed := (h.subscribed.unSubscribe_iff n ev).mpr fun he => absurd he hn
  empty e := by
    show ¬ .empty ∈ if e = ev then subs e \ {n} else subs e
    split_ifs
    · exact fun hin => h.empty e hin.1
    · exact h.empty e
  plain e d hd := by
    rw [subscribers_teoSScrUnSubscription] at hd
    split_ifs at hd
    · exact h.plain ev d (List.mem_of_mem_eraseP hd)
    · exact h.plain e d hd

omit [DecidableEq ι] in
theorem Publishes.unSubscriptionAll (h : Publishes net sscr subs) (hn : n ≠ .empty) :
    Publishes net (teoSScrUnSubscriptionAll sscr n).1 (subs.after (.unSubscribeAll n)) where
  subscribed := (h.subscribed.unSubscribeAll_iff n).mpr fun he => absurd he hn
  empty ev hin := h.empty ev hin.1
  plain := by
    rw [teoSScrUnSubscriptionAll_fst]
    have hstep : ∀ (s : TeoSScrClass) (e : UInt16), Plain net s →
        Plain net (teoSScrUnSubscription s n e).1 := by
      intro s e hs ev d hd
      rw [subscribers_teoSScrUnSubscription] at hd
      split_ifs at hd
      · exact hs e d (List.mem_of_mem_eraseP hd)
      · exact hs ev d hd
    exact unSubscriptions_inv hstep _ h.plain

omit [DecidableEq ι] in
/-- A call that is not about the hosts. -/
theorem Publishes.call (h : Publishes net sscr subs) {op : SScrOp} (hfair : net.Fair i (.call op)) :
    Publishes net (sscrStep sscr op) (subs.after op.ask) := by
  cases op with
  | subscription m e arp => exact h.subscription hfair.1 arp fun hhost => absurd hfair.2 hhost
  | unSubscription m e => exact h.unSubscription hfair.1
  | unSubscriptionAll m => exact h.unSubscriptionAll hfair.1
  | command rd arp =>
    have hask : SScrOp.ask (.command rd arp) = commandAsk rd := rfl
    simp only [SScrNet.Fair, hask] at hfair
    show Publishes net (cmdSubscribeCb sscr rd arp) (subs.after (commandAsk rd))
    unfold cmdSubscribeCb
    unfold commandAsk at hfair ⊢
    generalize (if rd.l0F then some arp else none) = l0
    dsimp only
    split_ifs at hfair ⊢ with hsub hunsub hrnd
    · exact h.subscription hfair.1 _ fun hhost => absurd hfair.2 hhost
    · exact h.unSubscription hfair.1
    · exact h.subscription hfair.1 _ fun hhost => absurd hfair.2 hhost
    · exact h

omit [DecidableEq ι] in
/-- **One input** keeps the lists and the subscribers together. -/
theorem Publishes.given (h : Publishes net sscr subs) (hsound : net.Sound)
    {x : Input ι SScrMessage SScrHappens}
    (hx : x.Ok (fun i _ => net.Fair i) SScrMessage.Ok i sscr) :
    Publishes net (alone net.handle i sscr x) (subs.after (net.asks x)) := by
  match x, hx with
  | .happens (.subscribe _ _), _ => exact h
  | .happens (.unSubscribe _ _), _ => exact h
  | .happens (.send _ _ _), _ => exact h
  | .happens (.call op), hfair => exact h.call (i := i) hfair
  | .receives k m, hm =>
    rcases hm with ⟨ev, rfl | rfl⟩ | ⟨data, rfl⟩
    · show Publishes net (cmdSubscribeCb sscr (net.packet k cmdSubscribe (le16 ev.toNat))
        (net.addr k, net.port k))
        (subs.after (commandAsk (net.packet k cmdSubscribe (le16 ev.toNat))))
      rw [cmdSubscribeCb_subscribe, commandAsk_subscribe]
      exact h.subscription (hsound.name_ne k) none fun _ => rfl
    · show Publishes net (cmdSubscribeCb sscr (net.packet k cmdUnsubscribe (le16 ev.toNat))
        (net.addr k, net.port k))
        (subs.after (commandAsk (net.packet k cmdUnsubscribe (le16 ev.toNat))))
      rw [cmdSubscribeCb_unSubscribe, commandAsk_unSubscribe]
      exact h.unSubscription (hsound.name_ne k)
    · exact h

/-! ### What a host sends -/

theorem messagesTo_sendCmdto (hsound : net.Sound) (m : SScrMessage) :
    messagesTo i (net.sendCmdto n m) = if n = net.name i then [m] else [] := by
  unfold SScrNet.sendCmdto
  split_ifs with hn
  · rw [hn, hsound.hostOf_name]
    simp [messagesTo]
  · cases hhost : net.hostOf n with
    | none => rfl
    | some k =>
      have hk : k ≠ i := by
        rintro rfl
        exact hn (hsound.name_of_hostOf n k hhost)
      simp [messagesTo, hk]

theorem messagesTo_flatMap {α : Type} (f : α → List (ι × SScrMessage)) (l : List α) :
    messagesTo i (l.flatMap f) = l.flatMap fun a => messagesTo i (f a) := by
  unfold messagesTo
  rw [List.filterMap_flatMap]

/-- The elements of a name in a list without repetitions. -/
theorem flatMap_of_nodup {α β : Type} [DecidableEq β] {f : α → β} {b : β} {γ : Type} (c : γ)
    {l : List α} (h : (l.map f).Nodup) :
    (l.flatMap fun a => if f a = b then [c] else []) = if b ∈ l.map f then [c] else [] := by
  induction l with
  | nil => rfl
  | cons a l ih =>
    rw [List.map_cons, List.nodup_cons] at h
    rw [List.flatMap_cons, ih h.2, List.map_cons]
    by_cases hb : f a = b
    · have hnot : b ∉ l.map f := hb ▸ h.1
      simp [hb, hnot]
    · simp [hb, Ne.symm hb]

/-- **An event** is sent to the hosts among the subscribers, once to each. -/
theorem messagesTo_teoSScrSend (h : Publishes net sscr subs) (hsound : net.Sound) (ev : UInt16)
    (data : List UInt8) (cmd : UInt8) :
    messagesTo i ((teoSScrSend sscr ev data cmd).flatMap net.sendCall) =
      if net.name i ∈ names sscr ev then [.answer { ev := ev, cmd := cmd, data := data }]
      else [] := by
  have hcall : ∀ d ∈ subscribers sscr ev,
      messagesTo i (net.sendCall (d.call { ev := ev, cmd := cmd, data := data })) =
        if d.data = net.name i then [.answer { ev := ev, cmd := cmd, data := data }] else [] := by
    intro d hd
    unfold TeoSScrListData.call
    cases hl0 : d.l0F with
    | false => exact messagesTo_sendCmdto hsound _
    | true =>
      have hne : d.data ≠ net.name i := by
        intro hname
        have hplain := h.plain ev d hd (by
          rw [hname, hsound.hostOf_name]
          exact Option.some_ne_none _)
        rw [hl0] at hplain
        cases hplain
      rw [if_neg hne]
      rfl
  rw [messagesTo_flatMap, teoSScrSend_eq, List.flatMap_map, List.flatMap_congr hcall,
    flatMap_of_nodup _ (by rw [← names_eq]; exact (h.subscribed ev).1), ← names_eq]

theorem answers_append (l l' : List SScrMessage) : answers (l ++ l') = answers l ++ answers l' :=
  List.filterMap_append

theorem commands_append (l l' : List SScrMessage) : commands (l ++ l') = commands l ++ commands l' :=
  List.filter_append _ _

/-- What an input makes a host send to another one is what it owes it. -/
theorem answers_handle (h : Publishes net sscr subs) (hsound : net.Sound)
    (x : Input ι SScrMessage SScrHappens) :
    answers (messagesTo i (net.handle j sscr x).2.1) = owes (net.name i) subs x := by
  match x with
  | .happens (.subscribe n ev) =>
    show answers (messagesTo i (net.sendCmdto n (teoSScrSubscribe ev))) = []
    rw [messagesTo_sendCmdto hsound]
    split_ifs <;> rfl
  | .happens (.unSubscribe n ev) =>
    show answers (messagesTo i (net.sendCmdto n (teoSScrUnSubscribe ev))) = []
    rw [messagesTo_sendCmdto hsound]
    split_ifs <;> rfl
  | .happens (.send ev data cmd) =>
    show answers (messagesTo i ((teoSScrSend sscr ev data cmd).flatMap net.sendCall)) = _
    rw [messagesTo_teoSScrSend h hsound, owes]
    by_cases hin : net.name i ∈ subs ev
    · rw [if_pos hin, if_pos (((h.subscribed ev).2 _).mpr hin)]
      rfl
    · rw [if_neg hin, if_neg fun hlist => hin (((h.subscribed ev).2 _).mp hlist)]
      rfl
  | .happens (.call _) => rfl
  | .receives _ (.command _ _) => rfl
  | .receives _ (.answer _) => rfl

/-- **A run of inputs** keeps the lists and the subscribers together, and sends what is owed. -/
theorem Publishes.run (h : Publishes net sscr subs) (hsound : net.Sound)
    {xs : List (Input ι SScrMessage SScrHappens)}
    (hxs : ∀ x ∈ xs, ∀ a : TeoSScrClass, x.Ok (fun i _ => net.Fair i) SScrMessage.Ok j a) :
    Publishes net (xs.foldl (alone net.handle j) sscr)
        (xs.foldl (fun subs x => subs.after (net.asks x)) subs) ∧
      answers (messagesTo i (sends net.handle j sscr xs)) = net.owed (net.name i) subs xs := by
  induction xs generalizing sscr subs with
  | nil => exact ⟨h, rfl⟩
  | cons x xs ih =>
    have hnext := h.given hsound (hxs x List.mem_cons_self sscr)
    obtain ⟨hrun, hsends⟩ := ih hnext fun y hy => hxs y (List.mem_cons_of_mem x hy)
    refine ⟨hrun, ?_⟩
    show answers (messagesTo i ((net.handle j sscr x).2.1 ++
      sends net.handle j (alone net.handle j sscr x) xs)) = owes (net.name i) subs x ++ _
    rw [messagesTo_append, answers_append, hsends, answers_handle h hsound]
    rfl

omit [DecidableEq ι] in
/-- A host sends requests and answers. -/
theorem sscrNet_keeps (net : SScrNet ι) :
    Keeps net.handle (fun _ _ => True) (fun i _ => net.Fair i) SScrMessage.Ok := by
  have hcmdto : ∀ {n : CString} {m : SScrMessage} {p : ι × SScrMessage},
      p ∈ net.sendCmdto n m → p.2 = m := by
    intro n m p hp
    obtain ⟨k, -, rfl⟩ := Option.map_eq_some_iff.mp (Option.mem_toList.mp hp)
    rfl
  intro j sscr x _ _
  refine ⟨trivial, fun p hp => ?_⟩
  match x with
  | .happens (.subscribe n ev) => exact .inl ⟨ev, .inl (hcmdto hp)⟩
  | .happens (.unSubscribe n ev) => exact .inl ⟨ev, .inr (hcmdto hp)⟩
  | .happens (.send ev data cmd) =>
    obtain ⟨c, hc, hp⟩ := List.mem_flatMap.mp hp
    cases c with
    | sendCmdto n d => exact .inr ⟨d, hcmdto hp⟩
    | sendToL0 addr port n d => exact absurd hp List.not_mem_nil
  | .happens (.call _) => exact absurd hp List.not_mem_nil
  | .receives _ (.command _ _) => exact absurd hp List.not_mem_nil
  | .receives _ (.answer _) => exact absurd hp List.not_mem_nil

/-! ### What a host is told -/

omit [DecidableEq ι] in
theorem SScrNet.Sound.name_inj (hsound : net.Sound) (h : net.name i = net.name j) : i = j := by
  have hi := hsound.hostOf_name i
  rw [h, hsound.hostOf_name j] at hi
  exact (Option.some.inj hi).symm

omit [DecidableEq ι] in
theorem toldBy_append (os os' : List SScrTold) :
    net.toldBy j (os ++ os') = net.toldBy j os ++ net.toldBy j os' :=
  List.filterMap_append

theorem toldBy_handle (hsound : net.Sound) (x : Input ι SScrMessage SScrHappens) :
    net.toldBy j (net.handle i sscr x).2.2 = answers (receivedFrom j [x]) := by
  match x with
  | .happens (.subscribe _ _) => rfl
  | .happens (.unSubscribe _ _) => rfl
  | .happens (.send _ _ _) => rfl
  | .happens (.call _) => rfl
  | .receives k (.command cmd data) =>
    rw [receivedFrom_receives]
    show net.toldBy j (cmdSubscribeEvents (net.packet k cmd data)) = _
    unfold cmdSubscribeEvents
    split_ifs <;> rfl
  | .receives k (.answer data) =>
    rw [receivedFrom_receives]
    by_cases hk : k = j
    · subst hk
      simp [SScrNet.handle, SScrNet.toldBy, answers]
    · have hname : net.name k ≠ net.name j := fun h => hk (hsound.name_inj h)
      simp [SScrNet.handle, SScrNet.toldBy, answers, hk, hname]

/-- A host is told of the answers that it receives. -/
theorem toldBy_givesOut (hsound : net.Sound) (sscr : TeoSScrClass)
    (xs : List (Input ι SScrMessage SScrHappens)) :
    net.toldBy j (givesOut net.handle i sscr xs) = answers (receivedFrom j xs) := by
  apply outputs_eq_events_of_forall (net.toldBy j) (fun xs => answers (receivedFrom j xs)) rfl
  · exact toldBy_append
  · intro xs ys
    rw [receivedFrom_append, answers_append]
  · exact fun sscr => toldBy_handle hsound

/-! ### What a host has asked for -/

/-- The request to a host that is made by what happens. -/
def SScrNet.request (net : SScrNet ι) (j : ι) : SScrHappens → Option SScrMessage
  | .subscribe n ev => if n = net.name j then some (teoSScrSubscribe ev) else none
  | .unSubscribe n ev => if n = net.name j then some (teoSScrUnSubscribe ev) else none
  | _ => none

/-- Whether an event is asked for after one more request. -/
def wantsAfter (ev : UInt16) (b : Bool) (m : SScrMessage) : Bool :=
  if m = teoSScrSubscribe ev then true else if m = teoSScrUnSubscribe ev then false else b

theorem commands_handle (hsound : net.Sound) (x : Input ι SScrMessage SScrHappens) :
    commands (messagesTo j (net.handle i sscr x).2.1) =
      (happened [x]).filterMap (net.request j) := by
  match x with
  | .happens (.subscribe n ev) =>
    show commands (messagesTo j (net.sendCmdto n (teoSScrSubscribe ev))) = _
    rw [messagesTo_sendCmdto hsound]
    by_cases hn : n = net.name j
    · simp [happened, SScrNet.request, commands, teoSScrSubscribe, hn]
    · simp [happened, SScrNet.request, commands, hn]
  | .happens (.unSubscribe n ev) =>
    show commands (messagesTo j (net.sendCmdto n (teoSScrUnSubscribe ev))) = _
    rw [messagesTo_sendCmdto hsound]
    by_cases hn : n = net.name j
    · simp [happened, SScrNet.request, commands, teoSScrUnSubscribe, hn]
    · simp [happened, SScrNet.request, commands, hn]
  | .happens (.send ev data cmd) =>
    refine List.filter_eq_nil_iff.mpr fun m hm => ?_
    obtain ⟨c, hc, hp⟩ := List.mem_flatMap.mp (mem_messagesTo.mp hm)
    cases c with
    | sendCmdto n d =>
      obtain ⟨k, -, hk⟩ := Option.map_eq_some_iff.mp (Option.mem_toList.mp hp)
      cases hk
      exact Bool.false_ne_true
    | sendToL0 addr port n d => exact absurd hp List.not_mem_nil
  | .happens (.call _) => rfl
  | .receives _ (.command _ _) => rfl
  | .receives _ (.answer _) => rfl

/-- The requests that a host sends are those that it makes. -/
theorem commands_sends (hsound : net.Sound) (sscr : TeoSScrClass)
    (xs : List (Input ι SScrMessage SScrHappens)) :
    commands (messagesTo j (sends net.handle i sscr xs)) =
      (happened xs).filterMap (net.request j) := by
  apply outputs_eq_events_of_forall (fun l => commands (messagesTo j l))
    (fun xs => (happened xs).filterMap (net.request j)) rfl
  · intro l l'
    rw [messagesTo_append, commands_append]
  · intro xs ys
    rw [happened_append, List.filterMap_append]
  · exact fun sscr => commands_handle hsound

omit [DecidableEq ι] in
theorem teoSScrSubscribe_inj {e : UInt16} (h : teoSScrSubscribe e = teoSScrSubscribe ev) : e = ev := by
  have hdata := (SScrMessage.command.inj h).2
  have hnum := congrArg getLe16 hdata
  rw [← List.append_nil (le16 e.toNat), ← List.append_nil (le16 ev.toNat),
    getLe16_le16_append_of_lt e.toNat_lt, getLe16_le16_append_of_lt ev.toNat_lt] at hnum
  exact UInt16.toNat_inj.mp hnum

omit [DecidableEq ι] in
theorem teoSScrUnSubscribe_inj {e : UInt16} (h : teoSScrUnSubscribe e = teoSScrUnSubscribe ev) :
    e = ev := by
  apply teoSScrSubscribe_inj
  rw [teoSScrSubscribe, teoSScrSubscribe, (SScrMessage.command.inj h).2]

omit [DecidableEq ι] in
theorem teoSScrSubscribe_ne (e : UInt16) : teoSScrSubscribe e ≠ teoSScrUnSubscribe ev := by
  intro h
  exact absurd (SScrMessage.command.inj h).1 (by decide)

omit [DecidableEq ι] in
theorem wantsAfter_subscribe (e : UInt16) (b : Bool) :
    wantsAfter ev b (teoSScrSubscribe e) = if e = ev then true else b := by
  unfold wantsAfter
  rw [if_neg (teoSScrSubscribe_ne e)]
  by_cases he : e = ev
  · rw [if_pos he, he, if_pos rfl]
  · rw [if_neg he, if_neg fun h => he (teoSScrSubscribe_inj h)]

omit [DecidableEq ι] in
theorem wantsAfter_unSubscribe (e : UInt16) (b : Bool) :
    wantsAfter ev b (teoSScrUnSubscribe e) = if e = ev then false else b := by
  unfold wantsAfter
  rw [if_neg (teoSScrSubscribe_ne ev).symm]
  by_cases he : e = ev
  · rw [if_pos he, he, if_pos rfl]
  · rw [if_neg he, if_neg fun h => he (teoSScrUnSubscribe_inj h)]

omit [DecidableEq ι] in
/-- What a host asks for is what its requests ask for. -/
theorem wants_eq (hs : List SScrHappens) (b : Bool) :
    hs.foldl (net.wantsNext j ev) b =
      (hs.filterMap (net.request j)).foldl (wantsAfter ev) b := by
  induction hs generalizing b with
  | nil => rfl
  | cons h hs ih =>
    rw [List.foldl_cons, ih]
    match h with
    | .subscribe n e =>
      by_cases hn : n = net.name j
      · simp [SScrNet.request, SScrNet.wantsNext, hn, wantsAfter_subscribe]
      · simp [SScrNet.request, SScrNet.wantsNext, hn]
    | .unSubscribe n e =>
      by_cases hn : n = net.name j
      · simp [SScrNet.request, SScrNet.wantsNext, hn, wantsAfter_unSubscribe]
      · simp [SScrNet.request, SScrNet.wantsNext, hn]
    | .send _ _ _ => rfl
    | .call _ => rfl

omit [DecidableEq ι] in
/-- A call about other names does not change whether a host is subscribed. -/
theorem mem_after_ask (hsound : net.Sound) {ask : SScrAsk}
    (hother : match ask with
      | .subscribe n _ | .unSubscribe n _ | .unSubscribeAll n => net.Other n
      | .nothing => True) :
    net.name i ∈ subs.after ask ev ↔ net.name i ∈ subs ev := by
  have hne : ∀ n, net.Other n → net.name i ≠ n := by
    rintro n hn rfl
    rw [SScrNet.Other, hsound.hostOf_name] at hn
    cases hn.2
  unfold Subscribers.after
  cases ask with
  | subscribe n e =>
    by_cases he : ev = e
    · simp [he, hne n hother]
    · simp [he]
  | unSubscribe n e =>
    by_cases he : ev = e
    · simp [he, hne n hother]
    · simp [he]
  | unSubscribeAll n => simp [hne n hother]
  | nothing => rfl

/-- A request to subscribe. -/
theorem mem_after_subscribe (hsound : net.Sound) (k : ι) (e : UInt16) {b : Bool}
    (hb : net.name i ∈ subs ev ↔ b = true) :
    net.name i ∈ subs.after (.subscribe (net.name k) e) ev ↔
      (commands (if k = i then [teoSScrSubscribe e] else [])).foldl (wantsAfter ev) b = true := by
  show net.name i ∈ (if ev = e then insert (net.name k) (subs ev) else subs ev) ↔ _
  by_cases hk : k = i
  · subst hk
    have hcommands : commands [teoSScrSubscribe e] = [teoSScrSubscribe e] := rfl
    rw [if_pos rfl, hcommands, List.foldl_cons, List.foldl_nil, wantsAfter_subscribe]
    by_cases he : e = ev
    · simp [he]
    · simp [he, Ne.symm he, hb]
  · have hname : net.name i ≠ net.name k := fun h => hk (hsound.name_inj h).symm
    rw [if_neg hk]
    refine Iff.trans ?_ hb
    split_ifs
    · simp [hname]
    · rfl

/-- A request to be taken out of the list. -/
theorem mem_after_unSubscribe (hsound : net.Sound) (k : ι) (e : UInt16) {b : Bool}
    (hb : net.name i ∈ subs ev ↔ b = true) :
    net.name i ∈ subs.after (.unSubscribe (net.name k) e) ev ↔
      (commands (if k = i then [teoSScrUnSubscribe e] else [])).foldl (wantsAfter ev) b = true := by
  show net.name i ∈ (if ev = e then subs ev \ {net.name k} else subs ev) ↔ _
  by_cases hk : k = i
  · subst hk
    have hcommands : commands [teoSScrUnSubscribe e] = [teoSScrUnSubscribe e] := rfl
    rw [if_pos rfl, hcommands, List.foldl_cons, List.foldl_nil, wantsAfter_unSubscribe]
    by_cases he : e = ev
    · simp [he]
    · simp [he, Ne.symm he, hb]
  · have hname : net.name i ≠ net.name k := fun h => hk (hsound.name_inj h).symm
    rw [if_neg hk]
    refine Iff.trans ?_ hb
    split_ifs
    · simp [hname]
    · rfl

/-- Whether a host is subscribed after an input follows its requests. -/
theorem mem_after_iff (hsound : net.Sound) {x : Input ι SScrMessage SScrHappens}
    (hx : x.Ok (fun i _ => net.Fair i) SScrMessage.Ok j sscr) {b : Bool}
    (hb : net.name i ∈ subs ev ↔ b = true) :
    net.name i ∈ subs.after (net.asks x) ev ↔
      (commands (receivedFrom i [x])).foldl (wantsAfter ev) b = true := by
  match x, hx with
  | .happens (.subscribe _ _), _ => exact hb
  | .happens (.unSubscribe _ _), _ => exact hb
  | .happens (.send _ _ _), _ => exact hb
  | .happens (.call op), hfair => exact (mem_after_ask hsound hfair).trans hb
  | .receives k m, hm =>
    rw [receivedFrom_receives]
    rcases hm with ⟨e, rfl | rfl⟩ | ⟨data, rfl⟩
    · show net.name i ∈ subs.after (commandAsk (net.packet k cmdSubscribe (le16 e.toNat))) ev ↔ _
      rw [commandAsk_subscribe]
      exact mem_after_subscribe hsound k e hb
    · show net.name i ∈ subs.after (commandAsk (net.packet k cmdUnsubscribe (le16 e.toNat))) ev ↔ _
      rw [commandAsk_unSubscribe]
      exact mem_after_unSubscribe hsound k e hb
    · have hcommands : ∀ c : Prop, [Decidable c] →
          commands (if c then [SScrMessage.answer data] else []) = [] := by
        intro c _
        split_ifs <;> rfl
      rw [hcommands]
      exact hb

theorem mem_run_iff (hsound : net.Sound) {xs : List (Input ι SScrMessage SScrHappens)}
    (hxs : ∀ x ∈ xs, ∀ a : TeoSScrClass, x.Ok (fun i _ => net.Fair i) SScrMessage.Ok j a) {b : Bool}
    (hb : net.name i ∈ subs ev ↔ b = true) :
    net.name i ∈ xs.foldl (fun subs x => subs.after (net.asks x)) subs ev ↔
      (commands (receivedFrom i xs)).foldl (wantsAfter ev) b = true := by
  induction xs generalizing subs b with
  | nil => exact hb
  | cons x xs ih =>
    rw [← List.singleton_append, receivedFrom_append, commands_append, List.foldl_append,
      List.foldl_append]
    exact ih (fun y hy => hxs y (List.mem_cons_of_mem x hy))
      (mem_after_iff hsound (hxs x List.mem_cons_self FinMap.empty) hb)

/-! ### Runs -/

/-- The hosts `a` and `b`. -/
def twoPublishers : SScrNet Bool where
  name i := if i then CString.ofBuf [98] else CString.ofBuf [97]
  addr _ := CString.empty
  port _ := 9000
  hostOf n :=
    if n = CString.ofBuf [98] then some true
    else if n = CString.ofBuf [97] then some false
    else none

theorem twoPublishers_sound : twoPublishers.Sound where
  hostOf_name := by decide
  name_of_hostOf n i h := by
    unfold twoPublishers at h ⊢
    dsimp only at h ⊢
    split_ifs at h with hb ha
    · cases h
      exact hb
    · cases h
      exact ha
  name_ne := by decide

/-- The host `a` subscribes to event 5 at `b`, which sends the event before it knows, and once more. -/
def subscribeRun : List (Event Bool SScrHappens) :=
  [.happens false (.subscribe (CString.ofBuf [98]) 5), .happens true (.send 5 [1] 0),
    .deliver false true, .happens true (.send 5 [2] 0), .deliver true false]

end Teonet
