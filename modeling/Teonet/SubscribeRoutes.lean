import Teonet.Subscribe

/-! # Routes and numbers of subscribers

The element of a subscriber holds how it is told: `route` is what the call that adds the element asks
for, and `teoSScrSend_route` says that the element keeps it until the subscriber leaves, whatever
subscriptions come in between.  `subscribe_unsubscribe_iff` is about a subscription that is taken
back, and `teoSScrUnSubscriptionAll_removes` about a subscriber that leaves every event.

A call is made of single subscriptions and unsubscriptions, so what these keep, every call keeps
(`sscrStep_inv`). -/

namespace Teonet

open Bytes

variable {sscr : TeoSScrClass} {n : CString} {ev : UInt16}

/-! ### What the calls are made of -/

theorem unSubscriptions_inv {inv : TeoSScrClass → Prop} {m : CString}
    (hstep : ∀ s e, inv s → inv (teoSScrUnSubscription s m e).1) (evs : List UInt16)
    (h : inv sscr) : inv (evs.foldl (fun s e => (teoSScrUnSubscription s m e).1) sscr) := by
  induction evs generalizing sscr with
  | nil => exact h
  | cons e evs ih => exact ih (hstep sscr e h)

/-- **Step rule**: a call keeps what the subscriptions and the unsubscriptions keep that it asks
for. -/
theorem sscrStep_inv (inv : TeoSScrClass → Prop) (op : SScrOp)
    (hsub : ∀ s m e arp, op.ask = .subscribe m e → inv s → inv (teoSScrSubscription s m e arp))
    (hunsub : ∀ s m e, op.ask = .unSubscribe m e ∨ op.ask = .unSubscribeAll m → inv s →
      inv (teoSScrUnSubscription s m e).1)
    (h : inv sscr) : inv (sscrStep sscr op) := by
  cases op with
  | subscription m e arp => exact hsub sscr m e arp rfl h
  | unSubscription m e => exact hunsub sscr m e (.inl rfl) h
  | unSubscriptionAll m =>
    show inv (teoSScrUnSubscriptionAll sscr m).1
    rw [teoSScrUnSubscriptionAll_fst]
    exact unSubscriptions_inv (fun s e => hunsub s m e (.inr rfl)) _ h
  | command rd arp =>
    have hask : SScrOp.ask (.command rd arp) = commandAsk rd := rfl
    rw [hask] at hsub hunsub
    show inv (cmdSubscribeCb sscr rd arp)
    unfold cmdSubscribeCb
    unfold commandAsk at hsub hunsub
    generalize (if rd.l0F then some arp else none) = l0
    dsimp only
    split_ifs with hcmd hcmd' hcmd''
    · exact hsub sscr _ _ _ (if_pos hcmd) h
    · exact hunsub sscr _ _ (.inl ((if_neg hcmd).trans (if_pos hcmd'))) h
    · exact hsub sscr _ _ _ ((if_neg hcmd).trans ((if_neg hcmd').trans (if_pos hcmd''))) h
    · exact h

/-! ### The route of a subscriber -/

/-- How the call that adds a subscriber asks to tell it. -/
def route (n : CString) (arp : Option (CString × ℕ)) (data : TeoSScrData) : SScrCall :=
  match arp with
  | none => .sendCmdto n data
  | some (addr, port) => .sendToL0 addr port n data

/-- The elements of a name in the list of an event. -/
def elementsOf (sscr : TeoSScrClass) (n : CString) (ev : UInt16) : List TeoSScrListData :=
  (subscribers sscr ev).filter fun d => d.data = n

/-- The call does not end the subscription. -/
def KeepsSubscription (n : CString) (ev : UInt16) (op : SScrOp) : Prop :=
  op.ask ≠ .unSubscribe n ev ∧ op.ask ≠ .unSubscribeAll n

theorem elementsOf_eq_nil_iff : elementsOf sscr n ev = [] ↔ n ∉ names sscr ev := by
  simp [elementsOf, names_eq]

theorem filter_eraseP_of_disjoint {α : Type} {p q : α → Bool} (h : ∀ a, p a → q a → False)
    (l : List α) : (l.eraseP q).filter p = l.filter p := by
  induction l with
  | nil => rfl
  | cons a l ih =>
    cases hq : q a with
    | true =>
      have hp : ¬ p a := fun hp => h a hp hq
      rw [List.eraseP_cons_of_pos hq, List.filter_cons_of_neg hp]
    | false =>
      rw [List.eraseP_cons_of_neg (by simp [hq])]
      simp only [List.filter_cons, ih]

theorem elementsOf_teoSScrSubscription (m : CString) (e : UInt16) (arp : Option (CString × ℕ)) :
    elementsOf (teoSScrSubscription sscr m e arp) n ev =
      if ev = e ∧ n = m ∧ ¬ (n ≠ .empty ∧ n ∈ names sscr ev) then
        elementsOf sscr n ev ++ [newListData n ev arp]
      else elementsOf sscr n ev := by
  unfold elementsOf
  rw [subscribers_teoSScrSubscription]
  by_cases hev : ev = e
  · subst hev
    by_cases hm : n = m
    · subst hm
      by_cases hfound : n ≠ .empty ∧ n ∈ names sscr ev
      · rw [if_neg fun h => h.2 hfound, if_neg fun h => h.2.2 hfound]
      · rw [if_pos ⟨rfl, hfound⟩, if_pos ⟨rfl, rfl, hfound⟩, List.filter_append,
          List.filter_singleton, newListData_data, decide_eq_true rfl]
        rfl
    · rw [if_neg fun h : ev = ev ∧ n = m ∧ _ => hm h.2.1]
      split_ifs
      · simp [newListData_data, Ne.symm hm]
      · rfl
  · rw [if_neg fun h => hev h.1, if_neg fun h => hev h.1]

theorem elementsOf_teoSScrUnSubscription (m : CString) (e : UInt16) (h : ¬ (ev = e ∧ n = m)) :
    elementsOf (teoSScrUnSubscription sscr m e).1 n ev = elementsOf sscr n ev := by
  unfold elementsOf
  rw [subscribers_teoSScrUnSubscription]
  split_ifs with hev
  · rw [hev.1]
    apply filter_eraseP_of_disjoint
    intro d hn hm
    exact h ⟨hev.1, (of_decide_eq_true hn).symm.trans (of_decide_eq_true hm)⟩
  · rfl

/-- A call that does not end a subscription leaves the subscriber's element as it is. -/
theorem elementsOf_sscrStep {d : TeoSScrListData} (hn : n ≠ .empty) {op : SScrOp}
    (hkeep : KeepsSubscription n ev op) (h : elementsOf sscr n ev = [d]) :
    elementsOf (sscrStep sscr op) n ev = [d] := by
  refine sscrStep_inv (fun s => elementsOf s n ev = [d]) op ?_ ?_ h
  · intro s m e arp _ hs
    have hmem : n ∈ names s ev := by
      by_contra hnot
      rw [elementsOf_eq_nil_iff.mpr hnot] at hs
      cases hs
    rw [elementsOf_teoSScrSubscription, if_neg fun hadd => hadd.2.2 ⟨hn, hmem⟩, hs]
  · intro s m e hask hs
    rw [elementsOf_teoSScrUnSubscription, hs]
    rintro ⟨rfl, rfl⟩
    rcases hask with hask | hask
    · exact hkeep.1 hask
    · exact hkeep.2 hask

theorem elementsOf_foldl {d : TeoSScrListData} (hn : n ≠ .empty) {later : List SScrOp}
    (hkeep : ∀ op ∈ later, KeepsSubscription n ev op) (h : elementsOf sscr n ev = [d]) :
    elementsOf (later.foldl sscrStep sscr) n ev = [d] := by
  induction later generalizing sscr with
  | nil => exact h
  | cons op later ih =>
    have hstep := elementsOf_sscrStep hn (hkeep op List.mem_cons_self) h
    exact ih (fun op' hop' => hkeep op' (List.mem_cons_of_mem op hop')) hstep

/-- How the element of a subscriber tells it. -/
def TeoSScrListData.call (d : TeoSScrListData) (data : TeoSScrData) : SScrCall :=
  if d.l0F then .sendToL0 d.addr d.port.toInt d.data data else .sendCmdto d.data data

theorem teoSScrSend_eq (sscr : TeoSScrClass) (ev : UInt16) (data : List UInt8) (cmd : UInt8) :
    teoSScrSend sscr ev data cmd =
      (subscribers sscr ev).map fun d => d.call { ev := ev, cmd := cmd, data := data } := by
  unfold teoSScrSend subscribers
  cases sscr.get ev <;> rfl

theorem call_name (d : TeoSScrListData) (data : TeoSScrData) : (d.call data).name = d.data := by
  unfold TeoSScrListData.call
  split_ifs <;> rfl

theorem filter_teoSScrSend (sscr : TeoSScrClass) (n : CString) (ev : UInt16) (data : List UInt8)
    (cmd : UInt8) :
    (teoSScrSend sscr ev data cmd).filter (fun c => c.name = n) =
      (elementsOf sscr n ev).map fun d => d.call { ev := ev, cmd := cmd, data := data } := by
  rw [teoSScrSend_eq, List.filter_map, elementsOf]
  simp only [Function.comp_def, call_name]

/-- The element that a call adds tells the subscriber as the call asks, if the port fits. -/
theorem newListData_call (n : CString) (ev : UInt16) {arp : Option (CString × ℕ)}
    (hport : ∀ a ∈ arp, a.2 < 2 ^ 15) (data : TeoSScrData) :
    (newListData n ev arp).call data = route n arp data := by
  match arp, hport with
  | none, _ => rfl
  | some (addr, port), hport =>
    have hfit : (Int16.ofNat port).toInt = port := Int16.toInt_ofNat_of_lt (hport _ rfl)
    simp [newListData, TeoSScrListData.call, route, hfit]

/-- **The route of a subscriber**: from the call that adds it on, whatever is subscribed and
unsubscribed until the subscriber leaves, an event is sent to it once, as that call asked. -/
theorem teoSScrSend_route (sscr : TeoSScrClass) (n : CString) (ev : UInt16)
    (arp : Option (CString × ℕ)) (later : List SScrOp) (data : List UInt8) (cmd : UInt8)
    (hn : n ≠ .empty) (hnew : n ∉ names sscr ev) (hport : ∀ a ∈ arp, a.2 < 2 ^ 15)
    (hkeep : ∀ op ∈ later, KeepsSubscription n ev op) :
    (teoSScrSend (later.foldl sscrStep (teoSScrSubscription sscr n ev arp)) ev data cmd).filter
      (fun c => c.name = n) = [route n arp { ev := ev, cmd := cmd, data := data }] := by
  have hadd : elementsOf (teoSScrSubscription sscr n ev arp) n ev = [newListData n ev arp] := by
    rw [elementsOf_teoSScrSubscription, if_pos ⟨rfl, rfl, fun h => hnew h.2⟩,
      elementsOf_eq_nil_iff.mpr hnew, List.nil_append]
  rw [filter_teoSScrSend, elementsOf_foldl hn hkeep hadd, List.map_singleton,
    newListData_call n ev hport]

/-- The subscriber `a`. -/
def nameA : CString := .ofBuf [97]

/-- The address of an L0 server. -/
def l0Addr : CString := .ofBuf [49, 48, 46, 48, 46, 48, 46, 49]

theorem teoSScrSend_route_moves :
    (teoSScrSend ([SScrOp.subscription nameA 5 none].foldl sscrStep
        (teoSScrSubscription FinMap.empty nameA 5 (some (l0Addr, 9000)))) 5 [1] 0).filter
      (fun c => c.name = nameA) =
        [route nameA (some (l0Addr, 9000)) { ev := 5, cmd := 0, data := [1] }] := by
  apply teoSScrSend_route
  · decide
  · decide
  · rintro a ⟨⟩
    decide
  · intro op hop
    rw [List.mem_singleton.mp hop]
    exact ⟨fun h => (nomatch h), fun h => (nomatch h)⟩

/-- After the calls `past` and a subscription, an event goes to the subscriber by the route of that
subscription, until it subscribes or leaves. -/
def LatestRoute (past : List SScrOp) (n : CString) (ev : UInt16) (arp : Option (CString × ℕ)) :
    Prop :=
  ∀ later : List SScrOp,
    (∀ op ∈ later, KeepsSubscription n ev op ∧ op.ask ≠ .subscribe n ev) →
    ∀ (data : List UInt8) (cmd : UInt8),
      (teoSScrSend (later.foldl sscrStep
        (teoSScrSubscription (past.foldl sscrStep FinMap.empty) n ev arp)) ev data cmd).filter
          (fun c => c.name = n) = [route n arp { ev := ev, cmd := cmd, data := data }]

/-- A peer that comes back as a client keeps its first route, a port from `2 ^ 15` on is sent as a
negative one, and the empty name has an element for each of its subscriptions. -/
theorem not_latestRoute :
    ¬ LatestRoute [.subscription nameA 5 none] nameA 5 (some (l0Addr, 9000)) ∧
      ¬ LatestRoute [] nameA 5 (some (l0Addr, 40000)) ∧
      ¬ LatestRoute [.subscription .empty 5 none] .empty 5 none := by
  refine ⟨fun h => ?_, fun h => ?_, fun h => ?_⟩
  · have hsend := h [] (by simp) [1] 0
    exact absurd hsend (by decide)
  · have hsend := h [] (by simp) [1] 0
    exact absurd hsend (by decide)
  · have hsend := h [] (by simp) [1] 0
    exact absurd hsend (by decide)

/-! ### A subscription that is taken back -/

/-- The payload of a `CMD_SUBSCRIBE` is read as text. -/
def IsText (rd : KsnCorePacketData) : Prop :=
  6 ≤ rd.data.length ∧ (rd.data ++ rd.after).take 5 = textPrefix

/-- The number in a payload that is read as text. -/
def textNumber (rd : KsnCorePacketData) : ℤ :=
  atoi (CString.ofBuf ((rd.data ++ rd.after).drop 5))

/-- A payload that is read as text starts with the number 17748. -/
theorem IsText.getLe16_eq {rd : KsnCorePacketData} (h : IsText rd) :
    getLe16 (rd.data ++ rd.after) = 17748 := by
  rw [← List.take_append_drop 5 (rd.data ++ rd.after), h.2]
  simp [getLe, textPrefix]

theorem subscribeEv_eq (rd : KsnCorePacketData) [Decidable (IsText rd)] :
    subscribeEv rd = if IsText rd then UInt16.ofNat (textNumber rd % 65536).toNat
      else UInt16.ofNat (getLe16 (rd.data ++ rd.after)) := by
  unfold subscribeEv
  by_cases htext : IsText rd
  · rw [if_pos htext]
    exact if_pos htext
  · rw [if_neg htext]
    exact if_neg htext

theorem subscribeEv_eq_iff (rd : KsnCorePacketData) :
    subscribeEv rd = UInt16.ofNat (getLe16 (rd.data ++ rd.after)) ↔
      (IsText rd → textNumber rd % 65536 = 17748) := by
  classical
  rw [subscribeEv_eq]
  by_cases htext : IsText rd
  · have hpos : 0 ≤ textNumber rd % 65536 := Int.emod_nonneg _ (by decide)
    have hlt : (textNumber rd % 65536).toNat < 65536 := by omega
    rw [if_pos htext, htext.getLe16_eq, ← UInt16.toNat_inj]
    show (UInt16.ofNat (textNumber rd % 65536).toNat).toNat = (17748 : UInt16).toNat ↔ _
    rw [UInt16.toNat_ofNat_of_lt' hlt]
    constructor
    · intro h _
      have hnat : (textNumber rd % 65536).toNat = 17748 := h
      omega
    · intro h
      rw [h htext]
      rfl
  · rw [if_neg htext]
    exact iff_of_true rfl fun h => absurd h htext

/-- An unsubscription from an event takes back a new subscription to another one only if these are
the same. -/
theorem unSubscribe_subscribe_iff (hn : n ≠ .empty) (hnew : n ∉ names sscr ev) (e : UInt16)
    (arp : Option (CString × ℕ)) :
    (∀ x, subscribers (teoSScrUnSubscription (teoSScrSubscription sscr n ev arp) n e).1 x =
        subscribers sscr x) ↔ e = ev := by
  have hadd : ∀ x, subscribers (teoSScrSubscription sscr n ev arp) x =
      if x = ev then subscribers sscr ev ++ [newListData n ev arp] else subscribers sscr x := by
    intro x
    rw [subscribers_teoSScrSubscription]
    simp [hnew]
  constructor
  · intro h
    by_contra hne
    have hsame := h ev
    rw [subscribers_teoSScrUnSubscription, if_neg fun hx => hne hx.1.symm, hadd, if_pos rfl] at hsame
    simp at hsame
  · rintro rfl x
    rw [subscribers_teoSScrUnSubscription]
    split_ifs with hx
    · have hnone : ∀ d ∈ subscribers sscr e, ¬ decide (d.data = n) = true := by
        intro d hd hdn
        exact hnew (List.mem_map.mpr ⟨d, hd, of_decide_eq_true hdn⟩)
      rw [hadd, if_pos rfl, List.eraseP_append_right _ hnone, hx.1]
      simp [newListData_data]
    · rw [hadd, if_neg fun hxe => hx ⟨hxe, hn⟩]

/-- **A subscription that is taken back**: a `CMD_SUBSCRIBE` of a new subscriber and a
`CMD_UNSUBSCRIBE` with the same payload leave every list as it was exactly when the payload is not
read as text, or its number is the one that the text starts with. -/
theorem subscribe_unsubscribe_iff (sscr : TeoSScrClass) (rd rd' : KsnCorePacketData)
    (arp arp' : CString × ℕ) (hsub : rd.cmd = cmdSubscribe) (hunsub : rd'.cmd = cmdUnsubscribe)
    (hfrom : rd'.fromName = rd.fromName) (hdata : rd'.data = rd.data)
    (hlen : 2 ≤ rd.data.length) (hname : rd.fromName ≠ .empty)
    (hnew : rd.fromName ∉ names sscr (subscribeEv rd)) :
    (∀ ev, subscribers (cmdSubscribeCb (cmdSubscribeCb sscr rd arp) rd' arp') ev =
        subscribers sscr ev) ↔ (IsText rd → textNumber rd % 65536 = 17748) := by
  have hev : getLe16 (rd'.data ++ rd'.after) = getLe16 (rd.data ++ rd.after) := by
    rw [hdata]
    exact (getLe_append 2 _ _ hlen).trans (getLe_append 2 _ _ hlen).symm
  have hne : cmdUnsubscribe ≠ cmdSubscribe := by decide
  rw [← subscribeEv_eq_iff, eq_comm (a := subscribeEv rd), ← unSubscribe_subscribe_iff hname hnew]
  unfold cmdSubscribeCb
  dsimp only
  rw [if_pos hsub, hunsub, if_neg hne, if_pos rfl, hfrom, hev]

/-- A packet of the subscriber `a`. -/
def packetOfA (cmd : UInt8) (data : List UInt8) : KsnCorePacketData :=
  { addr := .empty, port := 9000, fromName := nameA, fromLen := 2, cmd := cmd, data := data }

theorem subscribe_unsubscribe_binary :
    (∀ ev, subscribers (cmdSubscribeCb (cmdSubscribeCb FinMap.empty
        (packetOfA cmdSubscribe [5, 0]) (.empty, 0)) (packetOfA cmdUnsubscribe [5, 0]) (.empty, 0)) ev =
      subscribers FinMap.empty ev) ↔
      (IsText (packetOfA cmdSubscribe [5, 0]) →
        textNumber (packetOfA cmdSubscribe [5, 0]) % 65536 = 17748) := by
  apply subscribe_unsubscribe_iff
  all_goals decide

/-- `TEXT:5` subscribes to event 5 and unsubscribes from event 17748. -/
theorem subscribe_unsubscribe_text :
    ¬ ∀ (sscr : TeoSScrClass) (rd rd' : KsnCorePacketData) (arp arp' : CString × ℕ),
      rd.cmd = cmdSubscribe → rd'.cmd = cmdUnsubscribe → rd'.fromName = rd.fromName →
      rd'.data = rd.data → 2 ≤ rd.data.length → rd.fromName ≠ .empty →
      rd.fromName ∉ names sscr (subscribeEv rd) →
      ∀ ev, subscribers (cmdSubscribeCb (cmdSubscribeCb sscr rd arp) rd' arp') ev =
        subscribers sscr ev := by
  intro h
  have hsame := h FinMap.empty (packetOfA cmdSubscribe [84, 69, 88, 84, 58, 53, 0])
    (packetOfA cmdUnsubscribe [84, 69, 88, 84, 58, 53, 0]) (.empty, 0) (.empty, 0) rfl rfl rfl rfl
    (by decide) (by decide) (by decide) 5
  exact absurd hsame (by decide)

/-! ### A subscriber that leaves every event -/

/-- The names of a subscription that the call asks for are not empty. -/
def NamesSubscriber (op : SScrOp) : Prop := ∀ ev, op.ask ≠ .subscribe .empty ev

theorem nodup_names_sscrStep {op : SScrOp} (hop : NamesSubscriber op)
    (h : ∀ ev, (names sscr ev).Nodup) (ev : UInt16) : (names (sscrStep sscr op) ev).Nodup := by
  refine sscrStep_inv (fun s => ∀ ev, (names s ev).Nodup) op ?_ ?_ h ev
  · intro s m e arp hask hs ev
    have hm : m ≠ .empty := by
      rintro rfl
      exact hop e hask
    rw [names_teoSScrSubscription]
    split_ifs with hadd
    · have hnew : m ∉ names s e := fun hmem => hadd.2 ⟨hm, hmem⟩
      rw [List.nodup_append]
      refine ⟨hs e, List.nodup_singleton m, ?_⟩
      rintro a ha b hb rfl
      exact hnew (List.mem_singleton.mp hb ▸ ha)
    · exact hs ev
  · intro s m e _ hs ev
    rw [names_teoSScrUnSubscription]
    split_ifs
    · exact (hs e).erase m
    · exact hs ev

theorem nodup_names_foldl {ops : List SScrOp} (hops : ∀ op ∈ ops, NamesSubscriber op)
    (h : ∀ ev, (names sscr ev).Nodup) (ev : UInt16) :
    (names (ops.foldl sscrStep sscr) ev).Nodup := by
  induction ops generalizing sscr with
  | nil => exact h ev
  | cons op ops ih =>
    have hstep := nodup_names_sscrStep (hops op List.mem_cons_self) h
    exact ih (fun op' hop' => hops op' (List.mem_cons_of_mem op hop')) hstep

theorem eraseP_eq_filter {α β : Type} [DecidableEq β] {f : α → β} {l : List α}
    (h : (l.map f).Nodup) (b : β) :
    (l.eraseP fun a => f a = b) = l.filter fun a => f a ≠ b := by
  induction l with
  | nil => rfl
  | cons a l ih =>
    rw [List.map_cons, List.nodup_cons] at h
    by_cases hb : f a = b
    · have hrest : ∀ x ∈ l, decide (f x ≠ b) = true := by
        intro x hx
        apply decide_eq_true
        rintro rfl
        exact h.1 (hb ▸ List.mem_map_of_mem hx)
      rw [List.eraseP_cons_of_pos (by simpa using hb), List.filter_cons_of_neg (by simpa using hb),
        List.filter_eq_self.mpr hrest]
    · rw [List.eraseP_cons_of_neg (by simpa using hb), List.filter_cons_of_pos (by simpa using hb),
        ih h.2]

/-- What `teoSScrUnSubscription` returns. -/
theorem teoSScrUnSubscription_snd (sscr : TeoSScrClass) (n : CString) (ev : UInt16) :
    (teoSScrUnSubscription sscr n ev).2 = decide (n ≠ .empty ∧ n ∈ names sscr ev) := by
  have hfind := findInList_isSome sscr n ev
  unfold teoSScrUnSubscription
  cases hget : sscr.get ev with
  | none => simp [names, hget]
  | some list =>
    dsimp only
    cases hidx : findInList sscr n ev with
    | none =>
      rw [hidx] at hfind
      exact (decide_eq_false fun h => by simpa using hfind.mpr h).symm
    | some idx =>
      rw [hidx] at hfind
      exact (decide_eq_true (hfind.mp rfl)).symm

/-- The number of subscribers goes down by what `teoSScrUnSubscription` returns. -/
theorem numberOfSubscribers_unSubscription (sscr : TeoSScrClass) (n : CString) (ev : UInt16) :
    teoSScrNumberOfSubscribers (teoSScrUnSubscription sscr n ev).1 +
      (teoSScrUnSubscription sscr n ev).2.toNat = teoSScrNumberOfSubscribers sscr := by
  unfold teoSScrUnSubscription teoSScrNumberOfSubscribers
  cases hget : sscr.get ev with
  | none => rfl
  | some list =>
    dsimp only
    cases hidx : findInList sscr n ev with
    | none => rfl
    | some idx =>
      have hlt : idx < list.length := by
        unfold findInList at hidx
        rw [hget] at hidx
        exact (List.findIdx?_eq_some_iff_findIdx_eq.mp hidx).1
      have hweight := FinMap.weight_add_of_present List.length sscr hget (list.eraseIdx idx)
      rw [List.length_eraseIdx_of_lt hlt] at hweight
      show (sscr.add ev (list.eraseIdx idx)).weight List.length + 1 = sscr.weight List.length
      omega

theorem numberOfSubscribers_foldl (n : CString) (evs : List UInt16) (r : TeoSScrClass × ℕ) :
    teoSScrNumberOfSubscribers (evs.foldl (unSubscriptionNext n) r).1 +
      (evs.foldl (unSubscriptionNext n) r).2 = teoSScrNumberOfSubscribers r.1 + r.2 := by
  induction evs generalizing r with
  | nil => rfl
  | cons ev evs ih =>
    rw [List.foldl_cons, ih]
    have hstep := numberOfSubscribers_unSubscription r.1 n ev
    show teoSScrNumberOfSubscribers (teoSScrUnSubscription r.1 n ev).1 +
      (r.2 + (teoSScrUnSubscription r.1 n ev).2.toNat) = _
    omega

/-- With each name once in a list, an unsubscription leaves the other names. -/
theorem subscribers_unSubscription_filter (h : ∀ ev, (names sscr ev).Nodup) (hn : n ≠ .empty)
    (ev e : UInt16) :
    subscribers (teoSScrUnSubscription sscr n ev).1 e =
      if e = ev then (subscribers sscr ev).filter fun d => d.data ≠ n else subscribers sscr e := by
  rw [subscribers_teoSScrUnSubscription, eraseP_eq_filter (l := subscribers sscr ev) (h ev)]
  simp [hn]

theorem subscribers_unSubscriptions (h : ∀ ev, (names sscr ev).Nodup) (hn : n ≠ .empty)
    (evs : List UInt16) (e : UInt16) :
    subscribers (evs.foldl (fun s ev => (teoSScrUnSubscription s n ev).1) sscr) e =
      if e ∈ evs then (subscribers sscr e).filter fun d => d.data ≠ n
      else subscribers sscr e := by
  induction evs generalizing sscr with
  | nil => rfl
  | cons ev evs ih =>
    have hnext : ∀ e, (names (teoSScrUnSubscription sscr n ev).1 e).Nodup := by
      intro e
      rw [names_teoSScrUnSubscription]
      split_ifs
      · exact (h ev).erase n
      · exact h e
    rw [List.foldl_cons, ih hnext, subscribers_unSubscription_filter h hn]
    by_cases he : e = ev
    · simp [he]
    · simp [he]

/-- The events are counted whose list has the name. -/
theorem unSubscriptions_count (hn : n ≠ .empty) {evs : List UInt16} (hevs : evs.Nodup)
    (r : TeoSScrClass × ℕ) :
    (evs.foldl (unSubscriptionNext n) r).2 =
      r.2 + (evs.filter fun ev => n ∈ names r.1 ev).length := by
  induction evs generalizing r with
  | nil => rfl
  | cons ev evs ih =>
    rw [List.nodup_cons] at hevs
    have hsame : (evs.filter fun e => n ∈ names (unSubscriptionNext n r ev).1 e) =
        evs.filter fun e => n ∈ names r.1 e := by
      apply List.filter_congr
      intro e he
      have hne : ¬ (e = ev ∧ n ≠ .empty) := by
        rintro ⟨rfl, -⟩
        exact hevs.1 he
      have hnames : names (unSubscriptionNext n r ev).1 e = names r.1 e :=
        (names_teoSScrUnSubscription r.1 n ev e).trans (if_neg hne)
      rw [hnames]
    have hcount : (unSubscriptionNext n r ev).2 =
        r.2 + (decide (n ≠ .empty ∧ n ∈ names r.1 ev)).toNat := by
      rw [← teoSScrUnSubscription_snd]
      rfl
    rw [List.foldl_cons, ih hevs.2, hsame, hcount, List.filter_cons]
    by_cases hmem : n ∈ names r.1 ev
    · simp [hn, hmem]
      omega
    · simp [hmem]

/-- **A subscriber that leaves every event**: in a state that calls with non-empty names lead to,
`teoSScrUnSubscriptionAll` removes the element of the name from every list that has one, of which
there is never a second one in a list, keeps the other elements, and returns how many it removed. -/
theorem teoSScrUnSubscriptionAll_removes (ops : List SScrOp) (n : CString)
    (hops : ∀ op ∈ ops, NamesSubscriber op) (hn : n ≠ .empty) :
    let sscr := ops.foldl sscrStep FinMap.empty
    let r := teoSScrUnSubscriptionAll sscr n
    (∀ ev, subscribers r.1 ev = (subscribers sscr ev).filter fun d => d.data ≠ n) ∧
    (∀ ev, (elementsOf sscr n ev).length = if n ∈ names sscr ev then 1 else 0) ∧
    r.2 = ((sscr.toPairs.map Prod.fst).filter fun ev => n ∈ names sscr ev).length ∧
    teoSScrNumberOfSubscribers r.1 + r.2 = teoSScrNumberOfSubscribers sscr := by
  intro sscr r
  have hnodup : ∀ ev, (names sscr ev).Nodup :=
    nodup_names_foldl hops fun ev => by simp [names]
  refine ⟨fun ev => ?_, fun ev => ?_, ?_, ?_⟩
  · show subscribers (teoSScrUnSubscriptionAll sscr n).1 ev = _
    rw [teoSScrUnSubscriptionAll_fst, subscribers_unSubscriptions hnodup hn]
    split_ifs with hev
    · rfl
    · -- an event that the walk does not meet has no list
      have hnone : sscr.get ev = none := by
        cases hget : sscr.get ev with
        | none => rfl
        | some list =>
          exact absurd (List.mem_map_of_mem ((FinMap.mem_toPairs _ _ _).mpr hget)) hev
      simp [subscribers, hnone]
  · have hcount : (elementsOf sscr n ev).length = (names sscr ev).count n := by
      rw [elementsOf, names_eq, List.count, List.countP_map, List.countP_eq_length_filter]
      simp only [Function.comp_def, beq_eq_decide]
    rw [hcount]
    split_ifs with hmem
    · exact List.count_eq_one_of_mem (hnodup ev) hmem
    · exact List.count_eq_zero.mpr hmem
  · have hcount := unSubscriptions_count hn (FinMap.nodup_toPairs sscr) (sscr, 0)
    rwa [Nat.zero_add] at hcount
  · exact numberOfSubscribers_foldl n _ (sscr, 0)

theorem teoSScrUnSubscriptionAll_removes_two :
    let sscr := [SScrOp.subscription nameA 5 none, .subscription nameA 6 none].foldl sscrStep
      FinMap.empty
    let r := teoSScrUnSubscriptionAll sscr nameA
    (∀ ev, subscribers r.1 ev = (subscribers sscr ev).filter fun d => d.data ≠ nameA) ∧
    (∀ ev, (elementsOf sscr nameA ev).length = if nameA ∈ names sscr ev then 1 else 0) ∧
    r.2 = ((sscr.toPairs.map Prod.fst).filter fun ev => nameA ∈ names sscr ev).length ∧
    teoSScrNumberOfSubscribers r.1 + r.2 = teoSScrNumberOfSubscribers sscr := by
  apply teoSScrUnSubscriptionAll_removes
  · intro op hop ev h
    simp only [List.mem_cons, List.not_mem_nil, or_false] at hop
    rcases hop with rfl | rfl <;> exact absurd (SScrAsk.subscribe.inj h).1 (by decide)
  · decide

end Teonet
