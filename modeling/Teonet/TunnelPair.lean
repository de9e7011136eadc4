import Teonet.Tunnel

/-! # Two hosts with tunnels between them

The tunnel module at both ends of a channel that keeps the order of the messages in each
direction.  Sockets open and close at either host at any time, and a descriptor that was closed
can be handed out again.  Every socket that is an end of a tunnel carries the number of its
connection, and so does every message; the program sees neither.

`ShutsOwnEnd` says that the message that is delivered next shuts down nothing but the other end
of its own connection.  A message addressed by descriptor number can outlive the connection it
speaks of, so this needs that a number is not handed out while the other host, or a message on
its way, still speaks of it: `Unreferenced`.  `Inv` is the invariant that carries the result
(`shutsOwnEnd_of_run`). -/

namespace Teonet.TunnelPair

open Bytes Runs

/-- A message on its way: the data of a `CMD_TUN` packet, and the connection it belongs to. -/
abbrev Message : Type := List UInt8 × Option ℕ

/-- Both hosts, `false` and `true`.  `sockets` has for each open descriptor the connection it is
an end of, if it is one; `queue h` are the messages on their way to `h`, the oldest first. -/
structure Pair where
  name : Bool → CString
  tun : Bool → KsnTunClass
  sockets : Bool → FinMap ℕ (Option ℕ)
  queue : Bool → List Message
  next : ℕ

/-- What is open at a descriptor. -/
def Pair.sock (s : Pair) (h : Bool) (fd : ℕ) : Option (Option ℕ) := (s.sockets h).get fd

/-! ### Changes of the state -/

/-- A descriptor is opened. -/
def Pair.openSock (s : Pair) (h : Bool) (fd : ℕ) (v : Option ℕ) : Pair :=
  { s with sockets := fun h' => if h' = h then (s.sockets h').add fd v else s.sockets h' }

/-- A descriptor is closed. -/
def Pair.closeSock (s : Pair) (h : Bool) (fd : ℕ) : Pair :=
  { s with sockets := fun h' => if h' = h then (s.sockets h').remove fd else s.sockets h' }

/-- The tunnel module of a host changes. -/
def Pair.setTun (s : Pair) (h : Bool) (ktun : KsnTunClass) : Pair :=
  { s with tun := fun h' => if h' = h then ktun else s.tun h' }

/-- The messages on their way to a host change. -/
def Pair.setQueue (s : Pair) (h : Bool) (l : List Message) : Pair :=
  { s with queue := fun h' => if h' = h then l else s.queue h' }

/-- A call of the module at host `h`, made for connection `c`: what it sends goes to the other
host. -/
def Pair.call (s : Pair) (h : Bool) (c : Option ℕ) : TunEffect → Pair
  | .send _ data => s.setQueue (!h) (s.queue (!h) ++ [(data, c)])
  | .close fd => s.closeSock h fd
  | _ => s

/-- The packet that brings a message to `h`. -/
def Pair.packet (s : Pair) (h : Bool) (data : List UInt8) : KsnCorePacketData where
  addr := CString.empty
  port := 0
  fromName := s.name (!h)
  fromLen := nameLen (s.name (!h))
  cmd := cmdTun
  data := data

/-! ### Steps -/

/-- What can happen. -/
inductive Event
  /-- a tunnel server at `h` accepts a connection on `fd` -/
  | accept (h : Bool) (fd toPort : ℕ) (toIp : Option CString)
  /-- `h` takes the oldest message; `connected` is what `ksnTcpClientCreate` returns -/
  | deliver (h : Bool) (connected : ℤ)
  /-- a watched socket is read -/
  | read (h : Bool) (fd : ℕ) (r : TunRead)
  /-- the rest of the process opens a descriptor -/
  | openOther (h : Bool) (fd : ℕ)
  /-- the rest of the process closes one of its descriptors -/
  | closeOther (h : Bool) (fd : ℕ)

/-- A `TUN_CREATE` that connects opens a socket of the same connection. -/
def Pair.connect (s : Pair) (h : Bool) (connected : ℤ) (m : Message) : Option Pair :=
  if tunCmd m.1 = tunCreate ∧ connected > 0 then
    if s.sock h connected.toNat = none then some (s.openSock h connected.toNat m.2) else none
  else some s

/-- One step; `none` where the event cannot happen. -/
def step (s : Pair) : Event → Option Pair
  | .accept h fd toPort toIp =>
    if s.sock h fd = none then
      some ((ksnTunAcceptCb (s.name (!h)) toPort toIp fd true).foldl
        (fun t => t.call h (some s.next))
        { s.openSock h fd (some s.next) with next := s.next + 1 })
    else none
  | .deliver h connected =>
    match s.queue h with
    | [] => none
    | m :: rest =>
      match (s.setQueue h rest).connect h connected m with
      | none => none
      | some s' =>
        let r := cmdTunCb (s.tun h) connected (s.packet h m.1)
        some (r.2.foldl (fun t => t.call h m.2) (s'.setTun h r.1))
  | .read h fd r =>
    match s.sock h fd with
    | none => none
    | some c =>
      if fd ∈ (s.tun h).watchers then
        let r := cmdTunReadCb (s.tun h) fd r
        some (r.2.foldl (fun t => t.call h c) (s.setTun h r.1))
      else none
  | .openOther h fd => if s.sock h fd = none then some (s.openSock h fd none) else none
  | .closeOther h fd => if s.sock h fd = some none then some (s.closeSock h fd) else none

/-- A socket is gone, or is an end of connection `c`. -/
def Pair.GoneOr (s : Pair) (h : Bool) (fd c : ℕ) : Prop :=
  s.sock h fd = none ∨ s.sock h fd = some (some c)

/-- The oldest message to `h` shuts down only the end of its own connection. -/
def Pair.ShutsOwnEnd (s : Pair) (h : Bool) : Prop :=
  ∀ m rest, s.queue h = m :: rest → ∀ connected fd,
    .shutdown fd ∈ (cmdTunCb (s.tun h) connected (s.packet h m.1)).2 →
    ∃ c, m.2 = some c ∧ s.GoneOr h fd c

/-- Nothing speaks of descriptor `fd` of `h` any more: no message on its way says that the
connection there is gone, or that it is the other end of one, and the other host has it for no
tunnel. -/
def Pair.Unreferenced (s : Pair) (h : Bool) (fd : ℕ) : Prop :=
  (∀ m ∈ s.queue h, tunCmd m.1 = tunNotCreated ∨ tunCmd m.1 = tunDisconnected →
    tunFromFd m.1 ≠ fd) ∧
  (∀ m ∈ s.queue (!h), tunCmd m.1 = tunCreated → tunFromFd m.1 ≠ fd) ∧
  ∀ k toName, (s.tun (!h)).map.get k ≠ some (toName, fd)

/-- The condition on a step: a number that is handed out fits in the 16 bits of the messages, for
a tunnel socket, and nothing speaks of it any more. -/
def guard (s : Pair) : Event → Prop
  | .accept h fd _ _ => fd < 65536 ∧ s.Unreferenced h fd
  | .deliver h connected =>
    ∀ m rest, s.queue h = m :: rest → tunCmd m.1 = tunCreate → connected > 0 →
      connected.toNat < 65536 ∧ s.Unreferenced h connected.toNat
  | .openOther h fd => s.Unreferenced h fd
  | _ => True

/-- No tunnel yet. -/
def Init (s : Pair) : Prop :=
  (∀ h, s.tun h = {}) ∧ (∀ h, s.queue h = [])

/-! ### The changes, seen through the readers -/

theorem openSock_sock (s : Pair) (h h' : Bool) (fd n : ℕ) (v : Option ℕ) :
    (s.openSock h fd v).sock h' n = if h' = h ∧ n = fd then some v else s.sock h' n := by
  unfold Pair.sock Pair.openSock
  by_cases hh : h' = h
  · simp only [hh, if_true, true_and, FinMap.get_add]
  · simp only [hh, if_false, false_and]

theorem closeSock_sock (s : Pair) (h h' : Bool) (fd n : ℕ) :
    (s.closeSock h fd).sock h' n = if h' = h ∧ n = fd then none else s.sock h' n := by
  unfold Pair.sock Pair.closeSock
  by_cases hh : h' = h
  · simp only [hh, if_true, true_and, FinMap.get_remove]
  · simp only [hh, if_false, false_and]

@[simp] theorem closeSock_tun (s : Pair) (h : Bool) (fd : ℕ) :
    (s.closeSock h fd).tun = s.tun := rfl

theorem setTun_tun (s : Pair) (h h' : Bool) (ktun : KsnTunClass) :
    (s.setTun h ktun).tun h' = if h' = h then ktun else s.tun h' := rfl

@[simp] theorem setQueue_tun (s : Pair) (h : Bool) (l : List Message) :
    (s.setQueue h l).tun = s.tun := rfl

theorem setQueue_queue (s : Pair) (h h' : Bool) (l : List Message) :
    (s.setQueue h l).queue h' = if h' = h then l else s.queue h' := rfl

/-! ### The invariant -/

/-- What a message to `h` speaks of is still there, or gone and not replaced. -/
def Pair.MsgOk (s : Pair) (h : Bool) (m : Message) : Prop :=
  (tunCmd m.1 = tunCreate →
    ∃ c, m.2 = some c ∧ s.sock (!h) (tunFromFd m.1) = some (some c)) ∧
  (tunCmd m.1 = tunCreated →
    ∃ c, m.2 = some c ∧ s.sock h (tunSecond m.1) = some (some c) ∧
      s.GoneOr (!h) (tunFromFd m.1) c) ∧
  (tunCmd m.1 = tunNotCreated ∨ tunCmd m.1 = tunDisconnected →
    ∃ c, m.2 = some c ∧ s.GoneOr h (tunFromFd m.1) c)

/-- A `TUN_CREATE` for descriptor `fd` of the sender. -/
def creates (fd : ℕ) (m : Message) : Bool := tunCmd m.1 = tunCreate ∧ tunFromFd m.1 = fd

/-- A `TUN_CREATED` for descriptor `fd` of the receiver. -/
def createds (fd : ℕ) (m : Message) : Bool := tunCmd m.1 = tunCreated ∧ tunSecond m.1 = fd

/-- How many tunnels descriptor `fd` of `h` is on its way into, plus how often it is watched. -/
def Pair.claims (s : Pair) (h : Bool) (fd : ℕ) : ℕ :=
  (s.queue (!h)).countP (creates fd) + (s.queue h).countP (createds fd) +
    (s.tun h).watchers.count fd

/-- The invariant: messages and map entries speak only of the ends of their own connection, and
a descriptor is claimed at most once. -/
structure Inv (s : Pair) : Prop where
  msg : ∀ h, ∀ m ∈ s.queue h, s.MsgOk h m
  entry : ∀ h fd toName k, (s.tun h).map.get fd = some (toName, k) →
    k < 65536 ∧ ∃ c, s.sock h fd = some (some c) ∧ s.GoneOr (!h) k c
  watched : ∀ h, ∀ fd ∈ (s.tun h).watchers, (s.tun h).map.get fd ≠ none
  once : ∀ h fd, s.claims h fd ≤ 1

theorem inv_of_init {s : Pair} (h : Init s) : Inv s where
  msg b m hm := by
    rw [h.2 b] at hm
    cases hm
  entry b fd toName k hget := by
    rw [h.1 b] at hget
    cases hget
  watched b fd hfd := by
    rw [h.1 b] at hfd
    cases hfd
  once b fd := by
    simp [Pair.claims, h.1, h.2]

/-- Only an open tunnel socket is claimed. -/
theorem Inv.sock_of_claims {s : Pair} (hi : Inv s) {h : Bool} {fd : ℕ} (hc : 0 < s.claims h fd) :
    ∃ c, s.sock h fd = some (some c) := by
  unfold Pair.claims at hc
  rcases Nat.eq_zero_or_pos ((s.queue (!h)).countP (creates fd)) with h1 | h1
  · rcases Nat.eq_zero_or_pos ((s.queue h).countP (createds fd)) with h2 | h2
    · have hmem : fd ∈ (s.tun h).watchers := List.count_pos_iff.mp (by omega)
      cases hget : (s.tun h).map.get fd with
      | none => exact absurd hget (hi.watched h fd hmem)
      | some e =>
        obtain ⟨-, c, hsock, -⟩ := hi.entry h fd e.1 e.2 hget
        exact ⟨c, hsock⟩
    · obtain ⟨m, hm, hcr⟩ := List.countP_pos_iff.mp h2
      obtain ⟨hcmd, rfl⟩ := of_decide_eq_true hcr
      obtain ⟨c, -, hsock, -⟩ := (hi.msg h m hm).2.1 hcmd
      exact ⟨c, hsock⟩
  · obtain ⟨m, hm, hcr⟩ := List.countP_pos_iff.mp h1
    obtain ⟨hcmd, rfl⟩ := of_decide_eq_true hcr
    obtain ⟨c, -, hsock⟩ := (hi.msg (!h) m hm).1 hcmd
    rw [Bool.not_not] at hsock
    exact ⟨c, hsock⟩

theorem Inv.claims_eq_zero {s : Pair} (hi : Inv s) {h : Bool} {fd : ℕ}
    (hsock : ∀ c, s.sock h fd ≠ some (some c)) : s.claims h fd = 0 := by
  by_contra hne
  obtain ⟨c, hc⟩ := hi.sock_of_claims (Nat.pos_of_ne_zero hne)
  exact hsock c hc

/-! ### What the changes preserve -/

/-- A number that nothing speaks of can be handed out. -/
theorem Inv.openSock {s : Pair} (hi : Inv s) {h : Bool} {fd : ℕ} (hsock : s.sock h fd = none)
    (hfree : s.Unreferenced h fd) (v : Option ℕ) : Inv (s.openSock h fd v) := by
  obtain ⟨hgone, hother, hmap⟩ := hfree
  have hopen : ∀ {h' n c}, s.sock h' n = some (some c) →
      (s.openSock h fd v).sock h' n = some (some c) := by
    intro h' n c hc
    rw [openSock_sock, if_neg, hc]
    rintro ⟨rfl, rfl⟩
    rw [hsock] at hc
    cases hc
  have hkeep : ∀ {h' n c}, ¬ (h' = h ∧ n = fd) → s.GoneOr h' n c →
      (s.openSock h fd v).GoneOr h' n c := by
    intro h' n c hne hg
    rw [Pair.GoneOr, openSock_sock, if_neg hne]
    exact hg
  refine ⟨?_, ?_, hi.watched, hi.once⟩
  · intro h' m hm
    obtain ⟨h1, h2, h3⟩ := hi.msg h' m hm
    refine ⟨fun hcmd => ?_, fun hcmd => ?_, fun hcmd => ?_⟩
    · obtain ⟨c, hc, hs⟩ := h1 hcmd
      exact ⟨c, hc, hopen hs⟩
    · obtain ⟨c, hc, hs, hg⟩ := h2 hcmd
      refine ⟨c, hc, hopen hs, hkeep ?_ hg⟩
      rintro ⟨rfl, hfd⟩
      exact hother m (by rwa [Bool.not_not]) hcmd hfd
    · obtain ⟨c, hc, hg⟩ := h3 hcmd
      refine ⟨c, hc, hkeep ?_ hg⟩
      rintro ⟨rfl, hfd⟩
      exact hgone m hm hcmd hfd
  · intro h' n toName k hget
    obtain ⟨hk, c, hs, hg⟩ := hi.entry h' n toName k hget
    refine ⟨hk, c, hopen hs, hkeep ?_ hg⟩
    rintro ⟨rfl, rfl⟩
    exact hmap n toName (by rw [Bool.not_not]; exact hget)

theorem claims_push_self (s : Pair) (h : Bool) (m : Message) (fd : ℕ) :
    (s.setQueue h (s.queue h ++ [m])).claims h fd =
      s.claims h fd + if createds fd m then 1 else 0 := by
  simp only [Pair.claims, setQueue_queue, setQueue_tun, if_true, List.countP_append,
    List.countP_singleton]
  rw [if_neg (show ¬ (!h) = h by cases h <;> decide)]
  omega

theorem claims_push_other (s : Pair) (h : Bool) (m : Message) (fd : ℕ) :
    (s.setQueue h (s.queue h ++ [m])).claims (!h) fd =
      s.claims (!h) fd + if creates fd m then 1 else 0 := by
  simp only [Pair.claims, setQueue_queue, setQueue_tun, Bool.not_not, if_true,
    List.countP_append, List.countP_singleton]
  rw [if_neg (show ¬ (!h) = h by cases h <;> decide)]
  omega

/-- A message can be sent that speaks of the ends of its own connection, and takes no
descriptor into a tunnel that is claimed already. -/
theorem Inv.push {s : Pair} (hi : Inv s) {h : Bool} {m : Message} (hm : s.MsgOk h m)
    (hcreate : tunCmd m.1 = tunCreate → s.claims (!h) (tunFromFd m.1) = 0)
    (hcreated : tunCmd m.1 = tunCreated → s.claims h (tunSecond m.1) = 0) :
    Inv (s.setQueue h (s.queue h ++ [m])) := by
  refine ⟨?_, hi.entry, hi.watched, ?_⟩
  · intro h' m' hm'
    rw [setQueue_queue] at hm'
    by_cases hh : h' = h
    · subst hh
      rw [if_pos rfl] at hm'
      rcases List.mem_append.mp hm' with hold | hnew
      · exact hi.msg h' m' hold
      · rw [List.mem_singleton.mp hnew]
        exact hm
    · rw [if_neg hh] at hm'
      exact hi.msg h' m' hm'
  · intro h' fd
    rcases Bool.eq_or_eq_not h' h with rfl | rfl
    · rw [claims_push_self]
      by_cases hc : createds fd m = true
      · obtain ⟨hcmd, rfl⟩ := of_decide_eq_true hc
        rw [hcreated hcmd, if_pos hc]
      · rw [if_neg hc]
        exact hi.once h' fd
    · rw [claims_push_other]
      by_cases hc : creates fd m = true
      · obtain ⟨hcmd, rfl⟩ := of_decide_eq_true hc
        rw [hcreate hcmd, if_pos hc]
      · rw [if_neg hc]
        exact hi.once (!h) fd

theorem claims_pop_self {s : Pair} {h : Bool} {m : Message} {rest : List Message}
    (hq : s.queue h = m :: rest) (fd : ℕ) :
    s.claims h fd = (s.setQueue h rest).claims h fd + if createds fd m then 1 else 0 := by
  simp only [Pair.claims, setQueue_queue, setQueue_tun, if_true, hq, List.countP_cons]
  rw [if_neg (show ¬ (!h) = h by cases h <;> decide)]
  omega

theorem claims_pop_other {s : Pair} {h : Bool} {m : Message} {rest : List Message}
    (hq : s.queue h = m :: rest) (fd : ℕ) :
    s.claims (!h) fd = (s.setQueue h rest).claims (!h) fd + if creates fd m then 1 else 0 := by
  simp only [Pair.claims, setQueue_queue, setQueue_tun, Bool.not_not, if_true, hq,
    List.countP_cons]
  rw [if_neg (show ¬ (!h) = h by cases h <;> decide)]
  omega

/-- A message that was taken no longer claims its descriptor. -/
theorem Inv.pop {s : Pair} (hi : Inv s) {h : Bool} {m : Message} {rest : List Message}
    (hq : s.queue h = m :: rest) :
    Inv (s.setQueue h rest) ∧ s.MsgOk h m ∧
    (tunCmd m.1 = tunCreate → (s.setQueue h rest).claims (!h) (tunFromFd m.1) = 0) ∧
    (tunCmd m.1 = tunCreated → (s.setQueue h rest).claims h (tunSecond m.1) = 0) := by
  refine ⟨⟨?_, hi.entry, hi.watched, ?_⟩, ?_, ?_, ?_⟩
  · intro h' m' hm'
    rw [setQueue_queue] at hm'
    by_cases hh : h' = h
    · subst hh
      rw [if_pos rfl] at hm'
      exact hi.msg h' m' (by rw [hq]; exact List.mem_cons_of_mem _ hm')
    · rw [if_neg hh] at hm'
      exact hi.msg h' m' hm'
  · intro h' fd
    rcases Bool.eq_or_eq_not h' h with rfl | rfl
    · have := claims_pop_self hq fd
      have := hi.once h' fd
      omega
    · have := claims_pop_other hq fd
      have := hi.once (!h) fd
      omega
  · exact hi.msg h m (by rw [hq]; exact List.mem_cons_self)
  · intro hcmd
    have hpop := claims_pop_other hq (tunFromFd m.1)
    have := hi.once (!h) (tunFromFd m.1)
    rw [if_pos (show creates (tunFromFd m.1) m = true from decide_eq_true ⟨hcmd, rfl⟩)] at hpop
    omega
  · intro hcmd
    have hpop := claims_pop_self hq (tunSecond m.1)
    have := hi.once h (tunSecond m.1)
    rw [if_pos (show createds (tunSecond m.1) m = true from decide_eq_true ⟨hcmd, rfl⟩)] at hpop
    omega

theorem claims_setTun (s : Pair) (h h' : Bool) (ktun : KsnTunClass) (fd : ℕ) :
    (s.setTun h ktun).claims h' fd = (s.queue (!h')).countP (creates fd) +
      (s.queue h').countP (createds fd) +
      (if h' = h then ktun else s.tun h').watchers.count fd := rfl

/-- An end of a connection that is not claimed can be registered with the other end. -/
theorem Inv.register {s : Pair} (hi : Inv s) (toName : CString) {h : Bool} {fd k c : ℕ}
    (hsock : s.sock h fd = some (some c)) (hgone : s.GoneOr (!h) k c)
    (hk : k < 65536) (hclaims : s.claims h fd = 0) :
    Inv (s.setTun h (cmdTunCreatedCb (s.tun h) toName fd k)) := by
  refine ⟨hi.msg, ?_, ?_, ?_⟩
  · intro h' n peer k' hget
    rw [setTun_tun] at hget
    by_cases hh : h' = h
    · subst hh
      rw [if_pos rfl, cmdTunCreatedCb, FinMap.get_add] at hget
      by_cases hn : n = fd
      · rw [if_pos hn] at hget
        cases hget
        rw [hn]
        exact ⟨hk, c, hsock, hgone⟩
      · rw [if_neg hn] at hget
        exact hi.entry h' n peer k' hget
    · rw [if_neg hh] at hget
      exact hi.entry h' n peer k' hget
  · intro h' n hn
    rw [setTun_tun] at hn ⊢
    by_cases hh : h' = h
    · subst hh
      rw [if_pos rfl] at hn ⊢
      rw [cmdTunCreatedCb, FinMap.get_add]
      by_cases hfd : n = fd
      · rw [if_pos hfd]
        exact Option.some_ne_none _
      · rw [if_neg hfd]
        exact hi.watched h' n ((List.mem_cons.mp hn).resolve_left hfd)
    · rw [if_neg hh] at hn ⊢
      exact hi.watched h' n hn
  · intro h' n
    have honce := hi.once h' n
    rw [claims_setTun]
    by_cases hh : h' = h
    · subst hh
      rw [if_pos rfl, cmdTunCreatedCb, List.count_cons]
      simp only [Pair.claims] at honce hclaims
      by_cases hfd : fd = n
      · subst hfd
        simp only [beq_self_eq_true, if_true]
        omega
      · simp only [beq_iff_eq, hfd, if_false]
        omega
    · rw [if_neg hh]
      exact honce

/-- A closed socket is gone. -/
theorem Pair.GoneOr.closeSock {s : Pair} {h' : Bool} {n c : ℕ} (hg : s.GoneOr h' n c) (h : Bool)
    (fd : ℕ) : (s.closeSock h fd).GoneOr h' n c := by
  rw [Pair.GoneOr, closeSock_sock]
  by_cases hh : h' = h ∧ n = fd
  · rw [if_pos hh]
    exact Or.inl rfl
  · rw [if_neg hh]
    exact hg

/-- A socket can be closed when the message does not wait for it. -/
theorem Pair.MsgOk.closeSock {s : Pair} {h h' : Bool} {fd : ℕ} {m : Message} (hm : s.MsgOk h' m)
    (hcreate : tunCmd m.1 = tunCreate → ¬ ((!h') = h ∧ tunFromFd m.1 = fd))
    (hcreated : tunCmd m.1 = tunCreated → ¬ (h' = h ∧ tunSecond m.1 = fd)) :
    (s.closeSock h fd).MsgOk h' m := by
  obtain ⟨h1, h2, h3⟩ := hm
  refine ⟨fun hcmd => ?_, fun hcmd => ?_, fun hcmd => ?_⟩
  · obtain ⟨c, hc, hs⟩ := h1 hcmd
    refine ⟨c, hc, ?_⟩
    rw [closeSock_sock, if_neg (hcreate hcmd), hs]
  · obtain ⟨c, hc, hs, hg⟩ := h2 hcmd
    refine ⟨c, hc, ?_, hg.closeSock h fd⟩
    rw [closeSock_sock, if_neg (hcreated hcmd), hs]
  · obtain ⟨c, hc, hg⟩ := h3 hcmd
    exact ⟨c, hc, hg.closeSock h fd⟩

/-- An entry keeps its socket when another one is closed. -/
theorem Inv.entry_closeSock {s : Pair} (hi : Inv s) {h h' : Bool} {fd n k : ℕ} {toName : CString}
    (hget : (s.tun h').map.get n = some (toName, k)) (hne : ¬ (h' = h ∧ n = fd)) :
    k < 65536 ∧ ∃ c, (s.closeSock h fd).sock h' n = some (some c) ∧
      (s.closeSock h fd).GoneOr (!h') k c := by
  obtain ⟨hk, c, hs, hg⟩ := hi.entry h' n toName k hget
  refine ⟨hk, c, ?_, hg.closeSock h fd⟩
  rw [closeSock_sock, if_neg hne, hs]

/-- A watched descriptor is watched once, and no message is about to make a tunnel of it. -/
theorem Inv.claims_of_watched {s : Pair} (hi : Inv s) {h : Bool} {fd : ℕ}
    (hwatch : fd ∈ (s.tun h).watchers) :
    (s.queue (!h)).countP (creates fd) = 0 ∧ (s.queue h).countP (createds fd) = 0 ∧
      (s.tun h).watchers.count fd = 1 := by
  have hcount : 0 < (s.tun h).watchers.count fd := List.count_pos_iff.mpr hwatch
  have honce := hi.once h fd
  unfold Pair.claims at honce
  omega

/-- The end of a tunnel: the socket is closed and its entry and watcher are gone. -/
theorem Inv.endTunnel {s : Pair} (hi : Inv s) {h : Bool} {fd : ℕ}
    (hwatch : fd ∈ (s.tun h).watchers) :
    Inv ((s.setTun h (tunForget (s.tun h) fd)).closeSock h fd) := by
  obtain ⟨hcreates, hcreateds, hcount⟩ := hi.claims_of_watched hwatch
  refine ⟨?_, ?_, ?_, ?_⟩
  · intro h' m hm
    apply (hi.msg h' m hm).closeSock
    · rintro hcmd ⟨rfl, hfd⟩
      rw [Bool.not_not] at hcreates
      exact absurd (decide_eq_true ⟨hcmd, hfd⟩) (List.countP_eq_zero.mp hcreates m hm)
    · rintro hcmd ⟨rfl, hfd⟩
      exact absurd (decide_eq_true ⟨hcmd, hfd⟩) (List.countP_eq_zero.mp hcreateds m hm)
  · intro h' n toName k hget
    rw [closeSock_tun, setTun_tun] at hget
    by_cases hh : h' = h
    · subst hh
      rw [if_pos rfl, tunForget, FinMap.get_remove] at hget
      by_cases hn : n = fd
      · rw [if_pos hn] at hget
        cases hget
      · rw [if_neg hn] at hget
        exact hi.entry_closeSock hget (fun hne => hn hne.2)
    · rw [if_neg hh] at hget
      exact hi.entry_closeSock hget (fun hne => hh hne.1)
  · intro h' n hn
    rw [closeSock_tun, setTun_tun] at hn ⊢
    by_cases hh : h' = h
    · subst hh
      rw [if_pos rfl] at hn ⊢
      have hpos : 0 < ((s.tun h').watchers.erase fd).count n := List.count_pos_iff.mpr hn
      have hne : n ≠ fd := by
        rintro rfl
        rw [List.count_erase_self] at hpos
        omega
      rw [tunForget, FinMap.get_remove_of_ne _ hne]
      exact hi.watched h' n (List.mem_of_mem_erase hn)
    · rw [if_neg hh] at hn ⊢
      exact hi.watched h' n hn
  · intro h' n
    have hn := hi.once h' n
    show (s.setTun h _).claims h' n ≤ 1
    rw [claims_setTun]
    unfold Pair.claims at hn
    by_cases hh : h' = h
    · subst hh
      rw [if_pos rfl]
      have hle : (tunForget (s.tun h') fd).watchers.count n ≤ (s.tun h').watchers.count n :=
        List.erase_sublist.count_le n
      omega
    · rw [if_neg hh]
      exact hn

/-- Closing a descriptor of the rest of the process changes nothing for the tunnels. -/
theorem Inv.closeOther {s : Pair} (hi : Inv s) {h : Bool} {fd : ℕ}
    (hsock : s.sock h fd = some none) : Inv (s.closeSock h fd) := by
  refine ⟨?_, ?_, hi.watched, hi.once⟩
  · intro h' m hm
    have hok := hi.msg h' m hm
    apply hok.closeSock
    · rintro hcmd ⟨rfl, rfl⟩
      obtain ⟨c, -, hs⟩ := hok.1 hcmd
      rw [hsock] at hs
      cases hs
    · rintro hcmd ⟨rfl, rfl⟩
      obtain ⟨c, -, hs, -⟩ := hok.2.1 hcmd
      rw [hsock] at hs
      cases hs
  · intro h' n toName k hget
    apply hi.entry_closeSock hget
    rintro ⟨rfl, rfl⟩
    obtain ⟨-, c, hs, -⟩ := hi.entry h' n toName k hget
    rw [hsock] at hs
    cases hs

/-! ### The steps -/

theorem setTun_self (s : Pair) (h : Bool) : s.setTun h (s.tun h) = s := by
  have htun : (fun h' => if h' = h then s.tun h else s.tun h') = s.tun := by
    funext h'
    by_cases hh : h' = h
    · rw [if_pos hh, hh]
    · rw [if_neg hh]
  unfold Pair.setTun
  rw [htun]

theorem packet_buf (s : Pair) (h : Bool) (data : List UInt8) :
    (s.packet h data).data ++ (s.packet h data).after = data := List.append_nil data

theorem inv_accept {s s' : Pair} (hi : Inv s) {h : Bool} {fd toPort : ℕ} {toIp : Option CString}
    (hguard : guard s (.accept h fd toPort toIp)) (hstep : step s (.accept h fd toPort toIp) =
      some s') : Inv s' := by
  obtain ⟨hlt, hfree⟩ := hguard
  by_cases hsock : s.sock h fd = none
  · rw [step, if_pos hsock] at hstep
    cases hstep
    have hzero := hi.claims_eq_zero (show ∀ c, s.sock h fd ≠ some (some c) by rw [hsock]; simp)
    have hopen := hi.openSock hsock hfree (some s.next)
    have hnext : Inv { s.openSock h fd (some s.next) with next := s.next + 1 } :=
      ⟨hopen.msg, hopen.entry, hopen.watched, hopen.once⟩
    refine hnext.push (m := (tunCreateData fd toPort toIp, some s.next)) ⟨fun _ => ?_, ?_, ?_⟩
      (fun _ => ?_) ?_
    · refine ⟨s.next, rfl, ?_⟩
      rw [Bool.not_not, tunFromFd_tunCreateData hlt]
      show (s.openSock h fd (some s.next)).sock h fd = _
      rw [openSock_sock, if_pos ⟨rfl, rfl⟩]
    · intro hcmd
      cases hcmd
    · rintro (hcmd | hcmd) <;> cases hcmd
    · rw [Bool.not_not, tunFromFd_tunCreateData hlt]
      exact hzero
    · intro hcmd
      cases hcmd
  · rw [step, if_neg hsock] at hstep
    cases hstep

theorem inv_read {s s' : Pair} (hi : Inv s) {h : Bool} {fd : ℕ} {r : TunRead}
    (hstep : step s (.read h fd r) = some s') : Inv s' := by
  unfold step at hstep
  cases hsock : s.sock h fd with
  | none =>
    simp only [hsock] at hstep
    cases hstep
  | some c =>
    simp only [hsock] at hstep
    by_cases hwatch : fd ∈ (s.tun h).watchers
    · rw [if_pos hwatch] at hstep
      cases hstep
      cases hget : (s.tun h).map.get fd with
      | none => exact absurd hget (hi.watched h fd hwatch)
      | some e =>
        obtain ⟨toName, k⟩ := e
        obtain ⟨hk, c', hsock', hgone⟩ := hi.entry h fd toName k hget
        rw [hsock] at hsock'
        obtain rfl := Option.some.inj hsock'
        cases r with
        | eof =>
          simp only [cmdTunReadCb, cmdTunDisconnectedSend, hget, List.foldl_cons,
            List.foldl_nil, Pair.call]
          refine (hi.endTunnel hwatch).push (m := (tunNotCreatedData k, some c'))
            ⟨?_, ?_, fun _ => ?_⟩ ?_ ?_
          · intro hcmd
            cases hcmd
          · intro hcmd
            cases hcmd
          · refine ⟨c', rfl, ?_⟩
            rw [tunFromFd_tunNotCreatedData hk, Pair.GoneOr, closeSock_sock, if_neg (by cases h <;> simp)]
            exact hgone
          · intro hcmd
            cases hcmd
          · intro hcmd
            cases hcmd
        | error =>
          show Inv (s.setTun h (s.tun h))
          rw [setTun_self]
          exact hi
        | data bytes =>
          simp only [cmdTunReadCb, hget, List.foldl_cons, List.foldl_nil, Pair.call, setTun_self]
          refine hi.push (m := (tunDataData k bytes, some c')) ⟨?_, ?_, ?_⟩ ?_ ?_
          · intro hcmd
            cases hcmd
          · intro hcmd
            cases hcmd
          · rintro (hcmd | hcmd) <;> cases hcmd
          · intro hcmd
            cases hcmd
          · intro hcmd
            cases hcmd
    · rw [if_neg hwatch] at hstep
      cases hstep

/-- A `TUN_CREATE` is taken and the endpoint connected: both ends are tied together. -/
theorem inv_create_connected {s s' : Pair} (hi : Inv s) {h : Bool} {connected : ℤ} {m : Message}
    {rest : List Message} (hq : s.queue h = m :: rest) (hcmd : tunCmd m.1 = tunCreate)
    (hconn : connected > 0) (hguard : guard s (.deliver h connected))
    (hstep : step s (.deliver h connected) = some s') : Inv s' := by
  obtain ⟨hpop, ⟨hm, -, -⟩, hclaims, -⟩ := hi.pop hq
  obtain ⟨c, hc, hfrom⟩ := hm hcmd
  have hother : ¬ (!h) = h := by cases h <;> decide
  have hlt := tunFromFd_lt m.1
  obtain ⟨hk, hgone, hown, hmap⟩ := hguard m rest hq hcmd hconn
  have hfree : (s.setQueue h rest).Unreferenced h connected.toNat := by
    refine ⟨fun m' hm' => hgone m' ?_, fun m' hm' => hown m' ?_, hmap⟩
    · rw [setQueue_queue, if_pos rfl] at hm'
      rw [hq]
      exact List.mem_cons_of_mem _ hm'
    · rwa [setQueue_queue, if_neg hother] at hm'
  simp only [step, hq] at hstep
  rw [Pair.connect, if_pos ⟨hcmd, hconn⟩] at hstep
  by_cases hsock : (s.setQueue h rest).sock h connected.toNat = none
  · rw [if_pos hsock] at hstep
    simp only [cmdTunCb, packet_buf, hcmd, if_true, cmdTunCreateCb, hconn, List.foldl_cons,
      List.foldl_nil, Pair.call, Nat.mod_eq_of_lt hk] at hstep
    cases hstep
    have hzero := hpop.claims_eq_zero
      (show ∀ c, (s.setQueue h rest).sock h connected.toNat ≠ some (some c) by rw [hsock]; simp)
    have hopen := hpop.openSock hsock hfree m.2
    have hnew : ((s.setQueue h rest).openSock h connected.toNat m.2).sock h connected.toNat =
        some (some c) := by
      rw [openSock_sock, if_pos ⟨rfl, rfl⟩, hc]
    have hpeer : ((s.setQueue h rest).openSock h connected.toNat m.2).sock (!h)
        (tunFromFd m.1) = some (some c) := by
      rw [openSock_sock, if_neg (fun hh => hother hh.1)]
      exact hfrom
    have hreg := hopen.register (s.name (!h)) hnew (Or.inr hpeer) hlt hzero
    refine hreg.push (m := (tunCreatedData connected.toNat (tunFromFd m.1), m.2))
      ⟨?_, fun _ => ⟨c, hc, ?_, ?_⟩, ?_⟩ ?_ (fun _ => ?_)
    · intro h'
      cases h'
    · rw [tunSecond_tunCreatedData _ hlt]
      exact hpeer
    · rw [tunFromFd_tunCreatedData hk, Bool.not_not]
      exact Or.inr hnew
    · rintro (h' | h') <;> cases h'
    · intro h'
      cases h'
    · rw [tunSecond_tunCreatedData _ hlt, claims_setTun, if_neg hother]
      exact hclaims hcmd
  · rw [if_neg hsock] at hstep
    cases hstep

/-- A `TUN_CREATE` is taken, and the sender is told that the endpoint was not connected. -/
theorem inv_create_refused {s s' : Pair} (hi : Inv s) {h : Bool} {connected : ℤ} {m : Message}
    {rest : List Message} (hq : s.queue h = m :: rest) (hcmd : tunCmd m.1 = tunCreate)
    (hconn : ¬ connected > 0) (hstep : step s (.deliver h connected) = some s') : Inv s' := by
  obtain ⟨hpop, ⟨hm, -, -⟩, -, -⟩ := hi.pop hq
  obtain ⟨c, hc, hfrom⟩ := hm hcmd
  have hlt := tunFromFd_lt m.1
  simp only [step, hq] at hstep
  rw [Pair.connect, if_neg (fun hh => hconn hh.2)] at hstep
  simp only [cmdTunCb, packet_buf, hcmd, if_true, cmdTunCreateCb, hconn, if_false,
    List.foldl_cons, List.foldl_nil, Pair.call] at hstep
  cases hstep
  rw [show (s.setQueue h rest).setTun h (s.tun h) = s.setQueue h rest from
    setTun_self (s.setQueue h rest) h]
  refine hpop.push (m := (tunNotCreatedData (tunFromFd m.1), m.2)) ⟨?_, ?_, fun _ => ?_⟩ ?_ ?_
  · intro h'
    cases h'
  · intro h'
    cases h'
  · refine ⟨c, hc, Or.inr ?_⟩
    rw [tunFromFd_tunNotCreatedData hlt]
    exact hfrom
  · intro h'
    cases h'
  · intro h'
    cases h'

theorem inv_create {s s' : Pair} (hi : Inv s) {h : Bool} {connected : ℤ} {m : Message}
    {rest : List Message} (hq : s.queue h = m :: rest) (hcmd : tunCmd m.1 = tunCreate)
    (hguard : guard s (.deliver h connected)) (hstep : step s (.deliver h connected) = some s') :
    Inv s' := by
  by_cases hconn : connected > 0
  · exact inv_create_connected hi hq hcmd hconn hguard hstep
  · exact inv_create_refused hi hq hcmd hconn hstep

theorem inv_deliver {s s' : Pair} (hi : Inv s) {h : Bool} {connected : ℤ}
    (hguard : guard s (.deliver h connected)) (hstep : step s (.deliver h connected) = some s') :
    Inv s' := by
  cases hq : s.queue h with
  | nil =>
    simp only [step, hq] at hstep
    cases hstep
  | cons m rest =>
    by_cases hcreate : tunCmd m.1 = tunCreate
    · exact inv_create hi hq hcreate hguard hstep
    · obtain ⟨hpop, ⟨-, hm, -⟩, -, hclaims⟩ := hi.pop hq
      simp only [step, hq] at hstep
      rw [Pair.connect, if_neg (fun hh => hcreate hh.1)] at hstep
      by_cases hcreated : tunCmd m.1 = tunCreated
      · obtain ⟨c, -, hsock, hgone⟩ := hm hcreated
        simp only [cmdTunCb, packet_buf, hcreated, if_true,
          if_neg (show tunCreated ≠ tunCreate by decide), List.foldl_nil] at hstep
        cases hstep
        exact hpop.register _ hsock hgone (tunFromFd_lt m.1) (hclaims hcreated)
      · obtain ⟨hst, heff⟩ := cmdTunCb_other (s.tun h) connected (s.packet h m.1)
          (by rwa [packet_buf]) (by rwa [packet_buf])
        have hsame : (s.setQueue h rest).setTun h (s.tun h) = s.setQueue h rest :=
          setTun_self (s.setQueue h rest) h
        simp only [hst, hsame] at hstep
        rcases heff with heff | ⟨fd, data, len, heff⟩ | ⟨-, heff⟩ <;>
          · rw [heff] at hstep
            cases hstep
            exact hpop

/-- **Every step that meets the condition preserves the invariant**. -/
theorem inv_step {s s' : Pair} (hi : Inv s) (e : Event) (hguard : guard s e)
    (hstep : step s e = some s') : Inv s' := by
  cases e with
  | accept h fd toPort toIp => exact inv_accept hi hguard hstep
  | deliver h connected => exact inv_deliver hi hguard hstep
  | read h fd r => exact inv_read hi hstep
  | openOther h fd =>
    by_cases hsock : s.sock h fd = none
    · rw [step, if_pos hsock] at hstep
      cases hstep
      exact hi.openSock hsock hguard none
    · rw [step, if_neg hsock] at hstep
      cases hstep
  | closeOther h fd =>
    by_cases hsock : s.sock h fd = some none
    · rw [step, if_pos hsock] at hstep
      cases hstep
      exact hi.closeOther hsock
    · rw [step, if_neg hsock] at hstep
      cases hstep

theorem Inv.shutsOwnEnd {s : Pair} (hi : Inv s) (h : Bool) : s.ShutsOwnEnd h := by
  intro m rest hq connected fd hfd
  obtain ⟨hcmd, rfl⟩ := cmdTunCb_shutdown hfd
  rw [packet_buf] at hcmd ⊢
  exact (hi.msg h m (by rw [hq]; exact List.mem_cons_self)).2.2 hcmd

/-- **A close shuts down only the other end of its own connection**, in every state of every run
that hands out a descriptor number only while nothing speaks of it. -/
theorem shutsOwnEnd_of_run {s₀ s : Pair} {es : List Event} (hinit : Init s₀)
    (hrun : Run (Guarded guard fun s e s' => step s e = some s') s₀ es s) (h : Bool) :
    s.ShutsOwnEnd h :=
  (hrun.guarded_invariant (fun _ e _ hi hg hs => inv_step hi e hg hs)
    (inv_of_init hinit)).shutsOwnEnd h

/-! ### A number that is used again -/

/-- Two hosts without tunnels. -/
def start : Pair where
  name := fun h => if h then ⟨[98], by decide⟩ else ⟨[97], by decide⟩
  tun := fun _ => {}
  sockets := fun _ => FinMap.empty
  queue := fun _ => []
  next := 0

theorem init_start : Init start := ⟨fun _ => rfl, fun _ => rfl⟩

/-- A tunnel from descriptor 5 of the first host to 6 of the second is closed at the first end,
and at the second end in answer.  Before that answer arrives, 5 is the end of a new tunnel. -/
def reuse : List Event :=
  [.accept false 5 80 none, .deliver true 6, .deliver false (-1), .read false 5 .eof,
    .deliver true (-1), .read true 6 .eof, .accept false 5 80 none]

/-- The same tunnel, up to the close at the first end. -/
def closing : List Event :=
  [.accept false 5 80 none, .deliver true 6, .deliver false (-1), .read false 5 .eof]

theorem guard_accept_start : guard start (.accept false 5 80 none) := by
  refine ⟨by decide, ?_, ?_, ?_⟩
  · intro m hm
    cases hm
  · intro m hm
    cases hm
  · intro k toName hget
    cases hget

/-- A `TUN_CREATE` may connect if the host of its sender has no tunnel and nothing else is on the
way. -/
theorem guard_deliver_of_create {s : Pair} {h : Bool} {m : Message} {connected : ℤ}
    (hqueue : s.queue h = [m]) (hcmd : tunCmd m.1 = tunCreate) (hback : s.queue (!h) = [])
    (htun : s.tun (!h) = {}) (hlt : connected.toNat < 65536) : guard s (.deliver h connected) := by
  intro m' rest heq _ _
  refine ⟨hlt, fun m₁ hm hgone => ?_, fun m₁ hm => ?_, fun k toName hget => ?_⟩
  · rw [hqueue, List.mem_singleton] at hm
    rw [hm, hcmd] at hgone
    exact absurd hgone (by decide)
  · rw [hback] at hm
    cases hm
  · rw [htun] at hget
    cases hget

theorem run_closing : ∃ s, closing.foldlM step start = some s ∧
    Run (Guarded guard fun s e s' => step s e = some s') start closing s := by
  refine ⟨_, rfl, .cons ⟨guard_accept_start, rfl⟩ (.cons ⟨?_, rfl⟩ (.cons ⟨?_, rfl⟩
    (.single ⟨trivial, rfl⟩)))⟩
  · exact guard_deliver_of_create rfl (by decide) rfl rfl (by decide)
  · intro m rest _ _ hpos
    exact absurd hpos (by decide)

/-- The close of the first end is on its way to the second end of the same tunnel. -/
theorem shutsOwnEnd_of_run_closing :
    ∃ s, closing.foldlM step start = some s ∧
      s.queue true = [(tunNotCreatedData 6, some 0)] ∧ s.ShutsOwnEnd true := by
  obtain ⟨s, hs, hrun⟩ := run_closing
  have hqueue : (closing.foldlM step start).map (fun s => s.queue true) =
      some [(tunNotCreatedData 6, some 0)] := by
    decide
  rw [hs, Option.map_some, Option.some.injEq] at hqueue
  exact ⟨s, hs, hqueue, shutsOwnEnd_of_run init_start hrun true⟩

/-- The answer shuts the new tunnel down. -/
theorem not_shutsOwnEnd_reuse :
    ¬ ∀ (s₀ s : Pair) (es : List Event), Init s₀ →
      Run (fun s e s' => step s e = some s') s₀ es s → ∀ h, s.ShutsOwnEnd h := by
  intro hall
  obtain ⟨s, hs⟩ : ∃ s, reuse.foldlM step start = some s :=
    Option.isSome_iff_exists.mp (by decide)
  have hqueue : (reuse.foldlM step start).map (fun s => s.queue false) =
      some [(tunNotCreatedData 5, some 0)] := by
    decide
  have hsock : (reuse.foldlM step start).map (fun s => s.sock false 5) =
      some (some (some 1)) := by
    decide
  rw [hs, Option.map_some, Option.some.injEq] at hqueue hsock
  have hshut : .shutdown 5 ∈
      (cmdTunCb (s.tun false) (-1) (s.packet false (tunNotCreatedData 5))).2 := by
    rw [cmdTunCb_gone _ _ _ (Or.inr rfl)]
    exact List.mem_singleton.mpr rfl
  obtain ⟨c, hc, hgone⟩ :=
    hall start s reuse init_start (Run.of_foldlM hs) false _ _ hqueue (-1) 5 hshut
  cases hc
  rw [Pair.GoneOr, hsock] at hgone
  exact absurd hgone (by decide)

end Teonet.TunnelPair
