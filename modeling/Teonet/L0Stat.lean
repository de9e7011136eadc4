import Teonet.L0Names

/-! # The number of clients of the L0 server

`ksnLNullClientRegister` counts a connection in `stat.clients` and `ksnLNullClientDisconnect` counts
it out again, each next to the change of `map`.  `Accounted` says that a function keeps the
difference between the counter and the number of records, makes no record, and closes only sockets
without one; it composes, and every function of the server but the registration has it.

A registration over a record would be counted twice.  It does not happen: a TR-UDP connection is
registered when it has no record, and the sockets of the records are open, so that `accept` returns
none of them.  With this `clients_eq_records` says that the counter is the number of records in every
reachable state. -/

namespace Teonet

open Runs

variable {Ctx : Type}

/-! ### What the functions keep -/

/-- Counter and records change together; no record is made, and no socket is closed that still has
one. -/
structure Accounted (kl : KsnLNullClass Ctx) (r : KsnLNullClass Ctx × List L0Effect) : Prop where
  balance : r.1.stat.clients + kl.map.size = kl.stat.clients + r.1.map.size
  present : ∀ fd, kl.map.get fd = none → r.1.map.get fd = none
  closed : ∀ fd ∈ closedFds r.2, r.1.map.get fd = none

variable {kl : KsnLNullClass Ctx} {r r' : KsnLNullClass Ctx × List L0Effect}

theorem Accounted.refl (kl : KsnLNullClass Ctx) : Accounted kl (kl, []) :=
  ⟨rfl, fun _ h => h, fun _ h => by cases h⟩

theorem Accounted.trans (h : Accounted kl r) (h' : Accounted r.1 r') :
    Accounted kl (r'.1, r.2 ++ r'.2) := by
  refine ⟨?_, fun fd hfd => h'.present fd (h.present fd hfd), fun fd hfd => ?_⟩
  · have h1 := h.balance
    have h2 := h'.balance
    dsimp only at h1 h2 ⊢
    omega
  · rw [closedFds_append] at hfd
    rcases List.mem_append.mp hfd with hfd | hfd
    · exact h'.present fd (h.closed fd hfd)
    · exact h'.closed fd hfd

/-- Other calls in between. -/
theorem Accounted.effects {es : List L0Effect} (h : Accounted kl r)
    (hes : closedFds es ⊆ closedFds r.2) : Accounted kl (r.1, es) :=
  ⟨h.balance, h.present, fun fd hfd => h.closed fd (hes hfd)⟩

/-- The counter and the keys are the same. -/
theorem Accounted.of_same {kl' : KsnLNullClass Ctx} {es : List L0Effect}
    (hclients : kl'.stat.clients = kl.stat.clients) (hsize : kl'.map.size = kl.map.size)
    (hget : ∀ fd, kl'.map.get fd = none ↔ kl.map.get fd = none) (hes : closedFds es = []) :
    Accounted kl (kl', es) := by
  refine ⟨by rw [hclients, hsize], fun fd hfd => (hget fd).mpr hfd, fun fd hfd => ?_⟩
  rw [hes] at hfd
  cases hfd

theorem update_accounted (kl : KsnLNullClass Ctx) (fd : ℤ)
    (f : KsnLNullData Ctx → KsnLNullData Ctx) : Accounted kl (kl.update fd f, []) :=
  .of_same rfl (FinMap.size_modify _ _ _) (fun fd' => FinMap.get_modify_eq_none_iff _ _ fd' _) rfl

theorem updateCrypt_accounted (kl : KsnLNullClass Ctx) (fd : ℤ) (f : Ctx → Ctx) :
    Accounted kl (kl.updateCrypt fd f, []) := update_accounted kl fd _

theorem setCrypt_accounted (kl : KsnLNullClass Ctx) (fd : ℤ) (ctx : Ctx) :
    Accounted kl (kl.setCrypt fd ctx, []) := update_accounted kl fd _

/-- **A disconnection** counts a record out that it removes; without a record it does nothing. -/
theorem ksnLNullClientDisconnect_accounted (env : L0Env Ctx) (kl : KsnLNullClass Ctx) (fd : ℤ)
    {removeF : ℕ} (h : removeF ≠ 0) :
    Accounted kl (ksnLNullClientDisconnect env kl fd removeF) := by
  have hended := endedFds_ksnLNullClientDisconnect env kl fd removeF
  unfold ksnLNullClientDisconnect at hended ⊢
  cases hget : kl.map.get fd with
  | none => exact .refl kl
  | some kld =>
    rw [hget] at hended
    dsimp only at hended ⊢
    rw [if_pos h] at hended ⊢
    have hsize := FinMap.size_remove kl.map hget
    refine ⟨?_, fun fd' hfd' => ?_, fun fd' hfd' => ?_⟩
    · dsimp only
      omega
    · dsimp only
      rw [FinMap.get_remove, hfd', ite_self]
    · obtain ⟨rfl, -⟩ := hended fd' (closedFds_subset _ hfd')
      dsimp only
      rw [FinMap.get_remove, if_pos rfl]

/-! ### Sending -/

theorem ksnLNullPacketSend_accounted (env : L0Env Ctx) (kl : KsnLNullClass Ctx) (fd : ℤ)
    (pkg : List UInt8) : Accounted kl (ksnLNullPacketSend env kl fd pkg) := by
  have hclosed : closedFds (ksnLNullPacketSend env kl fd pkg).2 = [] := by
    have hended := closedFds_subset (ksnLNullPacketSend env kl fd pkg).2
    rw [(ksnLNullPacketSend_quiet env kl fd pkg).2] at hended
    exact List.subset_nil.mp hended
  have hcrypt := updateCrypt_accounted kl fd (env.cli.sealContext · pkg)
  unfold ksnLNullPacketSend at hclosed ⊢
  dsimp only at hclosed ⊢
  refine Accounted.of_same ?_ ?_ (fun fd' => ?_) hclosed
  · split_ifs <;> rfl
  · split_ifs <;> first | rfl | exact FinMap.size_modify _ _ _
  · split_ifs <;> first | rfl | exact FinMap.get_modify_eq_none_iff _ _ fd' _

theorem ksnLNullSendFromL0_accounted (env : L0Env Ctx) (kl : KsnLNullClass Ctx) (buf : List UInt8)
    (name : CString) : Accounted kl (ksnLNullSendFromL0 env kl buf name) := by
  refine .of_same rfl rfl (fun _ => Iff.rfl) ?_
  split_ifs <;> rfl

/-! ### Logins and key exchanges -/

theorem updateClientName_accounted (env : L0Env Ctx) (kl : KsnLNullClass Ctx) (fd : ℤ)
    (name : CString) : Accounted kl (updateClientName env kl fd name) := by
  have hdisplaced : Accounted kl (disconnectOwner env kl fd name) := by
    unfold disconnectOwner
    dsimp only
    split_ifs
    · exact ksnLNullClientDisconnect_accounted env kl _ one_ne_zero
    · exact .refl kl
  have hnamed := hdisplaced.trans
    (update_accounted (disconnectOwner env kl fd name).1 fd fun d => { d with name := some name })
  rw [List.append_nil] at hnamed
  unfold updateClientName
  dsimp only
  split_ifs
  · exact ⟨hnamed.balance, hnamed.present, hnamed.closed⟩
  · exact hnamed

theorem ksnLNullClientAuthCheck_accounted (env : L0Env Ctx) (now : ℚ) (subscribed : Bool)
    (kl : KsnLNullClass Ctx) (fd : ℤ) (payload : List UInt8) :
    Accounted kl ((ksnLNullClientAuthCheck env now subscribed kl fd payload).1,
      (ksnLNullClientAuthCheck env now subscribed kl fd payload).2.1) := by
  unfold ksnLNullClientAuthCheck
  cases loginName env.toL0AuthEnv now payload with
  | none => exact ksnLNullClientDisconnect_accounted env kl fd one_ne_zero
  | some name =>
    have hnamed := updateClientName_accounted env kl fd name
    dsimp only
    split_ifs
    · exact hnamed.trans (.of_same rfl rfl (fun _ => Iff.rfl) rfl)
    · exact hnamed.trans (ksnLNullPacketSend_accounted env _ fd _)

theorem sendKexResponse_accounted (env : L0Env Ctx) (kl : KsnLNullClass Ctx) (fd : ℤ) (ctx : Ctx) :
    Accounted kl ((sendKexResponse env kl fd ctx).1, (sendKexResponse env kl fd ctx).2.1) := by
  unfold sendKexResponse
  cases env.cli.kexCreate ctx with
  | some resp => exact ksnLNullPacketSend_accounted env kl fd _
  | none => exact .refl kl

theorem processKeyExchange_accounted (env : L0Env Ctx) (kl : KsnLNullClass Ctx) (fd : ℤ)
    (protocolId : ℕ) (kex : List UInt8) :
    Accounted kl ((processKeyExchange env kl fd protocolId kex).1,
      (processKeyExchange env kl fd protocolId kex).2.1) := by
  unfold processKeyExchange
  cases kexContext env kl fd protocolId with
  | none => exact .refl kl
  | some ctx =>
    dsimp only
    split_ifs with hvalid happlied hsent
    · have hpending := (setCrypt_accounted kl fd _).trans (sendKexResponse_accounted env
        (kl.setCrypt fd (env.cli.setEstablished false (env.cli.applyKex ctx kex).1)) fd
        (env.cli.setEstablished false (env.cli.applyKex ctx kex).1))
      have hdone := hpending.trans (updateCrypt_accounted _ fd (env.cli.setEstablished true))
      rwa [List.append_nil] at hdone
    · exact (setCrypt_accounted kl fd _).trans (sendKexResponse_accounted env _ fd _)
    · exact setCrypt_accounted kl fd _
    · exact setCrypt_accounted kl fd _

/-! ### Packets -/

theorem IsReset.closedFds {es : List L0Effect} (h : IsReset es) : closedFds es = [] := by
  rcases h with rfl | rfl <;> rfl

/-- A reset of the channel closes no socket. -/
theorem Accounted.resets {es : List L0Effect} (h : Accounted kl r) (hes : IsReset es) :
    Accounted kl (r.1, es ++ r.2) ∧ Accounted kl (r.1, r.2 ++ es) := by
  constructor
  · refine h.effects ?_
    rw [closedFds_append, hes.closedFds]
    exact List.Subset.refl _
  · refine h.effects ?_
    rw [closedFds_append, hes.closedFds, List.append_nil]
    exact List.Subset.refl _

theorem Noted.accounted {now : ℚ} {kl' : KsnLNullClass Ctx} {fd : ℤ}
    (h : Noted now kl fd kl') : Accounted kl (kl', []) := by
  have hstat : Accounted kl ({ kl with
      stat := { kl.stat with packetsFromClient := kl.stat.packetsFromClient + 1 } }, []) :=
    .of_same rfl rfl (fun _ => Iff.rfl) rfl
  cases h with
  | same => exact .refl kl
  | packet => exact hstat
  | timed => exact hstat.trans (update_accounted _ fd _)

theorem Decrypted.accounted {kl' : KsnLNullClass Ctx} {fd : ℤ} (h : Decrypted kl fd kl') :
    Accounted kl (kl', []) := by
  rcases h with rfl | ⟨f, rfl⟩
  · exact .refl kl'
  · exact updateCrypt_accounted kl fd f

theorem PacketCase.accounted {env : L0Env Ctx} {now : ℚ} {subscribed : Bool} {fd : ℤ}
    {Forwards : List UInt8 → CString → Prop} {login : Option (Option CString)} {stops : Bool}
    (h : PacketCase env now subscribed kl fd Forwards login stops r) : Accounted kl r := by
  cases h with
  | nothing es hkl hes => exact (hkl.accounted.resets hes).2
  | kex protocolId kex => exact processKeyExchange_accounted env kl fd protocolId kex
  | kexFailed protocolId kex es hes =>
    exact (processKeyExchange_accounted env kl fd protocolId kex).trans
      ((ksnLNullClientDisconnect_accounted env _ fd one_ne_zero).resets hes).1
  | login payload es hes hfs =>
    rw [hfs]
    exact ((ksnLNullClientAuthCheck_accounted env now subscribed kl fd payload).resets hes).2
  | gone es hes => exact ((ksnLNullClientDisconnect_accounted env kl fd one_ne_zero).resets hes).1
  | toMesh hkl _ => exact hkl.accounted.trans (ksnLNullSendFromL0_accounted env _ _ _)

theorem tcpProcessPacket_accounted (env : L0Env Ctx) (now : ℚ) (subscribed : Bool)
    (kl : KsnLNullClass Ctx) (fd : ℤ) (kld : KsnLNullData Ctx) (buf : List UInt8) :
    Accounted kl ((tcpProcessPacket env now subscribed kl fd kld buf).1,
      (tcpProcessPacket env now subscribed kl fd kld buf).2.1) := by
  obtain ⟨kl', hkl', hcase⟩ := tcpProcessPacket_case env now subscribed kl fd kld buf
  exact hkl'.accounted.trans hcase.accounted

theorem processPacket_accounted (env : L0Env Ctx) (now : ℚ) (subscribed : Bool)
    (kl : KsnLNullClass Ctx) (fd : ℤ) (kld : KsnLNullData Ctx) (buf : List UInt8) :
    Accounted kl ((processPacket env now subscribed kl fd kld buf).1,
      (processPacket env now subscribed kl fd kld buf).2.1) := by
  obtain ⟨kl', _, hkl', hcase⟩ := processPacket_case env now subscribed kl fd kld buf
  exact hkl'.accounted.trans hcase.accounted

/-! ### Callbacks -/

theorem tcpDeliver_accounted (env : L0Env Ctx) (now : ℚ) (subscribed : Bool)
    (kl : KsnLNullClass Ctx) (fd : ℤ) (buf : List UInt8) :
    Accounted kl (tcpDeliver env now subscribed kl fd buf) := by
  unfold tcpDeliver
  cases kl.map.get fd with
  | none => exact .refl kl
  | some kld => exact tcpProcessPacket_accounted env now subscribed kl fd kld buf

theorem checkConnected_accounted (env : L0Env Ctx) (now : ℚ) (kl : KsnLNullClass Ctx) (fd : ℤ)
    (echo : List UInt8) : Accounted kl (checkConnected env now kl fd echo) := by
  unfold checkConnected
  cases kl.map.get fd with
  | none => exact .refl kl
  | some kld =>
    dsimp only
    split_ifs
    · exact ksnLNullClientDisconnect_accounted env kl fd one_ne_zero
    · exact ksnLNullPacketSend_accounted env kl fd _
    · exact .refl kl

theorem cmdL0KickClient_accounted (env : L0Env Ctx) (kl : KsnLNullClass Ctx)
    (userId : Option CString) : Accounted kl (cmdL0KickClient env kl userId) := by
  unfold cmdL0KickClient
  cases userId with
  | none => exact .refl kl
  | some name =>
    dsimp only
    split_ifs
    · exact (ksnLNullPacketSend_accounted env kl _ _).trans
        (ksnLNullClientDisconnect_accounted env _ _ two_ne_zero)
    · exact .refl kl

theorem cmdL0ToCb_accounted (env : L0Env Ctx) (kl : KsnLNullClass Ctx) (rd : KsnCorePacketData) :
    Accounted kl (cmdL0ToCb env kl rd) := by
  have hstat : Accounted kl ({ kl with
      stat := { kl.stat with packetsFromPeer := kl.stat.packetsFromPeer + 1 } }, []) :=
    .of_same rfl rfl (fun _ => Iff.rfl) rfl
  unfold cmdL0ToCb
  dsimp only
  split_ifs
  · exact hstat.trans (ksnLNullPacketSend_accounted env _ _ _)
  · exact hstat

/-- A registration of a connection without a record counts it in. -/
theorem ksnLNullClientRegister_clients (now : ℚ) (kl : KsnLNullClass Ctx) {fd : ℤ}
    (addr : Option CString) (port : ℕ) (h : kl.map.get fd = none) :
    (ksnLNullClientRegister now kl fd addr port).stat.clients + kl.map.size =
      kl.stat.clients + (ksnLNullClientRegister now kl fd addr port).map.size := by
  have hsize := FinMap.size_add_of_absent kl.map h { tAddr := addr, tPort := port, lastTime := now }
  unfold ksnLNullClientRegister
  dsimp only
  rw [hsize]
  omega

/-- `ksnLNullStop` counts every record out, and leaves none. -/
theorem disconnectAll_clients (env : L0Env Ctx) (fds : List ℤ) : ∀ kl : KsnLNullClass Ctx,
    (∀ fd ∈ fds, kl.map.get fd ≠ none) →
      (disconnectAll env kl fds).1.stat.clients = kl.stat.clients - fds.length := by
  induction fds with
  | nil => exact fun kl _ => (sub_zero _).symm
  | cons fd fds ih =>
    intro kl hpresent
    have hfd := hpresent fd List.mem_cons_self
    obtain ⟨kld, hget⟩ := Option.ne_none_iff_exists'.mp hfd
    have hgone : (ksnLNullClientDisconnect env kl fd 0).1.stat.clients = kl.stat.clients - 1 := by
      unfold ksnLNullClientDisconnect
      rw [hget]
      rfl
    have hrest : ∀ fd' ∈ fds, (ksnLNullClientDisconnect env kl fd 0).1.map.get fd' ≠ none := by
      intro fd' hfd'
      unfold ksnLNullClientDisconnect
      rw [hget]
      dsimp only
      rw [if_neg (fun h => h rfl), FinMap.get_add]
      split_ifs
      · exact Option.some_ne_none _
      · exact hpresent fd' (List.mem_cons_of_mem _ hfd')
    show (disconnectAll env (ksnLNullClientDisconnect env kl fd 0).1 fds).1.stat.clients = _
    rw [ih _ hrest, hgone, List.length_cons]
    omega

/-! ### Runs -/

/-- The counter is the number of records, and the sockets of the records are open. -/
structure Counted (env : L0Env Ctx) (s : L0System Ctx) : Prop where
  clients : s.kl.stat.clients = s.kl.map.size
  sockets : ∀ fd, s.kl.map.get fd ≠ none → fd < env.maxFdNumber → fd ∈ s.openFds

/-- A callback that opens and closes no other descriptors. -/
theorem Counted.after {env : L0Env Ctx} {s : L0System Ctx} (h : Counted env s)
    (hr : Accounted s.kl r) : Counted env (s.after r) where
  clients := by
    have hbalance := hr.balance
    rw [h.clients] at hbalance
    show r.1.stat.clients = r.1.map.size
    omega
  sockets fd hfd hlt := by
    have hopen := h.sockets fd (fun hnone => hfd (hr.present fd hnone)) hlt
    exact List.mem_filter.mpr ⟨hopen, decide_eq_true fun hclosed => hfd (hr.closed fd hclosed)⟩

/-- A connection without a record is registered. -/
theorem Counted.register {env : L0Env Ctx} {s : L0System Ctx} (h : Counted env s) (now : ℚ)
    {fd : ℤ} (addr : Option CString) (port : ℕ) {openFds : List ℤ}
    (hnew : s.kl.map.get fd = none) (hopen : fd < env.maxFdNumber → fd ∈ openFds)
    (hsub : s.openFds ⊆ openFds) :
    Counted env ⟨ksnLNullClientRegister now s.kl fd addr port, openFds⟩ where
  clients := by
    have hbalance := ksnLNullClientRegister_clients now s.kl addr port hnew
    rw [h.clients] at hbalance
    show (ksnLNullClientRegister now s.kl fd addr port).stat.clients =
      (ksnLNullClientRegister now s.kl fd addr port).map.size
    omega
  sockets fd' hfd' hlt := by
    by_cases heq : fd' = fd
    · rw [heq]
      exact hopen (heq ▸ hlt)
    · have hget : (ksnLNullClientRegister now s.kl fd addr port).map.get fd' = s.kl.map.get fd' :=
        FinMap.get_add_of_ne _ heq _
      rw [hget] at hfd'
      exact hsub (h.sockets fd' hfd' hlt)

theorem Counted.trudpDeliver {env : L0Env Ctx} {s : L0System Ctx} (h : Counted env s) (now : ℚ)
    (subscribed : Bool) {fd : ℤ} (rd : KsnCorePacketData) (small : Bool) (buf : List UInt8)
    (hfd : env.maxFdNumber ≤ fd) :
    Counted env (s.after ((trudpDeliver env now subscribed s.kl fd rd small buf).1,
      (trudpDeliver env now subscribed s.kl fd rd small buf).2.1)) := by
  unfold Teonet.trudpDeliver
  cases hget : s.kl.map.get fd with
  | some kld => exact h.after (processPacket_accounted env now subscribed s.kl fd kld buf)
  | none =>
    dsimp only
    split
    · exact h.after (ksnLNullClientDisconnect_accounted env s.kl fd one_ne_zero)
    · have hreg := h.register now (some rd.addr) rd.port hget
        (fun hlt => absurd hfd (not_le.mpr hlt)) (List.Subset.refl s.openFds)
      have hnew : (ksnLNullClientRegister now s.kl fd (some rd.addr) rd.port).map.get fd =
          some { tAddr := some rd.addr, tPort := rd.port, lastTime := now } :=
        FinMap.get_add_self _ _ _
      rw [hnew]
      exact hreg.after (processPacket_accounted env now subscribed _ fd _ buf)

theorem Counted.stop {env : L0Env Ctx} {s : L0System Ctx} (h : Counted env s) :
    Counted env (s.after (ksnLNullStop env s.kl)) where
  clients := by
    have hpresent : ∀ fd ∈ s.kl.map.toPairs.map Prod.fst, s.kl.map.get fd ≠ none := by
      intro fd hfd hnone
      obtain ⟨⟨fd', kld⟩, hmem, rfl⟩ := List.mem_map.mp hfd
      rw [(FinMap.mem_toPairs _ _ _).mp hmem] at hnone
      cases hnone
    have hall := disconnectAll_clients env _ s.kl hpresent
    have hlength : (s.kl.map.toPairs.map Prod.fst).length = s.kl.map.size := by
      rw [List.length_map, FinMap.toPairs, List.length_map]
      rfl
    rw [hlength, h.clients, sub_self] at hall
    exact hall
  sockets fd hfd _ := absurd (FinMap.get_empty fd) hfd

/-- **Every callback** keeps the count. -/
theorem Counted.step {env : L0Env Ctx} {s s' : L0System Ctx} {e : L0Event} (h : Counted env s)
    (hstep : L0Step env s e s') : Counted env s' := by
  obtain ⟨henabled, rfl⟩ := hstep
  cases e with
  | accept now fd addr port =>
    obtain ⟨hfresh, hlt⟩ := henabled
    rw [l0OpenFds_accept]
    refine h.register now addr port ?_ (fun _ => List.mem_cons_self) (List.subset_cons_self _ _)
    by_contra hpresent
    exact hfresh (h.sockets fd hpresent hlt)
  | tcpPacket now subscribed fd buf =>
    exact h.after (tcpDeliver_accounted env now subscribed s.kl fd buf)
  | tcpClosed fd => exact h.after (ksnLNullClientDisconnect_accounted env s.kl fd one_ne_zero)
  | fakeFd => exact h.after (.of_same rfl rfl (fun _ => Iff.rfl) rfl)
  | trudpPacket now subscribed fd rd small buf =>
    exact h.trudpDeliver now subscribed rd small buf henabled
  | channelDisconnected fd =>
    exact h.after (ksnLNullClientDisconnect_accounted env s.kl fd one_ne_zero)
  | timeout now fd echo => exact h.after (checkConnected_accounted env now s.kl fd echo)
  | kick userId => exact h.after (cmdL0KickClient_accounted env s.kl userId)
  | dataTo rd => exact h.after (cmdL0ToCb_accounted env s.kl rd)
  | stop => exact h.stop
  | otherOpens fd =>
    rw [l0OpenFds_otherOpens]
    exact ⟨h.clients, fun fd' hfd' hlt => List.mem_cons_of_mem _ (h.sockets fd' hfd' hlt)⟩
  | otherCloses fd =>
    rw [l0OpenFds_otherCloses]
    refine ⟨h.clients, fun fd' hfd' hlt => List.mem_filter.mpr ⟨h.sockets fd' hfd' hlt, ?_⟩⟩
    refine decide_eq_true ?_
    rintro rfl
    exact hfd' henabled.2

/-- **The counter is the number of records**, in every state that a server reaches whose counters
were cleared at its start. -/
theorem clients_eq_records (env : L0Env Ctx) {s s' : L0System Ctx} {es : List L0Event}
    (hstart : L0Start s) (hclear : s.kl.stat.clients = 0) (hrun : Run (L0Step env) s es s') :
    s'.kl.stat.clients = s'.kl.map.entries.length := by
  have hs : Counted env s := by
    refine ⟨?_, fun fd hfd => ?_⟩
    · rw [hclear, hstart.noMap]
      rfl
    · rw [hstart.noMap, FinMap.get_empty] at hfd
      exact absurd rfl hfd
  exact (hrun.invariant (fun _ _ _ h hstep => h.step hstep) hs).clients

/-- One client after a login. -/
theorem clients_eq_records_loginRun :
    (loginRun.foldl (l0After secretEnv) emptyServer).kl.stat.clients =
      (loginRun.foldl (l0After secretEnv) emptyServer).kl.map.entries.length :=
  clients_eq_records secretEnv emptyServer_start rfl run_loginRun.of_guarded

end Teonet
