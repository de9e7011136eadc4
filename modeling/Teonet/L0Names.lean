import Teonet.Lib.Runs
import Teonet.L0Server

/-! # The names of L0 clients

A run of the L0 server is a sequence of callbacks: connections are accepted and registered, their
packets are processed, they are kicked, time out and disconnect.  `L0Inv` says that the directory
of the connections is consistent and that the sockets of the registered connections are open, so
that the system gives none of their descriptors away again.

Every callback keeps `L0Inv` except one: a login of a connection that is logged in under another
name leaves the old name in `map_n` (`l0Handle_inv`, `l0Step_namesMatch_iff`).
`namesMatch_of_run` says what holds in the runs without such a login. -/

namespace Teonet

open Runs

variable {Ctx : Type}

/-! ### Runs of the server -/

/-- The server and the open descriptors of the process. -/
structure L0System (Ctx : Type) where
  kl : KsnLNullClass Ctx
  openFds : List ℤ

/-- What happens to the server. -/
inductive L0Event
  /-- `cmd_l0_accept_cb` -/
  | accept (now : ℚ) (fd : ℤ) (addr : Option CString) (port : ℕ)
  /-- `cmd_l0_read_cb` processes a packet, or finds that the client has closed -/
  | tcpPacket (now : ℚ) (subscribed : Bool) (fd : ℤ) (buf : List UInt8)
  | tcpClosed (fd : ℤ)
  /-- a new TR-UDP channel gets its descriptor -/
  | fakeFd
  /-- `ksnLNulltrudpCheckPaket` has a packet -/
  | trudpPacket (now : ℚ) (subscribed : Bool) (fd : ℤ) (rd : KsnCorePacketData) (small : Bool)
      (buf : List UInt8)
  /-- the `DISCONNECTED` event of a channel -/
  | channelDisconnected (fd : ℤ)
  | timeout (now : ℚ) (fd : ℤ) (echo : List UInt8)
  | kick (userId : Option CString)
  | dataTo (rd : KsnCorePacketData)
  | stop
  /-- other modules of the process open and close descriptors -/
  | otherOpens (fd : ℤ)
  | otherCloses (fd : ℤ)

/-- The loop of `cmd_l0_read_cb` comes to a packet of the connection. -/
def tcpDeliver (env : L0Env Ctx) (now : ℚ) (subscribed : Bool) (kl : KsnLNullClass Ctx) (fd : ℤ)
    (buf : List UInt8) : KsnLNullClass Ctx × List L0Effect :=
  match kl.map.get fd with
  | some kld =>
    let done := tcpProcessPacket env now subscribed kl fd kld buf
    (done.1, done.2.1)
  | none => (kl, [])

/-- The callback of an event. -/
def l0Handle (env : L0Env Ctx) (kl : KsnLNullClass Ctx) :
    L0Event → KsnLNullClass Ctx × List L0Effect
  | .accept now fd addr port => (ksnLNullClientRegister now kl fd addr port, [])
  | .tcpPacket now subscribed fd buf => tcpDeliver env now subscribed kl fd buf
  | .tcpClosed fd => ksnLNullClientDisconnect env kl fd 1
  | .fakeFd => ((ksnLNullGetNextFakeFd env kl).2, [])
  | .trudpPacket now subscribed fd rd small buf =>
    let done := trudpDeliver env now subscribed kl fd rd small buf
    (done.1, done.2.1)
  | .channelDisconnected fd => ksnLNullClientDisconnect env kl fd 1
  | .timeout now fd echo => checkConnected env now kl fd echo
  | .kick userId => cmdL0KickClient env kl userId
  | .dataTo rd => cmdL0ToCb env kl rd
  | .stop => ksnLNullStop env kl
  | .otherOpens _ => (kl, [])
  | .otherCloses _ => (kl, [])

/-- When an event can happen: the system gives out descriptors that are not open, sockets are
below `MAX_FD_NUMBER`, TR-UDP connections from there on, and a module closes no descriptor of
another. -/
def L0Enabled (env : L0Env Ctx) (s : L0System Ctx) : L0Event → Prop
  | .accept _ fd _ _ => fd ∉ s.openFds ∧ fd < env.maxFdNumber
  | .trudpPacket _ _ fd _ _ _ => env.maxFdNumber ≤ fd
  | .otherOpens fd => fd ∉ s.openFds
  | .otherCloses fd => fd ≠ 0 ∧ s.kl.map.get fd = none
  | _ => True

/-- The open descriptors after an event. -/
def l0OpenFds (env : L0Env Ctx) (s : L0System Ctx) (e : L0Event) : List ℤ :=
  let left := s.openFds.filter (· ∉ closedFds (l0Handle env s.kl e).2)
  match e with
  | .accept _ fd _ _ => fd :: left
  | .otherOpens fd => fd :: left
  | .otherCloses fd => left.filter (· ≠ fd)
  | _ => left

/-- An event that closes no socket leaves the open ones. -/
theorem filter_closedFds_nil (l : List ℤ) : l.filter (· ∉ closedFds []) = l :=
  List.filter_eq_self.mpr fun _ _ => rfl

theorem l0OpenFds_accept (env : L0Env Ctx) (s : L0System Ctx) (now : ℚ) (fd : ℤ)
    (addr : Option CString) (port : ℕ) :
    l0OpenFds env s (.accept now fd addr port) = fd :: s.openFds :=
  congrArg _ (filter_closedFds_nil s.openFds)

theorem l0OpenFds_otherOpens (env : L0Env Ctx) (s : L0System Ctx) (fd : ℤ) :
    l0OpenFds env s (.otherOpens fd) = fd :: s.openFds :=
  congrArg _ (filter_closedFds_nil s.openFds)

theorem l0OpenFds_otherCloses (env : L0Env Ctx) (s : L0System Ctx) (fd : ℤ) :
    l0OpenFds env s (.otherCloses fd) = s.openFds.filter (· ≠ fd) :=
  congrArg _ (filter_closedFds_nil s.openFds)

/-- One step. -/
def L0Step (env : L0Env Ctx) (s : L0System Ctx) (e : L0Event) (s' : L0System Ctx) : Prop :=
  L0Enabled env s e ∧ s' = ⟨(l0Handle env s.kl e).1, l0OpenFds env s e⟩

/-- The server at its start: no client, and the standard input is open. -/
structure L0Start (s : L0System Ctx) : Prop where
  noMap : s.kl.map = FinMap.empty
  noMapN : s.kl.mapN = FinMap.empty
  stdin : 0 ∈ s.openFds

/-! ### The invariant -/

/-- `map_n` is the inverse of the names in `map`. -/
def NamesMatch (kl : KsnLNullClass Ctx) : Prop :=
  ∀ name fd, kl.mapN.get name = some fd ↔
    ∃ kld, kl.map.get fd = some kld ∧ kld.name = some name

/-- See the head of the file. -/
structure L0Inv (env : L0Env Ctx) (s : L0System Ctx) : Prop where
  consistent : s.kl.directory.Consistent
  stdin : 0 ∈ s.openFds
  sockets : ∀ fd, s.kl.directory.member fd ≠ none →
    fd ≠ 0 ∧ (fd < env.maxFdNumber → fd ∈ s.openFds)

/-- A login is the first one on its connection, or one under the same name. -/
def KeepsName (kl : KsnLNullClass Ctx) (fd : ℤ) (login : Option Ctx → Option (Option CString)) :
    Prop :=
  ∀ kld, kl.map.get fd = some kld → ∀ name, login kld.serverCrypt = some (some name) →
    kld.name = none ∨ kld.name = some name

/-- The condition on a step. -/
def L0Guard (env : L0Env Ctx) (s : L0System Ctx) : L0Event → Prop
  | .tcpPacket now _ fd buf => KeepsName s.kl fd (tcpLoginOutcome env now · buf)
  | .trudpPacket now _ fd _ _ buf => KeepsName s.kl fd (loginOutcome env now · buf)
  | _ => True

theorem consistent_iff_namesMatch (kl : KsnLNullClass Ctx) :
    kl.directory.Consistent ↔ NamesMatch kl := by
  have hmember : ∀ name fd, kl.directory.member fd = some (some name) ↔
      ∃ kld, kl.map.get fd = some kld ∧ kld.name = some name := by
    intro name fd
    exact Option.map_eq_some_iff
  constructor
  · intro h name fd
    rw [← hmember]
    exact h name fd
  · intro h name fd
    rw [hmember]
    exact h name fd

theorem L0Inv.owner_ne_zero {env : L0Env Ctx} {s : L0System Ctx} (h : L0Inv env s)
    (name : CString) : s.kl.directory.owner name ≠ some 0 := by
  intro howner
  have hmember := (h.consistent name 0).mp howner
  exact (h.sockets 0 (by rw [hmember]; simp)).1 rfl

/-! ### One step -/

/-- The next state after a callback that opens and closes no other descriptors. -/
def L0System.after (s : L0System Ctx) (r : KsnLNullClass Ctx × List L0Effect) : L0System Ctx :=
  ⟨r.1, s.openFds.filter (· ∉ closedFds r.2)⟩

/-- A callback keeps the invariant when it keeps the directory consistent, registers nobody, and
closes only sockets of connections that it removes. -/
theorem L0Inv.after {env : L0Env Ctx} {s : L0System Ctx} (h : L0Inv env s)
    {r : KsnLNullClass Ctx × List L0Effect} (hconsistent : r.1.directory.Consistent)
    (hmember : ∀ fd, r.1.directory.member fd ≠ none → s.kl.directory.member fd ≠ none)
    (hclosed : ∀ fd ∈ closedFds r.2, s.kl.directory.member fd ≠ none ∧
      r.1.directory.member fd = none) : L0Inv env (s.after r) where
  consistent := hconsistent
  stdin := by
    refine List.mem_filter.mpr ⟨h.stdin, decide_eq_true fun hzero => ?_⟩
    exact (h.sockets 0 (hclosed 0 hzero).1).1 rfl
  sockets fd hfd := by
    obtain ⟨hne, hopen⟩ := h.sockets fd (hmember fd hfd)
    refine ⟨hne, fun hlt => List.mem_filter.mpr ⟨hopen hlt, decide_eq_true fun hmem => ?_⟩⟩
    exact hfd (hclosed fd hmem).2

theorem L0Inv.quiet {env : L0Env Ctx} {s : L0System Ctx} (h : L0Inv env s)
    {r : KsnLNullClass Ctx × List L0Effect} (hr : Quiet s.kl r) : L0Inv env (s.after r) := by
  apply h.after
  · rw [hr.1]
    exact h.consistent
  · rw [hr.1]
    exact fun _ hfd => hfd
  · intro fd hfd
    have hended := closedFds_subset r.2 hfd
    rw [hr.2] at hended
    cases hended

theorem L0Inv.leaves {env : L0Env Ctx} {s : L0System Ctx} (h : L0Inv env s) {fd : ℤ}
    {r : KsnLNullClass Ctx × List L0Effect} (hr : Leaves s.kl fd r) : L0Inv env (s.after r) := by
  have hself : r.1.directory.member fd = none := by
    rw [hr.directory]
    exact Function.update_self _ _ _
  apply h.after
  · rw [hr.directory]
    exact h.consistent.leave fd
  · intro fd' hfd'
    have hne : fd' ≠ fd := fun heq => hfd' (heq ▸ hself)
    rwa [hr.directory, s.kl.directory.leave_member_of_ne hne] at hfd'
  · intro fd' hfd'
    obtain ⟨rfl, hmember⟩ := hr.ended fd' (closedFds_subset _ hfd')
    exact ⟨hmember, hself⟩

/-- A login of a connection that has no other name. -/
theorem L0Inv.logsIn {env : L0Env Ctx} {s : L0System Ctx} (h : L0Inv env s) {fd : ℤ}
    {name : CString} {r : KsnLNullClass Ctx × List L0Effect} (hr : LogsIn s.kl fd name r)
    (hmember : s.kl.directory.member fd = some none ∨
      s.kl.directory.member fd = some (some name)) : L0Inv env (s.after r) := by
  have hpresent : s.kl.directory.member fd ≠ none := by
    rcases hmember with hm | hm
    · rw [hm]
      simp
    · rw [hm]
      simp
  have hdir := hr.directory (h.sockets fd hpresent).1 (h.owner_ne_zero name)
  apply h.after
  · rw [hdir]
    exact h.consistent.login hmember
  · intro fd' hfd' hnone
    rw [hdir] at hfd'
    have hne : fd' ≠ fd := fun heq => hpresent (heq ▸ hnone)
    exact hfd' (s.kl.directory.login_member_eq_none hne hnone)
  · intro fd' hfd'
    obtain ⟨hne, howner⟩ := hr.ended fd' (closedFds_subset _ hfd')
    have hname := (h.consistent name fd').mp howner
    refine ⟨by rw [hname]; simp, ?_⟩
    rw [hdir]
    exact s.kl.directory.login_member_owner hne howner

theorem L0Inv.outcome {env : L0Env Ctx} {s : L0System Ctx} (h : L0Inv env s) {fd : ℤ}
    {login : Option (Option CString)} {stops : Bool} {r : KsnLNullClass Ctx × List L0Effect}
    (hr : PacketOutcome s.kl fd login stops r)
    (hkeeps : ∀ name, login = some (some name) →
      s.kl.directory.member fd = some none ∨ s.kl.directory.member fd = some (some name)) :
    L0Inv env (s.after r) := by
  cases hr with
  | quiet hr _ => exact h.quiet hr
  | gone hr _ => exact h.leaves hr
  | rejected hr _ => exact h.leaves hr
  | accepted name hr hlogin => exact h.logsIn hr (hkeeps name hlogin)

/-- A connection is registered whose descriptor nobody has. -/
theorem L0Inv.register {env : L0Env Ctx} {s : L0System Ctx} (h : L0Inv env s) (now : ℚ) {fd : ℤ}
    (addr : Option CString) (port : ℕ) {openFds : List ℤ} (hnew : s.kl.directory.member fd = none)
    (hfd : fd ≠ 0) (hopen : fd < env.maxFdNumber → fd ∈ openFds) (hsub : s.openFds ⊆ openFds) :
    L0Inv env ⟨ksnLNullClientRegister now s.kl fd addr port, openFds⟩ := by
  have hdir := ksnLNullClientRegister_directory now s.kl fd addr port
  refine ⟨?_, hsub h.stdin, fun fd' hfd' => ?_⟩
  · show (ksnLNullClientRegister now s.kl fd addr port).directory.Consistent
    rw [hdir]
    exact h.consistent.enter hnew
  · by_cases heq : fd' = fd
    · subst heq
      exact ⟨hfd, hopen⟩
    · have hmember : s.kl.directory.member fd' ≠ none := by
        intro hnone
        apply hfd'
        show (ksnLNullClientRegister now s.kl fd addr port).directory.member fd' = none
        rw [hdir]
        exact (Function.update_of_ne heq _ _).trans hnone
      exact ⟨(h.sockets fd' hmember).1, fun hlt => hsub ((h.sockets fd' hmember).2 hlt)⟩

/-! ### Every callback -/

theorem KeepsName.member {kl : KsnLNullClass Ctx} {fd : ℤ}
    {login : Option Ctx → Option (Option CString)} (h : KeepsName kl fd login)
    {kld : KsnLNullData Ctx} (hget : kl.map.get fd = some kld) (name : CString)
    (hlogin : login kld.serverCrypt = some (some name)) :
    kl.directory.member fd = some none ∨ kl.directory.member fd = some (some name) := by
  rw [KsnLNullClass.directory_member hget]
  rcases h kld hget name hlogin with hname | hname
  · exact Or.inl (by rw [hname])
  · exact Or.inr (by rw [hname])

theorem tcpDeliver_inv {env : L0Env Ctx} {s : L0System Ctx} (h : L0Inv env s) (now : ℚ)
    (subscribed : Bool) {fd : ℤ} {buf : List UInt8}
    (hkeeps : KeepsName s.kl fd (tcpLoginOutcome env now · buf)) :
    L0Inv env (s.after (tcpDeliver env now subscribed s.kl fd buf)) := by
  unfold tcpDeliver
  cases hget : s.kl.map.get fd with
  | none => exact h.quiet ⟨rfl, rfl⟩
  | some kld =>
    have hmember := KsnLNullClass.directory_member_ne_none hget
    exact h.outcome (tcpProcessPacket_outcome env now subscribed s.kl kld buf hmember)
      (hkeeps.member hget)

theorem trudpDeliver_inv {env : L0Env Ctx} {s : L0System Ctx} (h : L0Inv env s) (now : ℚ)
    (subscribed : Bool) {fd : ℤ} (rd : KsnCorePacketData) (small : Bool) {buf : List UInt8}
    (hzero : fd ≠ 0) (hfd : env.maxFdNumber ≤ fd)
    (hkeeps : KeepsName s.kl fd (loginOutcome env now · buf)) :
    L0Inv env (s.after ((trudpDeliver env now subscribed s.kl fd rd small buf).1,
      (trudpDeliver env now subscribed s.kl fd rd small buf).2.1)) := by
  unfold trudpDeliver
  cases hget : s.kl.map.get fd with
  | some kld =>
    obtain ⟨stops, hr⟩ := processPacket_outcome env now subscribed s.kl kld buf
      (KsnLNullClass.directory_member_ne_none hget)
    exact h.outcome hr (hkeeps.member hget)
  | none =>
    dsimp only
    split
    · exact h.leaves (ksnLNullClientDisconnect_leaves env s.kl fd one_ne_zero)
    · have hreg := h.register now (some rd.addr) rd.port (KsnLNullClass.directory_absent hget) hzero
        (fun hlt => absurd hfd (not_le.mpr hlt)) (List.Subset.refl s.openFds)
      -- the new record has no name
      have hnew : (ksnLNullClientRegister now s.kl fd (some rd.addr) rd.port).map.get fd =
          some { tAddr := some rd.addr, tPort := rd.port, lastTime := now } :=
        FinMap.get_add_self _ _ _
      rw [hnew]
      obtain ⟨stops, hr⟩ := processPacket_outcome env now subscribed
        (ksnLNullClientRegister now s.kl fd (some rd.addr) rd.port)
        { tAddr := some rd.addr, tPort := rd.port, lastTime := now } buf
        (by rw [KsnLNullClass.directory_member hnew]; simp)
      exact hreg.outcome hr fun name _ =>
        Or.inl (KsnLNullClass.directory_member hnew)

/-- The connection that a user id names is disconnected, or nothing happens. -/
theorem cmdL0KickClient_inv {env : L0Env Ctx} {s : L0System Ctx} (h : L0Inv env s)
    (userId : Option CString) : L0Inv env (s.after (cmdL0KickClient env s.kl userId)) := by
  unfold cmdL0KickClient
  cases userId with
  | none => exact h.quiet ⟨rfl, rfl⟩
  | some name =>
    dsimp only
    split
    · exact h.leaves ((ksnLNullPacketSend_quiet env s.kl _ _).leaves
        (ksnLNullClientDisconnect_leaves env _ _ two_ne_zero))
    · exact h.quiet ⟨rfl, rfl⟩

theorem checkConnected_inv {env : L0Env Ctx} {s : L0System Ctx} (h : L0Inv env s) (now : ℚ)
    (fd : ℤ) (echo : List UInt8) : L0Inv env (s.after (checkConnected env now s.kl fd echo)) := by
  unfold checkConnected
  cases s.kl.map.get fd with
  | none => exact h.quiet ⟨rfl, rfl⟩
  | some kld =>
    dsimp only
    split
    · exact h.leaves (ksnLNullClientDisconnect_leaves env s.kl fd one_ne_zero)
    · split
      · exact h.quiet (ksnLNullPacketSend_quiet env s.kl fd _)
      · exact h.quiet ⟨rfl, rfl⟩

theorem cmdL0ToCb_quiet (env : L0Env Ctx) (kl : KsnLNullClass Ctx) (rd : KsnCorePacketData) :
    Quiet kl (cmdL0ToCb env kl rd) := by
  unfold cmdL0ToCb
  dsimp only
  split
  · exact ksnLNullPacketSend_quiet env _ _ _
  · exact ⟨rfl, rfl⟩

/-- A disconnection that keeps the record registers nobody. -/
theorem ksnLNullClientDisconnect_member (env : L0Env Ctx) (kl : KsnLNullClass Ctx) (fd fd' : ℤ)
    (h : kl.directory.member fd' = none) :
    (ksnLNullClientDisconnect env kl fd 0).1.directory.member fd' = none := by
  unfold ksnLNullClientDisconnect
  cases hget : kl.map.get fd with
  | none => exact h
  | some kld =>
    have hne : fd' ≠ fd := by
      rintro rfl
      rw [KsnLNullClass.directory_member hget] at h
      cases h
    show ((kl.map.add fd _).get fd').map (·.name) = none
    rw [FinMap.get_add_of_ne _ hne]
    exact h

theorem closedFds_disconnectAll (env : L0Env Ctx) (kl : KsnLNullClass Ctx) (fds : List ℤ) :
    ∀ fd ∈ closedFds (disconnectAll env kl fds).2, kl.directory.member fd ≠ none := by
  induction fds generalizing kl with
  | nil =>
    intro fd hfd
    cases hfd
  | cons fd' fds ih =>
    intro fd hfd hnone
    unfold disconnectAll at hfd
    rw [closedFds_append] at hfd
    rcases List.mem_append.mp hfd with hfirst | hrest
    · obtain ⟨rfl, hmember⟩ :=
        endedFds_ksnLNullClientDisconnect env kl fd' 0 fd (closedFds_subset _ hfirst)
      exact hmember hnone
    · exact ih _ fd hrest (ksnLNullClientDisconnect_member env kl fd' fd hnone)

theorem ksnLNullStop_inv {env : L0Env Ctx} {s : L0System Ctx} (h : L0Inv env s) :
    L0Inv env (s.after (ksnLNullStop env s.kl)) := by
  have hnone : ∀ fd, (ksnLNullStop env s.kl).1.directory.member fd = none := fun fd =>
    KsnLNullClass.directory_absent (FinMap.get_empty fd)
  apply h.after
  · intro name fd
    rw [hnone]
    show (FinMap.empty : FinMap CString ℤ).get name = some fd ↔ _
    rw [FinMap.get_empty]
    simp
  · exact fun fd hfd => absurd (hnone fd) hfd
  · exact fun fd hfd => ⟨closedFds_disconnectAll env s.kl _ fd hfd, hnone fd⟩

/-- **Every callback that meets the condition keeps the invariant.** -/
theorem l0Handle_inv {env : L0Env Ctx} (hmax : 0 < env.maxFdNumber) {s s' : L0System Ctx}
    {e : L0Event} (h : L0Inv env s) (hg : L0Guard env s e) (hstep : L0Step env s e s') :
    L0Inv env s' := by
  obtain ⟨henabled, rfl⟩ := hstep
  cases e with
  | accept now fd addr port =>
    obtain ⟨hfresh, hlt⟩ := henabled
    rw [l0OpenFds_accept]
    apply h.register
    · apply Classical.byContradiction
      intro hmember
      exact hfresh ((h.sockets fd hmember).2 hlt)
    · rintro rfl
      exact hfresh h.stdin
    · exact fun _ => List.mem_cons_self
    · exact List.subset_cons_self _ _
  | tcpPacket now subscribed fd buf => exact tcpDeliver_inv h now subscribed hg
  | tcpClosed fd => exact h.leaves (ksnLNullClientDisconnect_leaves env s.kl fd one_ne_zero)
  | fakeFd => exact h.quiet ⟨rfl, rfl⟩
  | trudpPacket now subscribed fd rd small buf =>
    exact trudpDeliver_inv h now subscribed rd small
      (lt_of_lt_of_le hmax henabled).ne' henabled hg
  | channelDisconnected fd =>
    exact h.leaves (ksnLNullClientDisconnect_leaves env s.kl fd one_ne_zero)
  | timeout now fd echo => exact checkConnected_inv h now fd echo
  | kick userId => exact cmdL0KickClient_inv h userId
  | dataTo rd => exact h.quiet (cmdL0ToCb_quiet env s.kl rd)
  | stop => exact ksnLNullStop_inv h
  | otherOpens fd =>
    rw [l0OpenFds_otherOpens]
    exact ⟨h.consistent, List.mem_cons_of_mem _ h.stdin, fun fd' hfd' =>
      ⟨(h.sockets fd' hfd').1, fun hlt => List.mem_cons_of_mem _ ((h.sockets fd' hfd').2 hlt)⟩⟩
  | otherCloses fd =>
    obtain ⟨hne, habsent⟩ := henabled
    rw [l0OpenFds_otherCloses]
    refine ⟨h.consistent, List.mem_filter.mpr ⟨h.stdin, decide_eq_true (Ne.symm hne)⟩,
      fun fd' hfd' => ⟨(h.sockets fd' hfd').1, fun hlt => ?_⟩⟩
    refine List.mem_filter.mpr ⟨(h.sockets fd' hfd').2 hlt, decide_eq_true ?_⟩
    rintro rfl
    exact hfd' (KsnLNullClass.directory_absent habsent)

/-! ### A second name -/

theorem L0Inv.not_consistent_of_outcome {env : L0Env Ctx} {s : L0System Ctx} (h : L0Inv env s)
    {fd : ℤ} {kld : KsnLNullData Ctx} {name m : CString} {stops : Bool}
    {r : KsnLNullClass Ctx × List L0Effect} (hget : s.kl.map.get fd = some kld)
    (hname : kld.name = some m) (hne : m ≠ name)
    (hr : PacketOutcome s.kl fd (some (some name)) stops r) : ¬ r.1.directory.Consistent := by
  have hmember : s.kl.directory.member fd = some (some m) := by
    rw [KsnLNullClass.directory_member hget, hname]
  cases hr with
  | quiet _ hlogin => cases hlogin
  | gone _ hlogin => cases hlogin
  | rejected _ hlogin => cases hlogin
  | accepted name' hr hlogin =>
    obtain rfl := Option.some.inj (Option.some.inj hlogin)
    rw [hr.directory (h.sockets fd (by rw [hmember]; simp)).1 (h.owner_ne_zero name)]
    exact Directory.not_consistent_login h.consistent hmember hne

/-- What it means that a step does not meet the condition. -/
theorem not_keepsName {kl : KsnLNullClass Ctx} {fd : ℤ}
    {login : Option Ctx → Option (Option CString)} (h : ¬ KeepsName kl fd login) :
    ∃ kld name m, kl.map.get fd = some kld ∧ login kld.serverCrypt = some (some name) ∧
      kld.name = some m ∧ m ≠ name := by
  unfold KeepsName at h
  push Not at h
  obtain ⟨kld, hget, name, hlogin, hnone, hother⟩ := h
  obtain ⟨m, hm⟩ := Option.ne_none_iff_exists'.mp hnone
  exact ⟨kld, name, m, hget, hlogin, hm, fun heq => hother (heq ▸ hm)⟩

/-- **The condition is exact**: a callback keeps the names in order if and only if it meets it. -/
theorem l0Step_namesMatch_iff {env : L0Env Ctx} (hmax : 0 < env.maxFdNumber)
    {s s' : L0System Ctx} {e : L0Event} (h : L0Inv env s) (hstep : L0Step env s e s') :
    NamesMatch s'.kl ↔ L0Guard env s e := by
  refine ⟨fun hmatch => ?_, fun hg =>
    (consistent_iff_namesMatch _).mp (l0Handle_inv hmax h hg hstep).consistent⟩
  obtain ⟨henabled, rfl⟩ := hstep
  rw [← consistent_iff_namesMatch] at hmatch
  apply Classical.byContradiction
  intro hg
  cases e with
  | tcpPacket now subscribed fd buf =>
    have hrenames : ¬ KeepsName s.kl fd (tcpLoginOutcome env now · buf) := hg
    obtain ⟨kld, name, m, hget, hlogin, hname, hne⟩ := not_keepsName hrenames
    have hmember := KsnLNullClass.directory_member_ne_none hget
    have hr := tcpProcessPacket_outcome env now subscribed s.kl kld buf hmember
    rw [hlogin] at hr
    apply h.not_consistent_of_outcome hget hname hne hr
    have hdeliver : tcpDeliver env now subscribed s.kl fd buf =
        ((tcpProcessPacket env now subscribed s.kl fd kld buf).1,
          (tcpProcessPacket env now subscribed s.kl fd kld buf).2.1) := by
      unfold tcpDeliver
      rw [hget]
    rw [← hdeliver]
    exact hmatch
  | trudpPacket now subscribed fd rd small buf =>
    have hrenames : ¬ KeepsName s.kl fd (loginOutcome env now · buf) := hg
    obtain ⟨kld, name, m, hget, hlogin, hname, hne⟩ := not_keepsName hrenames
    obtain ⟨stops, hr⟩ := processPacket_outcome env now subscribed s.kl kld buf
      (KsnLNullClass.directory_member_ne_none hget)
    rw [hlogin] at hr
    apply h.not_consistent_of_outcome hget hname hne hr
    have hdeliver : trudpDeliver env now subscribed s.kl fd rd small buf =
        processPacket env now subscribed s.kl fd kld buf := by
      unfold trudpDeliver
      rw [hget]
    rw [← hdeliver]
    exact hmatch
  | _ => exact hg trivial

/-! ### Runs -/

theorem L0Start.inv {env : L0Env Ctx} {s : L0System Ctx} (h : L0Start s) : L0Inv env s := by
  have hnone : ∀ fd, s.kl.directory.member fd = none := by
    intro fd
    apply KsnLNullClass.directory_absent
    rw [h.noMap]
    exact FinMap.get_empty fd
  refine ⟨fun name fd => ?_, h.stdin, fun fd hfd => absurd (hnone fd) hfd⟩
  rw [hnone]
  show s.kl.mapN.get name = some fd ↔ _
  rw [h.noMapN, FinMap.get_empty]
  simp

/-- The call sends to this connection. -/
def L0Effect.Reaches (fd : ℤ) (kld : KsnLNullData Ctx) : L0Effect → Prop
  | .tcpSend fd' _ => fd' = fd
  | .trudpSend addr port _ _ => addr = kld.tAddr ∧ port = kld.tPort
  | _ => False

theorem ksnLNullPacketSend_reaches (env : L0Env Ctx) {kl : KsnLNullClass Ctx} {fd : ℤ}
    {kld : KsnLNullData Ctx} (hget : kl.map.get fd = some kld) (pkg : List UInt8) :
    ∀ e ∈ (ksnLNullPacketSend env kl fd pkg).2, e.Reaches fd kld := by
  intro e he
  unfold ksnLNullPacketSend at he
  rw [hget] at he
  dsimp only at he
  split at he
  · rw [List.mem_singleton.mp he]
    rfl
  · obtain ⟨chunk, -, rfl⟩ := List.mem_map.mp he
    exact ⟨rfl, rfl⟩

/-- Data for a client reach the connection that is logged in under the client's name. -/
theorem NamesMatch.cmdL0ToCb_reaches {kl : KsnLNullClass Ctx} (h : NamesMatch kl)
    (env : L0Env Ctx) (rd : KsnCorePacketData) :
    (cmdL0ToCb env kl rd).2 = [] ∨
    ∃ fd kld, kl.map.get fd = some kld ∧ kld.name = some (l0ToName rd) ∧
      ∀ e ∈ (cmdL0ToCb env kl rd).2, e.Reaches fd kld := by
  unfold cmdL0ToCb
  dsimp only
  split
  · rename_i hfd
    cases howner : kl.mapN.get (l0ToName rd) with
    | none =>
      refine absurd ?_ hfd
      show (kl.mapN.get (l0ToName rd)).getD 0 = 0
      rw [howner]
      rfl
    | some fd =>
      obtain ⟨kld, hget, hname⟩ := (h _ _).mp howner
      have hconnected : ksnLNullClientIsConnected kl (l0ToName rd) = fd := by
        show (kl.mapN.get (l0ToName rd)).getD 0 = fd
        rw [howner]
        rfl
      refine Or.inr ⟨fd, kld, hget, hname, ?_⟩
      show ∀ e ∈ (ksnLNullPacketSend env _ (ksnLNullClientIsConnected kl (l0ToName rd)) _).2, _
      rw [hconnected]
      exact ksnLNullPacketSend_reaches env hget _
  · exact Or.inl rfl

/-- **The names in every run** in which no connection logs in under a second name: `map_n` is the
inverse of the names in `map`, data for a client reach the connection logged in under its name,
and no two connections have one name.  The next callback keeps the names in order if and only if
it meets the condition. -/
theorem namesMatch_of_run {env : L0Env Ctx} (hmax : 0 < env.maxFdNumber) {s s' : L0System Ctx}
    {es : List L0Event} (hstart : L0Start s)
    (h : Run (Guarded (L0Guard env) (L0Step env)) s es s') :
    NamesMatch s'.kl ∧
    (∀ rd, (cmdL0ToCb env s'.kl rd).2 = [] ∨
      ∃ fd kld, s'.kl.map.get fd = some kld ∧ kld.name = some (l0ToName rd) ∧
        ∀ e ∈ (cmdL0ToCb env s'.kl rd).2, e.Reaches fd kld) ∧
    (∀ fd fd' kld kld' name, s'.kl.map.get fd = some kld → s'.kl.map.get fd' = some kld' →
      kld.name = some name → kld'.name = some name → fd = fd') ∧
    ∀ e s'', L0Step env s' e s'' → (NamesMatch s''.kl ↔ L0Guard env s' e) := by
  have hinv : L0Inv env s' :=
    h.guarded_invariant (fun _ _ _ hs hg hstep => l0Handle_inv hmax hs hg hstep) hstart.inv
  have hmatch := (consistent_iff_namesMatch _).mp hinv.consistent
  refine ⟨hmatch, hmatch.cmdL0ToCb_reaches env, ?_, fun e s'' => l0Step_namesMatch_iff hmax hinv⟩
  intro fd fd' kld kld' name hget hget' hname hname'
  apply hinv.consistent.unique (n := name)
  · rw [KsnLNullClass.directory_member hget, hname]
  · rw [KsnLNullClass.directory_member hget', hname']

/-! ### Two logins on one connection -/

/-- The login data of the user `user`: `{"userId":"…","sign":"…","timestamp":"9"}`. -/
def loginJson (user : UInt8) (digest : List UInt8) : List UInt8 :=
  [123, 34] ++ userIdKey ++ [34, 58, 34, user, 34, 44, 34] ++ signKey ++ [34, 58, 34] ++
    hexBytes digest ++ [34, 44, 34] ++ timestampKey ++ [34, 58, 34, 57, 34, 125]

/-- The MD5 sums of `as9` and of `bs9`. -/
def digestA : List UInt8 := [93, 169, 210, 51, 199, 226, 66, 188, 51, 169, 230, 24, 104, 112, 220, 156]
def digestB : List UInt8 := [56, 55, 244, 69, 209, 9, 149, 162, 102, 243, 21, 86, 0, 215, 169, 82]

/-- The login packets of the users `a` and `b`. -/
def loginA : List UInt8 := plainPacket 0 CString.empty (loginJson 97 digestA ++ [0])
def loginB : List UInt8 := plainPacket 0 CString.empty (loginJson 98 digestB ++ [0])

/-- The tokens of `loginJson`. -/
def loginToks : List JsmnTok :=
  [⟨.object, 0, 72⟩, ⟨.string, 2, 8⟩, ⟨.string, 11, 12⟩, ⟨.string, 15, 19⟩, ⟨.string, 22, 54⟩,
    ⟨.string, 57, 66⟩, ⟨.string, 69, 70⟩]

/-- A server with the secret `s`. -/
def secretEnv : L0Env Unit where
  jsmnParse _ := some loginToks
  staleTok := ⟨.other, 0, 0⟩
  md5 text := if text = [97, 115, 57] then digestA else digestB
  authSecret := ⟨[115], by decide⟩
  cli := plainCli
  hostName := ⟨[104], by decide⟩
  maxFdNumber := 1000000
  staleByte := 0

/-- The server without clients. -/
def emptyServer : L0System Unit := ⟨{ fdTrudp := 1000000 }, [0]⟩

/-- A connection on descriptor 5 that logs in as `a`. -/
def loginRun : List L0Event := [.accept 5 5 none 7000, .tcpPacket 5 false 5 loginA]

/-- The state after an event. -/
def l0After (env : L0Env Ctx) (s : L0System Ctx) (e : L0Event) : L0System Ctx :=
  ⟨(l0Handle env s.kl e).1, l0OpenFds env s e⟩

theorem emptyServer_start : L0Start emptyServer := ⟨rfl, rfl, List.mem_singleton_self 0⟩

theorem run_loginRun : Run (Guarded (L0Guard secretEnv) (L0Step secretEnv)) emptyServer loginRun
    (loginRun.foldl (l0After secretEnv) emptyServer) := by
  refine .cons ⟨trivial, ⟨by decide, by decide⟩, rfl⟩ (.single ⟨?_, trivial, rfl⟩)
  intro kld hget name _
  obtain rfl := Option.some.inj hget
  exact Or.inl rfl

theorem namesMatch_of_run_loginRun :
    NamesMatch (loginRun.foldl (l0After secretEnv) emptyServer).kl :=
  (namesMatch_of_run (by decide) emptyServer_start run_loginRun).1

/-- The connection logs in again, as `b`: `map_n` still gives it the name `a`. -/
theorem not_namesMatch_of_run :
    ¬ ∀ (env : L0Env Unit) (s s' : L0System Unit) (es : List L0Event), 0 < env.maxFdNumber →
      L0Start s → Run (L0Step env) s es s' → NamesMatch s'.kl := by
  intro h
  let last := l0After secretEnv (loginRun.foldl (l0After secretEnv) emptyServer)
    (.tcpPacket 5 false 5 loginB)
  have hrun : Run (L0Step secretEnv) emptyServer
      (loginRun ++ [.tcpPacket 5 false 5 loginB]) last :=
    run_loginRun.of_guarded.append (.single ⟨trivial, rfl⟩)
  have hindex : last.kl.mapN.get (clientName [97]) = some 5 := by decide +kernel
  have hrecord : last.kl.directory.member 5 = some (some (clientName [98])) := by decide +kernel
  obtain ⟨kld, hget, hname⟩ := (h secretEnv _ _ _ (by decide) emptyServer_start hrun _ _).mp hindex
  rw [KsnLNullClass.directory_member hget, hname] at hrecord
  exact absurd hrecord (by decide)

end Teonet
