import Teonet.Lib.FinMap
import Teonet.Lib.Runs
import Teonet.TcpProxy
import Mathlib.Data.Finset.Erase
import Mathlib.Data.Finset.Insert

/-! # The connections of the TCP proxy server

For every TCP client `ksnTCPProxyServerClientConnect` binds a UDP socket and stores one record twice
in `tp->map`, under the TCP descriptor and under the UDP descriptor; the watchers and the packet
buffer are set up in the first copy only.  `ksnTCPProxyServerClientDisconnect` closes both sockets
and removes both copies, and `cmd_udpp_read_cb` finds through the second copy the TCP connection
that a datagram belongs to.

`Registered` says what the map holds for given live connections.  Connects with fresh descriptors
and disconnects keep it, whatever descriptors are reused in either role; `registered_of_run` is the
statement about runs. -/

namespace Teonet

open Runs

/-! ### The class -/

/-- `ksnTCPProxyData`.  A watcher is the descriptor it waits on while it is started; the packet
buffer is `none` until it is set up. -/
structure KsnTCPProxyData where
  tcpProxyFd : ℤ
  udpProxyPort : ℕ
  udpProxyFd : ℤ
  w : Option ℤ := none
  wUdp : Option ℤ := none
  packet : Option KsnTCPProxyPacketData := none
deriving DecidableEq

/-- `ksnTCPProxyClass`, with the descriptors of its connections that are open. -/
structure KsnTCPProxyClass where
  fdClient : ℤ := 0
  wClient : Option ℤ := none
  packet : KsnTCPProxyPacketData := {}
  map : FinMap ℤ KsnTCPProxyData := FinMap.empty
  fds : Finset ℤ := ∅
deriving DecidableEq

/-- `ksnTCPProxyServerClientConnect` for the accepted descriptor `fd`; `udpProxyFd` and
`udpProxyPort` are what `ksnCoreBindRaw` returns. -/
def ksnTCPProxyServerClientConnect (tp : KsnTCPProxyClass) (fd udpProxyFd : ℤ)
    (udpProxyPort : ℕ) : KsnTCPProxyClass :=
  let data : KsnTCPProxyData :=
    { tcpProxyFd := fd, udpProxyFd := udpProxyFd, udpProxyPort := udpProxyPort }
  let map := (tp.map.add fd data).add udpProxyFd data
  { tp with
      fds := insert udpProxyFd (insert fd tp.fds)
      map := map.modify fd fun tpd =>
        { tpd with packet := some {}, w := some fd, wUdp := some udpProxyFd } }

/-- `ksnTCPProxyServerClientDisconnect`. -/
def ksnTCPProxyServerClientDisconnect (tp : KsnTCPProxyClass) (fd : ℤ) (removeF : ℕ) :
    KsnTCPProxyClass :=
  match tp.map.get fd with
  | none => tp
  | some tpd =>
    -- the copy under the UDP descriptor is skipped
    if fd = tpd.udpProxyFd then tp
    else
      let tp := { tp with
        fds := (tp.fds.erase fd).erase tpd.udpProxyFd
        map := tp.map.modify fd fun tpd => { tpd with w := none, wUdp := none } }
      if removeF ≠ 0 then { tp with map := (tp.map.remove tpd.udpProxyFd).remove fd } else tp

/-- What `cmd_udpp_read_cb` writes for a datagram on `wFd`, with the descriptors.  Where the package
does not fit, its error code is the count that `write` is called with, and nothing is written. -/
def cmdUdppReadCb (getByteChecksum : List UInt8 → UInt8) (tp : KsnTCPProxyClass) (wFd : ℤ)
    (datagram : List UInt8) (addr : CString) (port : ℕ) : List (ℤ × List UInt8) :=
  let received := datagram.take ksnBufferDbSize
  if received.length > 0 then
    let pl := ksnTCPProxyPackageCreate getByteChecksum ksnBufferDbSize addr port cmdTcppProxy received
    match tp.map.get wFd, pl with
    | some tpd, .ok package => [(tpd.tcpProxyFd, package)]
    | some _, .error _ => []
    | none, _ => []
  else []

/-! ### Runs -/

/-- A connection: its TCP descriptor, and its UDP descriptor and port. -/
structure ProxyConn where
  fd : ℤ
  udpProxyFd : ℤ
  udpProxyPort : ℕ
deriving DecidableEq

/-- What happens at the server. -/
inductive ProxyServerEvent
  | connect (c : ProxyConn)
  | disconnect (fd : ℤ)
deriving DecidableEq

/-- One step; a descriptor that a connect gets is not open. -/
def ProxyServerStep (tp : KsnTCPProxyClass) (e : ProxyServerEvent) (tp' : KsnTCPProxyClass) :
    Prop :=
  match e with
  | .connect c => (c.fd ∉ tp.fds ∧ c.udpProxyFd ∉ tp.fds ∧ c.fd ≠ c.udpProxyFd) ∧
      tp' = ksnTCPProxyServerClientConnect tp c.fd c.udpProxyFd c.udpProxyPort
  | .disconnect fd => tp' = ksnTCPProxyServerClientDisconnect tp fd 1

/-- The connections that are live after an event. -/
def liveAfter (live : List ProxyConn) : ProxyServerEvent → List ProxyConn
  | .connect c => c :: live
  | .disconnect fd => live.filter fun c => c.fd ≠ fd

/-- The connections that are live after a history. -/
def liveConns (es : List ProxyServerEvent) : List ProxyConn := es.foldl liveAfter []

/-! ### What the map holds -/

/-- A record holds the values of a connection. -/
def KsnTCPProxyData.Holds (d : KsnTCPProxyData) (c : ProxyConn) : Prop :=
  d.tcpProxyFd = c.fd ∧ d.udpProxyFd = c.udpProxyFd ∧ d.udpProxyPort = c.udpProxyPort

/-- `fd` is one of the connection's descriptors. -/
def ProxyConn.Owns (c : ProxyConn) (fd : ℤ) : Prop := fd = c.fd ∨ fd = c.udpProxyFd

/-- The map holds the live connections, each under its two descriptors, and nothing else; no
descriptor belongs to two of them. -/
structure Registered (live : List ProxyConn) (tp : KsnTCPProxyClass) : Prop where
  fd_ne : ∀ c ∈ live, c.fd ≠ c.udpProxyFd
  owner : ∀ c ∈ live, ∀ c' ∈ live, ∀ fd, c.Owns fd → c'.Owns fd → c = c'
  tcp : ∀ c ∈ live, ∃ d, tp.map.get c.fd = some d ∧ d.Holds c ∧ d.w = some c.fd ∧
    d.wUdp = some c.udpProxyFd ∧ d.packet ≠ none
  udp : ∀ c ∈ live, ∃ d, tp.map.get c.udpProxyFd = some d ∧ d.Holds c ∧ d.w = none
  owned : ∀ fd d, tp.map.get fd = some d → ∃ c ∈ live, c.Owns fd
  opened : ∀ c ∈ live, ∀ fd, c.Owns fd → fd ∈ tp.fds

variable {live : List ProxyConn} {tp tp' : KsnTCPProxyClass} {c : ProxyConn} {fd : ℤ}

theorem registered_init : Registered [] {} where
  fd_ne _ h := by cases h
  owner _ h := by cases h
  tcp _ h := by cases h
  udp _ h := by cases h
  owned fd d h := by
    change FinMap.empty.get fd = some d at h
    rw [FinMap.get_empty] at h
    cases h
  opened _ h := by cases h

/-- A live connection has the records of its descriptors for itself. -/
theorem Registered.holds_of_get (h : Registered live tp) {d : KsnTCPProxyData}
    (hget : tp.map.get fd = some d) : ∃ c ∈ live, c.Owns fd ∧ d.Holds c := by
  obtain ⟨c, hc, hown⟩ := h.owned fd d hget
  refine ⟨c, hc, hown, ?_⟩
  rcases hown with rfl | rfl
  · obtain ⟨d', hd', hholds, -⟩ := h.tcp c hc
    rw [hget] at hd'
    obtain rfl := Option.some.inj hd'
    exact hholds
  · obtain ⟨d', hd', hholds, -⟩ := h.udp c hc
    rw [hget] at hd'
    obtain rfl := Option.some.inj hd'
    exact hholds

/-- What a connect leaves under each descriptor. -/
theorem get_connect (tp : KsnTCPProxyClass) (hne : c.fd ≠ c.udpProxyFd) (fd : ℤ) :
    (ksnTCPProxyServerClientConnect tp c.fd c.udpProxyFd c.udpProxyPort).map.get fd =
      if fd = c.fd then some ⟨c.fd, c.udpProxyPort, c.udpProxyFd, some c.fd, some c.udpProxyFd,
        some {}⟩
      else if fd = c.udpProxyFd then some ⟨c.fd, c.udpProxyPort, c.udpProxyFd, none, none, none⟩
      else tp.map.get fd := by
  unfold ksnTCPProxyServerClientConnect
  dsimp only
  rw [FinMap.get_modify, FinMap.get_add_of_ne _ hne, FinMap.get_add_self, FinMap.get_add,
    FinMap.get_add]
  split_ifs with h1 h2
  · rfl
  · rfl
  · rfl

/-- **A connect** with fresh descriptors registers the connection. -/
theorem Registered.connect (h : Registered live tp) (hfd : c.fd ∉ tp.fds)
    (hudp : c.udpProxyFd ∉ tp.fds) (hne : c.fd ≠ c.udpProxyFd) :
    Registered (c :: live)
      (ksnTCPProxyServerClientConnect tp c.fd c.udpProxyFd c.udpProxyPort) := by
  have hget := get_connect tp hne
  have hfresh : ∀ c' ∈ live, ∀ fd, c'.Owns fd → fd ≠ c.fd ∧ fd ≠ c.udpProxyFd := by
    intro c' hc' fd hown
    have hopen := h.opened c' hc' fd hown
    exact ⟨fun he => hfd (he ▸ hopen), fun he => hudp (he ▸ hopen)⟩
  have hother : ∀ c' ∈ live, ∀ fd, c'.Owns fd →
      (ksnTCPProxyServerClientConnect tp c.fd c.udpProxyFd c.udpProxyPort).map.get fd =
        tp.map.get fd := by
    intro c' hc' fd hown
    obtain ⟨h1, h2⟩ := hfresh c' hc' fd hown
    rw [hget, if_neg h1, if_neg h2]
  have hown : ∀ fd, c.Owns fd → ∀ c' ∈ live, ¬ c'.Owns fd := by
    intro fd hc c' hc' hc''
    obtain ⟨h1, h2⟩ := hfresh c' hc' fd hc''
    exact hc.elim h1 h2
  refine ⟨?_, ?_, ?_, ?_, ?_, ?_⟩
  · intro c' hc'
    rcases List.mem_cons.mp hc' with rfl | hc'
    · exact hne
    · exact h.fd_ne c' hc'
  · intro c₁ h₁ c₂ h₂ fd hfd₁ hfd₂
    rcases List.mem_cons.mp h₁ with hnew₁ | hold₁
    · rcases List.mem_cons.mp h₂ with hnew₂ | hold₂
      · rw [hnew₁, hnew₂]
      · exact absurd hfd₂ (hown fd (hnew₁ ▸ hfd₁) c₂ hold₂)
    · rcases List.mem_cons.mp h₂ with hnew₂ | hold₂
      · exact absurd hfd₁ (hown fd (hnew₂ ▸ hfd₂) c₁ hold₁)
      · exact h.owner c₁ hold₁ c₂ hold₂ fd hfd₁ hfd₂
  · intro c' hc'
    rcases List.mem_cons.mp hc' with rfl | hc'
    · exact ⟨_, by rw [hget, if_pos rfl], ⟨rfl, rfl, rfl⟩, rfl, rfl, Option.some_ne_none _⟩
    · rw [hother c' hc' _ (.inl rfl)]
      exact h.tcp c' hc'
  · intro c' hc'
    rcases List.mem_cons.mp hc' with rfl | hc'
    · exact ⟨_, by rw [hget, if_neg hne.symm, if_pos rfl], ⟨rfl, rfl, rfl⟩, rfl⟩
    · rw [hother c' hc' _ (.inr rfl)]
      exact h.udp c' hc'
  · intro fd d hd
    rw [hget] at hd
    split_ifs at hd with h1 h2
    · exact ⟨c, List.mem_cons_self, .inl h1⟩
    · exact ⟨c, List.mem_cons_self, .inr h2⟩
    · obtain ⟨c', hc', hown'⟩ := h.owned fd d hd
      exact ⟨c', List.mem_cons_of_mem c hc', hown'⟩
  · intro c' hc' fd hown'
    unfold ksnTCPProxyServerClientConnect
    rcases List.mem_cons.mp hc' with rfl | hc'
    · rcases hown' with rfl | rfl
      · exact Finset.mem_insert_of_mem (Finset.mem_insert_self _ _)
      · exact Finset.mem_insert_self _ _
    · exact Finset.mem_insert_of_mem (Finset.mem_insert_of_mem (h.opened c' hc' fd hown'))

/-- A disconnect of a live TCP descriptor removes both records and closes both sockets. -/
theorem Registered.disconnect_eq (h : Registered live tp) (hc : c ∈ live) :
    (∀ fd, (ksnTCPProxyServerClientDisconnect tp c.fd 1).map.get fd =
      if fd = c.fd ∨ fd = c.udpProxyFd then none else tp.map.get fd) ∧
    (ksnTCPProxyServerClientDisconnect tp c.fd 1).fds = (tp.fds.erase c.fd).erase c.udpProxyFd := by
  obtain ⟨d, hd, ⟨-, hudp, -⟩, -⟩ := h.tcp c hc
  have hne : c.fd ≠ d.udpProxyFd := hudp ▸ h.fd_ne c hc
  unfold ksnTCPProxyServerClientDisconnect
  rw [hd]
  dsimp only
  rw [if_neg hne, if_pos one_ne_zero, hudp]
  refine ⟨fun fd => ?_, rfl⟩
  dsimp only
  rw [FinMap.get_remove, FinMap.get_remove, FinMap.get_modify]
  split_ifs with h1 h2 h3 h4 <;> first | rfl | exact absurd (.inl h1) h2 | tauto

/-- A disconnect of any other descriptor does nothing. -/
theorem Registered.disconnect_other (h : Registered live tp) (hfd : ∀ c ∈ live, c.fd ≠ fd) :
    ksnTCPProxyServerClientDisconnect tp fd 1 = tp := by
  unfold ksnTCPProxyServerClientDisconnect
  cases hd : tp.map.get fd with
  | none => rfl
  | some d =>
    obtain ⟨c, hc, hown, -, hudp, -⟩ := h.holds_of_get hd
    have hskip : fd = d.udpProxyFd := by
      rw [hudp]
      exact hown.resolve_left (hfd c hc).symm
    exact if_pos hskip

/-- **A disconnect** of any descriptor takes out the connection that has it as its TCP
descriptor. -/
theorem Registered.disconnect (h : Registered live tp) (fd : ℤ) :
    Registered (liveAfter live (.disconnect fd)) (ksnTCPProxyServerClientDisconnect tp fd 1) := by
  by_cases hlive : ∃ c ∈ live, c.fd = fd
  · obtain ⟨c, hc, rfl⟩ := hlive
    obtain ⟨hget, hfds⟩ := h.disconnect_eq hc
    have hmem : ∀ c', c' ∈ liveAfter live (.disconnect c.fd) → c' ∈ live ∧ c' ≠ c := by
      intro c' hc'
      obtain ⟨hc', hne⟩ := List.mem_filter.mp hc'
      refine ⟨hc', ?_⟩
      rintro rfl
      simp at hne
    have hfree : ∀ c' ∈ live, c' ≠ c → ∀ fd, c'.Owns fd → ¬ c.Owns fd :=
      fun c' hc' hne fd hown hown' => hne (h.owner c' hc' c hc fd hown hown')
    have hother : ∀ c' ∈ live, c' ≠ c → ∀ fd, c'.Owns fd →
        (ksnTCPProxyServerClientDisconnect tp c.fd 1).map.get fd = tp.map.get fd := by
      intro c' hc' hne fd hown
      rw [hget]
      exact if_neg (hfree c' hc' hne fd hown)
    refine ⟨?_, ?_, ?_, ?_, ?_, ?_⟩
    · intro c' hc'
      exact h.fd_ne c' (hmem c' hc').1
    · intro c₁ h₁ c₂ h₂
      exact h.owner c₁ (hmem c₁ h₁).1 c₂ (hmem c₂ h₂).1
    · intro c' hc'
      obtain ⟨hc', hne⟩ := hmem c' hc'
      rw [hother c' hc' hne _ (.inl rfl)]
      exact h.tcp c' hc'
    · intro c' hc'
      obtain ⟨hc', hne⟩ := hmem c' hc'
      rw [hother c' hc' hne _ (.inr rfl)]
      exact h.udp c' hc'
    · intro fd d hd
      rw [hget] at hd
      split_ifs at hd with hown
      obtain ⟨c', hc', hown'⟩ := h.owned fd d hd
      refine ⟨c', List.mem_filter.mpr ⟨hc', ?_⟩, hown'⟩
      have hne : c'.fd ≠ c.fd := by
        intro he
        obtain rfl := h.owner c' hc' c hc c'.fd (.inl rfl) (.inl he)
        exact hown hown'
      simpa using hne
    · intro c' hc' fd hown
      obtain ⟨hc', hne⟩ := hmem c' hc'
      have hnot := hfree c' hc' hne fd hown
      rw [hfds]
      exact Finset.mem_erase_of_ne_of_mem (fun he => hnot (.inr he))
        (Finset.mem_erase_of_ne_of_mem (fun he => hnot (.inl he)) (h.opened c' hc' fd hown))
  · have hfd : ∀ c ∈ live, c.fd ≠ fd := fun c hc he => hlive ⟨c, hc, he⟩
    have hsame : liveAfter live (.disconnect fd) = live := by
      refine List.filter_eq_self.mpr fun c hc => ?_
      simpa using hfd c hc
    rw [h.disconnect_other hfd, hsame]
    exact h

theorem Registered.step {e : ProxyServerEvent} (h : Registered live tp)
    (hstep : ProxyServerStep tp e tp') : Registered (liveAfter live e) tp' := by
  cases e with
  | connect c =>
    obtain ⟨⟨hfd, hudp, hne⟩, rfl⟩ := hstep
    exact h.connect hfd hudp hne
  | disconnect fd =>
    obtain rfl : tp' = ksnTCPProxyServerClientDisconnect tp fd 1 := hstep
    exact h.disconnect fd

theorem registered_run {es : List ProxyServerEvent} (h : Run ProxyServerStep {} es tp) :
    Registered (liveConns es) tp := by
  have hrun := h.history (fun past tp => Registered (liveConns past) tp)
    (fun past tp e tp' hi hstep => by
      rw [liveConns, List.foldl_append]
      exact hi.step hstep)
    [] registered_init
  exact hrun

/-! ### Datagrams -/

/-- What a live connection's datagram is written to. -/
theorem Registered.cmdUdppReadCb (h : Registered live tp) (hc : c ∈ live)
    (getByteChecksum : List UInt8 → UInt8) (datagram : List UInt8) (addr : CString) (port : ℕ) :
    cmdUdppReadCb getByteChecksum tp c.udpProxyFd datagram addr port =
      if datagram = [] then [] else
        match ksnTCPProxyPackageCreate getByteChecksum ksnBufferDbSize addr port cmdTcppProxy
          (datagram.take ksnBufferDbSize) with
        | .ok package => [(c.fd, package)]
        | .error _ => [] := by
  obtain ⟨d, hd, ⟨htcp, -⟩, -⟩ := h.udp c hc
  unfold Teonet.cmdUdppReadCb
  rw [hd, ← htcp]
  cases datagram with
  | nil => rfl
  | cons b bs =>
    rw [if_neg (List.cons_ne_nil b bs)]
    dsimp only
    rw [if_pos (by rw [List.length_take]; exact Nat.lt_min.mpr ⟨by decide, Nat.succ_pos _⟩)]
    cases ksnTCPProxyPackageCreate getByteChecksum ksnBufferDbSize addr port cmdTcppProxy
      ((b :: bs).take ksnBufferDbSize) <;> rfl

/-- A package of at most the buffer's size is made. -/
theorem ksnTCPProxyPackageCreate_fits (getByteChecksum : List UInt8 → UInt8) {bufferLength : ℕ}
    (addr : CString) (port cmd : ℕ) {data : List UInt8}
    (h : tcpProxyHeaderSize + (addr.length + 1) + data.length ≤ bufferLength) :
    ∃ package, ksnTCPProxyPackageCreate getByteChecksum bufferLength addr port cmd data =
      .ok package := by
  have hlen : (UInt8.ofNat (addr.length + 1)).toNat ≤ addr.length + 1 := by
    rw [Bytes.toNat_ofNat]
    exact Nat.mod_le _ _
  unfold ksnTCPProxyPackageCreate
  rw [if_neg (by omega)]
  dsimp only
  rw [if_neg (by omega)]
  exact ⟨_, rfl⟩

/-- **The server's map**: after any connects with fresh descriptors and any disconnects, a record
holds a live connection's values exactly when it stands under one of its two descriptors, every
record is one of these, and the datagrams of a connection's UDP socket, on which a watcher is
started, are written to its TCP connection: each that is not empty and whose package fits the
buffer, and none to another descriptor. -/
theorem registered_of_run (getByteChecksum : List UInt8 → UInt8) {es : List ProxyServerEvent}
    {tp : KsnTCPProxyClass} (h : Run ProxyServerStep {} es tp) :
    (∀ c ∈ liveConns es, c.fd ≠ c.udpProxyFd ∧
      ∀ fd, (∃ d, tp.map.get fd = some d ∧ d.Holds c) ↔ c.Owns fd) ∧
    (∀ fd d, tp.map.get fd = some d → ∃ c ∈ liveConns es, d.Holds c) ∧
    ∀ c ∈ liveConns es, (∃ fd d, tp.map.get fd = some d ∧ d.wUdp = some c.udpProxyFd) ∧
      ∀ (datagram : List UInt8) (addr : CString) (port : ℕ),
        (∀ written ∈ cmdUdppReadCb getByteChecksum tp c.udpProxyFd datagram addr port,
          written.1 = c.fd) ∧
        (datagram ≠ [] →
          tcpProxyHeaderSize + (addr.length + 1) + datagram.length ≤ ksnBufferDbSize →
          ∃ package, ksnTCPProxyPackageCreate getByteChecksum ksnBufferDbSize addr port cmdTcppProxy
              datagram = .ok package ∧
            cmdUdppReadCb getByteChecksum tp c.udpProxyFd datagram addr port =
              [(c.fd, package)]) := by
  have hreg := registered_run h
  refine ⟨fun c hc => ⟨hreg.fd_ne c hc, fun fd => ⟨?_, ?_⟩⟩, ?_, fun c hc => ⟨?_, ?_⟩⟩
  · rintro ⟨d, hd, htcp, -⟩
    obtain ⟨c', hc', hown, htcp', -⟩ := hreg.holds_of_get hd
    obtain rfl := hreg.owner c hc c' hc' c.fd (.inl rfl) (.inl (htcp.symm.trans htcp'))
    exact hown
  · rintro (rfl | rfl)
    · obtain ⟨d, hd, hholds, -⟩ := hreg.tcp c hc
      exact ⟨d, hd, hholds⟩
    · obtain ⟨d, hd, hholds, -⟩ := hreg.udp c hc
      exact ⟨d, hd, hholds⟩
  · intro fd d hd
    obtain ⟨c, hc, -, hholds⟩ := hreg.holds_of_get hd
    exact ⟨c, hc, hholds⟩
  · obtain ⟨d, hd, -, -, hw, -⟩ := hreg.tcp c hc
    exact ⟨c.fd, d, hd, hw⟩
  · intro datagram addr port
    rw [hreg.cmdUdppReadCb hc]
    refine ⟨fun written hwritten => ?_, fun hne hfit => ?_⟩
    · split_ifs at hwritten
      · cases hwritten
      · split at hwritten
        · rw [List.mem_singleton.mp hwritten]
        · cases hwritten
    · obtain ⟨package, hpackage⟩ := ksnTCPProxyPackageCreate_fits getByteChecksum addr port
        cmdTcppProxy hfit
      rw [if_neg hne, List.take_of_length_le (by omega), hpackage]
      exact ⟨package, rfl, rfl⟩

/-- A first client on descriptor 5, whose UDP socket gets 6; the descriptors are used again the
other way round. -/
def proxyHistory : List ProxyServerEvent :=
  [.connect ⟨5, 6, 9000⟩, .disconnect 5, .connect ⟨6, 5, 9001⟩]

/-- The map after this history. -/
def proxyHistoryEnd : KsnTCPProxyClass :=
  ksnTCPProxyServerClientConnect (ksnTCPProxyServerClientDisconnect
    (ksnTCPProxyServerClientConnect {} 5 6 9000) 5 1) 6 5 9001

theorem run_proxyHistory : Run ProxyServerStep {} proxyHistory proxyHistoryEnd :=
  .cons ⟨by decide, rfl⟩ (.cons rfl (.cons ⟨by decide, rfl⟩ (.nil _)))

theorem registered_of_run_proxyHistory :
    ∃ package, ksnTCPProxyPackageCreate sampleEnv.getByteChecksum ksnBufferDbSize .empty 9000
        cmdTcppProxy [1] = .ok package ∧
      cmdUdppReadCb sampleEnv.getByteChecksum proxyHistoryEnd 5 [1] .empty 9000 = [(6, package)] :=
  ((registered_of_run sampleEnv.getByteChecksum run_proxyHistory).2.2 ⟨6, 5, 9001⟩
    (by decide)).2 [1] .empty 9000 |>.2 (by decide) (by decide)

/-- An empty datagram is not written to the TCP connection. -/
theorem not_registered_of_run :
    ¬ ∀ (getByteChecksum : List UInt8 → UInt8) (es : List ProxyServerEvent) (tp : KsnTCPProxyClass),
      Run ProxyServerStep {} es tp → ∀ c ∈ liveConns es,
      ∀ (datagram : List UInt8) (addr : CString) (port : ℕ),
        ∃ package, cmdUdppReadCb getByteChecksum tp c.udpProxyFd datagram addr port =
          [(c.fd, package)] := by
  intro h
  obtain ⟨package, hpackage⟩ := h sampleEnv.getByteChecksum proxyHistory proxyHistoryEnd
    run_proxyHistory ⟨6, 5, 9001⟩ (by decide) [] .empty 9000
  cases hpackage

end Teonet
