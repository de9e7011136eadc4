import Teonet.Peers
import Teonet.TcpProxyServer

/-! # The TCP proxy client and its r-host

A host with `r_tcp_f` reaches its r-host over one TCP connection.  `ksnTCPProxyInit` connects once;
after that only `connect_r_host_cb`, which runs while the host has no r-host, may connect again.
Whether there is a connection is read off `fd_client`: the header, `teo_sendto` and
`ksnTCPProxyClientStop` take `0` for "not connected", and `connect_r_host_cb` takes a negative
number for it.

`Linked` says what `fd_client` is in every state that the host reaches: never negative, and `0` while
there is no connection.  So `connect_r_host_cb` never connects (`not_connectsFirst_of_run`). -/

namespace Teonet

open Runs

/-! ### The connection -/

namespace KsnTCPProxyClass

/-- `ksnTCPProxyClientConnect`; `fd` is what `ksnTcpClientCreate` returns, negative when it
fails. -/
def ksnTCPProxyClientConnect (tp : KsnTCPProxyClass) (rTcpF : Bool) (fd : ℤ) : KsnTCPProxyClass :=
  if rTcpF then
    let tp := { tp with
      packet := { tp.packet with ptr := 0, length := 0, stage := .waitForStart } }
    if fd ≥ 0 then { tp with fdClient := fd, wClient := some fd, fds := insert fd tp.fds } else tp
  else tp

/-- `ksnTCPProxyClientStop`, as far as it concerns the connection. -/
def ksnTCPProxyClientStop (tp : KsnTCPProxyClass) (rTcpF : Bool) : KsnTCPProxyClass :=
  if rTcpF ∧ tp.fdClient > 0 then
    { tp with wClient := none, fds := tp.fds.erase tp.fdClient, fdClient := 0 }
  else tp

/-- `ksnTCPProxyInit`, as far as it concerns the client. -/
def ksnTCPProxyInit (rTcpF : Bool) (fd : ℤ) : KsnTCPProxyClass :=
  ksnTCPProxyClientConnect { fdClient := 0 } rTcpF fd

end KsnTCPProxyClass

/-- How a packet leaves the host. -/
inductive SendRoute
  /-- written to the TCP connection -/
  | tcp (fd : ℤ)
  /-- sent by UDP -/
  | udp
deriving DecidableEq

/-- The route that `teo_sendto` takes. -/
def teoSendto (tp : KsnTCPProxyClass) (rTcpF : Bool) : SendRoute :=
  if rTcpF ∧ tp.fdClient > 0 then .tcp tp.fdClient else .udp

/-! ### The host -/

/-- A host and its TCP proxy module. -/
structure ProxyHost where
  peers : Peers
  tp : KsnTCPProxyClass

/-- What an event does to the host.  The connection changes when it is closed by the server, and when
`connect_r_host_cb` calls `ksnTCPProxyClientConnect`. -/
def proxyHostHandle (env : PeersEnv) (h : ProxyHost) (e : PeersEvent) :
    ProxyHost × List PeerCall :=
  let r := peersHandle env h.peers e
  let tp := match e with
    | .tcpClosed => h.tp.ksnTCPProxyClientStop h.peers.rTcpF
    | .connectRHost resolved fd =>
      if .clientConnect resolved ∈ r.2 then h.tp.ksnTCPProxyClientConnect h.peers.rTcpF fd
      else h.tp
    | _ => h.tp
  ({ peers := r.1, tp := tp }, r.2)

/-- One step. -/
def ProxyHostStep (env : PeersEnv) (h : ProxyHost) (e : PeersEvent) (h' : ProxyHost) : Prop :=
  h' = (proxyHostHandle env h e).1

/-- The state of a TCP proxy client that has just started. -/
structure ProxyHostStart (env : PeersEnv) (h : ProxyHost) : Prop where
  peers : PeersStart env h.peers
  rTcp : h.peers.rTcpF = true
  tp : ∃ fd, h.tp = KsnTCPProxyClass.ksnTCPProxyInit h.peers.rTcpF fd
  fdClient : h.peers.fdClient = h.tp.fdClient

/-- `connect_r_host_cb` calls `ksnTCPProxyClientConnect` before it sends `CMD_CONNECT_R`, and when
that connects, the command is written to the open connection. -/
def ConnectsFirst (env : PeersEnv) (h : ProxyHost) (resolved : CString) (fd : ℤ) : Prop :=
  (∃ before after, (proxyHostHandle env h (.connectRHost resolved fd)).2 =
      before ++ .clientConnect resolved :: after ∧
    .sendto resolved h.peers.rPort cmdConnectR [0] ∈ after) ∧
  (fd ≥ 0 → teoSendto (proxyHostHandle env h (.connectRHost resolved fd)).1.tp h.peers.rTcpF =
      .tcp fd ∧
    (proxyHostHandle env h (.connectRHost resolved fd)).1.tp.wClient = some fd)

/-! ### What `fd_client` is -/

section Peers

variable (env : PeersEnv) (s : Peers)

/-- The two fields of `Peers` that the TCP connection concerns. -/
def Peers.tcp (s : Peers) : Bool × ℤ := (s.rTcpF, s.fdClient)

theorem ksnCoreCheckNewPeer_tcp (rd : KsnCorePacketData) :
    (ksnCoreCheckNewPeer env s rd).1.tcp = s.tcp := by
  unfold ksnCoreCheckNewPeer
  cases s.arp.get rd.fromName <;> dsimp only <;> split_ifs <;> rfl

theorem ksnCommandCheckPeers_tcp (rd : KsnCorePacketData) :
    (ksnCommandCheckPeers env s rd).1.tcp = s.tcp := by
  unfold ksnCommandCheckPeers
  split_ifs
  · unfold cmdConnectRCb
    dsimp only
    split_ifs <;> rfl
  · rfl
  · rfl
  · unfold cmdHostInfoAnswerCb
    split
    · split_ifs <;> rfl
    · rfl
  · rfl

theorem receivePacket_tcp (rd : KsnCorePacketData)
    (combined : List (UInt8 × List UInt8 × List UInt8)) :
    (receivePacket env s rd combined).1.tcp = s.tcp := by
  unfold receivePacket
  cases dispatched rd combined with
  | none => exact ksnCoreCheckNewPeer_tcp env s rd
  | some d => exact (ksnCommandCheckPeers_tcp env _ d).trans (ksnCoreCheckNewPeer_tcp env s rd)

theorem checkConnectedCb_tcp (name : CString) (echo : List UInt8) :
    (checkConnectedCb s name echo).1.tcp = s.tcp := by
  unfold checkConnectedCb
  cases s.arp.get name with
  | none => rfl
  | some a =>
    dsimp only
    split_ifs <;> rfl

theorem removePeerAddr_tcp (addr : CString) (port : ℕ) :
    (removePeerAddr s addr port).1.tcp = s.tcp := by
  unfold removePeerAddr
  split
  · split_ifs <;> rfl
  · rfl

theorem connectRHostCb_tcp (h : 0 ≤ s.fdClient) (resolved : CString) (fd : ℤ) :
    (connectRHostCb env s resolved fd).1.tcp = s.tcp ∧
      ∀ addr, .clientConnect addr ∉ (connectRHostCb env s resolved fd).2 := by
  have hnot : ¬ s.fdClient < 0 := by omega
  unfold connectRHostCb
  simp only [hnot, false_and, if_false]
  split_ifs
  · exact ⟨rfl, fun addr => by simp⟩
  · exact ⟨rfl, fun addr => by simp⟩
  · exact ⟨rfl, fun addr => by simp⟩

end Peers

/-- `fd_client` is not negative, and is the descriptor of the open connection: `0` while there is
none. -/
structure Linked (h : ProxyHost) : Prop where
  rTcp : h.peers.rTcpF = true
  same : h.peers.fdClient = h.tp.fdClient
  nonneg : 0 ≤ h.tp.fdClient
  closed : h.tp.wClient = none → h.tp.fdClient = 0

variable {env : PeersEnv} {h h' : ProxyHost}

theorem ProxyHostStart.linked (hstart : ProxyHostStart env h) : Linked h := by
  obtain ⟨fd, htp⟩ := hstart.tp
  rw [hstart.rTcp] at htp
  rw [KsnTCPProxyClass.ksnTCPProxyInit, KsnTCPProxyClass.ksnTCPProxyClientConnect, if_pos rfl]
    at htp
  refine ⟨hstart.rTcp, hstart.fdClient, ?_, fun hw => ?_⟩
  · rw [htp]
    dsimp only
    split_ifs with hfd
    · exact hfd
    · exact le_rfl
  · rw [htp] at hw ⊢
    dsimp only at hw ⊢
    split_ifs at hw ⊢
    rfl

/-- What leaves the connection and its descriptor as they are keeps them linked. -/
theorem Linked.of_tcp (hl : Linked h) {peers : Peers} (htcp : peers.tcp = h.peers.tcp) :
    Linked { peers := peers, tp := h.tp } where
  rTcp := (congrArg Prod.fst htcp).trans hl.rTcp
  same := (congrArg Prod.snd htcp).trans hl.same
  nonneg := hl.nonneg
  closed := hl.closed

variable (env) in
/-- `connect_r_host_cb` does not connect, and changes nothing of the connection. -/
theorem Linked.connectRHost (hl : Linked h) (resolved : CString) (fd : ℤ) :
    (proxyHostHandle env h (.connectRHost resolved fd)).1.tp = h.tp ∧
    (connectRHostCb env h.peers resolved fd).1.tcp = h.peers.tcp ∧
    ∀ addr, .clientConnect addr ∉ (proxyHostHandle env h (.connectRHost resolved fd)).2 := by
  have hnonneg : 0 ≤ h.peers.fdClient := hl.same ▸ hl.nonneg
  obtain ⟨htcp, hcalls⟩ := connectRHostCb_tcp env h.peers hnonneg resolved fd
  exact ⟨if_neg (hcalls resolved), htcp, hcalls⟩

/-- A server that closes the connection leaves `fd_client` at `0`. -/
theorem Linked.tcpClosed (hl : Linked h) : Linked (proxyHostHandle env h .tcpClosed).1 := by
  have hpeers := hl.rTcp
  change Linked ⟨ksnTCPProxyClientStop env h.peers, h.tp.ksnTCPProxyClientStop h.peers.rTcpF⟩
  unfold ksnTCPProxyClientStop KsnTCPProxyClass.ksnTCPProxyClientStop
  rw [hpeers, hl.same]
  split_ifs with hstop
  · exact ⟨rfl, rfl, le_rfl, fun _ => rfl⟩
  · exact hl

theorem Linked.step {e : PeersEvent} (hl : Linked h) (hstep : ProxyHostStep env h e h') :
    Linked h' := by
  obtain rfl : h' = (proxyHostHandle env h e).1 := hstep
  cases e with
  | packet rd combined => exact hl.of_tcp (receivePacket_tcp env h.peers rd combined)
  | timeout name echo => exact hl.of_tcp (checkConnectedCb_tcp h.peers name echo)
  | reset addr port => exact hl.of_tcp (removePeerAddr_tcp h.peers addr port)
  | tcpClosed => exact hl.tcpClosed
  | connectRHost resolved fd =>
    obtain ⟨htp, htcp, -⟩ := hl.connectRHost env resolved fd
    have hlinked := hl.of_tcp htcp
    rw [← htp] at hlinked
    exact hlinked

/-- **The connection is never made again**: in no state that a TCP proxy client reaches without an
open connection does `connect_r_host_cb` call `ksnTCPProxyClientConnect`, and its `CMD_CONNECT_R`
goes out by UDP. -/
theorem not_connectsFirst_of_run {h₀ : ProxyHost} {es : List PeersEvent}
    (hstart : ProxyHostStart env h₀) (hrun : Run (ProxyHostStep env) h₀ es h)
    (hconn : h.tp.wClient = none) (resolved : CString) (fd : ℤ) :
    ¬ ConnectsFirst env h resolved fd ∧
    (∀ addr, .clientConnect addr ∉ (proxyHostHandle env h (.connectRHost resolved fd)).2) ∧
    teoSendto (proxyHostHandle env h (.connectRHost resolved fd)).1.tp h.peers.rTcpF = .udp := by
  have hl : Linked h := hrun.invariant (fun _ _ _ hl hstep => hl.step hstep) hstart.linked
  obtain ⟨htp, -, hcalls⟩ := hl.connectRHost env resolved fd
  refine ⟨?_, hcalls, ?_⟩
  · rintro ⟨⟨before, after, hbefore, -⟩, -⟩
    refine hcalls resolved ?_
    rw [hbefore]
    exact List.mem_append_right before List.mem_cons_self
  · have hzero : ¬ h.tp.fdClient > 0 := by
      rw [hl.closed hconn]
      decide
    rw [htp, teoSendto, if_neg fun hroute => hzero hroute.2]

/-- A TCP proxy client that has connected on descriptor 5. -/
def connectedHost : ProxyHost where
  peers := { newHost with rTcpF := true, fdClient := 5 }
  tp := KsnTCPProxyClass.ksnTCPProxyInit true 5

theorem connectedHost_start : ProxyHostStart plainEnv connectedHost :=
  ⟨⟨rfl, rfl⟩, rfl, ⟨5, rfl⟩, rfl⟩

theorem not_connectsFirst_of_run_closed :
    ¬ ConnectsFirst plainEnv (proxyHostHandle plainEnv connectedHost .tcpClosed).1 localhost 6 :=
  (not_connectsFirst_of_run connectedHost_start (.single rfl) rfl localhost 6).1

/-- The server closes the connection: at the next tick, where a connect would succeed, the host does
not connect. -/
theorem not_connectsFirst :
    ¬ ∀ (env : PeersEnv) (h₀ h : ProxyHost) (es : List PeersEvent), ProxyHostStart env h₀ →
      Run (ProxyHostStep env) h₀ es h → h.peers.rHostAddr ≠ .empty → h.peers.rHostName = .empty →
      h.tp.wClient = none → ∀ (resolved : CString) (fd : ℤ), ConnectsFirst env h resolved fd := by
  intro h
  have hconnects := h plainEnv connectedHost _ [.tcpClosed] connectedHost_start (.single rfl)
    (by decide) rfl rfl localhost 6
  have hroute : teoSendto (proxyHostHandle plainEnv (proxyHostHandle plainEnv connectedHost
      .tcpClosed).1 (.connectRHost localhost 6)).1.tp true = .udp := by
    decide
  have htcp := (hconnects.2 (by decide)).1
  exact absurd (hroute.symm.trans htcp) (by decide)

end Teonet
