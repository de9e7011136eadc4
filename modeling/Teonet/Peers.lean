import Teonet.Lib.Bytes
import Teonet.Lib.FinMap
import Teonet.Lib.Runs
import Teonet.Packet

/-! # Peers and the r-host

The ARP table of a host (`net_arp.c`) holds a record for every peer that has sent it a packet.
The peer through which the host joined the mesh is its r-host: `ksnCoreCheckNewPeer` writes the
peer's name into `teo_cfg.r_host_name` and gives its record the mode 1, and while the name is
empty `connect_r_host_cb` asks for a connection again.

This file translates the code that changes the table or the name: the new-peer check, the
commands `CMD_CONNECT_R`, `CMD_DISCONNECTED` and `CMD_HOST_INFO_ANSWER`, the removal of a peer by
name and by address, and `connect_r_host_cb`.  `RHostRecorded` says that the name names a record
of mode 1.  Not every packet keeps it: `peersHandle_rHostRecorded` shows that an event that meets
`PeersGuard` does, and `rHostRecorded_of_run` draws the consequence for runs. -/

namespace Teonet

open Bytes Runs

/-! ### State and effects -/

/-- `ksnet_arp_data_ext`: the address of a peer, its mode (`-1` this host, `1` the r-host, `2` a
peer behind a TCP proxy) and its application type. -/
structure ArpData where
  addr : CString
  port : ℕ
  mode : ℤ
  type : Option CString
deriving DecidableEq

/-- `ksnetArpClass`: the records under the peers' names. -/
abbrev KsnetArpClass : Type := FinMap CString ArpData

/-- The parts of the event manager that this file reads and writes. -/
structure Peers where
  hostName : CString
  hostPort : ℕ
  rHostName : CString := CString.empty
  rHostAddr : CString := CString.empty
  rPort : ℕ := 0
  isRhost : Bool := false
  rTcpF : Bool := false
  fdClient : ℤ := 0
  arp : KsnetArpClass := FinMap.empty

/-- What the functions take from the system and from other modules: the private addresses of this
host (`getIPs`), its own type, the type in another host's info, the `CMD_CONNECT_R` packet for
UDP, and the size of the address field of a record. -/
structure PeersEnv where
  privateIps : List CString
  fullType : CString
  fullTypeOf : List UInt8 → CString
  connectRPacketUdp : List UInt8
  addrSize : ℕ

/-- `EV_K_CONNECTED` and `EV_K_DISCONNECTED`. -/
inductive PeerEv
  | connected
  | disconnected
deriving DecidableEq

/-- The calls the functions make. -/
inductive PeerCall
  /-- `ksnCoreSendto` -/
  | sendto (addr : CString) (port : ℕ) (cmd : UInt8) (data : List UInt8)
  /-- `ksnCoreSendCmdto` -/
  | sendCmdto (toName : CString) (cmd : UInt8) (data : List UInt8)
  /-- `send` of the reconnect module -/
  | reconnect (peer : CString)
  /-- `event_cb` and `teoSScrSend`, which tell the application and the subscribers -/
  | event (ev : PeerEv) (fromName : CString)
  | subscribers (ev : PeerEv) (fromName : CString)
  /-- `ksnTCPProxyClientConnect` -/
  | clientConnect (addr : CString)
  /-- `ksnCQueAdd` of `cmd_connect_cque_cb` with an address, for two seconds -/
  | cqueAdd (addr : CString) (port : ℕ)
deriving DecidableEq

/-- `localhost`. -/
def localhost : CString := ⟨[58, 58, 49], by decide⟩

/-- The room for characters in `r_host_name` and in `r_host_addr`. -/
def rHostNameMax : ℕ := 30
def rHostAddrMax : ℕ := 127

/-! ### Walks over the table -/

/-- The records that `ksnetArpGetAll` passes to its callback: all but this host. -/
def ksnetArpGetAll (arp : KsnetArpClass) : List (CString × ArpData) :=
  arp.toPairs.filter fun p => 0 ≤ p.2.mode

/-- `createCmdConnectPacket`. -/
def createCmdConnectPacket (env : PeersEnv) (name addr : CString) (port : ℕ) : List UInt8 :=
  name.toBuf ++ (addr.toBuf ++ (env.fullType.toBuf ++ le 4 port))

/-- A walk with `send_cmd_connect_cb`: every peer but `name` is told where `name` is. -/
def sendCmdConnectCb (env : PeersEnv) (arp : KsnetArpClass) (name addr : CString) (port : ℕ) :
    List PeerCall :=
  ((ksnetArpGetAll arp).filter fun p => p.1 ≠ name).map fun p =>
    .sendCmdto p.1 cmdConnect (createCmdConnectPacket env name addr port)

/-- A walk with `send_cmd_connect_cb_b`: the host at `addr` is told where every peer but `name`
is. -/
def sendCmdConnectCbB (env : PeersEnv) (arp : KsnetArpClass) (name addr : CString) (port : ℕ) :
    List PeerCall :=
  ((ksnetArpGetAll arp).filter fun p => p.1 ≠ name).map fun p =>
    .sendto addr port cmdConnect (createCmdConnectPacket env p.1 p.2.addr p.2.port)

/-! ### The new-peer check -/

/-- The test of `ksnCoreCheckNewPeer` on a packet of an unknown peer: there is no r-host yet and
the packet comes from the r-host's port, as an answer or from the r-host's address. -/
def AnswersRHost (s : Peers) (rd : KsnCorePacketData) : Prop :=
  s.rHostName = CString.empty ∧ s.rPort = rd.port ∧
    (((rd.cmd = cmdNone ∨ rd.cmd = cmdHostInfo) ∧ rd.data.length = 2) ∨ s.rHostAddr = rd.addr)

instance (s : Peers) (rd : KsnCorePacketData) : Decidable (AnswersRHost s rd) :=
  inferInstanceAs (Decidable (_ ∧ _ ∧ _))

/-- `connect_r_packet_t`: the number of addresses and the type, behind the port. -/
def connectRIpCounts (rd : KsnCorePacketData) : UInt8 := (rd.data ++ rd.after).getD 4 0
def connectRType (rd : KsnCorePacketData) : CString := CString.ofBuf ((rd.data ++ rd.after).drop 5)

/-- The record of a new peer. -/
def newArpData (env : PeersEnv) (rd : KsnCorePacketData) (mode : ℤ) : ArpData where
  addr := rd.addr.take (env.addrSize - 1)
  port := rd.port
  mode := mode
  type := if rd.cmd = cmdConnectR then some (connectRType rd) else none

/-- The request for the new peer's host info; one byte more to a host that sent
`CMD_CONNECT_R`. -/
def hostInfoRequest (rd : KsnCorePacketData) : PeerCall :=
  .sendto rd.addr rd.port cmdHostInfo (if rd.cmd = cmdConnectR then [0, 0] else [0])

/-- `ksnCoreCheckNewPeer`. -/
def ksnCoreCheckNewPeer (env : PeersEnv) (s : Peers) (rd : KsnCorePacketData) :
    Peers × List PeerCall :=
  match s.arp.get rd.fromName with
  | none =>
    if AnswersRHost s rd then
      let arp := s.arp.add rd.fromName (newArpData env rd 1)
      ({ s with
          rHostName := rd.fromName.take rHostNameMax
          rHostAddr := rd.addr.take rHostAddrMax
          arp := arp },
        hostInfoRequest rd :: (sendCmdConnectCbB env arp rd.fromName rd.addr rd.port ++
          sendCmdConnectCb env arp rd.fromName rd.addr rd.port))
    else
      ({ s with arp := s.arp.add rd.fromName (newArpData env rd 0) }, [hostInfoRequest rd])
  | some arpData =>
    if rd.cmd = cmdNone ∧ rd.data.length = 2 then
      ({ s with
          rHostName := rd.fromName.take rHostNameMax
          arp := s.arp.add rd.fromName { arpData with mode := 1 } }, [])
    else (s, [])

/-! ### Commands -/

/-- `cmd_connect_r_cb`.  A host that names no address of its own (it is behind a TCP proxy) gets
the mode 2, and its peers learn the addresses of this host. -/
def cmdConnectRCb (env : PeersEnv) (s : Peers) (rd : KsnCorePacketData) : Peers × List PeerCall :=
  let answer := PeerCall.sendCmdto rd.fromName cmdNone [0, 0]
  if connectRIpCounts rd ≠ 0 then
    ({ s with isRhost := true },
      answer :: (sendCmdConnectCb env s.arp rd.fromName rd.addr rd.port ++
        sendCmdConnectCbB env s.arp rd.fromName rd.addr rd.port))
  else
    let arp := s.arp.modify rd.fromName fun a => { a with mode := 2 }
    let tell := fun (port : ℕ) (addr : CString) => sendCmdConnectCb env arp rd.fromName addr port
    ({ s with isRhost := true, arp := arp },
      answer :: match arp.get rd.fromName with
        | none => []
        | some a =>
          (localhost :: env.privateIps).flatMap (tell a.port) ++
            ([.event .connected rd.fromName, .subscribers .connected rd.fromName] ++
              tell a.port a.addr))

/-- `cmd_connect_cb`: a peer that is not known yet is sent a `CMD_NONE`; whether it is or not,
`cmd_connect_cque_cb` looks two seconds later if it has connected. -/
def cmdConnectCb (s : Peers) (rd : KsnCorePacketData) : List PeerCall :=
  let buf := rd.data ++ rd.after
  let name := CString.ofBuf buf
  let addr := CString.ofBuf (buf.drop (name.length + 1))
  let fullType := CString.ofBuf (buf.drop (name.length + 1 + (addr.length + 1)))
  let ptr := name.length + 1 + (addr.length + 1) + (fullType.length + 1)
  let port := getLe 4 (buf.drop ptr)
  (match s.arp.get name with
    | none => [.sendto addr port cmdNone [0]]
    | some _ => []) ++ [.cqueAdd addr port]

/-- `ksnetArpFindByAddr`: a record is looked up by its address, this host's among them. -/
def ksnetArpFindByAddr (arp : KsnetArpClass) (addr : CString) (port : ℕ) :
    Option (CString × ArpData) :=
  arp.toPairs.find? fun p => p.2.addr = addr ∧ p.2.port = port

/-- `cmd_connect_cque_cb`: whether it destroys the TR-UDP channel to the address. -/
def cmdConnectCqueCb (s : Peers) (addr : CString) (port : ℕ) : Bool :=
  (ksnetArpFindByAddr s.arp addr port).isNone

/-- The peer that a `CMD_DISCONNECTED` packet is about: the one it names, else its sender. -/
def disconnectedPeer (rd : KsnCorePacketData) : CString :=
  let named := CString.ofBuf (rd.data ++ rd.after)
  if named = CString.empty then rd.fromName else named

/-- `cmd_disconnected_cb`. -/
def cmdDisconnectedCb (s : Peers) (rd : KsnCorePacketData) : Peers × List PeerCall :=
  let peerName := disconnectedPeer rd
  let isRhost := s.rHostName ≠ CString.empty ∧ s.rHostName = rd.fromName
  ({ s with
      rHostName := if isRhost then CString.empty else s.rHostName
      arp := s.arp.remove peerName },
    (if isRhost then [] else [.reconnect peerName]) ++
      [.event .disconnected rd.fromName, .subscribers .disconnected rd.fromName])

/-- `cmd_host_info_answer_cb`: a binary answer gives the peer its type. -/
def cmdHostInfoAnswerCb (env : PeersEnv) (s : Peers) (rd : KsnCorePacketData) :
    Peers × List PeerCall :=
  match s.arp.get rd.fromName with
  | some ⟨addr, port, mode, none⟩ =>
    -- not JSON
    if rd.data ≠ [] ∧ rd.data.head? ≠ some 123 ∧ rd.data.getLast? ≠ some 125 then
      let typed := ⟨addr, port, mode, some (env.fullTypeOf (rd.data ++ rd.after))⟩
      ({ s with arp := s.arp.add rd.fromName typed },
        [.event .connected rd.fromName, .subscribers .connected rd.fromName])
    else (s, [])
  | _ => (s, [])

/-- The packet that `ksnCommandCheck` acts on.  A `CMD_SPLIT` packet is handed to
`ksnSplitCombine`; `combined` holds the command, the data and the bytes behind it of each packet
that is combined in turn, and there is nothing to act on when none is. -/
def dispatched (rd : KsnCorePacketData) :
    List (UInt8 × List UInt8 × List UInt8) → Option KsnCorePacketData
  | [] => if rd.cmd = cmdSplit then none else some rd
  | (cmd, data, after) :: rest =>
    if rd.cmd = cmdSplit then
      dispatched { rd with cmd := cmd, data := data, after := after, rawData := [] } rest
    else some rd

/-- `ksnCommandCheck` for the commands that concern the table. -/
def ksnCommandCheckPeers (env : PeersEnv) (s : Peers) (rd : KsnCorePacketData) :
    Peers × List PeerCall :=
  if rd.cmd = cmdConnectR then cmdConnectRCb env s rd
  else if rd.cmd = cmdConnect then (s, cmdConnectCb s rd)
  else if rd.cmd = cmdDisconnected then cmdDisconnectedCb s rd
  else if rd.cmd = cmdHostInfoAnswer then cmdHostInfoAnswerCb env s rd
  else (s, [])

/-- What `ksnCoreProcessPacket` does with a packet it takes. -/
def receivePacket (env : PeersEnv) (s : Peers) (rd : KsnCorePacketData)
    (combined : List (UInt8 × List UInt8 × List UInt8)) : Peers × List PeerCall :=
  let checked := ksnCoreCheckNewPeer env s rd
  match dispatched rd combined with
  | none => checked
  | some d =>
    let done := ksnCommandCheckPeers env checked.1 d
    (done.1, checked.2 ++ done.2)

/-! ### Peers that are gone -/

/-- `remove_peer`: the host acts as if the peer had said that it is gone. -/
def removePeer (s : Peers) (name : CString) (a : ArpData) : Peers × List PeerCall :=
  cmdDisconnectedCb s
    { addr := a.addr, port := a.port, fromName := name, fromLen := nameLen name }

/-- `remove_peer_addr`. -/
def removePeerAddr (s : Peers) (addr : CString) (port : ℕ) : Peers × List PeerCall :=
  match ksnetArpFindByAddr s.arp addr port with
  | some (name, a) => if 0 ≤ a.mode then removePeer s name a else (s, [])
  | none => (s, [])

/-- `check_connected_cb` for a peer that has been silent for too long; `echo` is the data of the
trip time request. -/
def checkConnectedCb (s : Peers) (name : CString) (echo : List UInt8) : Peers × List PeerCall :=
  match s.arp.get name with
  | some a =>
    if 0 ≤ a.mode then
      let removed := removePeer s name a
      (removed.1, .sendCmdto name cmdEcho echo :: .sendto a.addr a.port cmdDisconnected [] ::
        removed.2)
    else (s, [])
  | none => (s, [])

/-- `ksnetArpAddHost` on a new table. -/
def ksnetArpAddHost (env : PeersEnv) (s : Peers) : KsnetArpClass :=
  FinMap.empty.add s.hostName
    { addr := localhost, port := s.hostPort, mode := -1, type := some env.fullType }

/-- `ksnetArpRemoveAll`. -/
def ksnetArpRemoveAll (env : PeersEnv) (s : Peers) : Peers :=
  { s with rHostName := CString.empty, arp := ksnetArpAddHost env s }

/-- `ksnTCPProxyClientStop`, when the connection to the TCP proxy has ended. -/
def ksnTCPProxyClientStop (env : PeersEnv) (s : Peers) : Peers :=
  if s.rTcpF ∧ s.fdClient > 0 then ksnetArpRemoveAll env { s with fdClient := 0 } else s

/-- `connect_r_host_cb`; `resolved` is the r-host's address from `resolveDnsName` and `fd` what
the connection to its TCP port returns. -/
def connectRHostCb (env : PeersEnv) (s : Peers) (resolved : CString) (fd : ℤ) :
    Peers × List PeerCall :=
  if s.rHostAddr ≠ CString.empty ∧ s.rHostName = CString.empty then
    if s.rTcpF then
      let connects := s.fdClient < 0
      ({ s with
          rHostAddr := resolved
          fdClient := if connects ∧ 0 ≤ fd then fd else s.fdClient },
        (if connects then [.clientConnect resolved] else []) ++
          [.sendto resolved s.rPort cmdConnectR [0]])
    else
      ({ s with rHostAddr := resolved },
        [.sendto resolved s.rPort cmdConnectR env.connectRPacketUdp])
  else (s, [])

/-! ### Runs -/

/-- What happens to the host. -/
inductive PeersEvent
  | packet (rd : KsnCorePacketData) (combined : List (UInt8 × List UInt8 × List UInt8))
  | timeout (name : CString) (echo : List UInt8)
  | reset (addr : CString) (port : ℕ)
  | tcpClosed
  | connectRHost (resolved : CString) (fd : ℤ)

/-- The function that an event is given to. -/
def peersHandle (env : PeersEnv) (s : Peers) : PeersEvent → Peers × List PeerCall
  | .packet rd combined => receivePacket env s rd combined
  | .timeout name echo => checkConnectedCb s name echo
  | .reset addr port => removePeerAddr s addr port
  | .tcpClosed => (ksnTCPProxyClientStop env s, [])
  | .connectRHost resolved fd => connectRHostCb env s resolved fd

/-- One step. -/
def PeersStep (env : PeersEnv) (s : Peers) (e : PeersEvent) (s' : Peers) : Prop :=
  s' = (peersHandle env s e).1

/-- The state of a host that has just started. -/
structure PeersStart (env : PeersEnv) (s : Peers) : Prop where
  noRHost : s.rHostName = CString.empty
  onlyHost : s.arp = ksnetArpAddHost env s

/-! ### The r-host's record -/

/-- The r-host's name, when there is one, names a record of mode 1. -/
def RHostRecorded (s : Peers) : Prop :=
  s.rHostName ≠ CString.empty → ∃ a, s.arp.get s.rHostName = some a ∧ a.mode = 1

/-- The packet makes its sender the r-host. -/
def BecomesRHost (s : Peers) (rd : KsnCorePacketData) : Prop :=
  match s.arp.get rd.fromName with
  | none => AnswersRHost s rd
  | some _ => rd.cmd = cmdNone ∧ rd.data.length = 2

/-- The condition under which a received packet keeps the r-host's record. -/
structure PacketGuard (s : Peers) (rd : KsnCorePacketData)
    (combined : List (UInt8 × List UInt8 × List UInt8)) : Prop where
  /-- the name of a new r-host fits into `r_host_name` -/
  nameFits : BecomesRHost s rd → rd.fromName.length ≤ rHostNameMax
  /-- only the r-host says that the r-host is gone -/
  ownGoodbye : ∀ d, dispatched rd combined = some d → d.cmd = cmdDisconnected →
    disconnectedPeer d = s.rHostName → s.rHostName ≠ CString.empty → d.fromName = s.rHostName
  /-- the r-host, or the peer that becomes it, does not ask this host to be its r-host over TCP -/
  notMutual : ∀ d, dispatched rd combined = some d → d.cmd = cmdConnectR →
    connectRIpCounts d = 0 → BecomesRHost s rd ∨ s.rHostName = d.fromName →
    d.fromName = CString.empty

/-- The condition on a step. -/
def PeersGuard (s : Peers) : PeersEvent → Prop
  | .packet rd combined => PacketGuard s rd combined
  | _ => True

/-! ### What one function does to the record -/

/-- A change that leaves the name alone and keeps the mode of the record under it. -/
theorem RHostRecorded.congr {s s' : Peers} (h : RHostRecorded s)
    (hname : s'.rHostName = s.rHostName)
    (hmode : ∀ a, s.arp.get s.rHostName = some a → a.mode = 1 →
      ∃ a', s'.arp.get s.rHostName = some a' ∧ a'.mode = 1) : RHostRecorded s' := by
  intro hne
  rw [hname] at hne ⊢
  obtain ⟨a, hget, ha⟩ := h hne
  exact hmode a hget ha

theorem RHostRecorded.of_empty {s : Peers} (h : s.rHostName = CString.empty) : RHostRecorded s :=
  fun hne => absurd h hne

/-- What the new-peer check can do: it makes the sender the r-host, with a record of mode 1, or
leaves the name alone and every record as it is. -/
theorem ksnCoreCheckNewPeer_cases (env : PeersEnv) (s : Peers) (rd : KsnCorePacketData) :
    (BecomesRHost s rd ∧
      (ksnCoreCheckNewPeer env s rd).1.rHostName = rd.fromName.take rHostNameMax ∧
      ∃ a, a.mode = 1 ∧ (ksnCoreCheckNewPeer env s rd).1.arp.get rd.fromName = some a) ∨
    (¬ BecomesRHost s rd ∧ (ksnCoreCheckNewPeer env s rd).1.rHostName = s.rHostName ∧
      ∀ name a, s.arp.get name = some a →
        (ksnCoreCheckNewPeer env s rd).1.arp.get name = some a) := by
  unfold ksnCoreCheckNewPeer BecomesRHost
  cases hget : s.arp.get rd.fromName with
  | none =>
    dsimp only
    split
    · exact Or.inl ⟨by assumption, rfl, _, rfl, FinMap.get_add_self _ _ _⟩
    · refine Or.inr ⟨by assumption, rfl, fun name a ha => ?_⟩
      rw [← ha]
      apply FinMap.get_add_of_ne
      rintro rfl
      rw [hget] at ha
      cases ha
  | some a =>
    dsimp only
    split
    · exact Or.inl ⟨by assumption, rfl, _, rfl, FinMap.get_add_self _ _ _⟩
    · exact Or.inr ⟨by assumption, rfl, fun _ _ ha => ha⟩

theorem ksnCoreCheckNewPeer_rHostRecorded (env : PeersEnv) {s : Peers} {rd : KsnCorePacketData}
    (hs : RHostRecorded s) (hfits : BecomesRHost s rd → rd.fromName.length ≤ rHostNameMax) :
    RHostRecorded (ksnCoreCheckNewPeer env s rd).1 := by
  rcases ksnCoreCheckNewPeer_cases env s rd with ⟨hbec, hname, a, ha, hget⟩ | ⟨-, hname, hkeep⟩
  · intro _
    rw [hname, CString.take_of_length_le (hfits hbec)]
    exact ⟨a, hget, ha⟩
  · exact hs.congr hname fun a hget ha => ⟨a, hkeep _ _ hget, ha⟩

/-- A `CMD_CONNECT_R` packet changes the mode of its sender's record, so it must not be the
r-host that sends it without addresses. -/
theorem cmdConnectRCb_rHostRecorded (env : PeersEnv) {s : Peers} {rd : KsnCorePacketData}
    (hs : RHostRecorded s)
    (hmutual : connectRIpCounts rd = 0 → s.rHostName = rd.fromName → rd.fromName = CString.empty) :
    RHostRecorded (cmdConnectRCb env s rd).1 := by
  unfold cmdConnectRCb
  dsimp only
  split
  · exact hs
  · rename_i hzero
    rw [ne_eq, not_not] at hzero
    intro hne
    have hother : s.rHostName ≠ rd.fromName := fun h => hne (h.trans (hmutual hzero h))
    obtain ⟨a, hget, ha⟩ := hs hne
    exact ⟨a, (FinMap.get_modify_of_ne s.arp hother _).trans hget, ha⟩

/-- A `CMD_DISCONNECTED` packet removes the record it names, but clears the r-host's name only
when it comes from the r-host. -/
theorem cmdDisconnectedCb_rHostRecorded {s : Peers} {rd : KsnCorePacketData}
    (hs : RHostRecorded s)
    (hown : disconnectedPeer rd = s.rHostName → s.rHostName ≠ CString.empty →
      rd.fromName = s.rHostName) : RHostRecorded (cmdDisconnectedCb s rd).1 := by
  unfold cmdDisconnectedCb
  dsimp only
  split
  · exact RHostRecorded.of_empty rfl
  · rename_i hnot
    intro hne
    have hother : s.rHostName ≠ disconnectedPeer rd :=
      fun h => hnot ⟨hne, (hown h.symm hne).symm⟩
    obtain ⟨a, hget, ha⟩ := hs hne
    exact ⟨a, (FinMap.get_remove_of_ne s.arp hother).trans hget, ha⟩

theorem cmdHostInfoAnswerCb_rHostRecorded (env : PeersEnv) {s : Peers} (rd : KsnCorePacketData)
    (hs : RHostRecorded s) : RHostRecorded (cmdHostInfoAnswerCb env s rd).1 := by
  unfold cmdHostInfoAnswerCb
  split
  · rename_i addr port mode hget
    split
    · refine hs.congr rfl fun a ha hmode => ?_
      show ∃ a', (s.arp.add _ _).get _ = some a' ∧ _
      rw [FinMap.get_add]
      split
      · rename_i heq
        rw [heq, hget] at ha
        obtain rfl := Option.some.inj ha
        exact ⟨_, rfl, hmode⟩
      · exact ⟨a, ha, hmode⟩
    · exact hs
  · exact hs

/-- The packet acted on has the sender of the packet received. -/
theorem dispatched_fromName (rd : KsnCorePacketData)
    (combined : List (UInt8 × List UInt8 × List UInt8)) {d : KsnCorePacketData}
    (h : dispatched rd combined = some d) : d.fromName = rd.fromName := by
  induction combined generalizing rd with
  | nil =>
    unfold dispatched at h
    split at h
    · cases h
    · exact congrArg _ (Option.some.inj h).symm
  | cons c rest ih =>
    unfold dispatched at h
    split at h
    · have hrest := ih _ h
      exact hrest
    · exact congrArg _ (Option.some.inj h).symm

/-- **What a received packet does to the record.** -/
theorem receivePacket_rHostRecorded (env : PeersEnv) {s : Peers} {rd : KsnCorePacketData}
    {combined : List (UInt8 × List UInt8 × List UInt8)} (hs : RHostRecorded s)
    (hg : PacketGuard s rd combined) : RHostRecorded (receivePacket env s rd combined).1 := by
  have hchecked := ksnCoreCheckNewPeer_rHostRecorded env hs hg.nameFits
  unfold receivePacket
  dsimp only
  cases hd : dispatched rd combined with
  | none => exact hchecked
  | some d =>
    have hfrom := dispatched_fromName rd combined hd
    -- the r-host's name that the command finds is the old one or the sender's
    have hname : (BecomesRHost s rd ∧
        (ksnCoreCheckNewPeer env s rd).1.rHostName = d.fromName) ∨
        (ksnCoreCheckNewPeer env s rd).1.rHostName = s.rHostName := by
      rcases ksnCoreCheckNewPeer_cases env s rd with ⟨hbec, hname, -⟩ | ⟨-, hname, -⟩
      · rw [hname, CString.take_of_length_le (hg.nameFits hbec), hfrom]
        exact Or.inl ⟨hbec, rfl⟩
      · exact Or.inr hname
    show RHostRecorded (ksnCommandCheckPeers env _ d).1
    unfold ksnCommandCheckPeers
    split
    · rename_i hcmd
      apply cmdConnectRCb_rHostRecorded env hchecked
      intro hzero heq
      rcases hname with ⟨hbec, -⟩ | hold
      · exact hg.notMutual d hd hcmd hzero (Or.inl hbec)
      · exact hg.notMutual d hd hcmd hzero (Or.inr (hold.symm.trans heq))
    split
    · exact hchecked
    split
    · rename_i hcmd
      apply cmdDisconnectedCb_rHostRecorded hchecked
      intro hpeer hne
      rcases hname with ⟨-, hnew⟩ | hold
      · exact hnew.symm
      · rw [hold] at hpeer hne ⊢
        exact hg.ownGoodbye d hd hcmd hpeer hne
    split
    · exact cmdHostInfoAnswerCb_rHostRecorded env d hchecked
    · exact hchecked

theorem removePeer_rHostRecorded {s : Peers} (hs : RHostRecorded s) (name : CString)
    (a : ArpData) : RHostRecorded (removePeer s name a).1 := by
  apply cmdDisconnectedCb_rHostRecorded hs
  intro hpeer _
  exact hpeer

/-! ### Runs keep the record -/

theorem peersHandle_rHostRecorded (env : PeersEnv) {s : Peers} {e : PeersEvent}
    (hs : RHostRecorded s) (hg : PeersGuard s e) : RHostRecorded (peersHandle env s e).1 := by
  cases e with
  | packet rd combined => exact receivePacket_rHostRecorded env hs hg
  | timeout name echo =>
    show RHostRecorded (checkConnectedCb s name echo).1
    unfold checkConnectedCb
    split
    · split
      · exact removePeer_rHostRecorded hs _ _
      · exact hs
    · exact hs
  | reset addr port =>
    show RHostRecorded (removePeerAddr s addr port).1
    unfold removePeerAddr
    split
    · split
      · exact removePeer_rHostRecorded hs _ _
      · exact hs
    · exact hs
  | tcpClosed =>
    show RHostRecorded (ksnTCPProxyClientStop env s)
    unfold ksnTCPProxyClientStop
    split
    · exact RHostRecorded.of_empty rfl
    · exact hs
  | connectRHost resolved fd =>
    show RHostRecorded (connectRHostCb env s resolved fd).1
    unfold connectRHostCb
    split
    · split
      · exact hs
      · exact hs
    · exact hs

/-- While the name names no record of mode 1, `connect_r_host_cb` asks for a connection. -/
theorem RHostRecorded.connects {s : Peers} (hs : RHostRecorded s) (env : PeersEnv)
    (resolved : CString) (fd : ℤ) (haddr : s.rHostAddr ≠ CString.empty)
    (hgone : ∀ a, s.arp.get s.rHostName = some a → a.mode ≠ 1) :
    ∃ data, .sendto resolved s.rPort cmdConnectR data ∈
      (connectRHostCb env s resolved fd).2 := by
  have hname : s.rHostName = CString.empty := by
    apply Classical.byContradiction
    intro hne
    obtain ⟨a, hget, ha⟩ := hs hne
    exact hgone a hget ha
  unfold connectRHostCb
  rw [if_pos ⟨haddr, hname⟩]
  split
  · exact ⟨_, List.mem_append_right _ (List.mem_singleton_self _)⟩
  · exact ⟨_, List.mem_singleton_self _⟩

/-- **The r-host's record in every run** whose received packets all meet the condition: in every
state reached the r-host's name, when it is not empty, names a record of mode 1, and while it
names none `connect_r_host_cb` asks for a connection again. -/
theorem rHostRecorded_of_run {env : PeersEnv} {s s' : Peers} {es : List PeersEvent}
    (hstart : PeersStart env s) (h : Run (Guarded PeersGuard (PeersStep env)) s es s') :
    (s'.rHostName ≠ CString.empty → ∃ a, s'.arp.get s'.rHostName = some a ∧ a.mode = 1) ∧
    ∀ (resolved : CString) (fd : ℤ), s'.rHostAddr ≠ CString.empty →
      (∀ a, s'.arp.get s'.rHostName = some a → a.mode ≠ 1) →
      ∃ data, .sendto resolved s'.rPort cmdConnectR data ∈
        (connectRHostCb env s' resolved fd).2 := by
  have hinv : RHostRecorded s' := by
    refine h.guarded_invariant (fun s e t hs hg hstep => ?_) (.of_empty hstart.noRHost)
    rw [hstep]
    exact peersHandle_rHostRecorded env hs hg
  exact ⟨hinv, fun resolved fd => hinv.connects env resolved fd⟩

/-! ### A host, its r-host and a peer -/

/-- The r-host `r` answers from port 9001; `p` is another peer. -/
def rHostAnswer : KsnCorePacketData where
  addr := ⟨[49], by decide⟩
  port := 9001
  fromName := ⟨[114], by decide⟩
  fromLen := 2
  cmd := cmdNone
  data := [0, 0]

/-- See `rHostAnswer`. -/
def peerPacket (cmd : UInt8) (data : List UInt8) : KsnCorePacketData where
  addr := ⟨[50], by decide⟩
  port := 9002
  fromName := ⟨[112], by decide⟩
  fromLen := 2
  cmd := cmd
  data := data

/-- An environment without addresses and types. -/
def plainEnv : PeersEnv where
  privateIps := []
  fullType := CString.empty
  fullTypeOf := CString.ofBuf
  connectRPacketUdp := []
  addrSize := 40

/-- A host `h` that is to connect to the r-host at port 9001. -/
def newHost : Peers where
  hostName := CString.ofBuf [104]
  hostPort := 9000
  rHostAddr := ⟨[49], by decide⟩
  rPort := 9001
  arp := FinMap.empty.add (CString.ofBuf [104])
    { addr := localhost, port := 9000, mode := -1, type := some CString.empty }

theorem newHost_start : PeersStart plainEnv newHost := ⟨rfl, rfl⟩

theorem rHostAnswer_guard : PeersGuard newHost (.packet rHostAnswer []) where
  nameFits _ := by decide
  ownGoodbye d hd hcmd := by
    obtain rfl : rHostAnswer = d := Option.some.inj hd
    exact absurd hcmd (by decide)
  notMutual d hd hcmd := by
    obtain rfl : rHostAnswer = d := Option.some.inj hd
    exact absurd hcmd (by decide)

theorem rHostRecorded_of_run_answer :
    ∃ a, (receivePacket plainEnv newHost rHostAnswer []).1.arp.get ⟨[114], by decide⟩ = some a ∧
      a.mode = 1 :=
  (rHostRecorded_of_run newHost_start (Run.single ⟨rHostAnswer_guard, rfl⟩)).1 (by decide)

/-- The peer `p` says that `r` is gone: the record goes, the name stays, and the host does not
ask for a connection any more. -/
theorem not_rHostRecorded_of_run :
    ¬ ∀ (env : PeersEnv) (s s' : Peers) (es : List PeersEvent), PeersStart env s →
      Run (PeersStep env) s es s' →
      (s'.rHostName ≠ CString.empty → ∃ a, s'.arp.get s'.rHostName = some a ∧ a.mode = 1) ∧
      ∀ (resolved : CString) (fd : ℤ), s'.rHostAddr ≠ CString.empty →
        (∀ a, s'.arp.get s'.rHostName = some a → a.mode ≠ 1) →
        ∃ data, .sendto resolved s'.rPort cmdConnectR data ∈
          (connectRHostCb env s' resolved fd).2 := by
  intro h
  have hrun := h plainEnv newHost _
    [.packet rHostAnswer [], .packet (peerPacket cmdDisconnected [114, 0]) []]
    newHost_start (.cons rfl (.single rfl))
  obtain ⟨a, hget, -⟩ := hrun.1 (by decide)
  have hnone : (peersHandle plainEnv (peersHandle plainEnv newHost (.packet rHostAnswer [])).1
      (.packet (peerPacket cmdDisconnected [114, 0]) [])).1.arp.get ⟨[114], by decide⟩ = none := by
    decide
  exact absurd (hnone.symm.trans hget) (by simp)

end Teonet
