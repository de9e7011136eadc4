import Teonet.PeersTable

/-! # How peers find each other

Any number of hosts that join through r-hosts, with what they have sent to each other.  A host asks its
r-host with `CMD_CONNECT_R`; the r-host answers, and tells it and each peer it knows, with
`CMD_CONNECT`, where the other one is; who is told of a host that it does not know sends it a
`CMD_NONE`, and the host that gets it records the sender and asks for its host info, upon which the
sender records the host.  Packets may take any time, and overtake each other.

Two seconds after a `CMD_CONNECT` a callback looks whether there is a record of the address by then; if
there is none, it destroys the TR-UDP channel, and what the host has sent there is lost.

`peersNetwork_meets` says that no table ever holds hearsay: in every state of every run each record has
the address of the host that it names.  And it says that peers do find each other, if none of these
callbacks finds a packet to destroy: when nothing is on the way any more, any two hosts that asked the
same r-host know each other and the r-host, with their types, and have it as their r-host.  The
invariant `NetSafe` is that of all runs; `NetInv` says what is still on the way for whom. -/

namespace Teonet

open Bytes Runs

/-! ### The network -/

/-- The hosts: what each takes from its system, its name, the address that its packets come from, its
r-host, if it has one, and its answer to `CMD_HOST_INFO`.  `hostAt` is the host that packets to an
address reach. -/
structure PeersNet (ι : Type) where
  env : ι → PeersEnv
  name : ι → CString
  addr : ι → CString
  port : ι → ℕ
  hostAt : CString → ℕ → Option ι
  rHost : ι → Option ι
  hostInfo : ι → List UInt8

/-- A packet on the way. -/
structure NetPacket (ι : Type) where
  source : ι
  addr : CString
  port : ℕ
  cmd : UInt8
  data : List UInt8
deriving DecidableEq

/-- The hosts, the packets that are on the way, those that have been delivered, and the addresses with
which callbacks of the hosts wait. -/
structure PeersNetState (ι : Type) where
  hosts : ι → Peers
  flight : List (NetPacket ι) := []
  delivered : List (NetPacket ι) := []
  waits : List (ι × CString × ℕ) := []

/-- What can happen. -/
inductive PeersNetEvent (ι : Type)
  /-- `connect_r_host_cb` -/
  | connectRHost (i : ι)
  /-- `peer_type_cb` after its second -/
  | askInfo (i : ι) (peer : CString)
  /-- the application sends a command -/
  | send (i : ι) (peer : CString) (cmd : UInt8) (data : List UInt8)
  /-- one of the packets on the way arrives -/
  | deliver (k : ℕ)
  /-- one of the callbacks `cmd_connect_cque_cb` that wait is called -/
  | connectCque (k : ℕ)

variable {ι : Type} (net : PeersNet ι)

/-- What a call sends.  `ksnCoreSendCmdto` finds the peers that this file names in the table. -/
def PeerCall.packets (i : ι) (arp : KsnetArpClass) : PeerCall → List (NetPacket ι)
  | .sendto addr port cmd data => [⟨i, addr, port, cmd, data⟩]
  | .sendCmdto n cmd data =>
    match arp.get n with
    | some a => [⟨i, a.addr, a.port, cmd, data⟩]
    | none => []
  | _ => []

/-- The callback that a call adds. -/
def PeerCall.wait (i : ι) : PeerCall → Option (ι × CString × ℕ)
  | .cqueAdd addr port => some (i, addr, port)
  | _ => none

/-- A packet as it is received. -/
def PeersNet.received (d : NetPacket ι) : KsnCorePacketData where
  addr := net.addr d.source
  port := net.port d.source
  fromName := net.name d.source
  fromLen := nameLen (net.name d.source)
  cmd := d.cmd
  data := d.data

/-- `cmd_host_info_cb`, for a binary answer. -/
def PeersNet.hostInfoCb (j : ι) (rd : KsnCorePacketData) : List PeerCall :=
  if rd.cmd = cmdHostInfo then [.sendto rd.addr rd.port cmdHostInfoAnswer (net.hostInfo j)] else []

/-- A host receives a packet. -/
def PeersNet.receive (j : ι) (p : Peers) (d : NetPacket ι) : Peers × List PeerCall :=
  let r := receivePacket (net.env j) p (net.received d) []
  (r.1, r.2 ++ net.hostInfoCb j (net.received d))

/-- A host has a new state and has made some calls. -/
def PeersNetState.goes [DecidableEq ι] (s : PeersNetState ι) (i : ι) (r : Peers × List PeerCall) :
    PeersNetState ι :=
  { s with
    hosts := Function.update s.hosts i r.1
    flight := s.flight ++ r.2.flatMap fun call => call.packets i r.1.arp
    waits := s.waits ++ r.2.filterMap (PeerCall.wait i) }

/-- The packet is in the TR-UDP channel of the host to the address. -/
def NetPacket.InChannel (d : NetPacket ι) (i : ι) (addr : CString) (port : ℕ) : Prop :=
  d.source = i ∧ d.addr = addr ∧ d.port = port

instance [DecidableEq ι] (d : NetPacket ι) (i : ι) (addr : CString) (port : ℕ) :
    Decidable (d.InChannel i addr port) := inferInstanceAs (Decidable (_ ∧ _ ∧ _))

/-- `trudpChannelDestroyAddr`: what the host has sent to the address is not sent again. -/
def PeersNetState.channelDestroyAddr [DecidableEq ι] (s : PeersNetState ι) (i : ι) (addr : CString)
    (port : ℕ) : PeersNetState ι :=
  { s with flight := s.flight.filter fun d => ¬d.InChannel i addr port }

/-- `connect_r_host_cb` of a host; the address of the r-host resolves to where the r-host is. -/
def PeersNet.connects (i : ι) (p : Peers) : Peers × List PeerCall :=
  match net.rHost i with
  | some r => connectRHostCb (net.env i) p (net.addr r) (-1)
  | none => (p, [])

/-- `peer_type_cb`. -/
def peerTypeCb (p : Peers) (peer : CString) : List PeerCall :=
  match p.arp.get peer with
  | some a => [.sendto a.addr a.port cmdHostInfo []]
  | none => []

/-- One event. -/
def peersNetStep [DecidableEq ι] (s : PeersNetState ι) : PeersNetEvent ι → PeersNetState ι
  | .connectRHost i => s.goes i (net.connects i (s.hosts i))
  | .askInfo i peer => s.goes i (s.hosts i, peerTypeCb (s.hosts i) peer)
  | .send i peer cmd data => s.goes i (s.hosts i, [.sendCmdto peer cmd data])
  | .deliver k =>
    match s.flight[k]? with
    | none => s
    | some d =>
      let s := { s with flight := s.flight.eraseIdx k, delivered := d :: s.delivered }
      match net.hostAt d.addr d.port with
      | none => s
      | some j => s.goes j (net.receive j (s.hosts j) d)
  | .connectCque k =>
    match s.waits[k]? with
    | none => s
    | some (i, addr, port) =>
      let s := { s with waits := s.waits.eraseIdx k }
      if cmdConnectCqueCb (s.hosts i) addr port then s.channelDestroyAddr i addr port else s

/-- A host asks others than itself, and the commands of this file are not for applications. -/
def PeersNetEvent.Fair : PeersNetEvent ι → Prop
  | .askInfo i peer => peer ≠ net.name i
  | .send i peer cmd _ => peer ≠ net.name i ∧
      cmd ∉ [cmdNone, cmdConnectR, cmdConnect, cmdDisconnected, cmdSplit, cmdHostInfo,
        cmdHostInfoAnswer]
  | _ => True

/-- The event destroys the channel that the packet is in: a callback has found no record of the
address. -/
def PeersNetEvent.Loses (s : PeersNetState ι) (d : NetPacket ι) : PeersNetEvent ι → Prop
  | .connectCque k => ∃ w ∈ s.waits[k]?, cmdConnectCqueCb (s.hosts w.1) w.2.1 w.2.2 = true ∧
      d.InChannel w.1 w.2.1 w.2.2
  | _ => False

instance [DecidableEq ι] (s : PeersNetState ι) (d : NetPacket ι) (e : PeersNetEvent ι) :
    Decidable (e.Loses s d) := by
  cases e <;> unfold PeersNetEvent.Loses <;> infer_instance

/-- Connecting takes less than the two seconds of `cmd_connect_cque_cb`: a channel that it destroys has
nothing in it. -/
def InTime (s : PeersNetState ι) (e : PeersNetEvent ι) : Prop :=
  ∀ d ∈ s.flight, ¬e.Loses s d

instance [DecidableEq ι] (s : PeersNetState ι) (e : PeersNetEvent ι) : Decidable (InTime s e) :=
  inferInstanceAs (Decidable (∀ d ∈ s.flight, ¬e.Loses s d))

/-- How the hosts are set up: names and addresses tell them apart and fit into the fields for them, a
packet of `CMD_CONNECT_R` names an address, and host infos are binary. -/
structure PeersNet.Sound : Prop where
  name_inj : Function.Injective net.name
  hostAt : ∀ i, net.hostAt (net.addr i) (net.port i) = some i
  addr_fits : ∀ i j, (net.addr i).length ≤ (net.env j).addrSize - 1
  addr_fits_rHost : ∀ i, (net.addr i).length ≤ rHostAddrMax
  addr_ne : ∀ i, net.addr i ≠ CString.empty
  port_lt : ∀ i, net.port i < 256 ^ 4
  rHost : ∀ i r, net.rHost i = some r →
    r ≠ i ∧ net.name r ≠ CString.empty ∧ (net.name r).length ≤ rHostNameMax
  counts : ∀ i, (net.env i).connectRPacketUdp.getD 4 0 ≠ 0
  info : ∀ i, net.hostInfo i ≠ [] ∧ (net.hostInfo i).head? ≠ some 123 ∧
    (net.hostInfo i).getLast? ≠ some 125

/-- All hosts have just started, with their r-hosts set. -/
structure PeersNetStart (s : PeersNetState ι) : Prop where
  start : ∀ i, PeersStart (net.env i) (s.hosts i)
  name : ∀ i, (s.hosts i).hostName = net.name i
  udp : ∀ i, (s.hosts i).rTcpF = false
  rHost : ∀ i, match net.rHost i with
    | none => (s.hosts i).rHostAddr = CString.empty
    | some r => (s.hosts i).rHostAddr = net.addr r ∧ (s.hosts i).rPort = net.port r
  flight : s.flight = []
  delivered : s.delivered = []

/-! ### What is on the way -/

variable (s : PeersNetState ι)

/-- The host has a record of the other one. -/
def Knows (i j : ι) : Prop := ∃ a, (s.hosts i).arp.get (net.name j) = some a

/-- The packet goes from the one host to the other. -/
def NetPacket.Between (d : NetPacket ι) (i j : ι) : Prop :=
  d.source = i ∧ d.addr = net.addr j ∧ d.port = net.port j

/-- A packet is on the way from the one host to the other. -/
def OnWay (i j : ι) : Prop := ∃ d ∈ s.flight, d.Between net i j

/-- The packet tells a host where another one is. -/
def NetPacket.Tells (d : NetPacket ι) (i j : ι) : Prop :=
  d.cmd = cmdConnect ∧ ∃ k, d.Between net k i ∧
    d.data = createCmdConnectPacket (net.env k) (net.name j) (net.addr j) (net.port j)

/-- The one host knows the other, or has sent it a packet, or is told of it. -/
def Meeting (i j : ι) : Prop :=
  Knows net s i j ∨ OnWay net s i j ∨ ∃ d ∈ s.flight, d.Tells net i j

/-- The host has asked its r-host, and the request has arrived. -/
def Joined (i : ι) : Prop := ∃ d ∈ s.delivered, d.source = i ∧ d.cmd = cmdConnectR

/-- What a host may send to another one. -/
structure DataOk (i k : ι) (cmd : UInt8) (data : List UInt8) : Prop where
  disconnected : cmd ≠ cmdDisconnected
  split : cmd ≠ cmdSplit
  connect : cmd = cmdConnect → ∃ m, m ≠ k ∧
    data = createCmdConnectPacket (net.env i) (net.name m) (net.addr m) (net.port m)
  connectR : cmd = cmdConnectR → net.rHost i = some k ∧ data = (net.env i).connectRPacketUdp
  info : cmd = cmdHostInfoAnswer → data = net.hostInfo i
  /-- Only the r-host answers with two bytes. -/
  answer : cmd = cmdNone ∨ cmd = cmdHostInfo → data.length = 2 → net.rHost k = some i

/-- A packet goes to another host, and is one that may be sent to it. -/
def PacketOk (d : NetPacket ι) : Prop :=
  ∃ k, k ≠ d.source ∧ d.Between net d.source k ∧ DataOk net d.source k d.cmd d.data

/-- Each record is this host's own, or has the address of the host that it names. -/
def RecordsTrue (i : ι) (arp : KsnetArpClass) : Prop :=
  ∀ n a, arp.get n = some a → n = net.name i ∧ a.mode = -1 ∨
    ∃ j, j ≠ i ∧ n = net.name j ∧ a.addr = net.addr j ∧ a.port = net.port j ∧ 0 ≤ a.mode

/-- The r-host is set, or none is. -/
def RHostSet (i : ι) (p : Peers) : Prop :=
  match net.rHost i with
  | none => p.rHostAddr = CString.empty
  | some r => p.rHostAddr = net.addr r ∧ p.rPort = net.port r

/-- What holds of every state. -/
structure NetSafe : Prop where
  own : ∀ i, Knows net s i i
  udp : ∀ i, (s.hosts i).rTcpF = false
  set : ∀ i, RHostSet net i (s.hosts i)
  records : ∀ i, RecordsTrue net i (s.hosts i).arp
  flight : ∀ d ∈ s.flight, PacketOk net d
  joined : ∀ i r, net.rHost i = some r → Joined s i → Knows net s r i
  rName : ∀ i, (s.hosts i).rHostName = CString.empty ∨
    ∃ r, net.rHost i = some r ∧ (s.hosts i).rHostName = net.name r ∧ Knows net s i r

/-- What holds of every state when no packet is lost, with what is on the way for whom. -/
structure NetInv : Prop extends NetSafe net s where
  sym : ∀ i j, Knows net s i j → Knows net s j i ∨ OnWay net s i j
  typed : ∀ i j a, j ≠ i → (s.hosts i).arp.get (net.name j) = some a → a.type = none →
    (∃ d ∈ s.flight, d.Between net i j ∧ d.cmd = cmdHostInfo) ∨
    ∃ d ∈ s.flight, d.Between net j i ∧ d.cmd = cmdHostInfoAnswer
  meet : ∀ i j r, i ≠ j → net.rHost i = some r → net.rHost j = some r → Joined s i →
    Joined s j → Meeting net s i j ∨ Meeting net s j i
  answered : ∀ i r, net.rHost i = some r → Joined s i → (s.hosts i).rHostName ≠ CString.empty ∨
    ∃ d ∈ s.flight, d.Between net r i ∧ d.cmd = cmdNone ∧ d.data.length = 2

variable {net s}

/-! ### Calls and packets -/

/-- What a host may call. -/
def CallOk (net : PeersNet ι) (j : ι) : PeerCall → Prop
  | .sendto addr port cmd data =>
    ∃ k, k ≠ j ∧ addr = net.addr k ∧ port = net.port k ∧ DataOk net j k cmd data
  | .sendCmdto n cmd data => ∃ k, k ≠ j ∧ n = net.name k ∧ DataOk net j k cmd data
  | _ => True

/-- The record of another host is true. -/
theorem RecordsTrue.get (hsound : net.Sound) {i j : ι} {arp : KsnetArpClass} {a : ArpData}
    (h : RecordsTrue net i arp) (hne : j ≠ i) (hget : arp.get (net.name j) = some a) :
    a.addr = net.addr j ∧ a.port = net.port j ∧ 0 ≤ a.mode := by
  rcases h _ a hget with ⟨hname, -⟩ | ⟨k, -, hname, haddr, hport, hmode⟩
  · exact absurd (hsound.name_inj hname) hne
  · obtain rfl := hsound.name_inj hname
    exact ⟨haddr, hport, hmode⟩

/-- What a call sends goes to where it should. -/
theorem CallOk.packets (hsound : net.Sound) {j : ι} {arp : KsnetArpClass}
    (harp : RecordsTrue net j arp) {call : PeerCall} (h : CallOk net j call) {d : NetPacket ι}
    (hd : d ∈ call.packets j arp) : d.source = j ∧ PacketOk net d := by
  cases call with
  | sendto addr port cmd data =>
    obtain ⟨k, hne, rfl, rfl, hok⟩ := h
    obtain rfl := List.mem_singleton.mp hd
    exact ⟨rfl, k, hne, ⟨rfl, rfl, rfl⟩, hok⟩
  | sendCmdto n cmd data =>
    obtain ⟨k, hne, rfl, hok⟩ := h
    rw [PeerCall.packets] at hd
    cases hget : arp.get (net.name k) with
    | none =>
      rw [hget] at hd
      exact absurd hd List.not_mem_nil
    | some a =>
      rw [hget] at hd
      obtain rfl := List.mem_singleton.mp hd
      obtain ⟨haddr, hport, -⟩ := harp.get hsound hne hget
      exact ⟨rfl, k, hne, ⟨rfl, haddr, hport⟩, hok⟩
  | reconnect peer => exact absurd hd List.not_mem_nil
  | event ev n => exact absurd hd List.not_mem_nil
  | subscribers ev n => exact absurd hd List.not_mem_nil
  | clientConnect addr => exact absurd hd List.not_mem_nil
  | cqueAdd addr port => exact absurd hd List.not_mem_nil

/-- A call to a host that is in the table sends it a packet. -/
theorem exists_packet (hsound : net.Sound) {j k : ι} {arp : KsnetArpClass} (hne : k ≠ j)
    (harp : RecordsTrue net j arp) {a : ArpData} (hget : arp.get (net.name k) = some a)
    (cmd : UInt8) (data : List UInt8) :
    ∃ d ∈ (PeerCall.sendCmdto (net.name k) cmd data).packets j arp,
      d.Between net j k ∧ d.cmd = cmd ∧ d.data = data := by
  obtain ⟨haddr, hport, -⟩ := harp.get hsound hne hget
  refine ⟨⟨j, a.addr, a.port, cmd, data⟩, ?_, ⟨rfl, haddr, hport⟩, rfl, rfl⟩
  rw [PeerCall.packets, hget]
  exact List.mem_singleton.mpr rfl

/-- The hosts of a walk over the table. -/
theorem mem_getAll {j : ι} {arp : KsnetArpClass} (harp : RecordsTrue net j arp)
    {p : CString × ArpData} (hp : p ∈ ksnetArpGetAll arp) :
    ∃ k, k ≠ j ∧ p.1 = net.name k ∧ p.2.addr = net.addr k ∧ p.2.port = net.port k := by
  obtain ⟨hmem, hmode⟩ := List.mem_filter.mp hp
  have hget := (FinMap.mem_toPairs arp p.1 p.2).mp hmem
  rcases harp _ _ hget with ⟨-, hown⟩ | ⟨k, hne, hname, haddr, hport, -⟩
  · have hmode' := of_decide_eq_true hmode
    omega
  · exact ⟨k, hne, hname, haddr, hport⟩

theorem getAll_mem (hsound : net.Sound) {j k : ι} {arp : KsnetArpClass}
    (harp : RecordsTrue net j arp) (hne : k ≠ j) {a : ArpData}
    (hget : arp.get (net.name k) = some a) : (net.name k, a) ∈ ksnetArpGetAll arp :=
  List.mem_filter.mpr ⟨(FinMap.mem_toPairs arp _ a).mpr hget,
    decide_eq_true (harp.get hsound hne hget).2.2⟩

/-- The callback of a host that knows the other one destroys no channel. -/
theorem cmdConnectCqueCb_of_knows (hsound : net.Sound) {i k : ι}
    (hrec : RecordsTrue net i (s.hosts i).arp) (hne : k ≠ i) (hknows : Knows net s i k) :
    cmdConnectCqueCb (s.hosts i) (net.addr k) (net.port k) = false := by
  obtain ⟨a, ha⟩ := hknows
  obtain ⟨haddr, hport, -⟩ := hrec.get hsound hne ha
  have hfound : (ksnetArpFindByAddr (s.hosts i).arp (net.addr k) (net.port k)).isSome :=
    List.find?_isSome.mpr ⟨_, (FinMap.mem_toPairs _ _ a).mpr ha, decide_eq_true ⟨haddr, hport⟩⟩
  rw [cmdConnectCqueCb, ← Option.not_isSome, hfound]
  rfl

/-! ### The check for new peers -/

/-- Hosts at one place are one host. -/
theorem eq_of_place (hsound : net.Sound) {k l : ι} (haddr : net.addr k = net.addr l)
    (hport : net.port k = net.port l) : k = l := by
  have h := hsound.hostAt k
  rw [haddr, hport, hsound.hostAt l] at h
  exact (Option.some.inj h).symm

/-- A host may receive the packet. -/
structure Receives (net : PeersNet ι) (j : ι) (p : Peers) (d : NetPacket ι) : Prop where
  other : d.source ≠ j
  ok : DataOk net d.source j d.cmd d.data
  records : RecordsTrue net j p.arp
  set : RHostSet net j p

variable {j : ι} {p : Peers} {d : NetPacket ι}

/-- What answers like the r-host is the r-host. -/
theorem Receives.rHost (h : Receives net j p d) (hsound : net.Sound)
    (hanswers : AnswersRHost p (net.received d)) : net.rHost j = some d.source := by
  obtain ⟨-, hport, ⟨hcmd, hlen⟩ | haddr⟩ := hanswers
  · exact h.ok.answer hcmd hlen
  · have hset := h.set
    unfold RHostSet at hset
    cases hr : net.rHost j with
    | none =>
      rw [hr] at hset
      exact absurd (haddr.symm.trans hset) (hsound.addr_ne d.source)
    | some r =>
      rw [hr] at hset
      rw [eq_of_place hsound (hset.1.symm.trans haddr) (hset.2.symm.trans hport)]

/-- What the check for new peers does to the sender's record. -/
structure Checked (net : PeersNet ι) (p : Peers) (d : NetPacket ι) (p' : Peers) : Prop where
  others : ∀ n, n ≠ net.name d.source → p'.arp.get n = p.arp.get n
  source : ∃ a, p'.arp.get (net.name d.source) = some a ∧ a.addr = net.addr d.source ∧
    a.port = net.port d.source ∧ 0 ≤ a.mode ∧
    (a.type = none → ∀ b, p.arp.get (net.name d.source) = some b → b.type = none)
  udp : p'.rTcpF = p.rTcpF

theorem checkNewPeer_checked (hsound : net.Sound) (h : Receives net j p d) :
    Checked net p d (ksnCoreCheckNewPeer (net.env j) p (net.received d)).1 where
  others n hn := ksnCoreCheckNewPeer_get_of_ne (net.env j) p (net.received d) n hn
  source := by
    cases hget : p.arp.get (net.name d.source) with
    | none =>
      obtain ⟨mode, hmode, hnew⟩ :=
        ksnCoreCheckNewPeer_get_new (net.env j) p (net.received d) hget
      refine ⟨_, hnew, ?_, rfl, ?_, fun _ b hb => by cases hb⟩
      · exact CString.take_of_length_le (hsound.addr_fits d.source j)
      · rcases hmode with rfl | rfl
        · exact Int.le_refl 0
        · exact Int.zero_le_ofNat 1
    | some b =>
      have hknown := ksnCoreCheckNewPeer_get_known (net.env j) p (net.received d) hget
      obtain ⟨haddr, hport, hmode⟩ := h.records.get hsound h.other hget
      split_ifs at hknown
      · exact ⟨_, hknown, haddr, hport, Int.zero_le_ofNat 1,
          fun htype c hc => by obtain rfl := Option.some.inj hc; exact htype⟩
      · exact ⟨_, hknown, haddr, hport, hmode,
          fun htype c hc => by obtain rfl := Option.some.inj hc; exact htype⟩
  udp := by
    unfold ksnCoreCheckNewPeer
    cases p.arp.get (net.received d).fromName <;> dsimp only <;> split_ifs <;> rfl

theorem Checked.records (h : Receives net j p d) {p' : Peers} (hchecked : Checked net p d p') :
    RecordsTrue net j p'.arp := by
  intro n a hget
  by_cases hn : n = net.name d.source
  · obtain ⟨b, hb, haddr, hport, hmode, -⟩ := hchecked.source
    rw [hn, hb] at hget
    obtain rfl := Option.some.inj hget
    exact .inr ⟨d.source, h.other, hn, haddr, hport, hmode⟩
  · rw [hchecked.others n hn] at hget
    exact h.records n a hget

/-- What the check for new peers does to the r-host's name and address. -/
theorem checkNewPeer_rHost (hsound : net.Sound) (h : Receives net j p d) :
    RHostSet net j (ksnCoreCheckNewPeer (net.env j) p (net.received d)).1 ∧
    ((ksnCoreCheckNewPeer (net.env j) p (net.received d)).1.rHostName = p.rHostName ∨
      net.rHost j = some d.source ∧
      (ksnCoreCheckNewPeer (net.env j) p (net.received d)).1.rHostName = net.name d.source) ∧
    (d.cmd = cmdNone → d.data.length = 2 →
      (ksnCoreCheckNewPeer (net.env j) p (net.received d)).1.rHostName ≠ CString.empty) := by
  have htake : net.rHost j = some d.source →
      (net.name d.source).take rHostNameMax = net.name d.source := by
    intro hr
    exact CString.take_of_length_le (hsound.rHost j d.source hr).2.2
  unfold ksnCoreCheckNewPeer
  cases hget : p.arp.get (net.received d).fromName with
  | none =>
    dsimp only
    split_ifs with hanswers
    · have hr := h.rHost hsound hanswers
      have hname : (net.received d).fromName.take rHostNameMax = net.name d.source := htake hr
      refine ⟨?_, .inr ⟨hr, hname⟩, fun _ _ => ?_⟩
      · have hset := h.set
        unfold RHostSet at hset ⊢
        rw [hr] at hset ⊢
        exact ⟨CString.take_of_length_le (hsound.addr_fits_rHost d.source), hset.2⟩
      · dsimp only
        rw [hname]
        exact (hsound.rHost j d.source hr).2.1
    · refine ⟨h.set, .inl rfl, fun hcmd hlen hempty => hanswers ⟨hempty, ?_, .inl ⟨.inl hcmd, hlen⟩⟩⟩
      have hset := h.set
      unfold RHostSet at hset
      rw [h.ok.answer (.inl hcmd) hlen] at hset
      exact hset.2
  | some a =>
    dsimp only
    split_ifs with hanswer
    · have hr := h.ok.answer (.inl hanswer.1) hanswer.2
      have hname : (net.received d).fromName.take rHostNameMax = net.name d.source := htake hr
      refine ⟨h.set, .inr ⟨hr, hname⟩, fun _ _ => ?_⟩
      dsimp only
      rw [hname]
      exact (hsound.rHost j d.source hr).2.1
    · exact ⟨h.set, .inl rfl, fun hcmd hlen => absurd ⟨hcmd, hlen⟩ hanswer⟩

/-! ### What a host sends -/

theorem dataOk_connect (net : PeersNet ι) {j k m : ι} (hne : m ≠ k) :
    DataOk net j k cmdConnect
      (createCmdConnectPacket (net.env j) (net.name m) (net.addr m) (net.port m)) where
  disconnected := by decide
  split := by decide
  connect _ := ⟨m, hne, rfl⟩
  connectR h := absurd h (by decide)
  info h := absurd h (by decide)
  answer h := absurd h (by decide)

/-- A command that only asks or answers. -/
theorem dataOk_answer {j k : ι} {cmd : UInt8} {data : List UInt8}
    (hcmd : cmd = cmdNone ∨ cmd = cmdHostInfo) (hlen : data.length = 2 → net.rHost k = some j) :
    DataOk net j k cmd data where
  disconnected := by rcases hcmd with rfl | rfl <;> decide
  split := by rcases hcmd with rfl | rfl <;> decide
  connect h := by subst h; exact absurd hcmd (by decide)
  connectR h := by subst h; exact absurd hcmd (by decide)
  info h := by subst h; exact absurd hcmd (by decide)
  answer _ := hlen

theorem dataOk_hostInfo (net : PeersNet ι) (j k : ι) :
    DataOk net j k cmdHostInfoAnswer (net.hostInfo j) where
  disconnected := by decide
  split := by decide
  connect h := absurd h (by decide)
  connectR h := absurd h (by decide)
  info _ := rfl
  answer h := absurd h (by decide)

theorem dataOk_connectR {i r : ι} (hr : net.rHost i = some r) :
    DataOk net i r cmdConnectR (net.env i).connectRPacketUdp where
  disconnected := by decide
  split := by decide
  connect h := absurd h (by decide)
  connectR _ := ⟨hr, rfl⟩
  info h := absurd h (by decide)
  answer h := absurd h (by decide)

/-- A command of an application. -/
theorem dataOk_app (net : PeersNet ι) (j k : ι) {cmd : UInt8} (data : List UInt8)
    (hcmd : cmd ∉ [cmdNone, cmdConnectR, cmdConnect, cmdDisconnected, cmdSplit, cmdHostInfo,
      cmdHostInfoAnswer]) : DataOk net j k cmd data := by
  simp only [List.mem_cons, List.not_mem_nil, or_false, not_or] at hcmd
  obtain ⟨hnone, hconnectR, hconnect, hdisconnected, hsplit, hinfo, hanswer⟩ := hcmd
  exact
    { disconnected := hdisconnected
      split := hsplit
      connect := fun h => absurd h hconnect
      connectR := fun h => absurd h hconnectR
      info := fun h => absurd h hanswer
      answer := fun h => absurd h (not_or.mpr ⟨hnone, hinfo⟩) }

variable {arp : KsnetArpClass} {i : ι}

theorem sendCmdConnectCb_ok (harp : RecordsTrue net j arp)
    {call : PeerCall}
    (hcall : call ∈ sendCmdConnectCb (net.env j) arp (net.name i) (net.addr i) (net.port i)) :
    CallOk net j call := by
  obtain ⟨q, hq, rfl⟩ := List.mem_map.mp hcall
  obtain ⟨hmem, hother⟩ := List.mem_filter.mp hq
  obtain ⟨k, hk, hname, -, -⟩ := mem_getAll harp hmem
  refine ⟨k, hk, hname, dataOk_connect net ?_⟩
  rintro rfl
  exact of_decide_eq_true hother hname

theorem sendCmdConnectCbB_ok (hi : i ≠ j) (harp : RecordsTrue net j arp)
    {call : PeerCall}
    (hcall : call ∈ sendCmdConnectCbB (net.env j) arp (net.name i) (net.addr i) (net.port i)) :
    CallOk net j call := by
  obtain ⟨q, hq, rfl⟩ := List.mem_map.mp hcall
  obtain ⟨hmem, hother⟩ := List.mem_filter.mp hq
  obtain ⟨k, -, hname, haddr, hport⟩ := mem_getAll harp hmem
  refine ⟨i, hi, rfl, rfl, ?_⟩
  rw [hname, haddr, hport]
  apply dataOk_connect
  rintro rfl
  exact of_decide_eq_true hother hname

theorem hostInfoRequest_ok (h : Receives net j p d) :
    CallOk net j (hostInfoRequest (net.received d)) := by
  refine ⟨d.source, h.other, rfl, rfl, dataOk_answer (.inr rfl) fun hlen => ?_⟩
  split_ifs at hlen with hcmd
  · exact (h.ok.connectR hcmd).1
  · cases hlen

theorem checkNewPeer_ok (hsound : net.Sound) (h : Receives net j p d) (call : PeerCall)
    (hcall : call ∈ (ksnCoreCheckNewPeer (net.env j) p (net.received d)).2) :
    CallOk net j call := by
  have hrec := (checkNewPeer_checked hsound h).records h
  unfold ksnCoreCheckNewPeer at hcall hrec
  cases hget : p.arp.get (net.received d).fromName with
  | none =>
    rw [hget] at hcall hrec
    dsimp only at hcall hrec
    split_ifs at hcall hrec
    · rcases List.mem_cons.mp hcall with rfl | hcall
      · exact hostInfoRequest_ok h
      · rcases List.mem_append.mp hcall with hcall | hcall
        · exact sendCmdConnectCbB_ok h.other hrec hcall
        · exact sendCmdConnectCb_ok hrec hcall
    · obtain rfl := List.mem_singleton.mp hcall
      exact hostInfoRequest_ok h
  | some a =>
    rw [hget] at hcall
    dsimp only at hcall
    split_ifs at hcall
    · exact absurd hcall List.not_mem_nil
    · exact absurd hcall List.not_mem_nil

/-- A new peer is asked for its host info. -/
theorem checkNewPeer_asks (net : PeersNet ι) (j : ι) (p : Peers) (d : NetPacket ι)
    (hget : p.arp.get (net.name d.source) = none) :
    hostInfoRequest (net.received d) ∈ (ksnCoreCheckNewPeer (net.env j) p (net.received d)).2 := by
  have hget' : p.arp.get (net.received d).fromName = none := hget
  unfold ksnCoreCheckNewPeer
  rw [hget']
  dsimp only
  split_ifs
  · exact List.mem_cons_self
  · exact List.mem_singleton.mpr rfl

/-! ### The commands -/

/-- What `cmd_connect_cb` reads is what was packed. -/
theorem cmdConnectCb_packet (hsound : net.Sound) {q : Peers} {rd : KsnCorePacketData} {k m : ι}
    (hdata : rd.data = createCmdConnectPacket (net.env k) (net.name m) (net.addr m) (net.port m))
    (hafter : rd.after = []) :
    cmdConnectCb q rd =
      (match q.arp.get (net.name m) with
        | none => [.sendto (net.addr m) (net.port m) cmdNone [0]]
        | some _ => []) ++ [.cqueAdd (net.addr m) (net.port m)] := by
  have hname : CString.ofBuf (rd.data ++ rd.after) = net.name m := by
    rw [hdata, hafter, List.append_nil, createCmdConnectPacket, CString.ofBuf_toBuf_append]
  have hdrop : (rd.data ++ rd.after).drop ((net.name m).length + 1) =
      (net.addr m).toBuf ++ ((net.env k).fullType.toBuf ++ le 4 (net.port m)) := by
    rw [hdata, hafter, List.append_nil, createCmdConnectPacket]
    exact List.drop_left' (CString.toBuf_length _)
  have haddr : CString.ofBuf ((rd.data ++ rd.after).drop ((net.name m).length + 1)) =
      net.addr m := by
    rw [hdrop, CString.ofBuf_toBuf_append]
  have hdrop' : (rd.data ++ rd.after).drop
      ((net.name m).length + 1 + ((net.addr m).length + 1)) =
      (net.env k).fullType.toBuf ++ le 4 (net.port m) := by
    rw [← List.drop_drop, hdrop]
    exact List.drop_left' (CString.toBuf_length _)
  have htype : CString.ofBuf ((rd.data ++ rd.after).drop
      ((net.name m).length + 1 + ((net.addr m).length + 1))) = (net.env k).fullType := by
    rw [hdrop', CString.ofBuf_toBuf_append]
  have hport : getLe 4 ((rd.data ++ rd.after).drop ((net.name m).length + 1 +
      ((net.addr m).length + 1) + ((net.env k).fullType.length + 1))) = net.port m := by
    rw [← List.drop_drop, hdrop', List.drop_left' (CString.toBuf_length _)]
    have hle := getLe_le_append 4 (net.port m) []
    rw [List.append_nil, Nat.mod_eq_of_lt (hsound.port_lt m)] at hle
    exact hle
  cases hget : q.arp.get (net.name m) with
  | none => simp only [cmdConnectCb, hname, haddr, htype, hport, hget]
  | some a => simp only [cmdConnectCb, hname, haddr, htype, hport, hget]

/-- What the command does to the host: it may give the sender a type. -/
structure Commanded (net : PeersNet ι) (q : Peers) (d : NetPacket ι) (q' : Peers) : Prop where
  rHostName : q'.rHostName = q.rHostName
  rHostAddr : q'.rHostAddr = q.rHostAddr
  rPort : q'.rPort = q.rPort
  udp : q'.rTcpF = q.rTcpF
  others : ∀ n, n ≠ net.name d.source → q'.arp.get n = q.arp.get n
  source : ∀ a, q.arp.get (net.name d.source) = some a →
    ∃ type, q'.arp.get (net.name d.source) = some { a with type := type } ∧
      (type = none → a.type = none) ∧ (d.cmd = cmdHostInfoAnswer → type ≠ none)

/-- A command that leaves the table alone. -/
theorem commanded_of_eq {q q' : Peers} (hname : q'.rHostName = q.rHostName)
    (haddr : q'.rHostAddr = q.rHostAddr) (hport : q'.rPort = q.rPort) (hudp : q'.rTcpF = q.rTcpF)
    (harp : q'.arp = q.arp) (hcmd : d.cmd ≠ cmdHostInfoAnswer) : Commanded net q d q' where
  rHostName := hname
  rHostAddr := haddr
  rPort := hport
  udp := hudp
  others _ _ := by rw [harp]
  source a ha := ⟨a.type, by rw [harp]; exact ha, id, fun h => absurd h hcmd⟩

theorem cmdHostInfoAnswerCb_commanded (hsound : net.Sound) {q : Peers}
    (hdata : d.data = net.hostInfo d.source) :
    Commanded net q d (cmdHostInfoAnswerCb (net.env j) q (net.received d)).1 := by
  have hbinary : (net.received d).data ≠ [] ∧ (net.received d).data.head? ≠ some 123 ∧
      (net.received d).data.getLast? ≠ some 125 := by
    rw [show (net.received d).data = net.hostInfo d.source from hdata]
    exact hsound.info d.source
  unfold cmdHostInfoAnswerCb
  split
  · rename_i addr port mode hget
    rw [if_pos hbinary]
    refine ⟨rfl, rfl, rfl, rfl, fun n hn => FinMap.get_add_of_ne _ hn _, fun a ha => ?_⟩
    obtain rfl := Option.some.inj (hget.symm.trans ha)
    exact ⟨_, FinMap.get_add_self _ _ _, fun _ => rfl, fun _ => Option.some_ne_none _⟩
  · rename_i hnone
    refine ⟨rfl, rfl, rfl, rfl, fun _ _ => rfl, fun a ha => ⟨a.type, ha, id, fun _ htype => ?_⟩⟩
    obtain ⟨addr, port, mode, type⟩ := a
    obtain rfl : type = none := htype
    exact hnone addr port mode ha

/-- `CMD_CONNECT_R` of a host that names an address. -/
theorem cmdConnectRCb_udp (hsound : net.Sound) {q : Peers} (hok : DataOk net d.source j d.cmd d.data)
    (hcmd : d.cmd = cmdConnectR) :
    cmdConnectRCb (net.env j) q (net.received d) =
      ({ q with isRhost := true },
        .sendCmdto (net.name d.source) cmdNone [0, 0] ::
          (sendCmdConnectCb (net.env j) q.arp (net.name d.source) (net.addr d.source)
              (net.port d.source) ++
            sendCmdConnectCbB (net.env j) q.arp (net.name d.source) (net.addr d.source)
              (net.port d.source))) := by
  have hcount : connectRIpCounts (net.received d) ≠ 0 := by
    rw [connectRIpCounts, show (net.received d).data = d.data from rfl, (hok.connectR hcmd).2,
      show (net.received d).after = [] from rfl, List.append_nil]
    exact hsound.counts d.source
  unfold cmdConnectRCb
  dsimp only
  rw [if_pos hcount]
  rfl

/-- **The commands**: what they do to the host, and that they send what they may. -/
theorem ksnCommandCheckPeers_spec (hsound : net.Sound) {q : Peers}
    (hok : DataOk net d.source j d.cmd d.data) (hother : d.source ≠ j)
    (hrec : RecordsTrue net j q.arp) :
    Commanded net q d (ksnCommandCheckPeers (net.env j) q (net.received d)).1 ∧
      ∀ call ∈ (ksnCommandCheckPeers (net.env j) q (net.received d)).2, CallOk net j call := by
  have hcmd : (net.received d).cmd = d.cmd := rfl
  unfold ksnCommandCheckPeers
  rw [hcmd]
  split_ifs with hconnectR hconnect hdisconnected hanswer
  · rw [cmdConnectRCb_udp hsound hok hconnectR]
    refine ⟨commanded_of_eq rfl rfl rfl rfl rfl (by rw [hconnectR]; decide), fun call hcall => ?_⟩
    rcases List.mem_cons.mp hcall with rfl | hcall
    · exact ⟨d.source, hother, rfl,
        dataOk_answer (.inl rfl) fun _ => (hok.connectR hconnectR).1⟩
    · rcases List.mem_append.mp hcall with hcall | hcall
      · exact sendCmdConnectCb_ok hrec hcall
      · exact sendCmdConnectCbB_ok hother hrec hcall
  · refine ⟨commanded_of_eq rfl rfl rfl rfl rfl (by rw [hconnect]; decide), fun call hcall => ?_⟩
    obtain ⟨m, hm, hdata⟩ := hok.connect hconnect
    rw [cmdConnectCb_packet hsound hdata rfl] at hcall
    rcases List.mem_append.mp hcall with hcall | hcall
    · cases hget : q.arp.get (net.name m) with
      | none =>
        rw [hget] at hcall
        obtain rfl := List.mem_singleton.mp hcall
        exact ⟨m, hm, rfl, rfl, dataOk_answer (.inl rfl) fun hlen => by cases hlen⟩
      | some a =>
        rw [hget] at hcall
        exact absurd hcall List.not_mem_nil
    · obtain rfl := List.mem_singleton.mp hcall
      exact trivial
  · exact absurd hdisconnected hok.disconnected
  · refine ⟨cmdHostInfoAnswerCb_commanded hsound (hok.info hanswer), fun call hcall => ?_⟩
    unfold cmdHostInfoAnswerCb at hcall
    split at hcall
    · split_ifs at hcall
      · rcases List.mem_cons.mp hcall with rfl | hcall
        · exact trivial
        · obtain rfl := List.mem_singleton.mp hcall
          exact trivial
      · exact absurd hcall List.not_mem_nil
    · exact absurd hcall List.not_mem_nil
  · exact ⟨commanded_of_eq rfl rfl rfl rfl rfl hanswer,
      fun call hcall => absurd hcall List.not_mem_nil⟩

/-! ### A packet that is received -/

/-- What a host does with a packet: the new state of the host and the packets that it sends. -/
structure Handles (net : PeersNet ι) (j : ι) (p : Peers) (d : NetPacket ι) (p' : Peers)
    (new : List (NetPacket ι)) : Prop where
  others : ∀ n, n ≠ net.name d.source → p'.arp.get n = p.arp.get n
  source : ∃ a, p'.arp.get (net.name d.source) = some a ∧ a.addr = net.addr d.source ∧
    a.port = net.port d.source ∧ 0 ≤ a.mode ∧
    (a.type = none → d.cmd ≠ cmdHostInfoAnswer ∧
      ∀ b, p.arp.get (net.name d.source) = some b → b.type = none)
  udp : p'.rTcpF = p.rTcpF
  set : RHostSet net j p'
  sent : ∀ d' ∈ new, d'.source = j ∧ PacketOk net d'
  rName : p'.rHostName = p.rHostName ∨
    net.rHost j = some d.source ∧ p'.rHostName = net.name d.source
  named : d.cmd = cmdNone → d.data.length = 2 → p'.rHostName ≠ CString.empty
  /-- A new peer is asked for its host info. -/
  asks : p.arp.get (net.name d.source) = none →
    ∃ d' ∈ new, d'.Between net j d.source ∧ d'.cmd = cmdHostInfo
  info : d.cmd = cmdHostInfo →
    ∃ d' ∈ new, d'.Between net j d.source ∧ d'.cmd = cmdHostInfoAnswer
  connect : ∀ m, d.Tells net j m → (∃ a, p'.arp.get (net.name m) = some a) ∨
    ∃ d' ∈ new, d'.Between net j m
  connectR : d.cmd = cmdConnectR →
    (∃ d' ∈ new, d'.Between net j d.source ∧ d'.cmd = cmdNone ∧ d'.data.length = 2) ∧
    ∀ m, m ≠ j → m ≠ d.source → (∃ a, p.arp.get (net.name m) = some a) →
      ∃ d' ∈ new, d'.Tells net m d.source

/-- The packets of a receive. -/
def PeersNet.replies (net : PeersNet ι) (j : ι) (p : Peers) (d : NetPacket ι) :
    List (NetPacket ι) :=
  (net.receive j p d).2.flatMap fun call => call.packets j (net.receive j p d).1.arp

/-- The check for new peers, the command and the answer to `CMD_HOST_INFO`. -/
theorem receive_eq (h : DataOk net d.source j d.cmd d.data) :
    net.receive j p d =
      let checked := ksnCoreCheckNewPeer (net.env j) p (net.received d)
      let done := ksnCommandCheckPeers (net.env j) checked.1 (net.received d)
      (done.1, checked.2 ++ done.2 ++ net.hostInfoCb j (net.received d)) := by
  have hdispatched : dispatched (net.received d) [] = some (net.received d) :=
    dispatched_of_ne _ [] h.split
  unfold PeersNet.receive
  rw [receivePacket_eq_some _ _ _ hdispatched]

/-- A walk sends each peer a packet that tells it where `i` is. -/
theorem sendCmdConnectCb_tells (hsound : net.Sound) {q : Peers} {m : ι} (harp : RecordsTrue net j arp)
    (harp' : RecordsTrue net j q.arp) (hm : m ≠ j) (hmi : m ≠ i)
    (hget : ∃ a, arp.get (net.name m) = some a) (hget' : ∃ a, q.arp.get (net.name m) = some a) :
    ∃ call ∈ sendCmdConnectCb (net.env j) arp (net.name i) (net.addr i) (net.port i),
      ∃ d' ∈ call.packets j q.arp, d'.Tells net m i := by
  obtain ⟨a, ha⟩ := hget
  obtain ⟨a', ha'⟩ := hget'
  obtain ⟨d', hd', hbetween, hcmd, hdata⟩ := exists_packet hsound hm harp' ha' cmdConnect
    (createCmdConnectPacket (net.env j) (net.name i) (net.addr i) (net.port i))
  refine ⟨_, List.mem_map_of_mem (List.mem_filter.mpr ⟨getAll_mem hsound harp hm ha, ?_⟩), d', hd',
    hcmd, j, hbetween, hdata⟩
  exact decide_eq_true fun hname => hmi (hsound.name_inj hname)

theorem Commanded.records {q q' : Peers} (h : Commanded net q d q') (hrec : RecordsTrue net j q.arp)
    (hsource : ∃ a, q.arp.get (net.name d.source) = some a ∧ a.addr = net.addr d.source ∧
      a.port = net.port d.source ∧ 0 ≤ a.mode) (hother : d.source ≠ j) :
    RecordsTrue net j q'.arp := by
  intro n a hget
  by_cases hn : n = net.name d.source
  · obtain ⟨b, hb, haddr, hport, hmode⟩ := hsource
    obtain ⟨type, htype, -⟩ := h.source b hb
    rw [hn, htype] at hget
    obtain rfl := Option.some.inj hget
    exact .inr ⟨d.source, hother, hn, haddr, hport, hmode⟩
  · rw [h.others n hn] at hget
    exact hrec n a hget

theorem RHostSet.congr {q q' : Peers} (h : RHostSet net j q) (haddr : q'.rHostAddr = q.rHostAddr)
    (hport : q'.rPort = q.rPort) : RHostSet net j q' := by
  unfold RHostSet at h ⊢
  rwa [haddr, hport]

theorem hostInfoCb_ok (hother : d.source ≠ j) {call : PeerCall}
    (hcall : call ∈ net.hostInfoCb j (net.received d)) : CallOk net j call := by
  unfold PeersNet.hostInfoCb at hcall
  split_ifs at hcall
  · obtain rfl := List.mem_singleton.mp hcall
    exact ⟨d.source, hother, rfl, rfl, dataOk_hostInfo net j d.source⟩
  · exact absurd hcall List.not_mem_nil

/-- The host after the check for new peers. -/
def PeersNet.checked (net : PeersNet ι) (j : ι) (p : Peers) (d : NetPacket ι) : Peers :=
  (ksnCoreCheckNewPeer (net.env j) p (net.received d)).1

/-- The host after the command, and the calls of the command. -/
def PeersNet.commanded (net : PeersNet ι) (j : ι) (p : Peers) (d : NetPacket ι) :
    Peers × List PeerCall :=
  ksnCommandCheckPeers (net.env j) (net.checked j p d) (net.received d)

theorem receive_fst (h : DataOk net d.source j d.cmd d.data) :
    (net.receive j p d).1 = (net.commanded j p d).1 := by
  rw [receive_eq h]
  rfl

theorem mem_receive (h : DataOk net d.source j d.cmd d.data) {call : PeerCall} :
    call ∈ (net.receive j p d).2 ↔
      (call ∈ (ksnCoreCheckNewPeer (net.env j) p (net.received d)).2 ∨
        call ∈ (net.commanded j p d).2) ∨ call ∈ net.hostInfoCb j (net.received d) := by
  rw [receive_eq h]
  dsimp only
  rw [List.mem_append, List.mem_append]
  rfl

theorem mem_replies {call : PeerCall} (hcall : call ∈ (net.receive j p d).2) {d' : NetPacket ι}
    (hd' : d' ∈ call.packets j (net.receive j p d).1.arp) : d' ∈ net.replies j p d :=
  List.mem_flatMap.mpr ⟨call, hcall, hd'⟩

/-- A packet to an address is sent. -/
theorem sendto_mem_replies {addr : CString} {port : ℕ} {cmd : UInt8} {data : List UInt8}
    (hcall : .sendto addr port cmd data ∈ (net.receive j p d).2) :
    ⟨j, addr, port, cmd, data⟩ ∈ net.replies j p d :=
  mem_replies hcall (List.mem_singleton.mpr rfl)

namespace Receives

variable (hsound : net.Sound) (h : Receives net j p d)
include hsound h

theorem checked : Checked net p d (net.checked j p d) := checkNewPeer_checked hsound h

theorem records_checked : RecordsTrue net j (net.checked j p d).arp := (h.checked hsound).records h

theorem commanded : Commanded net (net.checked j p d) d (net.receive j p d).1 ∧
    ∀ call ∈ (net.commanded j p d).2, CallOk net j call := by
  rw [receive_fst h.ok]
  exact ksnCommandCheckPeers_spec hsound h.ok h.other (h.records_checked hsound)

/-- The record of the sender. -/
theorem source : ∃ a, (net.receive j p d).1.arp.get (net.name d.source) = some a ∧
    a.addr = net.addr d.source ∧ a.port = net.port d.source ∧ 0 ≤ a.mode ∧
    (a.type = none → d.cmd ≠ cmdHostInfoAnswer ∧
      ∀ b, p.arp.get (net.name d.source) = some b → b.type = none) := by
  obtain ⟨a, ha, haddr, hport, hmode, htype⟩ := (h.checked hsound).source
  obtain ⟨type, htype', hkept, hanswer⟩ := (h.commanded hsound).1.source a ha
  exact ⟨_, htype', haddr, hport, hmode, fun hnone =>
    ⟨fun hcmd => hanswer hcmd hnone, htype (hkept hnone)⟩⟩

theorem records_received : RecordsTrue net j (net.receive j p d).1.arp := by
  obtain ⟨a, ha, haddr, hport, hmode, -⟩ := (h.checked hsound).source
  exact (h.commanded hsound).1.records (h.records_checked hsound) ⟨a, ha, haddr, hport, hmode⟩
    h.other

/-- What the host sends may be sent. -/
theorem replies_ok {d' : NetPacket ι} (hd' : d' ∈ net.replies j p d) :
    d'.source = j ∧ PacketOk net d' := by
  obtain ⟨call, hcall, hd'⟩ := List.mem_flatMap.mp hd'
  refine CallOk.packets hsound (h.records_received hsound) ?_ hd'
  rcases (mem_receive h.ok).mp hcall with (hcall | hcall) | hcall
  · exact checkNewPeer_ok hsound h call hcall
  · exact (h.commanded hsound).2 call hcall
  · exact hostInfoCb_ok h.other hcall

omit hsound in
/-- A new peer is asked for its host info. -/
theorem asks (hnone : p.arp.get (net.name d.source) = none) :
    ∃ d' ∈ net.replies j p d, d'.Between net j d.source ∧ d'.cmd = cmdHostInfo := by
  have hcall := (mem_receive h.ok).mpr (.inl (.inl (checkNewPeer_asks net j p d hnone)))
  exact ⟨_, sendto_mem_replies hcall, ⟨rfl, rfl, rfl⟩, rfl⟩

omit hsound in
theorem answersInfo (hcmd : d.cmd = cmdHostInfo) :
    ∃ d' ∈ net.replies j p d, d'.Between net j d.source ∧ d'.cmd = cmdHostInfoAnswer := by
  have hinfo : PeerCall.sendto (net.addr d.source) (net.port d.source) cmdHostInfoAnswer
      (net.hostInfo j) ∈ net.hostInfoCb j (net.received d) := by
    rw [PeersNet.hostInfoCb, if_pos (show (net.received d).cmd = cmdHostInfo from hcmd)]
    exact List.mem_singleton.mpr rfl
  exact ⟨_, sendto_mem_replies ((mem_receive h.ok).mpr (.inr hinfo)), ⟨rfl, rfl, rfl⟩, rfl⟩

/-- Who is told of a host that it does not know sends it a packet. -/
theorem connects {m : ι} (htells : d.Tells net j m) :
    (∃ a, (net.receive j p d).1.arp.get (net.name m) = some a) ∨
      ∃ d' ∈ net.replies j p d, d'.Between net j m := by
  obtain ⟨hcmd, k, -, hdata⟩ := htells
  have hcommanded : net.commanded j p d =
      (net.checked j p d, cmdConnectCb (net.checked j p d) (net.received d)) := by
    rw [PeersNet.commanded, ksnCommandCheckPeers, show (net.received d).cmd = d.cmd from rfl, hcmd,
      if_neg (by decide), if_pos rfl]
  cases hget : (net.checked j p d).arp.get (net.name m) with
  | some b => exact .inl ⟨b, by rw [receive_fst h.ok, hcommanded, hget]⟩
  | none =>
    have hcall : PeerCall.sendto (net.addr m) (net.port m) cmdNone [0] ∈
        (net.commanded j p d).2 := by
      rw [hcommanded, cmdConnectCb_packet hsound hdata rfl, hget]
      exact List.mem_cons_self
    exact .inr ⟨_, sendto_mem_replies ((mem_receive h.ok).mpr (.inl (.inr hcall))), rfl, rfl, rfl⟩

/-- Who asks for a connection gets an answer, and the others are told of it. -/
theorem answersConnectR (hcmd : d.cmd = cmdConnectR) :
    (∃ d' ∈ net.replies j p d,
      d'.Between net j d.source ∧ d'.cmd = cmdNone ∧ d'.data.length = 2) ∧
    ∀ m, m ≠ j → m ≠ d.source → (∃ a, p.arp.get (net.name m) = some a) →
      ∃ d' ∈ net.replies j p d, d'.Tells net m d.source := by
  have hcheck : net.commanded j p d =
      cmdConnectRCb (net.env j) (net.checked j p d) (net.received d) := by
    rw [PeersNet.commanded, ksnCommandCheckPeers, show (net.received d).cmd = d.cmd from rfl, hcmd,
      if_pos rfl]
  have hcommanded := hcheck.trans (cmdConnectRCb_udp hsound h.ok hcmd)
  have hmem : ∀ {call}, call ∈ (net.commanded j p d).2 → call ∈ (net.receive j p d).2 :=
    fun hcall => (mem_receive h.ok).mpr (.inl (.inr hcall))
  have hrec := h.records_received hsound
  refine ⟨?_, fun m hm hmi hget => ?_⟩
  · obtain ⟨a, ha, -⟩ := h.source hsound
    obtain ⟨d', hd', hbetween, hcmd', hdata⟩ := exists_packet hsound h.other hrec ha cmdNone [0, 0]
    refine ⟨d', mem_replies (hmem ?_) hd', hbetween, hcmd', by rw [hdata]; rfl⟩
    rw [hcommanded]
    exact List.mem_cons_self
  · rw [← (h.checked hsound).others _ fun hname => hmi (hsound.name_inj hname)] at hget
    rw [receive_fst h.ok, hcommanded] at hrec
    obtain ⟨call, hcall, d', hd', htells⟩ :=
      sendCmdConnectCb_tells (q := net.checked j p d) (i := d.source) hsound
        (h.records_checked hsound) hrec hm hmi hget hget
    have hcall' : call ∈ (net.commanded j p d).2 := by
      rw [hcommanded]
      exact List.mem_cons_of_mem _ (List.mem_append_left _ hcall)
    refine ⟨d', mem_replies (hmem hcall') ?_, htells⟩
    rw [receive_fst h.ok, hcommanded]
    exact hd'

end Receives

/-- **What a host does with a packet.** -/
theorem receive_handles (hsound : net.Sound) (h : Receives net j p d) :
    Handles net j p d (net.receive j p d).1 (net.replies j p d) := by
  obtain ⟨hset, hname, hnamed⟩ := checkNewPeer_rHost hsound h
  have hchecked := h.checked hsound
  have hdone := (h.commanded hsound).1
  exact
    { others := fun n hn => (hdone.others n hn).trans (hchecked.others n hn)
      source := h.source hsound
      udp := hdone.udp.trans hchecked.udp
      set := hset.congr hdone.rHostAddr hdone.rPort
      sent := fun d' hd' => h.replies_ok hsound hd'
      rName := hdone.rHostName.symm ▸ hname
      named := hdone.rHostName.symm ▸ hnamed
      asks := h.asks
      info := h.answersInfo
      connect := fun m => h.connects hsound
      connectR := h.answersConnectR hsound }

/-! ### One event -/

section step
variable [DecidableEq ι] {s' : PeersNetState ι} {k l : ι}

omit [DecidableEq ι] in
/-- The destination of a packet is one host. -/
theorem NetPacket.Between.unique (hsound : net.Sound) {i' j' : ι} (h : d.Between net i j)
    (h' : d.Between net i' j') : i = i' ∧ j = j' :=
  ⟨h.1.symm.trans h'.1,
    eq_of_place hsound (h.2.1.symm.trans h'.2.1) (h.2.2.symm.trans h'.2.2)⟩

/-- The state after a packet has been delivered. -/
structure DeliversTo (net : PeersNet ι) (s : PeersNetState ι) (d : NetPacket ι) (j : ι)
    (s' : PeersNetState ι) : Prop where
  mem : d ∈ s.flight
  between : d.Between net d.source j
  receives : Receives net j (s.hosts j) d
  hosts : s'.hosts = Function.update s.hosts j (net.receive j (s.hosts j) d).1
  kept : ∀ d' ∈ s.flight, d' = d ∨ d' ∈ s'.flight
  sent : ∀ d' ∈ net.replies j (s.hosts j) d, d' ∈ s'.flight
  flight : ∀ d' ∈ s'.flight, d' ∈ s.flight ∨ d' ∈ net.replies j (s.hosts j) d
  delivered : s'.delivered = d :: s.delivered

namespace DeliversTo

variable (hsound : net.Sound) (h : DeliversTo net s d j s')
include hsound h

omit hsound in
theorem host_of_ne (hne : k ≠ j) : s'.hosts k = s.hosts k := by
  rw [h.hosts, Function.update_of_ne hne]

theorem handles : Handles net j (s.hosts j) d (s'.hosts j) (net.replies j (s.hosts j) d) := by
  rw [h.hosts, Function.update_self]
  exact receive_handles hsound h.receives

/-- A record is as it was, but for that of the sender. -/
theorem get_eq (hne : ¬(k = j ∧ l = d.source)) :
    (s'.hosts k).arp.get (net.name l) = (s.hosts k).arp.get (net.name l) := by
  by_cases hk : k = j
  · subst hk
    exact (h.handles hsound).others _ fun hname => hne ⟨rfl, hsound.name_inj hname⟩
  · rw [h.host_of_ne hk]

/-- Who received a packet knows its sender. -/
theorem knows_source : Knows net s' j d.source := by
  obtain ⟨a, ha, -⟩ := (h.handles hsound).source
  exact ⟨a, ha⟩

theorem knows (hknows : Knows net s k l) : Knows net s' k l := by
  by_cases hnew : k = j ∧ l = d.source
  · rw [hnew.1, hnew.2]
    exact h.knows_source hsound
  · unfold Knows
    rw [h.get_eq hsound hnew]
    exact hknows

/-- A packet is still on the way, unless it is the one that was delivered. -/
theorem onWay (hway : OnWay net s k l) :
    (k = d.source ∧ l = j) ∨ OnWay net s' k l := by
  obtain ⟨d', hd', hbetween⟩ := hway
  rcases h.kept d' hd' with rfl | hkept
  · exact .inl (hbetween.unique hsound h.between)
  · exact .inr ⟨d', hkept, hbetween⟩

/-- Who was about to meet is so still. -/
theorem meets (hmeets : Meeting net s k l) : Meeting net s' k l ∨ Meeting net s' l k := by
  rcases hmeets with hknows | hway | ⟨d', hd', htells⟩
  · exact .inl (.inl (h.knows hsound hknows))
  · rcases h.onWay hsound hway with ⟨rfl, rfl⟩ | hway
    · exact .inr (.inl (h.knows_source hsound))
    · exact .inl (.inr (.inl hway))
  · rcases h.kept d' hd' with rfl | hkept
    · obtain ⟨-, m, hbetween, -⟩ := id htells
      obtain ⟨-, rfl⟩ := hbetween.unique hsound h.between
      rcases (h.handles hsound).connect l htells with hget | ⟨d', hd', hbetween⟩
      · exact .inl (.inl hget)
      · exact .inl (.inr (.inl ⟨d', h.sent d' hd', hbetween⟩))
    · exact .inl (.inr (.inr ⟨d', hkept, htells⟩))

omit hsound in
/-- A request that arrives is the last one that has arrived. -/
theorem joined (hjoined : Joined s' k) : (d.source = k ∧ d.cmd = cmdConnectR) ∨ Joined s k := by
  obtain ⟨d', hd', hsource, hcmd⟩ := hjoined
  rw [h.delivered] at hd'
  rcases List.mem_cons.mp hd' with rfl | hd'
  · exact .inl ⟨hsource, hcmd⟩
  · exact .inr ⟨d', hd', hsource, hcmd⟩

/-- The r-host's name is set once. -/
theorem rHostName_ne (hne : (s.hosts k).rHostName ≠ CString.empty) :
    (s'.hosts k).rHostName ≠ CString.empty := by
  by_cases hk : k = j
  · subst hk
    rcases (h.handles hsound).rName with hname | ⟨hr, hname⟩
    · rwa [hname]
    · rw [hname]
      exact (hsound.rHost _ _ hr).2.1
  · rwa [h.host_of_ne hk]

/-- The receiver's records are true. -/
theorem records (hsafe : NetSafe net s) (k : ι) : RecordsTrue net k (s'.hosts k).arp := by
  by_cases hk : k = j
  · subst hk
    rw [h.hosts, Function.update_self]
    exact h.receives.records_received hsound
  · rw [h.host_of_ne hk]
    exact hsafe.records k

theorem rName (hsafe : NetSafe net s) (k : ι) : (s'.hosts k).rHostName = CString.empty ∨
    ∃ r, net.rHost k = some r ∧ (s'.hosts k).rHostName = net.name r ∧ Knows net s' k r := by
  have hold : (s'.hosts k).rHostName = (s.hosts k).rHostName →
      (s'.hosts k).rHostName = CString.empty ∨
        ∃ r, net.rHost k = some r ∧ (s'.hosts k).rHostName = net.name r ∧ Knows net s' k r := by
    intro hname
    rw [hname]
    rcases hsafe.rName k with hempty | ⟨r, hr, hr', hknows⟩
    · exact .inl hempty
    · exact .inr ⟨r, hr, hr', h.knows hsound hknows⟩
  by_cases hk : k = j
  · subst hk
    rcases (h.handles hsound).rName with hname | ⟨hr, hname⟩
    · exact hold hname
    · exact .inr ⟨d.source, hr, hname, h.knows_source hsound⟩
  · exact hold (by rw [h.host_of_ne hk])

theorem knows_joined (hsafe : NetSafe net s) {r : ι} (hr : net.rHost k = some r)
    (hjoined : Joined s' k) : Knows net s' r k := by
  rcases h.joined hjoined with ⟨rfl, hcmd⟩ | hjoined
  · obtain rfl := Option.some.inj ((h.receives.ok.connectR hcmd).1.symm.trans hr)
    exact h.knows_source hsound
  · exact h.knows hsound (hsafe.joined k r hr hjoined)

/-- The receiver may have a new record of the sender, whom it has then asked for its host info. -/
theorem sym_source (hinv : NetInv net s) : Knows net s' d.source j ∨ OnWay net s' j d.source := by
  cases hget : (s.hosts j).arp.get (net.name d.source) with
  | none =>
    obtain ⟨d', hd', hbetween, -⟩ := (h.handles hsound).asks hget
    exact .inr ⟨d', h.sent d' hd', hbetween⟩
  | some a =>
    rcases hinv.sym j d.source ⟨a, hget⟩ with hknows | hway
    · exact .inl (h.knows hsound hknows)
    · rcases h.onWay hsound hway with ⟨heq, -⟩ | hway
      · exact absurd heq.symm h.receives.other
      · exact .inr hway

theorem sym (hinv : NetInv net s) (hknows : Knows net s' k l) :
    Knows net s' l k ∨ OnWay net s' k l := by
  by_cases hkl : k = j ∧ l = d.source
  · rw [hkl.1, hkl.2]
    exact h.sym_source hsound hinv
  · unfold Knows at hknows
    rw [h.get_eq hsound hkl] at hknows
    rcases hinv.sym k l hknows with hknows | hway
    · exact .inl (h.knows hsound hknows)
    · rcases h.onWay hsound hway with ⟨rfl, rfl⟩ | hway
      · exact .inl (h.knows_source hsound)
      · exact .inr hway

/-- The sender's record has a type, or one is on the way to it. -/
theorem typed_source (hinv : NetInv net s) {a : ArpData}
    (hget : (s'.hosts j).arp.get (net.name d.source) = some a) (htype : a.type = none) :
    (∃ d' ∈ s'.flight, d'.Between net j d.source ∧ d'.cmd = cmdHostInfo) ∨
      ∃ d' ∈ s'.flight, d'.Between net d.source j ∧ d'.cmd = cmdHostInfoAnswer := by
  obtain ⟨b, hb, -, -, -, htyped⟩ := (h.handles hsound).source
  obtain rfl := Option.some.inj (hb.symm.trans hget)
  obtain ⟨hcmd, hbefore⟩ := htyped htype
  cases hold : (s.hosts j).arp.get (net.name d.source) with
  | none =>
    obtain ⟨d', hd', hbetween, hinfo⟩ := (h.handles hsound).asks hold
    exact .inl ⟨d', h.sent d' hd', hbetween, hinfo⟩
  | some c =>
    rcases hinv.typed j d.source c h.receives.other hold (hbefore c hold) with
      ⟨d', hd', hbetween, hinfo⟩ | ⟨d', hd', hbetween, hanswer⟩
    · rcases h.kept d' hd' with rfl | hkept
      · exact absurd hbetween.1 h.receives.other
      · exact .inl ⟨d', hkept, hbetween, hinfo⟩
    · rcases h.kept d' hd' with rfl | hkept
      · exact absurd hanswer hcmd
      · exact .inr ⟨d', hkept, hbetween, hanswer⟩

theorem typed (hinv : NetInv net s) {a : ArpData} (hne : l ≠ k)
    (hget : (s'.hosts k).arp.get (net.name l) = some a) (htype : a.type = none) :
    (∃ d' ∈ s'.flight, d'.Between net k l ∧ d'.cmd = cmdHostInfo) ∨
      ∃ d' ∈ s'.flight, d'.Between net l k ∧ d'.cmd = cmdHostInfoAnswer := by
  by_cases hkl : k = j ∧ l = d.source
  · obtain ⟨rfl, rfl⟩ := hkl
    exact h.typed_source hsound hinv hget htype
  · rw [h.get_eq hsound hkl] at hget
    rcases hinv.typed k l a hne hget htype with
      ⟨d', hd', hbetween, hinfo⟩ | ⟨d', hd', hbetween, hanswer⟩
    · rcases h.kept d' hd' with rfl | hkept
      · obtain ⟨rfl, rfl⟩ := hbetween.unique hsound h.between
        obtain ⟨d'', hd'', hbetween', hanswer⟩ := (h.handles hsound).info hinfo
        exact .inr ⟨d'', h.sent d'' hd'', hbetween', hanswer⟩
      · exact .inl ⟨d', hkept, hbetween, hinfo⟩
    · rcases h.kept d' hd' with rfl | hkept
      · obtain ⟨rfl, rfl⟩ := hbetween.unique hsound h.between
        exact absurd ⟨rfl, rfl⟩ hkl
      · exact .inr ⟨d', hkept, hbetween, hanswer⟩

/-- Those that have joined before are told of who joins. -/
theorem meets_source (hsafe : NetSafe net s) {r : ι} (hcmd : d.cmd = cmdConnectR)
    (hsource : net.rHost d.source = some r) (hk : net.rHost k = some r) (hne : k ≠ d.source)
    (hjoined : Joined s k) : Meeting net s' k d.source := by
  obtain rfl := Option.some.inj ((h.receives.ok.connectR hcmd).1.symm.trans hsource)
  obtain ⟨d', hd', htells⟩ := ((h.handles hsound).connectR hcmd).2 k (hsound.rHost k _ hk).1.symm
    hne (hsafe.joined k _ hk hjoined)
  exact .inr (.inr ⟨d', h.sent d' hd', htells⟩)

theorem meet (hinv : NetInv net s) {r : ι} (hne : k ≠ l) (hk : net.rHost k = some r)
    (hl : net.rHost l = some r) (hjk : Joined s' k) (hjl : Joined s' l) :
    Meeting net s' k l ∨ Meeting net s' l k := by
  rcases h.joined hjk with ⟨rfl, hcmd⟩ | hjk
  · rcases h.joined hjl with ⟨heq, -⟩ | hjl
    · exact absurd heq hne
    · exact .inr (h.meets_source hsound hinv.toNetSafe hcmd hk hl hne.symm hjl)
  · rcases h.joined hjl with ⟨rfl, hcmd⟩ | hjl
    · exact .inl (h.meets_source hsound hinv.toNetSafe hcmd hl hk hne hjk)
    · rcases hinv.meet k l r hne hk hl hjk hjl with hmeets | hmeets
      · exact h.meets hsound hmeets
      · exact (h.meets hsound hmeets).symm

theorem answered (hinv : NetInv net s) {r : ι} (hr : net.rHost k = some r)
    (hjoined : Joined s' k) : (s'.hosts k).rHostName ≠ CString.empty ∨
      ∃ d' ∈ s'.flight, d'.Between net r k ∧ d'.cmd = cmdNone ∧ d'.data.length = 2 := by
  rcases h.joined hjoined with ⟨rfl, hcmd⟩ | hjoined
  · obtain rfl := Option.some.inj ((h.receives.ok.connectR hcmd).1.symm.trans hr)
    obtain ⟨d', hd', hanswer⟩ := ((h.handles hsound).connectR hcmd).1
    exact .inr ⟨d', h.sent d' hd', hanswer⟩
  · rcases hinv.answered k r hr hjoined with hname | ⟨d', hd', hbetween, hcmd, hlen⟩
    · exact .inl (h.rHostName_ne hsound hname)
    · rcases h.kept d' hd' with rfl | hkept
      · obtain ⟨-, rfl⟩ := hbetween.unique hsound h.between
        exact .inl ((h.handles hsound).named hcmd hlen)
      · exact .inr ⟨d', hkept, hbetween, hcmd, hlen⟩

end DeliversTo

/-- A packet that is delivered keeps what holds of every state. -/
theorem NetSafe.deliver (hsafe : NetSafe net s) (hsound : net.Sound)
    (h : DeliversTo net s d j s') : NetSafe net s' where
  own k := h.knows hsound (hsafe.own k)
  udp k := by
    by_cases hk : k = j
    · subst hk
      exact (h.handles hsound).udp.trans (hsafe.udp k)
    · rw [h.host_of_ne hk]
      exact hsafe.udp k
  set k := by
    by_cases hk : k = j
    · subst hk
      exact (h.handles hsound).set
    · rw [h.host_of_ne hk]
      exact hsafe.set k
  records := h.records hsound hsafe
  flight d' hd' := (h.flight d' hd').elim (hsafe.flight d') fun hsent =>
    ((h.handles hsound).sent d' hsent).2
  joined k r hr := h.knows_joined hsound hsafe hr
  rName := h.rName hsound hsafe

/-- **A packet that is delivered** keeps the invariant. -/
theorem NetInv.deliver (hinv : NetInv net s) (hsound : net.Sound) (h : DeliversTo net s d j s') :
    NetInv net s' where
  toNetSafe := hinv.toNetSafe.deliver hsound h
  sym _ _ := h.sym hsound hinv
  typed _ _ _ := h.typed hsound hinv
  meet _ _ _ := h.meet hsound hinv
  answered _ _ := h.answered hsound hinv

theorem goes_hosts (s : PeersNetState ι) (i : ι) (r : Peers × List PeerCall) (k : ι) :
    (s.goes i r).hosts k = if k = i then r.1 else s.hosts k :=
  Function.update_apply ..

/-- No host learns anything. -/
structure SameHosts (s s' : PeersNetState ι) : Prop where
  arp : ∀ k, (s'.hosts k).arp = (s.hosts k).arp
  rHostName : ∀ k, (s'.hosts k).rHostName = (s.hosts k).rHostName
  delivered : s'.delivered = s.delivered

namespace SameHosts

variable (h : SameHosts s s')
include h

omit [DecidableEq ι] in
theorem knows : Knows net s' k l ↔ Knows net s k l := by
  unfold Knows
  rw [h.arp]

omit [DecidableEq ι] in
theorem joined : Joined s' k ↔ Joined s k := by
  unfold Joined
  rw [h.delivered]

omit [DecidableEq ι] in
theorem netSafe (hsafe : NetSafe net s) (hudp : ∀ k, (s'.hosts k).rTcpF = false)
    (hset : ∀ k, RHostSet net k (s'.hosts k)) (hflight : ∀ d ∈ s'.flight, PacketOk net d) :
    NetSafe net s' where
  own k := h.knows.mpr (hsafe.own k)
  udp := hudp
  set := hset
  records k := by
    rw [h.arp]
    exact hsafe.records k
  flight := hflight
  joined k r hr hjoined := h.knows.mpr (hsafe.joined k r hr (h.joined.mp hjoined))
  rName k := by
    rw [h.rHostName]
    exact (hsafe.rName k).imp id fun ⟨r, hr, hname, hknows⟩ => ⟨r, hr, hname, h.knows.mpr hknows⟩

omit [DecidableEq ι] in
/-- What is on the way is so still. -/
theorem netInv (hinv : NetInv net s) (hsafe : NetSafe net s')
    (hkept : ∀ d ∈ s.flight, d ∈ s'.flight) : NetInv net s' := by
  have hmeets : ∀ {k l}, Meeting net s k l → Meeting net s' k l := by
    rintro k l (hknows | ⟨d, hd, hway⟩ | ⟨d, hd, htells⟩)
    · exact .inl (h.knows.mpr hknows)
    · exact .inr (.inl ⟨d, hkept d hd, hway⟩)
    · exact .inr (.inr ⟨d, hkept d hd, htells⟩)
  refine
    { toNetSafe := hsafe
      sym := fun k l hknows => ?_
      typed := fun k l a hne hget htype => ?_
      meet := fun k l r hne hk hl hjk hjl =>
        (hinv.meet k l r hne hk hl (h.joined.mp hjk) (h.joined.mp hjl)).imp hmeets hmeets
      answered := fun k r hr hjoined => ?_ }
  · exact (hinv.sym k l (h.knows.mp hknows)).imp h.knows.mpr
      fun ⟨d, hd, hway⟩ => ⟨d, hkept d hd, hway⟩
  · rw [h.arp] at hget
    exact (hinv.typed k l a hne hget htype).imp (fun ⟨d, hd, hway⟩ => ⟨d, hkept d hd, hway⟩)
      fun ⟨d, hd, hway⟩ => ⟨d, hkept d hd, hway⟩
  · rw [h.rHostName]
    exact (hinv.answered k r hr (h.joined.mp hjoined)).imp id
      fun ⟨d, hd, hanswer⟩ => ⟨d, hkept d hd, hanswer⟩

end SameHosts

/-! ### A host that only sends -/

/-- A host that keeps its table, and sends what it may. -/
structure OnlySends (net : PeersNet ι) (s : PeersNetState ι) (i : ι) (r : Peers × List PeerCall) :
    Prop where
  arp : r.1.arp = (s.hosts i).arp
  rHostName : r.1.rHostName = (s.hosts i).rHostName
  udp : r.1.rTcpF = (s.hosts i).rTcpF
  set : RHostSet net i r.1
  sent : ∀ d ∈ r.2.flatMap fun call => call.packets i r.1.arp, PacketOk net d

theorem OnlySends.sameHosts {r : Peers × List PeerCall} (h : OnlySends net s i r) :
    SameHosts s (s.goes i r) where
  arp k := by
    rw [goes_hosts]
    split_ifs with hk
    · rw [hk, h.arp]
    · rfl
  rHostName k := by
    rw [goes_hosts]
    split_ifs with hk
    · rw [hk, h.rHostName]
    · rfl
  delivered := rfl

theorem OnlySends.netSafe {r : Peers × List PeerCall} (h : OnlySends net s i r)
    (hsafe : NetSafe net s) : NetSafe net (s.goes i r) := by
  refine h.sameHosts.netSafe hsafe (fun k => ?_) (fun k => ?_) fun d hd =>
    (List.mem_append.mp hd).elim (hsafe.flight d) (h.sent d)
  · rw [goes_hosts]
    split_ifs with hk
    · rw [h.udp]
      exact hsafe.udp i
    · exact hsafe.udp k
  · rw [goes_hosts]
    split_ifs with hk
    · rw [hk]
      exact h.set
    · exact hsafe.set k

omit [DecidableEq ι] in
/-- A host asks its r-host for a connection. -/
theorem NetSafe.connectRHost (hsafe : NetSafe net s) (hsound : net.Sound) (i : ι) :
    OnlySends net s i (net.connects i (s.hosts i)) := by
  have hset := hsafe.set i
  have hsame : OnlySends net s i (s.hosts i, []) :=
    ⟨rfl, rfl, rfl, hset, fun d hd => absurd hd List.not_mem_nil⟩
  unfold PeersNet.connects
  cases hr : net.rHost i with
  | none => exact hsame
  | some r =>
    have hset' := hset
    unfold RHostSet at hset'
    rw [hr] at hset'
    have hudp : ¬(s.hosts i).rTcpF = true := by
      rw [hsafe.udp i]
      decide
    dsimp only
    unfold connectRHostCb
    split_ifs with hasks
    · refine ⟨rfl, rfl, rfl, hset.congr hset'.1.symm rfl, fun d hd => ?_⟩
      obtain rfl := List.mem_singleton.mp hd
      exact ⟨r, (hsound.rHost i r hr).1, ⟨rfl, rfl, hset'.2⟩, dataOk_connectR hr⟩
    · exact hsame

omit [DecidableEq ι] in
/-- `peer_type_cb` asks a peer for its host info. -/
theorem NetSafe.askInfo (hsafe : NetSafe net s) {i : ι} {peer : CString}
    (hpeer : peer ≠ net.name i) :
    OnlySends net s i (s.hosts i, peerTypeCb (s.hosts i) peer) := by
  refine ⟨rfl, rfl, rfl, hsafe.set i, fun d hd => ?_⟩
  unfold peerTypeCb at hd
  cases hget : (s.hosts i).arp.get peer with
  | none =>
    rw [hget] at hd
    exact absurd hd List.not_mem_nil
  | some a =>
    rw [hget] at hd
    obtain rfl := List.mem_singleton.mp hd
    rcases hsafe.records i peer a hget with ⟨hname, -⟩ | ⟨k, hne, -, haddr, hport, -⟩
    · exact absurd hname hpeer
    · exact ⟨k, hne, ⟨rfl, haddr, hport⟩, dataOk_answer (.inr rfl) fun hlen => by cases hlen⟩

omit [DecidableEq ι] in
/-- The application sends a command of its own. -/
theorem NetSafe.send (hsafe : NetSafe net s) {i : ι} {peer : CString} {cmd : UInt8}
    {data : List UInt8} (hfair : (PeersNetEvent.send i peer cmd data).Fair net) :
    OnlySends net s i (s.hosts i, [.sendCmdto peer cmd data]) := by
  obtain ⟨hpeer, hcmd⟩ := hfair
  refine ⟨rfl, rfl, rfl, hsafe.set i, fun d hd => ?_⟩
  rw [List.flatMap_singleton, PeerCall.packets] at hd
  cases hget : (s.hosts i).arp.get peer with
  | none =>
    rw [hget] at hd
    exact absurd hd List.not_mem_nil
  | some a =>
    rw [hget] at hd
    obtain rfl := List.mem_singleton.mp hd
    rcases hsafe.records i peer a hget with ⟨hname, -⟩ | ⟨k, hne, -, haddr, hport, -⟩
    · exact absurd hname hpeer
    · exact ⟨k, hne, ⟨rfl, haddr, hport⟩, dataOk_app net i k data hcmd⟩

/-! ### What an event does -/

/-- The packet at an index, and the others. -/
theorem mem_eraseIdx_or {α : Type} {flight : List α} {n : ℕ} {x : α} (h : flight[n]? = some x)
    {y : α} (hy : y ∈ flight) : y = x ∨ y ∈ flight.eraseIdx n := by
  obtain ⟨hlt, hx⟩ := List.getElem?_eq_some_iff.mp h
  rw [List.eraseIdx_eq_take_drop_succ]
  have hsplit : flight = flight.take n ++ x :: flight.drop (n + 1) := by
    rw [← hx, List.getElem_cons_drop, List.take_append_drop]
  rw [hsplit] at hy
  rcases List.mem_append.mp hy with hy | hy
  · exact .inr (List.mem_append_left _ hy)
  · rcases List.mem_cons.mp hy with rfl | hy
    · exact .inl rfl
    · exact .inr (List.mem_append_right _ hy)

/-- A packet that arrives reaches the host that it is for. -/
theorem NetSafe.arrives (hsafe : NetSafe net s) (hsound : net.Sound) {n : ℕ}
    (hget : s.flight[n]? = some d) :
    ∃ j, net.hostAt d.addr d.port = some j ∧
      DeliversTo net s d j (peersNetStep net s (.deliver n)) ∧
      (peersNetStep net s (.deliver n)).flight =
        s.flight.eraseIdx n ++ net.replies j (s.hosts j) d := by
  have hmem := List.mem_of_getElem? hget
  obtain ⟨j, hne, hbetween, hok⟩ := hsafe.flight d hmem
  have hat : net.hostAt d.addr d.port = some j := by
    rw [hbetween.2.1, hbetween.2.2, hsound.hostAt]
  refine ⟨j, hat, ?_, ?_⟩
  · rw [peersNetStep, hget]
    dsimp only
    rw [hat]
    refine ⟨hmem, hbetween, ⟨hne.symm, hok, hsafe.records j, hsafe.set j⟩, rfl, fun d' hd' => ?_,
        fun d' hd' => List.mem_append_right _ hd', fun d' hd' => ?_, rfl⟩
    · exact (mem_eraseIdx_or hget hd').imp id fun h => List.mem_append_left _ h
    · exact (List.mem_append.mp hd').imp List.mem_of_mem_eraseIdx id
  · rw [peersNetStep, hget]
    dsimp only
    rw [hat]
    rfl

/-- What an event does: a host sends, a packet reaches its host, or packets in a channel that is
destroyed are lost. -/
inductive StepCase (net : PeersNet ι) (s : PeersNetState ι) (e : PeersNetEvent ι) : Prop
  | sends (i : ι) (r : Peers × List PeerCall) (hr : OnlySends net s i r)
      (hstep : peersNetStep net s e = s.goes i r)
  | delivers (d : NetPacket ι) (j : ι) (h : DeliversTo net s d j (peersNetStep net s e))
  | loses (hhosts : (peersNetStep net s e).hosts = s.hosts)
      (hdelivered : (peersNetStep net s e).delivered = s.delivered)
      (hflight : (peersNetStep net s e).flight.Sublist s.flight)
      (hkept : ∀ d ∈ s.flight, d ∈ (peersNetStep net s e).flight ∨ e.Loses s d)

/-- An event that leaves all as it is, but for what waits. -/
theorem StepCase.same {e : PeersNetEvent ι} (hhosts : (peersNetStep net s e).hosts = s.hosts)
    (hdelivered : (peersNetStep net s e).delivered = s.delivered)
    (hflight : (peersNetStep net s e).flight = s.flight) : StepCase net s e :=
  .loses hhosts hdelivered (hflight ▸ .refl _) fun _ hd => .inl (hflight.symm ▸ hd)

theorem stepCase_connectCque (n : ℕ) : StepCase net s (.connectCque n) := by
  cases hget : s.waits[n]? with
  | none =>
    have hstep : peersNetStep net s (.connectCque n) = s := by
      rw [peersNetStep, hget]
    exact .same (by rw [hstep]) (by rw [hstep]) (by rw [hstep])
  | some w =>
    obtain ⟨i, addr, port⟩ := w
    have hstep : peersNetStep net s (.connectCque n) =
        if cmdConnectCqueCb (s.hosts i) addr port then
          { s with waits := s.waits.eraseIdx n }.channelDestroyAddr i addr port
        else { s with waits := s.waits.eraseIdx n } := by
      rw [peersNetStep, hget]
    split_ifs at hstep with hdestroys
    · refine .loses (by rw [hstep]; rfl) (by rw [hstep]; rfl) ?_ fun d hd => ?_
      · rw [hstep]
        exact List.filter_sublist
      · by_cases hin : d.InChannel i addr port
        · exact .inr ⟨_, hget, hdestroys, hin⟩
        · rw [hstep]
          exact .inl (List.mem_filter.mpr ⟨hd, decide_eq_true hin⟩)
    · exact .same (by rw [hstep]) (by rw [hstep]) (by rw [hstep])

theorem NetSafe.stepCase (hsafe : NetSafe net s) (hsound : net.Sound) {e : PeersNetEvent ι}
    (hfair : e.Fair net) : StepCase net s e := by
  cases e with
  | connectRHost i => exact .sends i _ (hsafe.connectRHost hsound i) rfl
  | askInfo i peer => exact .sends i _ (hsafe.askInfo hfair) rfl
  | send i peer cmd data => exact .sends i _ (hsafe.send hfair) rfl
  | deliver n =>
    cases hget : s.flight[n]? with
    | none =>
      have hstep : peersNetStep net s (.deliver n) = s := by
        rw [peersNetStep, hget]
      exact .same (by rw [hstep]) (by rw [hstep]) (by rw [hstep])
    | some d =>
      obtain ⟨j, -, hdelivers, -⟩ := hsafe.arrives hsound hget
      exact .delivers d j hdelivers
  | connectCque n => exact stepCase_connectCque n

omit [DecidableEq ι] in
theorem SameHosts.of_eq (hhosts : s'.hosts = s.hosts) (hdelivered : s'.delivered = s.delivered) :
    SameHosts s s' := ⟨fun k => by rw [hhosts], fun k => by rw [hhosts], hdelivered⟩

/-- **One event** keeps what holds of every state. -/
theorem NetSafe.step (hsafe : NetSafe net s) (hsound : net.Sound) {e : PeersNetEvent ι}
    (hfair : e.Fair net) : NetSafe net (peersNetStep net s e) := by
  cases hsafe.stepCase hsound hfair with
  | sends i r hr hstep =>
    rw [hstep]
    exact hr.netSafe hsafe
  | delivers d j h => exact hsafe.deliver hsound h
  | loses hhosts hdelivered hflight hkept =>
    exact (SameHosts.of_eq hhosts hdelivered).netSafe hsafe (fun k => by rw [hhosts]; exact hsafe.udp k)
      (fun k => by rw [hhosts]; exact hsafe.set k) fun d hd => hsafe.flight d (hflight.subset hd)

/-- **One event** in time keeps the invariant. -/
theorem NetInv.step (hinv : NetInv net s) (hsound : net.Sound) {e : PeersNetEvent ι}
    (hfair : e.Fair net) (htime : InTime s e) : NetInv net (peersNetStep net s e) := by
  have hsafe := hinv.toNetSafe.step hsound hfair
  cases hinv.toNetSafe.stepCase hsound hfair with
  | sends i r hr hstep =>
    rw [hstep] at hsafe ⊢
    exact hr.sameHosts.netInv hinv hsafe fun d hd => List.mem_append_left _ hd
  | delivers d j h => exact hinv.deliver hsound h
  | loses hhosts hdelivered hflight hkept =>
    exact (SameHosts.of_eq hhosts hdelivered).netInv hinv hsafe
      fun d hd => (hkept d hd).resolve_right (htime d hd)

omit [DecidableEq ι] in
/-- The invariant holds when all hosts have just started. -/
theorem netInv_start (hstart : PeersNetStart net s) (hsound : net.Sound) : NetInv net s := by
  have hget : ∀ i n, (s.hosts i).arp.get n = if n = net.name i then
      some ⟨localhost, (s.hosts i).hostPort, -1, some (net.env i).fullType⟩ else none := by
    intro i n
    rw [(hstart.start i).onlyHost, ksnetArpAddHost_get, hstart.name i]
  have hown : ∀ {i n a}, (s.hosts i).arp.get n = some a → n = net.name i ∧ a.mode = -1 := by
    intro i n a h
    rw [hget] at h
    split_ifs at h with hn
    · obtain rfl := Option.some.inj h
      exact ⟨hn, rfl⟩
  have hjoined : ∀ {i}, ¬ Joined s i := by
    rintro i ⟨d, hd, -⟩
    rw [hstart.delivered] at hd
    exact absurd hd List.not_mem_nil
  exact
    { own := fun i => ⟨_, by rw [hget, if_pos rfl]⟩
      udp := hstart.udp
      set := hstart.rHost
      records := fun i n a h => .inl (hown h)
      flight := fun d hd => by rw [hstart.flight] at hd; exact absurd hd List.not_mem_nil
      sym := fun i j ⟨a, h⟩ => by
        obtain rfl := hsound.name_inj (hown h).1
        exact .inl ⟨a, h⟩
      typed := fun i j a hne h _ => absurd (hsound.name_inj (hown h).1) hne
      joined := fun i r _ h => absurd h hjoined
      meet := fun i j r _ _ _ h => absurd h hjoined
      rName := fun i => .inl (hstart.start i).noRHost
      answered := fun i r _ h => absurd h hjoined }

theorem netSafe_run (hsound : net.Sound) (es : List (PeersNetEvent ι)) (hsafe : NetSafe net s)
    (hfair : ∀ e ∈ es, e.Fair net) : NetSafe net (es.foldl (peersNetStep net) s) := by
  induction es generalizing s with
  | nil => exact hsafe
  | cons e es ih =>
    exact ih (hsafe.step hsound (hfair e List.mem_cons_self))
      fun e' he' => hfair e' (List.mem_cons_of_mem e he')

theorem netInv_run (hsound : net.Sound) (es : List (PeersNetEvent ι)) (hinv : NetInv net s)
    (hfair : ∀ e ∈ es, e.Fair net) (htime : Always InTime (peersNetStep net) s es) :
    NetInv net (es.foldl (peersNetStep net) s) := by
  induction es generalizing s with
  | nil => exact hinv
  | cons e es ih =>
    exact ih (hinv.step hsound (hfair e List.mem_cons_self) htime.1)
      (fun e' he' => hfair e' (List.mem_cons_of_mem e he')) htime.2

/-! ### Peers that have met -/

/-- The host has a record of the other one with its address and a type. -/
def HasPeer (net : PeersNet ι) (s : PeersNetState ι) (i j : ι) : Prop :=
  ∃ a, (s.hosts i).arp.get (net.name j) = some a ∧ a.addr = net.addr j ∧ a.port = net.port j ∧
    a.type ≠ none

omit [DecidableEq ι] in
/-- When nothing is on the way, who knows a host has its type, and is known to it. -/
theorem NetInv.hasPeer (hinv : NetInv net s) (hsound : net.Sound) (hquiet : s.flight = [])
    (hne : i ≠ j) (h : Knows net s i j) : HasPeer net s i j ∧ HasPeer net s j i := by
  have hempty : ∀ {P : NetPacket ι → Prop}, ¬ ∃ d ∈ s.flight, P d := by
    rintro P ⟨d, hd, -⟩
    rw [hquiet] at hd
    exact absurd hd List.not_mem_nil
  have hhas : ∀ {k l}, k ≠ l → Knows net s k l → HasPeer net s k l := by
    rintro k l hkl ⟨a, ha⟩
    obtain ⟨haddr, hport, -⟩ := (hinv.records k).get hsound hkl.symm ha
    refine ⟨a, ha, haddr, hport, fun htype => ?_⟩
    exact (hinv.typed k l a hkl.symm ha htype).elim hempty hempty
  exact ⟨hhas hne h, hhas hne.symm ((hinv.sym i j h).resolve_right hempty)⟩

end step

/-! ### Three hosts -/

def threeNames (i : Fin 3) : CString := CString.ofBuf [97 + UInt8.ofNat i.val]

def threeAddrs (i : Fin 3) : CString := CString.ofBuf [49 + UInt8.ofNat i.val]

def threeEnv : PeersEnv where
  privateIps := []
  fullType := CString.ofBuf [116]
  fullTypeOf _ := CString.ofBuf [116]
  connectRPacketUdp := [0, 0, 0, 0, 1, 116, 0]
  addrSize := 40

/-- An r-host and two others. -/
def threeHosts : PeersNet (Fin 3) where
  env _ := threeEnv
  name := threeNames
  addr := threeAddrs
  port i := 9000 + i.val
  hostAt addr port := [0, 1, 2].find? fun i => threeAddrs i = addr ∧ 9000 + i.val = port
  rHost i := if i = 0 then none else some 0
  hostInfo _ := [0, 5, 1, 116, 0]

def threeStarted : PeersNetState (Fin 3) where
  hosts i :=
    { hostName := threeNames i
      hostPort := 9000 + i.val
      rHostAddr := if i = 0 then CString.empty else threeAddrs 0
      rPort := 9000
      arp := ksnetArpAddHost threeEnv { hostName := threeNames i, hostPort := 9000 + i.val } }

/-- Two hosts ask for a connection, all packets are delivered, and the callbacks are called. -/
def threeRun : List (PeersNetEvent (Fin 3)) :=
  [.connectRHost 1, .connectRHost 2] ++ List.replicate 20 (.deliver 0) ++
    List.replicate 2 (.connectCque 0)

theorem threeHosts_sound : threeHosts.Sound where
  name_inj := by
    show ∀ i j : Fin 3, threeNames i = threeNames j → i = j
    decide
  hostAt := by decide
  addr_fits := by decide
  addr_fits_rHost := by decide
  addr_ne := by decide
  port_lt := by decide
  rHost := by decide
  counts := by decide
  info := by decide

theorem threeHosts_start : PeersNetStart threeHosts threeStarted where
  start _ := ⟨rfl, rfl⟩
  name _ := rfl
  udp _ := rfl
  rHost
    | 0 => rfl
    | 1 => ⟨rfl, rfl⟩
    | 2 => ⟨rfl, rfl⟩
  flight := rfl
  delivered := rfl

theorem threeRun_joined (i : Fin 3) (hi : i ≠ 0) :
    Joined (threeRun.foldl (peersNetStep threeHosts) threeStarted) i := by
  have h : ∀ i : Fin 3, i ≠ 0 →
      ∃ d ∈ (threeRun.foldl (peersNetStep threeHosts) threeStarted).delivered,
        d.source = i ∧ d.cmd = cmdConnectR := by
    decide +kernel
  exact h i hi

theorem threeRun_fair : ∀ e ∈ threeRun, e.Fair threeHosts := by
  intro e he
  rcases List.mem_append.mp he with he | he
  · rcases List.mem_append.mp he with he | he
    · simp only [List.mem_cons, List.not_mem_nil, or_false] at he
      rcases he with rfl | rfl <;> exact trivial
    · rw [List.eq_of_mem_replicate he]
      exact trivial
  · rw [List.eq_of_mem_replicate he]
    exact trivial

end Teonet
