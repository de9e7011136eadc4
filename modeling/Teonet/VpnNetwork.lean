import Teonet.PeersNetwork
import Teonet.Vpn
import Mathlib.Data.List.GetD
import Mathlib.Data.List.Perm.Basic

/-! # One Ethernet for all hosts

The hosts of `PeersNetwork`, some of them with a VPN interface: a frame that is read from one
interface goes to other hosts in `CMD_VPN` packets, and is written to their interfaces when the
packets arrive, in any order.  Each host learns from the frames that it receives behind which host
an address is.

`vpnNetwork_delivers` says that the hosts behave as one switch, in every run in which addresses do not
move: no host ever has a wrong host for an address; each frame is written once by each host that it is
for, which is every host that the reader knows if it is a broadcast, and else the one that has its
destination, once a frame from there has been received; and by no other host. -/

namespace Teonet

open Bytes Runs

variable {ι : Type}

/-! ### The hosts with their interfaces -/

/-- The hosts of the network and their VPN modules. -/
structure VpnNetState (ι : Type) extends PeersNetState ι where
  kvpn : ι → Option KsnVpnClass

/-- What can happen: something of the network, or `tuntap_io_cb` reads from an interface. -/
inductive VpnNetEvent (ι : Type)
  | peers (e : PeersNetEvent ι)
  | tuntap (i : ι) (rand : ℕ) (read : TapRead)

/-- A frame that a host writes to its interface, and the host whose packet had it. -/
structure WrittenFrame (ι : Type) where
  host : ι
  source : ι
  data : List UInt8
deriving DecidableEq

/-- The host that an event brings a packet, and the packet. -/
def PeersNet.arrival (net : PeersNet ι) (s : PeersNetState ι) :
    PeersNetEvent ι → Option (ι × NetPacket ι)
  | .deliver k => s.flight[k]?.bind fun d => (net.hostAt d.addr d.port).map fun j => (j, d)
  | _ => none

/-- A frame that is sent. -/
def VpnCall.peerCall : VpnCall → Option PeerCall
  | .sendto _ addr port data => some (.sendto addr port cmdVpn data)
  | .write _ => none

/-- A frame that is written. -/
def VpnCall.written (j k : ι) : VpnCall → Option (WrittenFrame ι)
  | .sendto _ _ _ _ => none
  | .write data => some ⟨j, k, data⟩

variable [DecidableEq ι] (net : PeersNet ι)

/-- One event. -/
def vpnNetStep (s : VpnNetState ι) : VpnNetEvent ι → VpnNetState ι × List (WrittenFrame ι)
  | .peers e =>
    match net.arrival s.toPeersNetState e with
    | none => (⟨peersNetStep net s.toPeersNetState e, s.kvpn⟩, [])
    | some (j, d) =>
      let done := vpnHandle (net.env j) ⟨s.hosts j, s.kvpn j⟩
        (.peers (.packet (net.received d) []))
      (⟨peersNetStep net s.toPeersNetState e, Function.update s.kvpn j done.1.kvpn⟩,
        done.2.filterMap (VpnCall.written j d.source))
  | .tuntap i rand read =>
    let calls := (vpnHandle (net.env i) ⟨s.hosts i, s.kvpn i⟩ (.tuntap rand read)).2
    (⟨s.goes i (s.hosts i, calls.filterMap VpnCall.peerCall), s.kvpn⟩, [])

/-- The host has a VPN interface that has been started. -/
def VpnNetState.started (s : VpnNetState ι) (i : ι) : Bool :=
  (s.kvpn i).any KsnVpnClass.ksnetVpnStarted

/-- All hosts have just started, those with a VPN interface with an empty list of addresses. -/
structure VpnNetStart (s : VpnNetState ι) : Prop where
  peers : PeersNetStart net s.toPeersNetState
  map : ∀ i k, s.kvpn i = some k → k.ksnetVpnMap = FinMap.empty

/-- What an application sends is no `CMD_VPN`, and a frame that is read holds two addresses, of which
the source is one of those behind the host; `home` says where an address is. -/
def VpnNetEvent.Fair (home : MacAddr → ι) : VpnNetEvent ι → Prop
  | .peers e => e.Fair net ∧ ∀ i peer cmd data, e = .send i peer cmd data → cmd ≠ cmdVpn
  | .tuntap i _ (.frame data _) => 12 ≤ data.length ∧ home (etherSource data) = i
  | .tuntap _ _ .failed => True

/-! ### Frames and who they are for -/

variable (s : VpnNetState ι)

/-- The host has received a frame from the address. -/
def Heard (i : ι) (mac : MacAddr) : Prop :=
  ∃ d ∈ s.delivered, (d.addr = net.addr i ∧ d.port = net.port i) ∧ d.cmd = cmdVpn ∧
    etherSource d.data = mac

instance (i : ι) (mac : MacAddr) : Decidable (Heard net s i mac) :=
  inferInstanceAs (Decidable (∃ d ∈ s.delivered, _))

/-- A frame that the host `i` reads is for the host `j`: `i` knows `j`, and the frame is a broadcast
or its destination is at `j` and `i` has received a frame from there. -/
def FrameFor (home : MacAddr → ι) (i j : ι) (data : List UInt8) : Prop :=
  ((s.hosts i).arp.get (net.name j)).isSome ∧ (macIsBroadcast (etherDestination data) ∨
    home (etherDestination data) = j ∧ Heard net s i (etherDestination data))

instance (home : MacAddr → ι) (i j : ι) (data : List UInt8) :
    Decidable (FrameFor net s home i j data) :=
  inferInstanceAs (Decidable (_ ∧ _))

/-- The frame that the host `i` reads for the host `j` in an event. -/
def frameFor (home : MacAddr → ι) (i j : ι) (s : VpnNetState ι) : VpnNetEvent ι → List (List UInt8)
  | .tuntap k _ (.frame data _) =>
    if k = i ∧ s.started i ∧ FrameFor net s home i j data then [data] else []
  | _ => []

/-- The frames that the host `i` reads for the host `j`. -/
def framesFor (home : MacAddr → ι) (i j : ι) : VpnNetState ι → List (VpnNetEvent ι) →
    List (List UInt8) :=
  outputs fun s e => ((vpnNetStep net s e).1, frameFor net home i j s e)

/-- The frames from the host `i` that the host `j` has written. -/
def writtenFrames (i j : ι) (os : List (WrittenFrame ι)) : List (List UInt8) :=
  (os.filter fun w => w.host = j ∧ w.source = i).map WrittenFrame.data

/-- The frames among packets that go from the host `i` to the host `j`. -/
def framesAmong (i j : ι) (ds : List (NetPacket ι)) : List (List UInt8) :=
  (ds.filter fun d => d.cmd = cmdVpn ∧ d.source = i ∧ d.addr = net.addr j ∧ d.port = net.port j).map
    NetPacket.data

/-- What holds of every state: the network's invariant, and that each host knows where the addresses
are from which it has received frames. -/
structure VpnNetInv (home : MacAddr → ι) (s : VpnNetState ι) : Prop where
  peers : NetSafe net s.toPeersNetState
  flight : ∀ d ∈ s.flight, d.cmd = cmdVpn →
    12 ≤ d.data.length ∧ home (etherSource d.data) = d.source
  /-- Frames go to hosts that the sender knows, so that no callback destroys their channel. -/
  known : ∀ d ∈ s.flight, d.cmd = cmdVpn → ∀ l, d.Between net d.source l →
    Knows net s.toPeersNetState d.source l
  heard : ∀ i mac, Heard net s i mac →
    home mac ≠ i ∧ Knows net s.toPeersNetState i (home mac)
  map : ∀ i k, s.kvpn i = some k → k.ksnetVpnStarted = true → ∀ mac,
    k.ksnetVpnMap.get mac = if Heard net s i mac then some (net.name (home mac)) else none

/-! ### The commands of the network -/

/-- The command of a packet that a call sends. -/
def PeerCall.cmd : PeerCall → Option UInt8
  | .sendto _ _ cmd _ => some cmd
  | .sendCmdto _ cmd _ => some cmd
  | _ => none

/-- The calls send only packets by which peers find each other. -/
def OnlyMeeting (calls : List PeerCall) : Prop :=
  ∀ call ∈ calls, ∀ cmd ∈ call.cmd,
    cmd ∈ [cmdNone, cmdConnectR, cmdConnect, cmdHostInfo, cmdHostInfoAnswer]

variable {net s} {home : MacAddr → ι} {i j : ι} {calls calls' : List PeerCall}

omit [DecidableEq ι]

theorem OnlyMeeting.append (h : OnlyMeeting calls) (h' : OnlyMeeting calls') :
    OnlyMeeting (calls ++ calls') :=
  fun call hcall => (List.mem_append.mp hcall).elim (h call) (h' call)

theorem OnlyMeeting.cons {call : PeerCall} (h : OnlyMeeting [call]) (h' : OnlyMeeting calls) :
    OnlyMeeting (call :: calls) :=
  h.append h'

theorem onlyMeeting_nil : OnlyMeeting [] := fun _ hcall => absurd hcall List.not_mem_nil

theorem onlyMeeting_singleton {call : PeerCall} (h : ∀ cmd ∈ call.cmd,
    cmd ∈ [cmdNone, cmdConnectR, cmdConnect, cmdHostInfo, cmdHostInfoAnswer]) :
    OnlyMeeting [call] := fun c hc => by
  obtain rfl := List.mem_singleton.mp hc
  exact h

theorem onlyMeeting_map {α : Type} (l : List α) {f : α → PeerCall}
    (h : ∀ a, (f a).cmd = some cmdConnect) : OnlyMeeting (l.map f) := by
  intro call hcall cmd hcmd
  obtain ⟨a, -, rfl⟩ := List.mem_map.mp hcall
  rw [h a] at hcmd
  obtain rfl := Option.mem_some_iff.mp hcmd
  decide

theorem onlyMeeting_checkNewPeer (env : PeersEnv) (p : Peers) (rd : KsnCorePacketData) :
    OnlyMeeting (ksnCoreCheckNewPeer env p rd).2 := by
  have hasks : OnlyMeeting [hostInfoRequest rd] := onlyMeeting_singleton (by simp [hostInfoRequest, PeerCall.cmd])
  unfold ksnCoreCheckNewPeer
  cases p.arp.get rd.fromName with
  | none =>
    dsimp only
    split_ifs
    · exact hasks.cons ((onlyMeeting_map _ fun _ => rfl).append (onlyMeeting_map _ fun _ => rfl))
    · exact hasks
  | some a =>
    dsimp only
    split_ifs <;> exact onlyMeeting_nil

theorem onlyMeeting_command (env : PeersEnv) (p : Peers) (rd : KsnCorePacketData) :
    OnlyMeeting (ksnCommandCheckPeers env p rd).2 := by
  have hevents : ∀ ev n, OnlyMeeting [.event ev n, .subscribers ev n] := fun ev n =>
    (onlyMeeting_singleton (by simp [PeerCall.cmd])).cons
      (onlyMeeting_singleton (by simp [PeerCall.cmd]))
  unfold ksnCommandCheckPeers
  split_ifs
  · have hanswer : OnlyMeeting [.sendCmdto rd.fromName cmdNone [0, 0]] :=
      onlyMeeting_singleton (by simp [PeerCall.cmd])
    unfold cmdConnectRCb
    dsimp only
    split_ifs
    · exact hanswer.cons ((onlyMeeting_map _ fun _ => rfl).append (onlyMeeting_map _ fun _ => rfl))
    · apply hanswer.cons
      cases (p.arp.modify rd.fromName fun a => { a with mode := 2 }).get rd.fromName with
      | none => exact onlyMeeting_nil
      | some a =>
        refine OnlyMeeting.append ?_ ((hevents _ _).append (onlyMeeting_map _ fun _ => rfl))
        intro call hcall
        obtain ⟨addr, -, hcall⟩ := List.mem_flatMap.mp hcall
        exact onlyMeeting_map _ (fun _ => rfl) call hcall
  · unfold cmdConnectCb
    dsimp only
    refine OnlyMeeting.append ?_ (onlyMeeting_singleton (by simp [PeerCall.cmd]))
    split
    · exact onlyMeeting_singleton (by simp [PeerCall.cmd])
    · exact onlyMeeting_nil
  · unfold cmdDisconnectedCb
    dsimp only
    refine OnlyMeeting.append ?_ (hevents _ _)
    split_ifs
    · exact onlyMeeting_nil
    · exact onlyMeeting_singleton (by simp [PeerCall.cmd])
  · unfold cmdHostInfoAnswerCb
    split
    · split_ifs
      · exact hevents _ _
      · exact onlyMeeting_nil
    · exact onlyMeeting_nil
  · exact onlyMeeting_nil

theorem onlyMeeting_receive (net : PeersNet ι) (j : ι) (p : Peers) (d : NetPacket ι) :
    OnlyMeeting (net.receive j p d).2 := by
  unfold PeersNet.receive receivePacket
  refine OnlyMeeting.append ?_ ?_
  · dsimp only
    cases dispatched (net.received d) [] with
    | none => exact onlyMeeting_checkNewPeer _ _ _
    | some d' => exact (onlyMeeting_checkNewPeer _ _ _).append (onlyMeeting_command _ _ _)
  · unfold PeersNet.hostInfoCb
    split_ifs
    · exact onlyMeeting_singleton (by simp [PeerCall.cmd])
    · exact onlyMeeting_nil

theorem onlyMeeting_connects (net : PeersNet ι) (i : ι) (p : Peers) :
    OnlyMeeting (net.connects i p).2 := by
  have hasks : ∀ addr port data, OnlyMeeting [.sendto addr port cmdConnectR data] := fun _ _ _ =>
    onlyMeeting_singleton (by simp [PeerCall.cmd])
  have hconnects : ∀ addr, OnlyMeeting [.clientConnect addr] := fun _ =>
    onlyMeeting_singleton (by simp [PeerCall.cmd])
  unfold PeersNet.connects connectRHostCb
  cases net.rHost i with
  | none => exact onlyMeeting_nil
  | some r =>
    dsimp only
    split
    · split
      · refine OnlyMeeting.append ?_ (hasks _ _ _)
        split
        · exact hconnects _
        · exact onlyMeeting_nil
      · exact hasks _ _ _
    · exact onlyMeeting_nil

theorem connects_arp (net : PeersNet ι) (i : ι) (p : Peers) : (net.connects i p).1.arp = p.arp := by
  unfold PeersNet.connects connectRHostCb
  cases net.rHost i with
  | none => rfl
  | some r =>
    dsimp only
    split_ifs <;> rfl

/-- None of the packets that are sent is a `CMD_VPN`. -/
theorem OnlyMeeting.packets (h : OnlyMeeting calls) {arp : KsnetArpClass} {d : NetPacket ι}
    (hd : d ∈ calls.flatMap fun call => call.packets i arp) : d.cmd ≠ cmdVpn := by
  obtain ⟨call, hcall, hd⟩ := List.mem_flatMap.mp hd
  have hcmd : ∀ cmd ∈ call.cmd, cmd ≠ cmdVpn := by
    intro cmd hcmd hvpn
    have hmem := h call hcall cmd hcmd
    rw [hvpn] at hmem
    exact absurd hmem (by decide)
  cases call with
  | sendto addr port cmd data =>
    obtain rfl := List.mem_singleton.mp hd
    exact hcmd cmd rfl
  | sendCmdto n cmd data =>
    rw [PeerCall.packets] at hd
    cases hget : arp.get n with
    | none =>
      rw [hget] at hd
      exact absurd hd List.not_mem_nil
    | some a =>
      rw [hget] at hd
      obtain rfl := List.mem_singleton.mp hd
      exact hcmd cmd rfl
  | reconnect peer => exact absurd hd List.not_mem_nil
  | event ev n => exact absurd hd List.not_mem_nil
  | subscribers ev n => exact absurd hd List.not_mem_nil
  | clientConnect addr => exact absurd hd List.not_mem_nil
  | cqueAdd addr port => exact absurd hd List.not_mem_nil

/-! ### What a host sends -/

/-- The records of the hosts that a frame is sent to. -/
def frameRecipients (arp : KsnetArpClass) (k : KsnVpnClass) (data : List UInt8) :
    List (CString × ArpData) :=
  if macIsBroadcast (etherDestination data) then ksnetArpGetAll arp
  else ((mapFindByMac k (etherDestination data)).bind fun n => (arp.get n).map fun a => (n, a)).toList

/-- The packets for the recipients of a frame. -/
def framePackets (i : ι) (data : List UInt8) (rs : List (CString × ArpData)) :
    List (NetPacket ι) :=
  rs.map fun p => ⟨i, p.2.addr, p.2.port, cmdVpn, data⟩

section
variable [DecidableEq ι]

/-- Nobody gets a packet, and no frame that is on the way is lost. -/
structure GoesOn (net : PeersNet ι) (s s' : VpnNetState ι) (new : List (NetPacket ι)) : Prop where
  arp : ∀ i, (s'.hosts i).arp = (s.hosts i).arp
  kvpn : s'.kvpn = s.kvpn
  delivered : s'.delivered = s.delivered
  flight : ∀ d ∈ s'.flight, d ∈ s.flight ∨ d ∈ new
  frames : ∀ i j, framesAmong net i j s'.flight =
    framesAmong net i j s.flight ++ framesAmong net i j new

variable {s' : VpnNetState ι} {new : List (NetPacket ι)}

theorem GoesOn.knows (h : GoesOn net s s' new) :
    Knows net s'.toPeersNetState i j ↔ Knows net s.toPeersNetState i j := by
  unfold Knows
  rw [h.arp]

theorem GoesOn.heard (h : GoesOn net s s' new) (mac : MacAddr) :
    Heard net s' i mac ↔ Heard net s i mac := by
  unfold Heard
  rw [h.delivered]

theorem GoesOn.inv (h : GoesOn net s s' new) (hinv : VpnNetInv net home s)
    (hnet : NetSafe net s'.toPeersNetState)
    (hnew : ∀ d ∈ new, d.cmd = cmdVpn →
      (12 ≤ d.data.length ∧ home (etherSource d.data) = d.source) ∧
      ∀ l, d.Between net d.source l → Knows net s.toPeersNetState d.source l) :
    VpnNetInv net home s' where
  peers := hnet
  flight d hd hcmd := (h.flight d hd).elim (fun hd => hinv.flight d hd hcmd)
    fun hd => (hnew d hd hcmd).1
  known d hd hcmd l hl := h.knows.mpr <| (h.flight d hd).elim
    (fun hd => hinv.known d hd hcmd l hl) fun hd => (hnew d hd hcmd).2 l hl
  heard i mac hheard := by
    rw [h.heard] at hheard
    rw [h.knows]
    exact hinv.heard i mac hheard
  map i k hk hstarted mac := by
    rw [h.kvpn] at hk
    rw [hinv.map i k hk hstarted mac]
    exact if_congr (h.heard mac).symm rfl rfl

omit [DecidableEq ι] in
theorem VpnNetState.started_of_some {k : KsnVpnClass} (hk : s.kvpn i = some k) :
    s.started i = k.ksnetVpnStarted := by
  rw [VpnNetState.started, hk]
  rfl

theorem framesAmong_append (ds ds' : List (NetPacket ι)) :
    framesAmong net i j (ds ++ ds') = framesAmong net i j ds ++ framesAmong net i j ds' := by
  simp only [framesAmong, List.filter_append, List.map_append]

theorem goesOn_goes {p : PeersNetState ι} {kvpn : ι → Option KsnVpnClass}
    {r : Peers × List PeerCall} (harp : r.1.arp = (p.hosts i).arp) :
    GoesOn net ⟨p, kvpn⟩ ⟨p.goes i r, kvpn⟩ (r.2.flatMap fun call => call.packets i r.1.arp) where
  arp k := by
    dsimp only
    rw [goes_hosts]
    split_ifs with hk
    · rw [hk, harp]
    · rfl
  kvpn := rfl
  delivered := rfl
  flight _ := List.mem_append.mp
  frames _ _ := framesAmong_append _ _

theorem framesAmong_of_not_vpn {ds : List (NetPacket ι)} (h : ∀ d ∈ ds, d.cmd ≠ cmdVpn) :
    framesAmong net i j ds = [] := by
  rw [framesAmong, List.map_eq_nil_iff, List.filter_eq_nil_iff]
  intro d hd hvpn
  exact h d hd (of_decide_eq_true hvpn).1

/-- A host with nothing to do but to drop what waits. -/
theorem goesOn_same {p p' : PeersNetState ι} {kvpn : ι → Option KsnVpnClass}
    (hhosts : p'.hosts = p.hosts) (hdelivered : p'.delivered = p.delivered)
    (hflight : p'.flight.Sublist p.flight)
    (hframes : ∀ i j, framesAmong net i j p'.flight = framesAmong net i j p.flight) :
    GoesOn net ⟨p, kvpn⟩ ⟨p', kvpn⟩ [] where
  arp k := by
    dsimp only
    rw [hhosts]
  kvpn := rfl
  delivered := hdelivered
  flight d hd := .inl (hflight.subset hd)
  frames i j := (hframes i j).trans (List.append_nil _).symm

/-- **A channel that a callback destroys** has no frame in it. -/
theorem framesAmong_channelDestroyAddr (hinv : VpnNetInv net home s) (hsound : net.Sound) {k : ι}
    {addr : CString} {port : ℕ} (hdestroys : cmdConnectCqueCb (s.hosts k) addr port = true)
    (i j : ι) : framesAmong net i j (s.channelDestroyAddr k addr port).flight =
      framesAmong net i j s.flight := by
  have hkept : ∀ d ∈ s.flight, d.cmd = cmdVpn → ¬d.InChannel k addr port := by
    rintro d hd hcmd ⟨rfl, rfl, rfl⟩
    obtain ⟨l, hne, hbetween, -⟩ := hinv.peers.flight d hd
    have hknows := hinv.known d hd hcmd l hbetween
    rw [hbetween.2.1, hbetween.2.2, cmdConnectCqueCb_of_knows hsound
      (hinv.peers.records d.source) hne hknows] at hdestroys
    cases hdestroys
  unfold framesAmong PeersNetState.channelDestroyAddr
  rw [List.filter_filter]
  refine congrArg (List.map _) (List.filter_congr fun d hd => ?_)
  by_cases hcmd : d.cmd = cmdVpn
  · simp [hkept d hd hcmd]
  · simp [hcmd]

/-- An event of the network that brings nobody a packet. -/
theorem peersNetStep_goesOn (hinv : VpnNetInv net home s) (hsound : net.Sound)
    {e : PeersNetEvent ι} (hvpn : ∀ i peer cmd data, e = .send i peer cmd data → cmd ≠ cmdVpn)
    (harrival : net.arrival s.toPeersNetState e = none) :
    ∃ new, GoesOn net s ⟨peersNetStep net s.toPeersNetState e, s.kvpn⟩ new ∧
      ∀ d ∈ new, d.cmd ≠ cmdVpn := by
  have hsame : GoesOn net s s [] :=
    goesOn_same rfl rfl (.refl _) fun _ _ => rfl
  cases e with
  | connectRHost i =>
    exact ⟨_, goesOn_goes (connects_arp net i _), fun d hd =>
      (onlyMeeting_connects net i _).packets hd⟩
  | askInfo i peer =>
    refine ⟨_, goesOn_goes rfl, fun d hd => OnlyMeeting.packets ?_ hd⟩
    unfold peerTypeCb
    split
    · exact onlyMeeting_singleton (by simp [PeerCall.cmd])
    · exact onlyMeeting_nil
  | send i peer cmd data =>
    refine ⟨_, goesOn_goes rfl, fun d hd => ?_⟩
    rw [List.flatMap_singleton, PeerCall.packets] at hd
    split at hd
    · obtain rfl := List.mem_singleton.mp hd
      exact hvpn i peer cmd data rfl
    · exact absurd hd List.not_mem_nil
  | deliver n =>
    rw [peersNetStep]
    rw [PeersNet.arrival] at harrival
    cases hget : s.flight[n]? with
    | none => exact ⟨[], hsame, fun d hd => absurd hd List.not_mem_nil⟩
    | some d =>
      obtain ⟨j, hat, -, -⟩ := hinv.peers.arrives hsound hget
      rw [hget, Option.bind_some, hat] at harrival
      cases harrival
  | connectCque n =>
    refine ⟨[], ?_, fun d hd => absurd hd List.not_mem_nil⟩
    rw [peersNetStep]
    cases hget : s.waits[n]? with
    | none => exact hsame
    | some w =>
      obtain ⟨i, addr, port⟩ := w
      dsimp only
      split_ifs with hdestroys
      · exact goesOn_same rfl rfl List.filter_sublist
          (framesAmong_channelDestroyAddr hinv hsound hdestroys)
      · exact goesOn_same rfl rfl (.refl _) fun _ _ => rfl

theorem macAt_append {mem after : List UInt8} {offset : ℕ} (h : offset + 6 ≤ mem.length) :
    macAt (mem ++ after) offset = macAt mem offset := by
  unfold macAt
  congr 1
  funext k
  rw [List.getD_append _ _ _ _ (by omega)]

/-- What a host knows of the hosts that it sends a frame to. -/
structure RecipientsOk (net : PeersNet ι) (s : VpnNetState ι) (home : MacAddr → ι) (i : ι)
    (data : List UInt8) (rs : List (CString × ArpData)) : Prop where
  host : ∀ p ∈ rs, ∃ m, m ≠ i ∧ p.1 = net.name m ∧ p.2.addr = net.addr m ∧
    p.2.port = net.port m ∧ Knows net s.toPeersNetState i m
  once : (rs.map Prod.fst).Nodup
  mem : ∀ j, j ≠ i → (net.name j ∈ rs.map Prod.fst ↔ FrameFor net s home i j data)

omit [DecidableEq ι] in
/-- **The recipients of a frame** are the hosts that it is for. -/
theorem recipientsOk (hinv : VpnNetInv net home s) (hsound : net.Sound) {k : KsnVpnClass}
    (hk : s.kvpn i = some k) (hstarted : k.ksnetVpnStarted = true) (data : List UInt8) :
    RecipientsOk net s home i data (frameRecipients (s.hosts i).arp k data) := by
  have hrec := hinv.peers.records i
  have hknown : ∀ {j}, ((s.hosts i).arp.get (net.name j)).isSome ↔
      Knows net s.toPeersNetState i j := Option.isSome_iff_exists
  unfold frameRecipients
  split_ifs with hbroadcast
  · refine ⟨fun p hp => ?_, nodup_ksnetArpGetAll _, fun j hj => ?_⟩
    · obtain ⟨m, hne, hname, haddr, hport⟩ := mem_getAll hrec hp
      exact ⟨m, hne, hname, haddr, hport, p.2, hname ▸ (mem_ksnetArpGetAll.mp hp).1⟩
    rw [FrameFor, and_iff_left (.inl hbroadcast), hknown, List.mem_map]
    constructor
    · rintro ⟨⟨n, a⟩, hp, rfl⟩
      exact ⟨a, (mem_ksnetArpGetAll.mp hp).1⟩
    · rintro ⟨a, ha⟩
      exact ⟨_, getAll_mem hsound hrec hj ha, rfl⟩
  · rw [mapFindByMac, hinv.map i k hk hstarted]
    split_ifs with hheard
    · obtain ⟨hne, a, ha⟩ := hinv.heard i _ hheard
      obtain ⟨haddr, hport, -⟩ := hrec.get hsound hne ha
      rw [Option.bind_some, ha]
      refine ⟨fun p hp => ?_, List.nodup_singleton _, fun j hj => ?_⟩
      · obtain rfl := List.mem_singleton.mp hp
        exact ⟨_, hne, rfl, haddr, hport, a, ha⟩
      · rw [FrameFor, or_iff_right hbroadcast, and_iff_left hheard, hknown]
        constructor
        · intro hname
          obtain rfl := hsound.name_inj (List.mem_singleton.mp hname)
          exact ⟨⟨a, ha⟩, rfl⟩
        · rintro ⟨-, rfl⟩
          exact List.mem_singleton.mpr rfl
    · refine ⟨fun p hp => absurd hp List.not_mem_nil, List.nodup_nil, fun j hj => ?_⟩
      refine iff_of_false List.not_mem_nil fun hfor => ?_
      exact hfor.2.elim hbroadcast fun h => hheard h.2

omit [DecidableEq ι] in
theorem tuntapIoCb_frame (arp : KsnetArpClass) (k : KsnVpnClass) (rand : ℕ) {data : List UInt8}
    (after : List UInt8) (hdata : 12 ≤ data.length)
    (hknown : ∀ mac n, mapFindByMac k mac = some n → (arp.get n).isSome) :
    tuntapIoCb arp k rand (.frame data after) =
      (frameRecipients arp k data).map fun p => .sendto p.1 p.2.addr p.2.port data := by
  have hdestination : etherDestination (data ++ after) = etherDestination data :=
    macAt_append (by omega)
  rw [tuntapIoCb, hdestination, frameRecipients]
  split_ifs with hbroadcast
  · exact sendToAll_eq_map arp rand data
  · cases hfind : mapFindByMac k (etherDestination data) with
    | none => rfl
    | some n =>
      obtain ⟨a, ha⟩ := Option.isSome_iff_exists.mp (hknown _ n hfind)
      dsimp only
      rw [sendToPeer_of_get ha, Option.bind_some, ha]
      rfl

omit [DecidableEq ι] in
/-- The calls of a host that reads a frame, as packets. -/
theorem packets_framePackets (i : ι) (arp : KsnetArpClass) (data : List UInt8)
    (rs : List (CString × ArpData)) :
    (((rs.map fun p => VpnCall.sendto p.1 p.2.addr p.2.port data).filterMap
      VpnCall.peerCall).flatMap fun call => call.packets i arp) = framePackets i data rs := by
  induction rs with
  | nil => rfl
  | cons p rs ih =>
    rw [List.map_cons, List.filterMap_cons]
    exact congrArg (List.cons _) ih

/-- A frame goes once to each host that it is for. -/
theorem framesAmong_framePackets (hsound : net.Sound) {data : List UInt8}
    {rs : List (CString × ArpData)} (h : RecipientsOk net s home i data rs) (hij : j ≠ i) :
    framesAmong net i j (framePackets i data rs) =
      if FrameFor net s home i j data then [data] else [] := by
  have hiff : ∀ p ∈ rs, (p.2.addr = net.addr j ∧ p.2.port = net.port j) ↔ p.1 = net.name j := by
    intro p hp
    obtain ⟨m, -, hname, haddr, hport, -⟩ := h.host p hp
    rw [hname, haddr, hport]
    constructor
    · rintro ⟨haddr', hport'⟩
      rw [eq_of_place hsound haddr' hport']
    · intro hname'
      rw [hsound.name_inj hname']
      exact ⟨rfl, rfl⟩
  have hcount : framesAmong net i j (framePackets i data rs) =
      List.replicate ((rs.map Prod.fst).count (net.name j)) data := by
    rw [framesAmong, framePackets, List.filter_map, List.map_map, List.eq_replicate_iff]
    refine ⟨?_, fun b hb => ?_⟩
    · rw [List.length_map, List.count, List.countP_map, List.countP_eq_length_filter]
      congr 1
      apply List.filter_congr
      intro p hp
      rw [Bool.eq_iff_iff]
      simpa using hiff p hp
    · obtain ⟨p, -, rfl⟩ := List.mem_map.mp hb
      rfl
  rw [hcount]
  split_ifs with hfor
  · rw [List.count_eq_one_of_mem h.once ((h.mem j hij).mpr hfor)]
    rfl
  · rw [List.count_eq_zero.mpr fun hmem => hfor ((h.mem j hij).mp hmem)]
    rfl

theorem framesAmong_of_source {ds : List (NetPacket ι)} {k : ι} (h : ∀ d ∈ ds, d.source = k)
    (hne : k ≠ i) : framesAmong net i j ds = [] := by
  rw [framesAmong, List.map_eq_nil_iff, List.filter_eq_nil_iff]
  intro d hd hframe
  exact hne ((h d hd).symm.trans (of_decide_eq_true hframe).2.1)

/-- The host `k` reads the frame `data` and sends it to the recipients `rs`. -/
structure TuntapSends (net : PeersNet ι) (home : MacAddr → ι) (s : VpnNetState ι) (k rand)
    (read : TapRead) (data : List UInt8) (rs : List (CString × ArpData)) : Prop where
  calls : (vpnHandle (net.env k) ⟨s.hosts k, s.kvpn k⟩ (.tuntap rand read)).2 =
    rs.map fun p => .sendto p.1 p.2.addr p.2.port data
  host : ∀ p ∈ rs, 12 ≤ data.length ∧ home (etherSource data) = k ∧
    ∃ m, m ≠ k ∧ p.1 = net.name m ∧ p.2.addr = net.addr m ∧ p.2.port = net.port m ∧
      Knows net s.toPeersNetState k m
  frames : ∀ i j, j ≠ i →
    framesAmong net i j (framePackets k data rs) = frameFor net home i j s (.tuntap k rand read)

theorem frameFor_of_not_started {k : ι} {rand : ℕ} {read : TapRead} (h : s.started k = false) :
    frameFor net home i j s (.tuntap k rand read) = [] := by
  cases read with
  | failed => rfl
  | frame data after =>
    rw [frameFor, if_neg]
    rintro ⟨rfl, hstarted, -⟩
    rw [h] at hstarted
    cases hstarted

/-- A frame that is read while the module runs goes to those that it is for. -/
theorem tuntapSends_frame (hinv : VpnNetInv net home s) (hsound : net.Sound) {k : ι} {rand : ℕ}
    {data after : List UInt8} (hdata : 12 ≤ data.length) (hhome : home (etherSource data) = k)
    {kvpn : KsnVpnClass} (hk : s.kvpn k = some kvpn) (hstarted : kvpn.ksnetVpnStarted = true) :
    TuntapSends net home s k rand (.frame data after) data
      (frameRecipients (s.hosts k).arp kvpn data) := by
  have hok := recipientsOk hinv hsound hk hstarted data
  refine ⟨?_, fun p hp => ⟨hdata, hhome, hok.host p hp⟩, fun i j hij => ?_⟩
  · rw [vpnHandle, hk]
    dsimp only
    rw [hstarted, if_pos rfl]
    -- the map only has hosts that have a record
    refine tuntapIoCb_frame _ _ _ after hdata fun mac n hfind => ?_
    rw [mapFindByMac, hinv.map k kvpn hk hstarted] at hfind
    split_ifs at hfind with hheard
    obtain rfl := Option.some.inj hfind
    exact Option.isSome_iff_exists.mpr (hinv.heard k mac hheard).2
  · rw [frameFor]
    by_cases hki : k = i
    · subst hki
      rw [framesAmong_framePackets hsound hok hij]
      refine if_congr ?_ rfl rfl
      rw [VpnNetState.started_of_some hk, hstarted]
      exact ⟨fun h => ⟨rfl, rfl, h⟩, fun h => h.2.2⟩
    · rw [if_neg fun h => hki h.1]
      refine framesAmong_of_source (fun d hd => ?_) hki
      obtain ⟨p, -, rfl⟩ := List.mem_map.mp hd
      rfl

theorem exists_tuntapSends (hinv : VpnNetInv net home s) (hsound : net.Sound) {k : ι} {rand : ℕ}
    {read : TapRead} (hfair : (VpnNetEvent.tuntap k rand read).Fair net home) :
    ∃ data rs, TuntapSends net home s k rand read data rs := by
  have hnothing : (vpnHandle (net.env k) ⟨s.hosts k, s.kvpn k⟩ (.tuntap rand read)).2 = [] →
      (∀ i j, frameFor net home i j s (.tuntap k rand read) = []) →
      ∃ data rs, TuntapSends net home s k rand read data rs :=
    fun hcalls hfor => ⟨[], [], hcalls, fun p hp => absurd hp List.not_mem_nil,
      fun i j _ => (hfor i j).symm⟩
  cases hk : s.kvpn k with
  | none =>
    refine hnothing (by rw [vpnHandle, hk]) fun i j => frameFor_of_not_started ?_
    rw [VpnNetState.started, hk]
    rfl
  | some kvpn =>
    cases hstarted : kvpn.ksnetVpnStarted with
    | false =>
      refine hnothing ?_ fun i j => frameFor_of_not_started ?_
      · rw [vpnHandle, hk]
        dsimp only
        rw [hstarted]
        rfl
      · rw [VpnNetState.started_of_some hk, hstarted]
    | true =>
      cases read with
      | failed =>
        refine hnothing ?_ fun i j => rfl
        rw [vpnHandle, hk]
        dsimp only
        rw [hstarted]
        rfl
      | frame data after =>
        obtain ⟨hdata, hhome⟩ := hfair
        exact ⟨data, _, tuntapSends_frame hinv hsound hdata hhome hk hstarted⟩

/-- **A frame is read**: it goes to the hosts that it is for. -/
theorem VpnNetInv.tuntap (hinv : VpnNetInv net home s) (hsound : net.Sound) {k : ι} {rand : ℕ}
    {read : TapRead} (hfair : (VpnNetEvent.tuntap k rand read).Fair net home) :
    ∃ new, GoesOn net s (vpnNetStep net s (.tuntap k rand read)).1 new ∧
      VpnNetInv net home (vpnNetStep net s (.tuntap k rand read)).1 ∧
      ∀ i j, j ≠ i → framesAmong net i j new = frameFor net home i j s (.tuntap k rand read) := by
  obtain ⟨data, rs, hcalls, hrs, hfor⟩ := exists_tuntapSends hinv hsound hfair
  have hstep : (vpnNetStep net s (.tuntap k rand read)).1 =
      ⟨s.goes k (s.hosts k, (rs.map fun p => VpnCall.sendto p.1 p.2.addr p.2.port data).filterMap
        VpnCall.peerCall), s.kvpn⟩ := by
    rw [vpnNetStep, hcalls]
  have hgoes : GoesOn net s ⟨s.goes k (s.hosts k, (rs.map fun p =>
      VpnCall.sendto p.1 p.2.addr p.2.port data).filterMap VpnCall.peerCall), s.kvpn⟩ _ :=
    goesOn_goes rfl
  rw [packets_framePackets] at hgoes
  have hpackets : ∀ d ∈ framePackets k data rs, PacketOk net d ∧
      (12 ≤ d.data.length ∧ home (etherSource d.data) = d.source) ∧
      ∀ l, d.Between net d.source l → Knows net s.toPeersNetState d.source l := by
    intro d hd
    obtain ⟨p, hp, rfl⟩ := List.mem_map.mp hd
    obtain ⟨hdata, hhome, m, hne, -, haddr, hport, hknows⟩ := hrs p hp
    have hvpn : cmdVpn ∉ [cmdNone, cmdConnectR, cmdConnect, cmdDisconnected, cmdSplit, cmdHostInfo,
        cmdHostInfoAnswer] := by decide
    refine ⟨⟨m, hne, ⟨rfl, haddr, hport⟩, dataOk_app net k m data hvpn⟩, ⟨hdata, hhome⟩,
      fun l hl => ?_⟩
    rw [eq_of_place hsound (hl.2.1.symm.trans haddr) (hl.2.2.symm.trans hport)]
    exact hknows
  rw [hstep]
  refine ⟨_, hgoes, hgoes.inv hinv ?_ fun d hd _ => (hpackets d hd).2, hfor⟩
  refine OnlySends.netSafe ⟨rfl, rfl, rfl, hinv.peers.set k, fun d hd => ?_⟩ hinv.peers
  rw [packets_framePackets] at hd
  exact (hpackets d hd).1

/-! ### A packet arrives -/

theorem cmdVpnCb_of_started {k : KsnVpnClass} (hstarted : k.ksnetVpnStarted = true)
    (fromName : CString) (data after : List UInt8) :
    cmdVpnCb (some k) fromName data after =
      (some { k with ksnetVpnMap := k.ksnetVpnMap.addNew (etherSource (data ++ after)) fromName },
        [.write data]) := by
  unfold cmdVpnCb mapFindByMac FinMap.addNew
  dsimp only
  rw [if_pos hstarted]
  cases k.ksnetVpnMap.get (etherSource (data ++ after)) with
  | none => rfl
  | some _ => rfl

theorem cmdVpnCb_of_stopped {k : KsnVpnClass} (hstopped : k.ksnetVpnStarted = false)
    (fromName : CString) (data after : List UInt8) :
    cmdVpnCb (some k) fromName data after = (some k, []) := by
  unfold cmdVpnCb
  dsimp only
  rw [hstopped]
  rfl

/-- Where the module runs after a frame, it ran before, and the first frame from an address says where
the address is. -/
theorem eq_of_cmdVpnCb {kvpn : Option KsnVpnClass} {fromName : CString} {data after : List UInt8}
    {k : KsnVpnClass} (hk : (cmdVpnCb kvpn fromName data after).1 = some k)
    (hstarted : k.ksnetVpnStarted = true) :
    ∃ k', kvpn = some k' ∧ k'.ksnetVpnStarted = true ∧
      k = { k' with ksnetVpnMap := k'.ksnetVpnMap.addNew (etherSource (data ++ after)) fromName } := by
  cases kvpn with
  | none => cases hk
  | some k' =>
    cases hstarted' : k'.ksnetVpnStarted with
    | false =>
      rw [cmdVpnCb_of_stopped hstarted'] at hk
      obtain rfl := Option.some.inj hk
      exact absurd (hstarted'.symm.trans hstarted) (by decide)
    | true =>
      rw [cmdVpnCb_of_started hstarted'] at hk
      exact ⟨k', rfl, hstarted', (Option.some.inj hk).symm⟩

omit [DecidableEq ι] in
/-- What the VPN module does with a packet. -/
theorem vpnHandle_packet {d : NetPacket ι} (hok : DataOk net d.source j d.cmd d.data) :
    (vpnHandle (net.env j) ⟨s.hosts j, s.kvpn j⟩ (.peers (.packet (net.received d) []))).1.kvpn =
        (if d.cmd = cmdVpn then cmdVpnCb (s.kvpn j) (net.name d.source) d.data []
          else (s.kvpn j, [])).1 ∧
      (vpnHandle (net.env j) ⟨s.hosts j, s.kvpn j⟩ (.peers (.packet (net.received d) []))).2 =
        (if d.cmd = cmdVpn then cmdVpnCb (s.kvpn j) (net.name d.source) d.data []
          else (s.kvpn j, [])).2 := by
  have hframe : vpnFrame (.packet (net.received d) []) =
      if d.cmd = cmdVpn then some (net.name d.source, d.data, []) else none := by
    rw [vpnFrame, dispatched_of_ne _ [] hok.split]
    rfl
  rw [vpnHandle, hframe]
  split_ifs <;> exact ⟨rfl, rfl⟩

/-- A packet that has arrived, in the state after it. -/
structure FrameArrives (net : PeersNet ι) (s : VpnNetState ι) (d : NetPacket ι) (j : ι)
    (s' : VpnNetState ι) (out : List (WrittenFrame ι)) : Prop where
  delivers : DeliversTo net s.toPeersNetState d j s'.toPeersNetState
  flight : ∃ n, s.flight[n]? = some d ∧
    s'.flight = s.flight.eraseIdx n ++ net.replies j (s.hosts j) d
  kvpn : s'.kvpn = Function.update s.kvpn j (if d.cmd = cmdVpn then
    cmdVpnCb (s.kvpn j) (net.name d.source) d.data [] else (s.kvpn j, [])).1
  out : out = (if d.cmd = cmdVpn then cmdVpnCb (s.kvpn j) (net.name d.source) d.data []
    else (s.kvpn j, [])).2.filterMap (VpnCall.written j d.source)

theorem frameArrives (hinv : NetSafe net s.toPeersNetState) (hsound : net.Sound)
    {e : PeersNetEvent ι} {d : NetPacket ι}
    (harrival : net.arrival s.toPeersNetState e = some (j, d)) :
    FrameArrives net s d j (vpnNetStep net s (.peers e)).1 (vpnNetStep net s (.peers e)).2 := by
  cases e with
  | deliver n =>
    have hflight := harrival
    rw [PeersNet.arrival] at hflight
    cases hget : s.flight[n]? with
    | none =>
      rw [hget] at hflight
      cases hflight
    | some d' =>
      obtain ⟨j', hat, hdelivers, hnext⟩ := hinv.arrives hsound hget
      rw [hget, Option.bind_some, hat] at hflight
      cases hflight
      obtain ⟨hkvpn, hcalls⟩ := vpnHandle_packet (s := s) hdelivers.receives.ok
      rw [vpnNetStep, harrival]
      exact ⟨hdelivers, ⟨n, hget, hnext⟩, by rw [← hkvpn], by rw [← hcalls]⟩
  | connectRHost i => cases harrival
  | askInfo i peer => cases harrival
  | send i peer cmd data => cases harrival
  | connectCque n => cases harrival

section
variable {d : NetPacket ι} {out : List (WrittenFrame ι)} (h : FrameArrives net s d j s' out)
include h

theorem FrameArrives.heard (hsound : net.Sound) (i : ι) (mac : MacAddr) :
    Heard net s' i mac ↔ (i = j ∧ d.cmd = cmdVpn ∧ etherSource d.data = mac) ∨ Heard net s i mac := by
  unfold Heard
  rw [h.delivers.delivered, List.exists_mem_cons_iff]
  refine or_congr ?_ Iff.rfl
  constructor
  · rintro ⟨⟨haddr, hport⟩, hcmd, hmac⟩
    refine ⟨eq_of_place hsound ?_ ?_, hcmd, hmac⟩
    · rw [← haddr, h.delivers.between.2.1]
    · rw [← hport, h.delivers.between.2.2]
  · rintro ⟨rfl, hcmd, hmac⟩
    exact ⟨h.delivers.between.2, hcmd, hmac⟩

theorem FrameArrives.mem_flight {d' : NetPacket ι} (hd' : d' ∈ s'.flight) :
    d' ∈ s.flight ∨ d'.cmd ≠ cmdVpn := by
  obtain ⟨n, -, hnext⟩ := h.flight
  rw [hnext] at hd'
  exact (List.mem_append.mp hd').imp List.mem_of_mem_eraseIdx
    ((onlyMeeting_receive net j _ d).packets)

theorem FrameArrives.started (i : ι) : s'.started i = s.started i := by
  unfold VpnNetState.started
  rw [h.kvpn]
  by_cases hij : i = j
  · subst hij
    rw [Function.update_self]
    split_ifs
    · cases hk : s.kvpn i with
      | none => rfl
      | some k =>
        cases hstarted : k.ksnetVpnStarted with
        | true =>
          rw [cmdVpnCb_of_started hstarted]
          rfl
        | false =>
          rw [cmdVpnCb_of_stopped hstarted]
    · rfl
  · rw [Function.update_of_ne hij]

/-- What is no frame for the host tells it of no address. -/
theorem FrameArrives.heard_of_not (hsound : net.Sound) (hnot : ¬(i = j ∧ d.cmd = cmdVpn))
    (mac : MacAddr) : Heard net s' i mac ↔ Heard net s i mac := by
  rw [h.heard hsound, or_iff_right fun hnew => hnot ⟨hnew.1, hnew.2.1⟩]

/-- The map with the address of the frame has the addresses that the receiver has heard of. -/
theorem FrameArrives.map_addNew (hsound : net.Sound) (hinv : VpnNetInv net home s)
    (hcmd : d.cmd = cmdVpn) {k : KsnVpnClass} (hk : s.kvpn j = some k)
    (hstarted : k.ksnetVpnStarted = true) (mac : MacAddr) :
    (k.ksnetVpnMap.addNew (etherSource d.data) (net.name d.source)).get mac =
      if Heard net s' j mac then some (net.name (home mac)) else none := by
  rw [FinMap.get_addNew, hinv.map j k hk hstarted]
  by_cases hheard : Heard net s j mac
  · rw [if_pos hheard, if_pos ((h.heard hsound j mac).mpr (.inr hheard)), Option.some_or]
  · rw [if_neg hheard, Option.none_or]
    by_cases hmac : mac = etherSource d.data
    · rw [if_pos hmac, if_pos ((h.heard hsound j mac).mpr (.inl ⟨rfl, hcmd, hmac.symm⟩)), hmac,
        (hinv.flight d h.delivers.mem hcmd).2]
    · rw [if_neg hmac, if_neg]
      intro hheard'
      rcases (h.heard hsound j mac).mp hheard' with ⟨-, -, heq⟩ | hold
      · exact hmac heq.symm
      · exact hheard hold

/-- **A packet arrives**: the state keeps its invariant. -/
theorem FrameArrives.inv (hsound : net.Sound) (hinv : VpnNetInv net home s) :
    VpnNetInv net home s' where
  peers := hinv.peers.deliver hsound h.delivers
  flight d' hd' hcmd := by
    rcases h.mem_flight hd' with hd' | hne
    · exact hinv.flight d' hd' hcmd
    · exact absurd hcmd hne
  known d' hd' hcmd l hl := by
    rcases h.mem_flight hd' with hd' | hne
    · exact h.delivers.knows hsound (hinv.known d' hd' hcmd l hl)
    · exact absurd hcmd hne
  heard i mac hheard := by
    rcases (h.heard hsound i mac).mp hheard with ⟨rfl, hcmd, rfl⟩ | hheard
    · rw [(hinv.flight d h.delivers.mem hcmd).2]
      exact ⟨h.delivers.receives.other, h.delivers.knows_source hsound⟩
    · obtain ⟨hne, hknows⟩ := hinv.heard i mac hheard
      exact ⟨hne, h.delivers.knows hsound hknows⟩
  map i k hk hstarted mac := by
    rw [h.kvpn] at hk
    by_cases hij : i = j
    · subst hij
      rw [Function.update_self] at hk
      split_ifs at hk with hcmd
      · obtain ⟨k', hk', hstarted', rfl⟩ := eq_of_cmdVpnCb hk hstarted
        rw [List.append_nil]
        exact h.map_addNew hsound hinv hcmd hk' hstarted' mac
      · rw [hinv.map i k hk hstarted]
        exact if_congr (h.heard_of_not hsound (fun hnew => hcmd hnew.2) mac).symm rfl rfl
    · rw [Function.update_of_ne hij] at hk
      rw [hinv.map i k hk hstarted]
      exact if_congr (h.heard_of_not hsound (fun hnew => hij hnew.1) mac).symm rfl rfl

/-- The frame that arrives is written, and the others are still on the way. -/
theorem FrameArrives.balance (hsound : net.Sound) {l : ι} (hstarted : s.started l = true) :
    (writtenFrames i l out ++ framesAmong net i l s'.flight).Perm
      (framesAmong net i l s.flight) := by
  obtain ⟨n, hget, hnext⟩ := h.flight
  obtain ⟨hlt, hd⟩ := List.getElem?_eq_some_iff.mp hget
  have hnew : framesAmong net i l (net.replies j (s.hosts j) d) = [] :=
    framesAmong_of_not_vpn fun d' hd' => (onlyMeeting_receive net j _ d).packets hd'
  have hperm : (framesAmong net i l (d :: s.flight.eraseIdx n)).Perm
      (framesAmong net i l s.flight) := by
    have hall := List.getElem_cons_eraseIdx_perm hlt
    rw [hd] at hall
    exact (hall.filter _).map _
  rw [hnext, framesAmong_append, hnew, List.append_nil]
  refine List.Perm.trans ?_ hperm
  rw [← List.singleton_append, framesAmong_append, h.out]
  apply List.Perm.of_eq
  congr 1
  have hhere : (d.addr = net.addr l ∧ d.port = net.port l) ↔ l = j := by
    rw [h.delivers.between.2.1, h.delivers.between.2.2]
    exact ⟨fun ⟨haddr, hport⟩ => (eq_of_place hsound haddr hport).symm,
      fun heq => by rw [heq]; exact ⟨rfl, rfl⟩⟩
  rw [framesAmong, List.filter_singleton]
  by_cases hcmd : d.cmd = cmdVpn
  · rw [if_pos hcmd]
    by_cases hlj : l = j
    · subst hlj
      obtain ⟨k, hk, hk'⟩ := Option.any_eq_true _ _ |>.mp hstarted
      rw [hk, cmdVpnCb_of_started hk']
      by_cases hsource : d.source = i
      · simp [writtenFrames, VpnCall.written, hcmd, hsource, hhere]
      · simp [writtenFrames, VpnCall.written, hcmd, hsource]
    · have hnone : writtenFrames i l ((cmdVpnCb (s.kvpn j) (net.name d.source) d.data []).2.filterMap
          (VpnCall.written j d.source)) = [] := by
        rw [writtenFrames, List.map_eq_nil_iff, List.filter_eq_nil_iff]
        intro w hw hwritten
        obtain ⟨call, -, hcall⟩ := List.mem_filterMap.mp hw
        cases call with
        | sendto peer addr port data => cases hcall
        | write data =>
          obtain rfl := Option.some.inj hcall
          exact hlj (of_decide_eq_true hwritten).1.symm
      rw [hnone]
      simp [hhere, hlj]
  · rw [if_neg hcmd]
    simp [writtenFrames, hcmd]

end

/-! ### Runs -/

/-- **One event** keeps the invariant and the balance of frames. -/
theorem vpnNetStep_spec (hsound : net.Sound) (hinv : VpnNetInv net home s) {e : VpnNetEvent ι}
    (hfair : e.Fair net home) :
    VpnNetInv net home (vpnNetStep net s e).1 ∧
      (∀ l, (vpnNetStep net s e).1.started l = s.started l) ∧
      ∀ i l, l ≠ i → s.started l = true →
        (writtenFrames i l (vpnNetStep net s e).2 ++
          framesAmong net i l (vpnNetStep net s e).1.flight).Perm
        (framesAmong net i l s.flight ++ frameFor net home i l s e) := by
  cases e with
  | tuntap k rand read =>
    obtain ⟨new, hgoes, hinv', hfor⟩ := hinv.tuntap hsound hfair
    refine ⟨hinv', fun l => ?_, fun i l hil _ => ?_⟩
    · unfold VpnNetState.started
      rw [hgoes.kvpn]
    · rw [hgoes.frames, hfor i l hil]
      exact List.Perm.refl _
  | peers e =>
    cases harrival : net.arrival s.toPeersNetState e with
    | none =>
      obtain ⟨new, hgoes, hnew⟩ := peersNetStep_goesOn hinv hsound hfair.2 harrival
      have hstep : vpnNetStep net s (.peers e) =
          (⟨peersNetStep net s.toPeersNetState e, s.kvpn⟩, []) := by
        rw [vpnNetStep, harrival]
      rw [hstep]
      refine ⟨hgoes.inv hinv (hinv.peers.step hsound hfair.1) fun d hd hcmd => absurd hcmd (hnew d hd),
        fun l => rfl, fun i l _ _ => ?_⟩
      rw [hgoes.frames, framesAmong_of_not_vpn hnew]
      exact List.Perm.refl _
    | some p =>
      have h := frameArrives hinv.peers hsound (j := p.1) (d := p.2) harrival
      refine ⟨h.inv hsound hinv, h.started, fun i l _ hstarted => ?_⟩
      have hfor : frameFor net home i l s (.peers e) = [] := rfl
      rw [hfor, List.append_nil]
      exact h.balance hsound hstarted

omit [DecidableEq ι] in
theorem vpnNetInv_start (hsound : net.Sound) (hstart : VpnNetStart net s) :
    VpnNetInv net home s := by
  have hheard : ∀ i mac, ¬Heard net s i mac := by
    rintro i mac ⟨d, hd, -⟩
    rw [hstart.peers.delivered] at hd
    exact absurd hd List.not_mem_nil
  exact
    { peers := (netInv_start hstart.peers hsound).toNetSafe
      flight := fun d hd => by
        rw [hstart.peers.flight] at hd
        exact absurd hd List.not_mem_nil
      known := fun d hd => by
        rw [hstart.peers.flight] at hd
        exact absurd hd List.not_mem_nil
      heard := fun i mac h => absurd h (hheard i mac)
      map := fun i k hk _ mac => by
        rw [hstart.map i k hk, FinMap.get_empty, if_neg (hheard i mac)] }

/-- What holds after a run. -/
theorem vpnNet_run (hsound : net.Sound) (hinv : VpnNetInv net home s) (es : List (VpnNetEvent ι))
    (hfair : ∀ e ∈ es, e.Fair net home) :
    VpnNetInv net home (es.foldl (fun s e => (vpnNetStep net s e).1) s) := by
  induction es generalizing s with
  | nil => exact hinv
  | cons e es ih =>
    exact ih (vpnNetStep_spec hsound hinv (hfair e List.mem_cons_self)).1
      fun e' he' => hfair e' (List.mem_cons_of_mem e he')

theorem framesFor_mem {es : List (VpnNetEvent ι)} {data : List UInt8}
    (h : data ∈ framesFor net home i j s es) (hfair : ∀ e ∈ es, e.Fair net home) :
    home (etherSource data) = i ∧ (macIsBroadcast (etherDestination data) ∨
      home (etherDestination data) = j) := by
  induction es generalizing s with
  | nil => exact absurd h List.not_mem_nil
  | cons e es ih =>
    rcases List.mem_append.mp h with hmem | hmem
    · have hread := hfair e List.mem_cons_self
      cases e with
      | peers e => exact absurd hmem List.not_mem_nil
      | tuntap k rand read =>
        cases read with
        | failed => exact absurd hmem List.not_mem_nil
        | frame frame after =>
          unfold frameFor at hmem
          dsimp only at hmem
          split_ifs at hmem with hfor
          · obtain rfl := List.mem_singleton.mp hmem
            obtain ⟨rfl, -, -, hto⟩ := hfor
            exact ⟨hread.2, hto.imp id And.left⟩
          · exact absurd hmem List.not_mem_nil
    · exact ih hmem fun e' he' => hfair e' (List.mem_cons_of_mem e he')

end

/-! ### Two hosts with an interface, and their r-host -/

/-- The addresses whose last byte is `1` are at host 1, the others at host 2. -/
def threeHome (mac : MacAddr) : Fin 3 :=
  if mac.toList.getLast? = some 1 then (Fin.last 1).castSucc else Fin.last 2

/-- The hosts of `threeStarted`; all but the r-host have an interface. -/
def threeVpn : VpnNetState (Fin 3) where
  toPeersNetState := threeStarted
  kvpn i := if i.val = 0 then none else some { ksnetVpnStarted := true }

/-- A frame for all, from address 1. -/
def whoHas : List UInt8 := List.replicate 6 0xff ++ List.replicate 5 2 ++ [1]

/-- The hosts find each other; host 1 reads a broadcast, and host 2 its answer. -/
def vpnRun : List (VpnNetEvent (Fin 3)) :=
  threeRun.map .peers ++ [.tuntap (Fin.last 1).castSucc 0 (.frame whoHas []), .peers (.deliver 0),
    .peers (.deliver 0), .tuntap (Fin.last 2) 0 (.frame (plainFrame 1 3) []), .peers (.deliver 0)]

theorem threeVpn_start : VpnNetStart threeHosts threeVpn where
  peers := threeHosts_start
  map i k hk := by
    unfold threeVpn at hk
    dsimp only at hk
    split_ifs at hk
    obtain rfl := Option.some.inj hk
    rfl

theorem vpnRun_fair : ∀ e ∈ vpnRun, e.Fair threeHosts threeHome := by
  have hdeliver : ∀ n, (VpnNetEvent.peers (.deliver n)).Fair threeHosts threeHome :=
    fun n => ⟨trivial, fun i peer cmd data h => by cases h⟩
  intro e he
  rcases List.mem_append.mp he with he | he
  · obtain ⟨e', he', rfl⟩ := List.mem_map.mp he
    refine ⟨threeRun_fair e' he', fun i peer cmd data h => ?_⟩
    subst h
    rcases List.mem_append.mp he' with he' | he'
    · rcases List.mem_append.mp he' with he' | he'
      · simp at he'
      · exact absurd (List.eq_of_mem_replicate he') (by simp)
    · exact absurd (List.eq_of_mem_replicate he') (by simp)
  · simp only [List.mem_cons, List.not_mem_nil, or_false] at he
    rcases he with rfl | rfl | rfl | rfl | rfl
    · exact ⟨by decide, by decide⟩
    · exact hdeliver 0
    · exact hdeliver 0
    · exact ⟨by decide, by decide⟩
    · exact hdeliver 0

/-- The broadcast reaches host 2, and the answer host 1. -/
example :
    writtenFrames 1 2 (outputs (vpnNetStep threeHosts) threeVpn vpnRun) = [whoHas] ∧
      writtenFrames 2 1 (outputs (vpnNetStep threeHosts) threeVpn vpnRun) = [plainFrame 1 3] := by
  decide +kernel

end Teonet
