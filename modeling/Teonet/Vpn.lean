import Teonet.Lib.FinMap
import Teonet.PeersTable
import Mathlib.Data.List.Infix

/-! # The VPN interface

`modules/vpn.c`: the frames of `CMD_VPN` packets are written to the local interface and the frames
read from it are sent to peers.  `ksnet_vpn_map` says behind which peer an address is:
`cmd_vpn_cb` adds the source address of a received frame when the map does not have it, and
`tuntap_io_cb` looks the destination up.

So the peer from which the first frame of an address came keeps the address (`get_learned`), and
`sent_of_run` says what becomes of a frame that is read after any run: a frame for a known address
is sent to that peer, and a broadcast to every peer of the table once. -/

namespace Teonet

open Runs

/-! ### Addresses and frames -/

/-- `mac_addr`. -/
abbrev MacAddr : Type := Vector UInt8 6

/-- The `mac_addr` at an offset. -/
def macAt (mem : List UInt8) (offset : ℕ) : MacAddr :=
  Vector.ofFn fun i => mem.getD (offset + i) 0

/-- `ether_head`: the addresses at the start of a frame; `mem` is what lies in memory there, which is
more than the frame when the frame is short. -/
def etherDestination (mem : List UInt8) : MacAddr := macAt mem 0
def etherSource (mem : List UInt8) : MacAddr := macAt mem 6

/-- `mac_is_broadcast`. -/
def macIsBroadcast (mac : MacAddr) : Prop := ∀ b ∈ mac.toList, b = 0xff

instance (mac : MacAddr) : Decidable (macIsBroadcast mac) :=
  inferInstanceAs (Decidable (∀ b ∈ mac.toList, b = 0xff))

/-! ### Sending -/

/-- The calls the functions make. -/
inductive VpnCall
  /-- `ksnCoreSendto` with `CMD_VPN` and the address in a peer's record -/
  | sendto (peer addr : CString) (port : ℕ) (data : List UInt8)
  /-- `write` to the interface -/
  | write (data : List UInt8)
deriving DecidableEq

/-- `send_by_type_check_cb`: the type of the peer contains the name. -/
def sendByTypeCheckCb (name : CString) (a : ArpData) : Bool :=
  match a.type with
  | some type => decide (name.bytes <:+: type.bytes)
  | none => false

/-- The peers that `ksnCoreSendCmdto` chooses from when there is no peer of the name. -/
def peersOfType (arp : KsnetArpClass) (name : CString) : List (CString × ArpData) :=
  (ksnetArpGetAll arp).filter fun p => sendByTypeCheckCb name p.2

/-- `send_to_peer`, which is `ksnCoreSendCmdto` with `CMD_VPN`: the peer of the name, else one of the
type, drawn by `rand`.  (`ksnMultiSendCmdTo`, which is asked last, never sends.) -/
def sendToPeer (arp : KsnetArpClass) (rand : ℕ) (name : CString) (data : List UInt8) :
    List VpnCall :=
  match arp.get name with
  | some a => [.sendto name a.addr a.port data]
  | none =>
    match (peersOfType arp name)[rand % (peersOfType arp name).length]? with
    | some p => [.sendto p.1 p.2.addr p.2.port data]
    | none => []

/-- `send_to_all` with `send_to_one_cb`. -/
def sendToAll (arp : KsnetArpClass) (rand : ℕ) (data : List UInt8) : List VpnCall :=
  (ksnetArpGetAll arp).flatMap fun p => sendToPeer arp rand p.1 data

/-! ### The module -/

/-- `ksnVpnClass`. -/
structure KsnVpnClass where
  ksnetVpnStarted : Bool
  ksnetVpnMap : FinMap MacAddr CString := FinMap.empty

/-- `map_find_by_mac`. -/
def mapFindByMac (kvpn : KsnVpnClass) (mac : MacAddr) : Option CString := kvpn.ksnetVpnMap.get mac

/-- `cmd_vpn_cb`; `kvpn` is `none` for a null pointer. -/
def cmdVpnCb (kvpn : Option KsnVpnClass) (fromName : CString) (data after : List UInt8) :
    Option KsnVpnClass × List VpnCall :=
  match kvpn with
  | none => (none, [])
  | some k =>
    if k.ksnetVpnStarted then
      let source := etherSource (data ++ after)
      match mapFindByMac k source with
      | none => (some { k with ksnetVpnMap := k.ksnetVpnMap.add source fromName }, [.write data])
      | some _ => (some k, [.write data])
    else (some k, [])

/-- What `read` gives `tuntap_io_cb`: an error, or a frame at the start of a buffer. -/
inductive TapRead
  | failed
  | frame (data after : List UInt8)
deriving DecidableEq

/-- `tuntap_io_cb`. -/
def tuntapIoCb (arp : KsnetArpClass) (k : KsnVpnClass) (rand : ℕ) : TapRead → List VpnCall
  | .failed => []
  | .frame data after =>
    let destination := etherDestination (data ++ after)
    if macIsBroadcast destination then sendToAll arp rand data
    else match mapFindByMac k destination with
      | some name => sendToPeer arp rand name data
      | none => []

/-! ### Runs -/

/-- A host with the module. -/
structure VpnHost where
  peers : Peers
  kvpn : Option KsnVpnClass

/-- What happens to the host; a frame can be read from the interface when it has been started. -/
inductive VpnEvent
  | peers (e : PeersEvent)
  | tuntap (rand : ℕ) (read : TapRead)

/-- The `CMD_VPN` packet that an event brings, if it does: the sender's name, the frame, and what
lies behind it. -/
def vpnFrame : PeersEvent → Option (CString × List UInt8 × List UInt8)
  | .packet rd combined =>
    match dispatched rd combined with
    | some d => if d.cmd = cmdVpn then some (d.fromName, d.data, d.after) else none
    | none => none
  | _ => none

/-- The function that an event is given to. -/
def vpnHandle (env : PeersEnv) (s : VpnHost) : VpnEvent → VpnHost × List VpnCall
  | .peers e =>
    let done := match vpnFrame e with
      | some (fromName, data, after) => cmdVpnCb s.kvpn fromName data after
      | none => (s.kvpn, [])
    ({ peers := (peersHandle env s.peers e).1, kvpn := done.1 }, done.2)
  | .tuntap rand read =>
    match s.kvpn with
    | some k => (s, if k.ksnetVpnStarted then tuntapIoCb s.peers.arp k rand read else [])
    | none => (s, [])

/-- One step. -/
def VpnStep (env : PeersEnv) (s : VpnHost) (e : VpnEvent) (s' : VpnHost) : Prop :=
  s' = (vpnHandle env s e).1

/-- A host that has just started, with its VPN interface. -/
structure VpnStart (env : PeersEnv) (s : VpnHost) : Prop where
  peers : PeersStart env s.peers
  started : s.kvpn = some { ksnetVpnStarted := true }

/-- The source address of the `CMD_VPN` frame that an event brings, and the peer it came from. -/
def receivedSource : VpnEvent → Option (MacAddr × CString)
  | .peers e => (vpnFrame e).map fun p => (etherSource (p.2.1 ++ p.2.2), p.1)
  | .tuntap _ _ => none

/-- The source addresses of the frames of a run and the peers they came from, in order. -/
def receivedSources (es : List VpnEvent) : List (MacAddr × CString) :=
  es.filterMap receivedSource

/-- The peer from which the first frame with this source address was received. -/
def firstFrom (es : List VpnEvent) (mac : MacAddr) : Option CString :=
  ((receivedSources es).find? fun p => p.1 = mac).map Prod.snd

/-- The peer from which the most recent frame with this source address was received. -/
def lastFrom (es : List VpnEvent) (mac : MacAddr) : Option CString :=
  ((receivedSources es).reverse.find? fun p => p.1 = mac).map Prod.snd

/-! ### What is sent -/

/-- A frame for the peer `name`: it goes to the record of the name; where there is none, to a peer
whose type contains the name, or to nobody if there is none. -/
inductive SentTo (arp : KsnetArpClass) (name : CString) (data : List UInt8) :
    List VpnCall → Prop
  | record (a : ArpData) (hget : arp.get name = some a) :
      SentTo arp name data [.sendto name a.addr a.port data]
  | type (n : CString) (a : ArpData) (hnone : arp.get name = none) (hget : arp.get n = some a)
      (hmode : 0 ≤ a.mode) (htype : sendByTypeCheckCb name a = true) :
      SentTo arp name data [.sendto n a.addr a.port data]
  | nobody (hnone : arp.get name = none)
      (htype : ∀ n a, arp.get n = some a → 0 ≤ a.mode → sendByTypeCheckCb name a = false) :
      SentTo arp name data []

/-- A broadcast frame: one call for each peer of the table other than this host, whose own record
has the mode `-1`. -/
structure SentToAll (hostName : CString) (arp : KsnetArpClass) (data : List UInt8)
    (calls : List VpnCall) : Prop where
  once : calls.Nodup
  peers : ∀ c, c ∈ calls ↔ ∃ n a, arp.get n = some a ∧ ¬(n = hostName ∧ a.mode = -1) ∧
    c = .sendto n a.addr a.port data

variable {env : PeersEnv} {s s' : VpnHost} {arp : KsnetArpClass} {hostName name n : CString}
  {rand : ℕ} {data after : List UInt8} {a : ArpData}

theorem mem_ksnetArpGetAll : (n, a) ∈ ksnetArpGetAll arp ↔ arp.get n = some a ∧ 0 ≤ a.mode := by
  rw [ksnetArpGetAll, List.mem_filter, FinMap.mem_toPairs, decide_eq_true_iff]

theorem mem_peersOfType :
    (n, a) ∈ peersOfType arp name ↔
      (arp.get n = some a ∧ 0 ≤ a.mode) ∧ sendByTypeCheckCb name a = true := by
  rw [peersOfType, List.mem_filter, mem_ksnetArpGetAll]

theorem sendToPeer_of_get (h : arp.get name = some a) :
    sendToPeer arp rand name data = [.sendto name a.addr a.port data] := by
  rw [sendToPeer, h]

theorem sentTo_sendToPeer (arp : KsnetArpClass) (rand : ℕ) (name : CString) (data : List UInt8) :
    SentTo arp name data (sendToPeer arp rand name data) := by
  cases hget : arp.get name with
  | some a =>
    rw [sendToPeer_of_get hget]
    exact .record a hget
  | none =>
    rw [sendToPeer, hget]
    dsimp only
    cases hp : (peersOfType arp name)[rand % (peersOfType arp name).length]? with
    | some p =>
      obtain ⟨⟨hpget, hmode⟩, htype⟩ := mem_peersOfType.mp (List.mem_of_getElem? hp)
      exact .type p.1 p.2 hget hpget hmode htype
    | none =>
      have hlen : (peersOfType arp name).length = 0 := by
        by_contra hne
        exact absurd (List.getElem?_eq_none_iff.mp hp)
          (not_le.mpr (Nat.mod_lt rand (Nat.pos_of_ne_zero hne)))
      refine .nobody hget fun n a hn hmode => ?_
      by_contra htype
      have hmem := mem_peersOfType.mpr ⟨⟨hn, hmode⟩, Bool.eq_true_of_not_eq_false htype⟩
      rw [List.length_eq_zero_iff.mp hlen] at hmem
      cases hmem

/-- Every peer that `send_to_all` meets is in the table, so it is sent to under its own name. -/
theorem sendToAll_eq_map (arp : KsnetArpClass) (rand : ℕ) (data : List UInt8) :
    sendToAll arp rand data =
      (ksnetArpGetAll arp).map fun p => .sendto p.1 p.2.addr p.2.port data := by
  rw [sendToAll, ← List.flatMap_pure_eq_map]
  apply List.flatMap_congr
  rintro ⟨n, a⟩ hp
  exact sendToPeer_of_get (mem_ksnetArpGetAll.mp hp).1

theorem nodup_ksnetArpGetAll (arp : KsnetArpClass) :
    ((ksnetArpGetAll arp).map Prod.fst).Nodup :=
  (FinMap.nodup_toPairs arp).sublist (List.filter_sublist.map Prod.fst)

/-- Only this host's record has a negative mode. -/
def OwnMode (hostName : CString) (arp : KsnetArpClass) : Prop :=
  ∀ n a, arp.get n = some a → a.mode < 0 → n = hostName ∧ a.mode = -1

theorem sentToAll_sendToAll (h : OwnMode hostName arp) (rand : ℕ) (data : List UInt8) :
    SentToAll hostName arp data (sendToAll arp rand data) := by
  rw [sendToAll_eq_map]
  refine ⟨?_, fun c => ?_⟩
  · have hnames := nodup_ksnetArpGetAll arp
    refine List.Nodup.of_map (fun c => match c with | .sendto n _ _ _ => n | .write _ => CString.empty) ?_
    rw [List.map_map]
    exact hnames
  · rw [List.mem_map]
    constructor
    · rintro ⟨⟨n, a⟩, hp, rfl⟩
      obtain ⟨hget, hmode⟩ := mem_ksnetArpGetAll.mp hp
      exact ⟨n, a, hget, fun hown => by omega, rfl⟩
    · rintro ⟨n, a, hget, hother, rfl⟩
      refine ⟨(n, a), mem_ksnetArpGetAll.mpr ⟨hget, ?_⟩, rfl⟩
      by_contra hneg
      exact hother (h n a hget (not_le.mp hneg))

/-! ### What is learned -/

/-- What a received frame does to the map. -/
theorem cmdVpnCb_started {map : FinMap MacAddr CString} {fromName : CString} :
    (cmdVpnCb (some ⟨true, map⟩) fromName data after).1 =
      some ⟨true, map.addNew (etherSource (data ++ after)) fromName⟩ := by
  unfold cmdVpnCb mapFindByMac FinMap.addNew
  dsimp only
  rw [if_pos rfl]
  cases map.get (etherSource (data ++ after)) with
  | none => rfl
  | some _ => rfl

/-- The map after the frames of a run. -/
def learned (es : List VpnEvent) : FinMap MacAddr CString :=
  (receivedSources es).foldl (fun m p => m.addNew p.1 p.2) FinMap.empty

theorem get_learned (es : List VpnEvent) (mac : MacAddr) :
    (learned es).get mac = firstFrom es mac := by
  rw [learned, FinMap.get_foldl_addNew, FinMap.get_empty, Option.none_or, firstFrom]

theorem learned_concat (past : List VpnEvent) (e : VpnEvent) :
    learned (past ++ [e]) = match receivedSource e with
      | some p => (learned past).addNew p.1 p.2
      | none => learned past := by
  rw [learned, receivedSources, List.filterMap_append, List.foldl_append]
  cases h : receivedSource e with
  | none => rw [List.filterMap_cons_none h]; rfl
  | some p => rw [List.filterMap_cons_some h]; rfl

/-- What holds after the events `past`. -/
structure VpnInv (past : List VpnEvent) (s : VpnHost) : Prop where
  map : s.kvpn = some ⟨true, learned past⟩
  own : OwnMode s.peers.hostName s.peers.arp

theorem VpnStart.inv (h : VpnStart env s) : VpnInv [] s := by
  refine ⟨h.started, fun n a hget hneg => ?_⟩
  rw [h.peers.onlyHost, ksnetArpAddHost_get] at hget
  split_ifs at hget with hname
  obtain rfl := Option.some.inj hget
  exact ⟨hname, rfl⟩

/-- **Step lemma**. -/
theorem VpnInv.step {past : List VpnEvent} {e : VpnEvent} (h : VpnInv past s)
    (hstep : VpnStep env s e s') : VpnInv (past ++ [e]) s' := by
  rw [hstep]
  cases e with
  | tuntap rand read =>
    have hsame : (vpnHandle env s (.tuntap rand read)).1 = s := by
      rw [vpnHandle, h.map]
    rw [hsame]
    exact ⟨(learned_concat past _).symm ▸ h.map, h.own⟩
  | peers e =>
    refine ⟨?_, fun n a hget hneg => ?_⟩
    · rw [learned_concat, receivedSource, vpnHandle]
      cases vpnFrame e with
      | none => exact h.map
      | some p =>
        dsimp only
        rw [h.map]
        exact cmdVpnCb_started
    · change (peersHandle env s.peers e).1.arp.get n = some a at hget
      change n = (peersHandle env s.peers e).1.hostName ∧ a.mode = -1
      rw [peersHandle_hostName]
      cases peersHandle_mode hget with
      | set hset => omega
      | kept a' hget' hmode => exact hmode ▸ h.own n a' hget' (hmode ▸ hneg)
      | own hname hmode => exact ⟨hname, hmode⟩

/-- **Main result.**  After any run, a broadcast frame that is read from the interface is sent to
every peer other than this host once; another frame is sent to the peer from which the first frame
with its destination as source was received, and to nobody when there was none. -/
theorem sent_of_run {es : List VpnEvent} (hstart : VpnStart env s)
    (h : Run (VpnStep env) s es s') (rand : ℕ) (data after : List UInt8) :
    (macIsBroadcast (etherDestination (data ++ after)) →
      SentToAll s'.peers.hostName s'.peers.arp data
        (vpnHandle env s' (.tuntap rand (.frame data after))).2) ∧
    (¬macIsBroadcast (etherDestination (data ++ after)) →
      (firstFrom es (etherDestination (data ++ after)) = none →
        (vpnHandle env s' (.tuntap rand (.frame data after))).2 = []) ∧
      ∀ name, firstFrom es (etherDestination (data ++ after)) = some name →
        SentTo s'.peers.arp name data
          (vpnHandle env s' (.tuntap rand (.frame data after))).2) := by
  have hinv : VpnInv es s' :=
    h.history VpnInv (fun _ _ _ _ hi hstep => hi.step hstep) [] hstart.inv
  have hcalls : (vpnHandle env s' (.tuntap rand (.frame data after))).2 =
      tuntapIoCb s'.peers.arp ⟨true, learned es⟩ rand (.frame data after) := by
    rw [vpnHandle, hinv.map]
    rfl
  rw [hcalls, tuntapIoCb, mapFindByMac, get_learned]
  refine ⟨fun hbroadcast => ?_, fun hunicast => ⟨fun hnone => ?_, fun name hfirst => ?_⟩⟩
  · rw [if_pos hbroadcast]
    exact sentToAll_sendToAll hinv.own rand data
  · rw [if_neg hunicast, hnone]
  · rw [if_neg hunicast, hfirst]
    exact sentTo_sendToPeer _ rand name data

/-! ### A host and two peers -/

/-- The host of `newHost` with a VPN interface. -/
def newVpnHost : VpnHost where
  peers := newHost
  kvpn := some { ksnetVpnStarted := true }

theorem newVpnHost_start : VpnStart plainEnv newVpnHost := ⟨newHost_start, rfl⟩

/-- A frame from address `source` to address `destination`; the other bytes of both are `2`. -/
def plainFrame (destination source : UInt8) : List UInt8 :=
  List.replicate 5 2 ++ destination :: List.replicate 5 2 ++ [source]

/-- A frame that the peer `p` sends. -/
def framePacket (frame : List UInt8) : VpnEvent := .peers (.packet (peerPacket cmdVpn frame) [])

/-- A frame that the peer `q` sends. -/
def otherFramePacket (frame : List UInt8) : VpnEvent :=
  .peers (.packet { peerPacket cmdVpn frame with fromName := CString.ofBuf [113] } [])

/-- The peer `p` sends a frame from address 1, and a frame for address 1 is read. -/
theorem sent_of_run_frame :
    SentTo (vpnHandle plainEnv newVpnHost (framePacket (plainFrame 3 1))).1.peers.arp
      ⟨[112], by decide⟩ (plainFrame 1 3)
      (vpnHandle plainEnv (vpnHandle plainEnv newVpnHost (framePacket (plainFrame 3 1))).1
        (.tuntap 0 (.frame (plainFrame 1 3) []))).2 :=
  ((sent_of_run newVpnHost_start (Run.single rfl) 0 (plainFrame 1 3) []).2 (by decide)).2 _
    (by decide)

/-- The address 1 moves from the peer `p` to the peer `q`: frames for it still go to `p`. -/
theorem not_sent_to_last :
    ¬∀ (env : PeersEnv) (s s' : VpnHost) (es : List VpnEvent), VpnStart env s →
      Run (VpnStep env) s es s' → ∀ (rand : ℕ) (data after : List UInt8),
        ¬macIsBroadcast (etherDestination (data ++ after)) →
        ∀ (name : CString) (a : ArpData),
          lastFrom es (etherDestination (data ++ after)) = some name →
          s'.peers.arp.get name = some a →
          (vpnHandle env s' (.tuntap rand (.frame data after))).2 =
            [.sendto name a.addr a.port data] := by
  intro h
  have hcalls := h plainEnv newVpnHost _
    [framePacket (plainFrame 3 1), otherFramePacket (plainFrame 3 1)] newVpnHost_start
    (.cons rfl (.single rfl)) 0 (plainFrame 1 3) [] (by decide) (CString.ofBuf [113])
    { addr := ⟨[50], by decide⟩, port := 9002, mode := 0, type := none } (by decide) (by decide)
  exact absurd hcalls (by decide)

end Teonet
