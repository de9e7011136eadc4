import Teonet.L0Commands
import Teonet.L0Envelope
import Teonet.L0Sessions
import Teonet.Lib.Parties

/-! # Clients, L0 servers and peers

Any number of hosts, each of them an L0 server for its clients and a peer for the clients of the
others, over the links of `Lib/Parties`.  A client's packet goes from its connection to the peer
that it names in a `CMD_L0`; the peer executes the command (`cmd_l0_cb`) and answers, whenever it
likes, with `ksnLNullSendToL0`; the client's server passes the answer on (`cmd_l0_to_cb`).
Meanwhile clients connect, log in, displace each other, are kicked and time out.

`l0Net_delivers` is the result for every run: a peer executes the commands that the clients of a
server have sent to it, in order and each once, under the names that their connections had then;
and each answer that the server receives goes to the one connection that is logged in under the
client's name at that time, in order and once, and to no other. -/

namespace Teonet

open Bytes Parties Runs

variable {ι Ctx : Type}

/-! ### The hosts -/

/-- The hosts: what each L0 server takes from outside, the addresses, and the hosts that are reached
by a name and at an address.  `behind` lies behind a packet and the zero that ends it. -/
structure L0Net (ι Ctx : Type) where
  env : ι → L0Env Ctx
  addr : ι → CString
  port : ι → ℕ
  hostOf : CString → Option ι
  hostAt : CString → ℕ → Option ι
  behind : List UInt8

/-- The packets between the hosts: `CMD_L0` and `CMD_L0_TO`. -/
inductive L0Message
  | l0 (spacket : List UInt8)
  | l0To (spacket : List UInt8)

/-- What happens at a host: a callback of its L0 server, or its application answers a client with
`ksnLNullSendToL0`. -/
inductive L0NetHappens
  | server (e : L0Event)
  | sendToL0 (addr : CString) (port : ℕ) (cname : CString) (cmd : UInt8) (data : List UInt8)

/-- What a host does besides sending to others. -/
inductive L0NetOut (ι : Type)
  /-- a call of the L0 server -/
  | effect (e : L0Effect)
  /-- `cmd_l0_cb` calls `ksnCommandCheck` -/
  | executes (sender : ι) (rd : KsnCorePacketData)
  /-- `cmd_l0_to_cb` calls `ksnLNullPacketSend`, which makes the calls `sent` -/
  | toClient (sender : ι) (fd : ℤ) (pkg : List UInt8) (sent : List L0Effect)

/-- `ksnCoreSendCmdto` with `CMD_L0`. -/
def L0Effect.meshPacket : L0Effect → Option (CString × List UInt8)
  | .toPeer peer spacket => some (peer, spacket)
  | _ => none

/-- The packet that `cmd_l0_to_cb` makes for a client. -/
def l0ToPacket (env : L0Env Ctx) (rd : KsnCorePacketData) : List UInt8 :=
  let buf := rd.data ++ rd.after
  env.cli.packetCreate (buf.getD 0 0) rd.fromName
    ((buf.drop (4 + (buf.getD 1 0).toNat)).take (getLe16 (buf.drop 2)))

namespace L0Net

variable (net : L0Net ι Ctx)

/-- The name of a host. -/
def name (i : ι) : CString := (net.env i).hostName

/-- A packet from a host. -/
def packet (k : ι) (cmd : UInt8) (data : List UInt8) : KsnCorePacketData where
  addr := net.addr k
  port := net.port k
  fromName := net.name k
  fromLen := nameLen (net.name k)
  cmd := cmd
  data := data
  after := 0 :: net.behind

/-- The packets to the mesh that a callback of the L0 server makes. -/
def toPeers (es : List L0Effect) : List (ι × L0Message) :=
  (es.filterMap L0Effect.meshPacket).filterMap fun p => (net.hostOf p.1).map fun k => (k, .l0 p.2)

/-- What `cmd_l0_to_cb` does for a client that is connected. -/
def toClient (i k : ι) (kl : KsnLNullClass Ctx) (rd : KsnCorePacketData) : List (L0NetOut ι) :=
  let fd := ksnLNullClientIsConnected kl (l0ToName rd)
  if fd ≠ 0 then
    [.toClient k fd (l0ToPacket (net.env i) rd) (cmdL0ToCb (net.env i) kl rd).2]
  else []

/-- What a host does. -/
def handle : Handler ι (L0System Ctx) L0Message L0NetHappens (L0NetOut ι)
  | i, a, .happens (.server e) =>
    (l0After (net.env i) a e, net.toPeers (l0Handle (net.env i) a.kl e).2,
      (l0Handle (net.env i) a.kl e).2.map .effect)
  | _, a, .happens (.sendToL0 addr port cname cmd data) =>
    (a, ((net.hostAt addr port).map fun k => (k, .l0To (l0SPacket cmd cname data))).toList, [])
  | _, a, .receives k (.l0 spacket) =>
    (a, [], ((cmdL0Cb (net.packet k cmdL0 spacket)).map (.executes k)).toList)
  | i, a, .receives k (.l0To spacket) =>
    (l0After (net.env i) a (.dataTo (net.packet k cmdL0To spacket)), [],
      net.toClient i k a.kl (net.packet k cmdL0To spacket))

/-- Names and addresses reach the hosts that have them, and only these. -/
structure Sound : Prop where
  hostOf_name : ∀ i, net.hostOf (net.name i) = some i
  name_of_hostOf : ∀ n i, net.hostOf n = some i → n = net.name i
  hostAt_addr : ∀ i, net.hostAt (net.addr i) (net.port i) = some i
  addr_of_hostAt : ∀ a p i, net.hostAt a p = some i → a = net.addr i ∧ p = net.port i
  name_ne : ∀ i, net.name i ≠ .empty
  maxFd_pos : ∀ i, 0 < (net.env i).maxFdNumber

end L0Net

/-! ### Forwarded packets and answers -/

/-- A packet of a client for a peer, under the name of the client's connection. -/
structure L0Forward where
  peer : CString
  cmd : UInt8
  client : CString
  data : List UInt8

/-- What a decrypted packet is forwarded as. -/
def forwardOf (env : L0Env Ctx) (plain : List UInt8) (client : CString) : L0Forward where
  peer := TeoCli.packetPeerName plain
  cmd := (env.cli.packetHeader plain).cmd
  client := client
  data := (env.cli.packetPayload plain).take (env.cli.packetHeader plain).dataLength.toNat

/-- The packet that is forwarded in the callback of an event. -/
def forwarded (env : L0Env Ctx) (s : L0System Ctx) : L0Event → Option L0Forward
  | .tcpPacket _ _ fd buf =>
    match s.kl.map.get fd with
    | none => none
    | some kld =>
      if env.cli.checksumsMatch buf then
        match decrypted env.cli kld.serverCrypt buf with
        | none => none
        | some plain =>
          if isInitialize env.cli plain then none else kld.name.map (forwardOf env plain)
      else none
  | .trudpPacket _ _ fd _ _ buf =>
    match s.kl.map.get fd with
    | none => none
    | some kld =>
      match decrypted env.cli kld.serverCrypt buf with
      | none => none
      | some plain =>
        if (env.cli.packetHeader plain).cmd = 0 then none else kld.name.map (forwardOf env plain)
  | _ => none

/-- The connection that is logged in under a name. -/
def connectionOf (kl : KsnLNullClass Ctx) (n : CString) : Option ℤ :=
  (kl.map.toPairs.find? fun p => p.2.name = some n).map Prod.fst

/-- A client's command: the command, the client and the data; an answer to a client has them too. -/
abbrev L0Command : Type := UInt8 × CString × List UInt8

/-- What is read from an envelope. -/
def spacketCommand (spacket : List UInt8) : Option L0Command :=
  (l0SPacketDecode spacket).map fun d => (d.1, d.2.1, d.2.2.2)

/-- The commands among messages, -/
def l0Commands (ms : List L0Message) : List L0Command :=
  ms.filterMap fun
    | .l0 spacket => spacketCommand spacket
    | .l0To _ => none

/-- and the answers. -/
def l0Answers (ms : List L0Message) : List L0Command :=
  ms.filterMap fun
    | .l0 _ => none
    | .l0To spacket => spacketCommand spacket

namespace L0Net

variable [DecidableEq ι] (net : L0Net ι Ctx)

/-- The command that the client of an L0 server sends to a peer in an event. -/
def commandTo (i k : ι) (a : L0System Ctx) : Input ι L0Message L0NetHappens → List L0Command
  | .happens (.server e) => ((forwarded (net.env i) a e).toList.filter fun f =>
      f.peer = net.name k ∧ clientCommand f.cmd).map fun f => (f.cmd, f.client, f.data)
  | _ => []

/-- The commands that the clients of an L0 server send to a peer. -/
def commandsTo (i k : ι) : L0System Ctx → List (Input ι L0Message L0NetHappens) → List L0Command :=
  outputs fun a x => (alone net.handle i a x, net.commandTo i k a x)

/-- The commands that a peer executes for the clients of a server. -/
def executedFor (k : ι) (os : List (L0NetOut ι)) : List L0Command :=
  os.filterMap fun
    | .executes sender rd => if sender = k then some (rd.cmd, rd.fromName, rd.data) else none
    | _ => none

/-- The answers that a host gives to the clients of a server. -/
def answersTo (k : ι) (hs : List L0NetHappens) : List L0Command :=
  hs.filterMap fun
    | .sendToL0 addr port cname cmd data =>
      if addr = net.addr k ∧ port = net.port k then some (cmd, cname, data) else none
    | .server _ => none

/-- What is to be done with a packet of a peer: an answer goes to the connection that is logged in
under the client's name. -/
def passOn (i k : ι) (a : L0System Ctx) :
    Input ι L0Message L0NetHappens → List (ℤ × List UInt8 × List L0Effect)
  | .receives sender (.l0To spacket) =>
    if sender = k then
      match spacketCommand spacket with
      | none => []
      | some (cmd, client, data) =>
        let pkg := (net.env i).cli.packetCreate cmd (net.name k) data
        ((connectionOf a.kl client).map fun fd =>
          (fd, pkg, (ksnLNullPacketSend (net.env i) a.kl fd pkg).2)).toList
    else []
  | _ => []

/-- What is to be done with the packets of a peer. -/
def passesOn (i k : ι) : L0System Ctx → List (Input ι L0Message L0NetHappens) →
    List (ℤ × List UInt8 × List L0Effect) :=
  outputs fun a x => (alone net.handle i a x, net.passOn i k a x)

/-- What a server passes on to its clients for a peer. -/
def passedOn (k : ι) (os : List (L0NetOut ι)) : List (ℤ × List UInt8 × List L0Effect) :=
  os.filterMap fun
    | .toClient sender fd pkg sent => if sender = k then some (fd, pkg, sent) else none
    | _ => none

omit [DecidableEq ι] in
/-- What happens is possible, connections do not change their names, and clients have names that fit
into a packet, as answers do. -/
def Fair (i : ι) (a : L0System Ctx) : L0NetHappens → Prop
  | .server e => L0Enabled (net.env i) a e ∧ L0Guard (net.env i) a e ∧
    ∀ fd n, LogsInAs (net.env i) fd n a e → n.length + 1 ≤ 255
  | .sendToL0 _ _ cname _ data => cname.length + 1 ≤ 255 ∧ data.length ≤ 65535

omit [DecidableEq ι] in
/-- What holds of a host. -/
structure HostInv (i : ι) (a : L0System Ctx) : Prop where
  server : L0Inv (net.env i) a
  names : ∀ fd n, Named fd n a → n.length + 1 ≤ 255

end L0Net

/-- A packet between hosts is an envelope that is read as it was built. -/
def L0Message.Ok (_ _ : ι) (m : L0Message) : Prop :=
  ∃ cmd client data, client.length + 1 ≤ 255 ∧ data.length ≤ 65535 ∧
    (m = .l0 (l0SPacket cmd client data) ∨ m = .l0To (l0SPacket cmd client data))

variable {net : L0Net ι Ctx}

/-! ### Envelopes -/

theorem spacketCommand_l0SPacket (cmd : UInt8) {client : CString} {data : List UInt8}
    (hclient : client.length + 1 ≤ 255) (hdata : data.length ≤ 65535) :
    spacketCommand (l0SPacket cmd client data) = some (cmd, client, data) := by
  obtain ⟨nameLength, hdecode, -⟩ := (l0RoundTrip_iff cmd client hdata).mpr hclient
  rw [spacketCommand, hdecode]
  rfl

/-- A command is executed as it was sent. -/
theorem cmdL0Cb_l0SPacket (net : L0Net ι Ctx) (k : ι) (cmd : UInt8) {client : CString}
    {data : List UInt8} (hclient : client.length + 1 ≤ 255) (hdata : data.length ≤ 65535) :
    (cmdL0Cb (net.packet k cmdL0 (l0SPacket cmd client data))).map
        (fun rd => (rd.cmd, rd.fromName, rd.data)) =
      if clientCommand cmd then some (cmd, client, data) else none := by
  obtain ⟨nameLength, hdecode, -⟩ := (l0RoundTrip_iff cmd client hdata).mpr hclient
  have hcmd : (l0SPacket cmd client data).getD 0 0 = cmd := by
    rw [l0SPacket_eq, List.getD_cons_zero]
  have hafter : (net.packet k cmdL0 (l0SPacket cmd client data)).after = 0 :: net.behind := rfl
  have hrun := cmdL0Cb_eq hafter (cmdL0Data_of_decode hdecode)
  have hpacket : (net.packet k cmdL0 (l0SPacket cmd client data)).data.getD 0 0 = cmd := hcmd
  rw [hpacket] at hrun
  split_ifs at hrun ⊢ with hclientCommand
  · obtain ⟨rd, hrd, hout⟩ := Option.map_eq_some_iff.mp hrun
    obtain ⟨rfl, rfl, -, rfl⟩ : rd.cmd = cmd ∧ rd.fromName = client ∧ rd.fromLen = nameLength ∧
        rd.data = data := by simpa using hout
    rw [hrd]
    rfl
  · rw [Option.map_eq_none_iff] at hrun
    rw [hrun]
    rfl

/-! ### What a server forwards -/

variable {env : L0Env Ctx} {s : L0System Ctx} {e : L0Event}

/-- A packet that is forwarded, with the call that does it. -/
theorem forwarded_eq_some {f : L0Forward} (h : forwarded env s e = some f) :
    ∃ fd n plain, ForwardsAs env fd n s e ∧ f = forwardOf env plain n ∧
      (l0Handle env s.kl e).2 = (ksnLNullSendFromL0 env s.kl plain n).2 := by
  cases e with
  | tcpPacket now subscribed fd buf =>
    simp only [forwarded] at h
    cases hget : s.kl.map.get fd with
    | none =>
      rw [hget] at h
      cases h
    | some kld =>
      rw [hget] at h
      dsimp only at h
      split_ifs at h with hsums
      cases hplain : decrypted env.cli kld.serverCrypt buf with
      | none =>
        rw [hplain] at h
        cases h
      | some plain =>
        rw [hplain] at h
        dsimp only at h
        split_ifs at h with hinit
        obtain ⟨n, hname, rfl⟩ := Option.map_eq_some_iff.mp h
        have hother := Bool.eq_false_iff.mpr hinit
        refine ⟨fd, n, plain, .tcp hget hsums hplain hother hname, rfl, ?_⟩
        simp only [l0Handle, tcpDeliver, tcpProcessPacket, hget, hsums, hplain, hother, hname,
          if_true, Bool.false_eq_true, if_false]
        rfl
  | trudpPacket now subscribed fd rd small buf =>
    simp only [forwarded] at h
    cases hget : s.kl.map.get fd with
    | none =>
      rw [hget] at h
      cases h
    | some kld =>
      rw [hget] at h
      dsimp only at h
      cases hplain : decrypted env.cli kld.serverCrypt buf with
      | none =>
        rw [hplain] at h
        cases h
      | some plain =>
        rw [hplain] at h
        dsimp only at h
        split_ifs at h with hcmd
        obtain ⟨n, hname, rfl⟩ := Option.map_eq_some_iff.mp h
        refine ⟨fd, n, plain, .trudp hget hplain hcmd hname, rfl, ?_⟩
        simp only [l0Handle, trudpDeliver, processPacket, hget, hplain, hcmd, hname, if_false]
        rfl
  | _ => cases h

theorem ForwardsAs.forwarded_ne_none {fd : ℤ} {n : CString} (h : ForwardsAs env fd n s e) :
    forwarded env s e ≠ none := by
  cases h with
  | tcp hget hsums hplain hother hname => simp [forwarded, hget, hsums, hplain, hother, hname]
  | trudp hget hplain hcmd hname => simp [forwarded, hget, hplain, hcmd, hname]

theorem Offline.meshPackets {es : List L0Effect} (h : Offline es) :
    es.filterMap L0Effect.meshPacket = [] := by
  refine List.filterMap_eq_nil_iff.mpr fun f hf => ?_
  have hoff := h f hf
  cases f with
  | toPeer peer spacket => cases hoff
  | _ => rfl

/-- The packets for other peers that a callback makes are the one that is forwarded. -/
theorem l0Handle_meshPackets (env : L0Env Ctx) (s : L0System Ctx) (e : L0Event) :
    (l0Handle env s.kl e).2.filterMap L0Effect.meshPacket =
      ((forwarded env s e).toList.filter fun f => f.peer ≠ .empty ∧ f.peer ≠ env.hostName).map
        fun f => (f.peer, l0SPacket f.cmd f.client f.data) := by
  cases hf : forwarded env s e with
  | some f =>
    obtain ⟨fd, n, plain, -, rfl, heffects⟩ := forwarded_eq_some hf
    rw [heffects, ksnLNullSendFromL0]
    by_cases hpeer : TeoCli.packetPeerName plain ≠ .empty ∧
        TeoCli.packetPeerName plain ≠ env.hostName
    · simp [forwardOf, L0Effect.meshPacket, hpeer.1, hpeer.2]
    · have hnot : ¬ ((forwardOf env plain n).peer ≠ .empty ∧
          (forwardOf env plain n).peer ≠ env.hostName) := hpeer
      rw [if_neg hpeer, Option.toList_some, List.filter_singleton, decide_eq_false hnot]
      rfl
  | none =>
    rcases l0Handle_offline env s e with hoff | ⟨fd, n, hcall⟩
    · rw [hoff.meshPackets]
      rfl
    · exact absurd hf hcall.forwarded_ne_none

/-- The data of a forwarded packet fit into an envelope. -/
theorem forwarded_data_le {f : L0Forward} (h : forwarded env s e = some f) :
    f.data.length ≤ 65535 := by
  obtain ⟨fd, n, plain, -, rfl, -⟩ := forwarded_eq_some h
  have hlt := (env.cli.packetHeader plain).dataLength.toNat_lt
  rw [forwardOf, List.length_take]
  omega

/-! ### What the hosts keep -/

namespace L0Net

theorem HostInv.forwarded_client {i : ι} {a : L0System Ctx} (h : net.HostInv i a) {f : L0Forward}
    (hf : forwarded (net.env i) a e = some f) : f.client.length + 1 ≤ 255 := by
  obtain ⟨fd, n, plain, hcall, rfl, -⟩ := forwarded_eq_some hf
  exact h.names fd n hcall.named

/-- A fair callback keeps what holds of a host. -/
theorem HostInv.server_step (hsound : net.Sound) {i : ι} {a : L0System Ctx} (h : net.HostInv i a)
    (hfair : net.Fair i a (.server e)) : net.HostInv i (l0After (net.env i) a e) := by
  obtain ⟨henabled, hguard, hnames⟩ := hfair
  have hstep : L0Step (net.env i) a e (l0After (net.env i) a e) := ⟨henabled, rfl⟩
  refine ⟨l0Handle_inv (hsound.maxFd_pos i) h.server hguard hstep, fun fd n hnamed => ?_⟩
  rcases named_step hstep hnamed with hlogin | ⟨hbefore, -⟩
  · exact hnames fd n hlogin
  · exact h.names fd n hbefore

theorem HostInv.dataTo (hsound : net.Sound) {i : ι} {a : L0System Ctx} (h : net.HostInv i a)
    (rd : KsnCorePacketData) : net.HostInv i (l0After (net.env i) a (.dataTo rd)) := by
  refine h.server_step hsound ⟨trivial, trivial, fun fd n hlogin => ?_⟩
  cases hlogin

/-- The hosts keep the invariant and send envelopes that are read as they were built. -/
theorem l0Net_keeps (hsound : net.Sound) :
    Keeps net.handle net.HostInv net.Fair L0Message.Ok := by
  intro i a x h hx
  match x, hx with
  | .happens (.server e), hfair =>
    refine ⟨h.server_step hsound hfair, fun p hp => ?_⟩
    change p ∈ net.toPeers (l0Handle (net.env i) a.kl e).2 at hp
    rw [toPeers, l0Handle_meshPackets] at hp
    obtain ⟨q, hq, hp⟩ := List.mem_filterMap.mp hp
    obtain ⟨f, hf, rfl⟩ := List.mem_map.mp hq
    have hsome := Option.mem_toList.mp (List.mem_filter.mp hf).1
    obtain ⟨k, -, rfl⟩ := Option.map_eq_some_iff.mp hp
    exact ⟨f.cmd, f.client, f.data, h.forwarded_client hsome, forwarded_data_le hsome, .inl rfl⟩
  | .happens (.sendToL0 addr port cname cmd data), hfair =>
    refine ⟨h, fun p hp => ?_⟩
    obtain ⟨k, -, rfl⟩ := Option.map_eq_some_iff.mp (Option.mem_toList.mp hp)
    exact ⟨cmd, cname, data, hfair.1, hfair.2, .inr rfl⟩
  | .receives k (.l0 spacket), _ => exact ⟨h, fun p hp => absurd hp List.not_mem_nil⟩
  | .receives k (.l0To spacket), _ =>
    exact ⟨h.dataTo hsound _, fun p hp => absurd hp List.not_mem_nil⟩

/-! ### Commands -/

variable [DecidableEq ι]

omit [DecidableEq ι] in
theorem Sound.name_inj (hsound : net.Sound) {i j : ι} (h : net.name i = net.name j) : i = j := by
  have hi := hsound.hostOf_name i
  rw [h, hsound.hostOf_name j] at hi
  exact (Option.some.inj hi).symm

theorem messagesTo_toPeers (hsound : net.Sound) (es : List L0Effect) (k : ι) :
    messagesTo k (net.toPeers es) =
      ((es.filterMap L0Effect.meshPacket).filter fun p => p.1 = net.name k).map
        fun p => .l0 p.2 := by
  unfold toPeers
  generalize es.filterMap L0Effect.meshPacket = ps
  induction ps with
  | nil => rfl
  | cons p ps ih =>
    cases hhost : net.hostOf p.1 with
    | none =>
      have hne : p.1 ≠ net.name k := fun h => by
        rw [h, hsound.hostOf_name] at hhost
        cases hhost
      rw [List.filterMap_cons, hhost, List.filter_cons_of_neg (by simpa using hne)]
      exact ih
    | some j =>
      have hname := hsound.name_of_hostOf _ _ hhost
      rw [List.filterMap_cons, hhost]
      by_cases hj : j = k
      · subst hj
        rw [List.filter_cons_of_pos (by simpa using hname), List.map_cons, ← ih]
        simp [messagesTo]
      · have hne : p.1 ≠ net.name k := fun h => hj (hsound.name_inj (hname.symm.trans h))
        rw [List.filter_cons_of_neg (by simpa using hne), ← ih]
        simp [messagesTo, hj]

/-- The commands that a server sends to a peer in an event are those of its clients. -/
theorem commands_handle (hsound : net.Sound) {i k : ι} (hik : i ≠ k) {a : L0System Ctx}
    (h : net.HostInv i a) {x : Input ι L0Message L0NetHappens}
    (hx : x.Ok net.Fair L0Message.Ok i a) :
    (l0Commands (messagesTo k (net.handle i a x).2.1)).filter (fun c => clientCommand c.1) =
      net.commandTo i k a x := by
  match x, hx with
  | .happens (.server e), hfair =>
    show (l0Commands (messagesTo k (net.toPeers (l0Handle (net.env i) a.kl e).2))).filter _ = _
    rw [messagesTo_toPeers hsound, l0Handle_meshPackets, commandTo]
    cases hf : forwarded (net.env i) a e with
    | none => rfl
    | some f =>
      have hread := spacketCommand_l0SPacket f.cmd (h.forwarded_client hf) (forwarded_data_le hf)
      by_cases hpeer : f.peer = net.name k
      · have hne : f.peer ≠ .empty := hpeer ▸ hsound.name_ne k
        have hother : f.peer ≠ (net.env i).hostName := fun hself =>
          hik (hsound.name_inj (hself.symm.trans hpeer))
        by_cases hcmd : clientCommand f.cmd = true
        · simp [hpeer ▸ hne, hpeer ▸ hother, hpeer, l0Commands, hread, hcmd]
        · simp [hpeer ▸ hne, hpeer ▸ hother, hpeer, l0Commands, hread, hcmd]
      · simp [hpeer, l0Commands]
  | .happens (.sendToL0 addr port cname cmd data), _ =>
    show (l0Commands (messagesTo k ((net.hostAt addr port).map fun j => (j, _)).toList)).filter _ =
      []
    cases net.hostAt addr port with
    | none => rfl
    | some j =>
      by_cases hj : j = k
      · simp [messagesTo, l0Commands, hj]
      · simp [messagesTo, l0Commands, hj]
  | .receives _ (.l0 _), _ => rfl
  | .receives _ (.l0To _), _ => rfl

/-- A peer executes the commands that it receives. -/
theorem executedFor_handle {i k : ι} (a : L0System Ctx) {x : Input ι L0Message L0NetHappens}
    (hx : x.Ok net.Fair L0Message.Ok i a) :
    executedFor k (net.handle i a x).2.2 =
      (l0Commands (receivedFrom k [x])).filter fun c => clientCommand c.1 := by
  match x, hx with
  | .happens (.server e), _ =>
    show executedFor k ((l0Handle (net.env i) a.kl e).2.map .effect) = []
    exact List.filterMap_eq_nil_iff.mpr fun o ho => by
      obtain ⟨f, -, rfl⟩ := List.mem_map.mp ho
      rfl
  | .happens (.sendToL0 _ _ _ _ _), _ => rfl
  | .receives j (.l0 spacket), hm =>
    obtain ⟨cmd, client, data, hclient, hdata, hm | hm⟩ := hm
    · cases hm
      have hexec := cmdL0Cb_l0SPacket net j cmd hclient hdata
      have hread := spacketCommand_l0SPacket cmd hclient hdata
      rw [receivedFrom_receives]
      show executedFor k ((cmdL0Cb (net.packet j cmdL0 (l0SPacket cmd client data))).map
        (.executes j)).toList = _
      by_cases hj : j = k
      · subst hj
        rw [if_pos rfl]
        have hcommands : l0Commands [.l0 (l0SPacket cmd client data)] = [(cmd, client, data)] := by
          simp [l0Commands, hread]
        rw [hcommands]
        split_ifs at hexec with hcmd
        · obtain ⟨rd, hrd, hout⟩ := Option.map_eq_some_iff.mp hexec
          rw [hrd]
          simp [executedFor, hout, hcmd]
        · rw [Option.map_eq_none_iff] at hexec
          rw [hexec]
          simp [executedFor, hcmd]
      · rw [if_neg hj]
        cases cmdL0Cb (net.packet j cmdL0 (l0SPacket cmd client data)) with
        | none => rfl
        | some rd => simp [executedFor, l0Commands, hj]
    · cases hm
  | .receives j (.l0To spacket), _ =>
    rw [receivedFrom_receives]
    show executedFor k (net.toClient i j a.kl _) = _
    unfold toClient
    dsimp only
    by_cases hj : j = k
    · split_ifs <;> rfl
    · split_ifs <;> rfl

/-! ### Answers -/

omit [DecidableEq ι] in
/-- What `cmd_l0_to_cb` reads is what was sent. -/
theorem l0To_read (net : L0Net ι Ctx) (env : L0Env Ctx) (k : ι) (cmd : UInt8) {client : CString}
    {data : List UInt8} (hclient : client.length + 1 ≤ 255) (hdata : data.length ≤ 65535) :
    l0ToName (net.packet k cmdL0To (l0SPacket cmd client data)) = client ∧
      l0ToPacket env (net.packet k cmdL0To (l0SPacket cmd client data)) =
        env.cli.packetCreate cmd (net.name k) data := by
  obtain ⟨nameLength, hdecode, -⟩ := (l0RoundTrip_iff cmd client hdata).mpr hclient
  obtain ⟨hfields, hlength, hbytes⟩ := l0SPacketDecode_eq_some hdecode
  have hlen : 4 ≤ (l0SPacket cmd client data).length := by
    rw [l0SPacket_length]
    omega
  rw [l0SPacketFields_eq hlen] at hfields
  obtain ⟨hcmd, hdataLength, hname⟩ : (l0SPacket cmd client data).getD 0 0 = cmd ∧
      getLe16 ((l0SPacket cmd client data).drop 2) = data.length ∧
      CString.ofBuf ((l0SPacket cmd client data).drop 4) = client := by
    simpa only [Option.some.injEq, Prod.mk.injEq] using hfields
  have hnameLength := Option.some.inj ((byteAt_nameLength hlen).symm.trans hlength)
  obtain ⟨hhead0, hhead1, hhead2⟩ := l0Header_append hlen (0 :: net.behind)
  have hbuf : ∀ n, ((net.packet k n (l0SPacket cmd client data)).data ++
      (net.packet k n (l0SPacket cmd client data)).after) =
      l0SPacket cmd client data ++ 0 :: net.behind := fun _ => rfl
  constructor
  · rw [l0ToName, hbuf, l0Name_append hlen, hname]
  · unfold l0ToPacket
    rw [hbuf]
    dsimp only
    rw [hhead0, hhead1, hhead2, hcmd, hnameLength, hdataLength, take_drop_of_bytesAt hbytes]
    rfl

omit [DecidableEq ι] in
/-- `map_n` has the connection that is logged in under a name. -/
theorem HostInv.mapN_get {i : ι} {a : L0System Ctx} (h : net.HostInv i a) (n : CString) :
    a.kl.mapN.get n = connectionOf a.kl n := by
  have hmatch := (consistent_iff_namesMatch _).mp h.server.consistent
  unfold connectionOf
  cases hfind : a.kl.map.toPairs.find? fun p => p.2.name = some n with
  | some p =>
    have hmem := (FinMap.mem_toPairs _ _ _).mp (List.mem_of_find?_eq_some hfind)
    have hname : p.2.name = some n := by simpa using List.find?_some hfind
    exact (hmatch n p.1).mpr ⟨p.2, hmem, hname⟩
  | none =>
    cases hget : a.kl.mapN.get n with
    | none => rfl
    | some fd =>
      obtain ⟨kld, hkld, hname⟩ := (hmatch n fd).mp hget
      have hnone := List.find?_eq_none.mp hfind (fd, kld) ((FinMap.mem_toPairs _ _ _).mpr hkld)
      exact absurd (decide_eq_true hname) hnone

omit [DecidableEq ι] in
theorem HostInv.connection_ne_zero {i : ι} {a : L0System Ctx} (h : net.HostInv i a) {n : CString}
    {fd : ℤ} (hfd : connectionOf a.kl n = some fd) : fd ≠ 0 := by
  have hmember := (h.server.consistent n fd).mp ((h.mapN_get n).trans hfd)
  exact (h.server.sockets fd (by rw [hmember]; exact Option.some_ne_none _)).1

omit [DecidableEq ι] in
theorem cmdL0ToCb_of_connected (env : L0Env Ctx) {kl : KsnLNullClass Ctx} {rd : KsnCorePacketData}
    {fd : ℤ} (h : ksnLNullClientIsConnected kl (l0ToName rd) = fd) (hne : fd ≠ 0) :
    (cmdL0ToCb env kl rd).2 = (ksnLNullPacketSend env kl fd (l0ToPacket env rd)).2 := by
  subst h
  have hsend : cmdL0ToCb env kl rd = ksnLNullPacketSend env
      { kl with stat := { kl.stat with packetsFromPeer := kl.stat.packetsFromPeer + 1 } }
      (ksnLNullClientIsConnected kl (l0ToName rd)) (l0ToPacket env rd) := if_pos hne
  -- the counters have no part in what is sent
  rw [hsend]
  rfl

/-- A server passes an answer on to the connection of the client. -/
theorem passedOn_handle {i k : ι} {a : L0System Ctx} (h : net.HostInv i a)
    {x : Input ι L0Message L0NetHappens} (hx : x.Ok net.Fair L0Message.Ok i a) :
    passedOn k (net.handle i a x).2.2 = net.passOn i k a x := by
  match x, hx with
  | .happens (.server e), _ =>
    show passedOn k ((l0Handle (net.env i) a.kl e).2.map .effect) = []
    exact List.filterMap_eq_nil_iff.mpr fun o ho => by
      obtain ⟨f, -, rfl⟩ := List.mem_map.mp ho
      rfl
  | .happens (.sendToL0 _ _ _ _ _), _ => rfl
  | .receives j (.l0 spacket), _ =>
    show passedOn k ((cmdL0Cb (net.packet j cmdL0 spacket)).map (.executes j)).toList = []
    cases cmdL0Cb (net.packet j cmdL0 spacket) <;> rfl
  | .receives j (.l0To spacket), hm =>
    obtain ⟨cmd, client, data, hclient, hdata, hm | hm⟩ := hm
    · cases hm
    · cases hm
      obtain ⟨hname, hpkg⟩ := l0To_read net (net.env i) j cmd hclient hdata
      have hread := spacketCommand_l0SPacket cmd hclient hdata
      have hconnected : ksnLNullClientIsConnected a.kl client =
          (connectionOf a.kl client).getD 0 := by
        rw [ksnLNullClientIsConnected, h.mapN_get]
      show passedOn k (net.toClient i j a.kl (net.packet j cmdL0To (l0SPacket cmd client data))) =
        if j = k then _ else []
      rw [hread]
      unfold toClient
      dsimp only
      rw [hname, hconnected, hpkg]
      cases hconn : connectionOf a.kl client with
      | none =>
        rw [if_neg fun hne => hne rfl]
        split_ifs <;> rfl
      | some fd =>
        have hne : (some fd : Option ℤ).getD 0 ≠ 0 := h.connection_ne_zero hconn
        have hfd : ksnLNullClientIsConnected a.kl
            (l0ToName (net.packet j cmdL0To (l0SPacket cmd client data))) = fd := by
          rw [hname, hconnected, hconn]
          rfl
        have hsent := cmdL0ToCb_of_connected (net.env i) hfd hne
        rw [hpkg] at hsent
        rw [if_pos hne, hsent]
        by_cases hj : j = k
        · subst hj
          simp [passedOn]
        · simp [passedOn, hj]

/-- The answers that a host sends to a server. -/
theorem answers_handle {i k : ι} (hsound : net.Sound) (a : L0System Ctx)
    {x : Input ι L0Message L0NetHappens} (hx : x.Ok net.Fair L0Message.Ok i a) :
    l0Answers (messagesTo k (net.handle i a x).2.1) = net.answersTo k (happened [x]) := by
  match x, hx with
  | .happens (.server e), _ =>
    show l0Answers (messagesTo k (net.toPeers (l0Handle (net.env i) a.kl e).2)) = []
    rw [messagesTo_toPeers hsound]
    exact List.filterMap_eq_nil_iff.mpr fun m hm => by
      obtain ⟨p, -, rfl⟩ := List.mem_map.mp hm
      rfl
  | .happens (.sendToL0 addr port cname cmd data), hfair =>
    have hread := spacketCommand_l0SPacket cmd hfair.1 hfair.2
    show l0Answers (messagesTo k ((net.hostAt addr port).map fun j => (j, _)).toList) = _
    by_cases haddr : addr = net.addr k ∧ port = net.port k
    · rw [haddr.1, haddr.2, hsound.hostAt_addr]
      simp [messagesTo, l0Answers, hread, answersTo, happened]
    · cases hhost : net.hostAt addr port with
      | none => simp [messagesTo, l0Answers, answersTo, happened, haddr]
      | some j =>
        have hj : j ≠ k := by
          rintro rfl
          exact haddr (hsound.addr_of_hostAt _ _ _ hhost)
        simp [messagesTo, l0Answers, answersTo, happened, haddr, hj]
  | .receives _ (.l0 _), _ => rfl
  | .receives _ (.l0To _), _ => rfl

/-! ### Runs -/

theorem l0Commands_append (ms ms' : List L0Message) :
    l0Commands (ms ++ ms') = l0Commands ms ++ l0Commands ms' :=
  List.filterMap_append

theorem l0Answers_append (ms ms' : List L0Message) :
    l0Answers (ms ++ ms') = l0Answers ms ++ l0Answers ms' :=
  List.filterMap_append

section Run

variable {i k : ι} {a : L0System Ctx} {xs : List (Input ι L0Message L0NetHappens)}

omit [DecidableEq ι] in
theorem HostInv.next (hsound : net.Sound) (h : net.HostInv i a)
    {x : Input ι L0Message L0NetHappens} (hx : x.Ok net.Fair L0Message.Ok i a) :
    net.HostInv i (alone net.handle i a x) :=
  (l0Net_keeps hsound i a x h hx).1

theorem commands_run (hsound : net.Sound) (hik : i ≠ k) (h : net.HostInv i a)
    (hxs : Always (fun a x => x.Ok net.Fair L0Message.Ok i a) (alone net.handle i) a xs) :
    (l0Commands (messagesTo k (sends net.handle i a xs))).filter (fun c => clientCommand c.1) =
      net.commandsTo i k a xs := by
  refine outputs_view
    (fun l => (l0Commands (messagesTo k l)).filter fun c : L0Command => clientCommand c.1)
    (net.HostInv i) rfl (fun l l' => ?_) (fun b x hb hx => ?_) h hxs
  · rw [messagesTo_append, l0Commands_append, List.filter_append]
  · exact ⟨hb.next hsound hx, commands_handle hsound hik hb hx⟩

theorem executedFor_run (hsound : net.Sound) (h : net.HostInv i a)
    (hxs : Always (fun a x => x.Ok net.Fair L0Message.Ok i a) (alone net.handle i) a xs) :
    executedFor k (givesOut net.handle i a xs) =
      (l0Commands (receivedFrom k xs)).filter fun c => clientCommand c.1 := by
  refine outputs_eq_events (executedFor k)
    (fun xs => (l0Commands (receivedFrom k xs)).filter fun c => clientCommand c.1) (net.HostInv i)
    rfl (fun l l' => List.filterMap_append) (fun xs ys => ?_) (fun b x hb hx => ?_) h hxs
  · rw [receivedFrom_append, l0Commands_append, List.filter_append]
  · exact ⟨hb.next hsound hx, executedFor_handle b hx⟩

theorem passedOn_run (hsound : net.Sound) (h : net.HostInv i a)
    (hxs : Always (fun a x => x.Ok net.Fair L0Message.Ok i a) (alone net.handle i) a xs) :
    passedOn k (givesOut net.handle i a xs) = net.passesOn i k a xs := by
  refine outputs_view (passedOn k) (net.HostInv i) rfl
    (fun l l' => List.filterMap_append) (fun b x hb hx => ?_) h hxs
  exact ⟨hb.next hsound hx, passedOn_handle hb hx⟩

theorem answers_run (hsound : net.Sound) (h : net.HostInv i a)
    (hxs : Always (fun a x => x.Ok net.Fair L0Message.Ok i a) (alone net.handle i) a xs) :
    l0Answers (messagesTo k (sends net.handle i a xs)) = net.answersTo k (happened xs) := by
  refine outputs_eq_events (fun l => l0Answers (messagesTo k l))
    (fun xs => net.answersTo k (happened xs)) (net.HostInv i) rfl (fun l l' => ?_)
    (fun xs ys => ?_) (fun b x hb hx => ?_) h hxs
  · rw [messagesTo_append, l0Answers_append]
  · rw [happened_append, answersTo, List.filterMap_append]
    rfl
  · exact ⟨hb.next hsound hx, answers_handle hsound b hx⟩

end Run

end L0Net

/-- The hosts at their start. -/
structure L0NetStart (s : Net ι (L0System Ctx) L0Message) : Prop where
  party : ∀ i, L0Start (s.party i)
  link : ∀ i j, s.link i j = []

open L0Net

theorem L0NetStart.inv {s : Net ι (L0System Ctx) L0Message} (h : L0NetStart s) :
    AllOk net.HostInv L0Message.Ok s where
  party i := by
    refine ⟨(h.party i).inv, fun fd n hnamed => ?_⟩
    have habsent : (s.party i).kl.directory.member fd = none :=
      KsnLNullClass.directory_absent (by rw [(h.party i).noMap]; exact FinMap.get_empty fd)
    rw [Named, habsent] at hnamed
    cases hnamed
  link i j m hm := by
    rw [h.link] at hm
    exact absurd hm List.not_mem_nil

/-- **Clients and peers reach each other.**  In every run of hosts that have just started, whatever
the order in which packets arrive and whatever clients do meanwhile: the commands that a peer
executes for the clients of a server, and those that are still on the way to it, are the ones that
these clients have sent to it, under the names of their connections, in order and each once; the
answers that a server has received from a peer, and those that are still on the way, are the ones
that this peer has given; and what the server has passed on for the peer are these answers, each to
the connection that was logged in under the client's name when it was received, where there was
one. -/
theorem l0Net_delivers [DecidableEq ι] (hsound : net.Sound)
    {s : Net ι (L0System Ctx) L0Message} (hstart : L0NetStart s)
    (es : List (Event ι L0NetHappens))
    (hfair : Always (Event.Fair net.Fair) (next net.handle) s es) (i k : ι) :
    (i ≠ k → executedFor i (givenOutBy k (outputs (step net.handle) s es)) ++
        (l0Commands ((es.foldl (next net.handle) s).link i k)).filter (fun c => clientCommand c.1) =
      net.commandsTo i k (s.party i) (inputs net.handle i s es)) ∧
    l0Answers (receivedFrom k (inputs net.handle i s es)) ++
        l0Answers ((es.foldl (next net.handle) s).link k i) =
      net.answersTo i (happenings k es) ∧
    passedOn k (givenOutBy i (outputs (step net.handle) s es)) =
      net.passesOn i k (s.party i) (inputs net.handle i s es) := by
  have hinv : AllOk net.HostInv L0Message.Ok s := hstart.inv
  obtain ⟨-, hinputs⟩ := (l0Net_keeps hsound).run hinv hfair
  refine ⟨fun hik => ?_, ?_, ?_⟩
  · have hlink := congrArg (fun ms => (l0Commands ms).filter fun c => clientCommand c.1)
      (link_run net.handle s es i k)
    rw [hstart.link, List.nil_append, commands_run hsound hik (hinv.party i) (hinputs i),
      l0Commands_append, List.filter_append] at hlink
    rw [outputs_run, executedFor_run hsound (hinv.party k) (hinputs k), hlink]
  · have hlink := congrArg l0Answers (link_run net.handle s es k i)
    rw [hstart.link, List.nil_append, answers_run hsound (hinv.party k) (hinputs k),
      l0Answers_append, happened_inputs] at hlink
    exact hlink.symm
  · rw [outputs_run, passedOn_run hsound (hinv.party i) (hinputs i)]

/-- The L0 server `h` and the peer `p`. -/
def serverAndPeer : L0Net Bool Unit where
  env i := if i then { secretEnv with hostName := CString.ofBuf [112] } else secretEnv
  addr i := if i then CString.ofBuf [112] else CString.ofBuf [104]
  port _ := 9000
  hostOf n :=
    if n = CString.ofBuf [112] then some true
    else if n = CString.ofBuf [104] then some false
    else none
  hostAt a p :=
    if p = 9000 then
      if a = CString.ofBuf [112] then some true
      else if a = CString.ofBuf [104] then some false
      else none
    else none
  behind := []

theorem serverAndPeer_sound : serverAndPeer.Sound where
  hostOf_name := by decide
  name_of_hostOf n i h := by
    unfold serverAndPeer at h
    dsimp only at h
    split_ifs at h with hp hh
    · cases h
      exact hp
    · cases h
      exact hh
  hostAt_addr := by decide
  addr_of_hostAt a p i h := by
    unfold serverAndPeer at h ⊢
    dsimp only at h ⊢
    split_ifs at h with hport hp hh
    · cases h
      exact ⟨hp, hport⟩
    · cases h
      exact ⟨hh, hport⟩
  name_ne := by decide
  maxFd_pos := by decide

/-- The client `a` logs in and sends an echo request to the peer, which answers. -/
def echoRun : List (Event Bool L0NetHappens) :=
  [.happens false (.server (.accept 5 5 none 7000)),
    .happens false (.server (.tcpPacket 5 false 5 loginA)),
    .happens false (.server (.tcpPacket 6 false 5 echoToPeer)), .deliver false true,
    .happens true (.sendToL0 (CString.ofBuf [104]) 9000 (clientName [97]) cmdEchoAnswer [1]),
    .deliver true false]

/-- Both hosts at their start. -/
def newHosts : Net Bool (L0System Unit) L0Message := ⟨fun _ => emptyServer, fun _ _ => []⟩

theorem login_loginA {fd : ℤ} {n : CString} {s : L0System Unit}
    (h : LogsInAs secretEnv fd n s (.tcpPacket 5 false 5 loginA)) : n = clientName [97] := by
  cases h with
  | tcp hget hsums hplain hlogin haccepted =>
    obtain rfl := Option.some.inj hplain
    obtain ⟨-, -, -, rfl⟩ := hlogin
    obtain ⟨userId, sign, timestamp, hparse, -, -, -, rfl⟩ := haccepted
    have hfields : parseAuthPayload secretEnv.toL0AuthEnv (secretEnv.cli.packetPayload loginA) =
        some ([97], hexBytes digestA, [57]) := by decide +kernel
    have hread := Option.some.inj (hfields.symm.trans hparse)
    exact congrArg (fun p => clientName p.1) hread.symm

theorem echoRun_fair :
    Always (Event.Fair serverAndPeer.Fair) (next serverAndPeer.handle) newHosts echoRun := by
  refine ⟨⟨⟨by decide, by decide⟩, trivial, fun fd n h => by cases h⟩,
    ⟨trivial, ?_, fun fd n h => by rw [login_loginA h]; decide⟩, ⟨trivial, ?_, ?_⟩, trivial,
    ⟨by decide, by decide⟩, trivial, trivial⟩
  · intro kld hget name _
    obtain rfl := Option.some.inj hget
    exact Or.inl rfl
  · intro kld hget name hlogin
    have hnone : tcpLoginOutcome secretEnv 6 kld.serverCrypt echoToPeer = none := rfl
    exact absurd (hlogin.symm.trans hnone) (by simp)
  · intro fd n h
    cases h with
    | tcp hget hsums hplain hlogin haccepted =>
      obtain rfl := Option.some.inj hplain
      have hother : isInitialize secretEnv.cli echoToPeer = false := by decide +kernel
      exact absurd (hlogin.1.symm.trans hother) (by decide)

theorem l0Net_delivers_echo :
    (false ≠ true → executedFor false (givenOutBy true (outputs (step serverAndPeer.handle)
        newHosts echoRun)) ++
        (l0Commands ((echoRun.foldl (next serverAndPeer.handle) newHosts).link false true)).filter
          (fun c => clientCommand c.1) =
      serverAndPeer.commandsTo false true emptyServer
        (inputs serverAndPeer.handle false newHosts echoRun)) ∧
    l0Answers (receivedFrom true (inputs serverAndPeer.handle false newHosts echoRun)) ++
        l0Answers ((echoRun.foldl (next serverAndPeer.handle) newHosts).link true false) =
      serverAndPeer.answersTo false (happenings true echoRun) ∧
    passedOn true (givenOutBy false (outputs (step serverAndPeer.handle) newHosts echoRun)) =
      serverAndPeer.passesOn false true emptyServer
        (inputs serverAndPeer.handle false newHosts echoRun) :=
  l0Net_delivers serverAndPeer_sound ⟨fun _ => emptyServer_start, fun _ _ => rfl⟩ echoRun
    echoRun_fair false true

/-- The echo request is executed by the peer, and the answer goes to the client's connection. -/
example :
    executedFor false (givenOutBy true (outputs (step serverAndPeer.handle) newHosts echoRun)) =
        [(cmdEcho, clientName [97], [1])] ∧
      (passedOn true (givenOutBy false (outputs (step serverAndPeer.handle) newHosts echoRun))).map
        Prod.fst = [5] := by
  decide +kernel

end Teonet
