import Mathlib.Data.Rat.Defs
import Teonet.CoreSend
import Teonet.Lib.Runs
import Teonet.SplitCalls
import Teonet.SplitRuns
import Teonet.TcpProxy

/-! # The mesh

Any number of hosts under one network key that send commands to each other, in any order.  A datagram
of `ksnCoreSendto` goes to `ksnTRUDPsendto` (`tr-udp.c`): it is queued on the TR-UDP channel from the
one host to the other if its command is one of `CMD_TRUDP_CHECK`, and handed to the network as plain
UDP otherwise.  A channel keeps the order and loses nothing; plain UDP may lose, repeat and reorder
datagrams.  What arrives goes through `ksnCoreProcessPacket` and `ksnCommandCheck`, which combines the
sub-packets of large data; each host has one class for what it splits and what it combines.

`mesh_delivers` is the result for every run: on each link the commands that travel by channel are
dispatched by the receiver in the order in which they were sent, each once, whatever the other links
do, and nothing is dispatched that was not sent.  The invariant `MeshInv` says that a channel holds
the rest of the message that the receiver is in the middle of, and behind it whole commands. -/

namespace Teonet

open Runs Windows

/-! ### Hosts and links -/

/-- What the hosts share and how they are set up: the cipher under the network key, the address of
each host, and what the callbacks of each host return that neither combine packets nor nest calls. -/
structure MeshConfig where
  cipher : PaddedCipher blockSize
  addr : CString → CString
  port : CString → ℕ
  other : CString → KsnCorePacketData → ℤ

variable (net : MeshConfig)

/-- A host, which encrypts. -/
def MeshConfig.core (name : CString) : KsnCoreClass := coreOf net.cipher name true

/-- From the first host to the second one. -/
abbrev Link : Type := CString × CString

/-- The hosts with what they have in transit: the channels hold what has not arrived yet, `udp` has
every plain datagram that was sent. -/
structure MeshState where
  ks : CString → KsnSplitClass
  channel : Link → List (List UInt8)
  udp : Link → List (List UInt8)

/-- What happens in the mesh. -/
inductive MeshEvent
  /-- `ksnCoreSendto` on the first host, to the address of the second one -/
  | sendto (link : Link) (cmd : UInt8) (data : List UInt8)
  /-- `GOT_DATA`: the next datagram of a channel arrives; `after` lies behind it in the buffer -/
  | gotData (link : Link) (now : ℚ) (after : List UInt8)
  /-- `GOT_DATA_NO_TRUDP`: some plain datagram arrives -/
  | gotDataNoTrudp (link : Link) (now : ℚ) (after : List UInt8) (i : ℕ)

/-- A packet that reaches the callback of its command, at the end of a link. -/
structure Delivery where
  link : Link
  byChannel : Bool
  rd : KsnCorePacketData

/-! ### Sending -/

/-- `ksnTRUDPsendto` for a datagram of a command. -/
def ksnTRUDPsendto (s : MeshState) (link : Link) (cmd : UInt8) (buf : List UInt8) : MeshState :=
  if cmdTrudpCheck cmd then
    { s with channel := Function.update s.channel link (s.channel link ++ [buf]) }
  else { s with udp := Function.update s.udp link (s.udp link ++ [buf]) }

/-- `ksnCoreSendto` on the first host of a link. -/
def meshSendto (s : MeshState) (link : Link) (cmd : UInt8) (data : List UInt8) : MeshState :=
  match ksnCoreSendto (net.core link.1) (s.ks link.1) cmd data with
  | some (ks, datagrams) =>
    datagrams.foldl (fun s d => ksnTRUDPsendto s link d.1 d.2)
      { s with ks := Function.update s.ks link.1 ks }
  | none => s

/-! ### Receiving -/

/-- The packet that reaches a callback other than `cmd_split_cb`. -/
def CheckResult.handled (r : CheckResult) (rd : KsnCorePacketData) : Option KsnCorePacketData :=
  if rd.cmd = cmdSplit then r.calls.head? else some rd

/-- `ksnCoreProcessPacket` and `ksnCommandCheck` on the second host of a link. -/
def meshReceive (s : MeshState) (link : Link) (byChannel : Bool) (now : ℚ)
    (datagram after : List UInt8) : MeshState × List Delivery :=
  match ksnCoreProcessPacket (net.core link.2) false (net.addr link.1) (net.port link.1) datagram
      after with
  | .command rd =>
    let r := ksnCommandCheck (net.other link.2) now (s.ks link.2) rd
    ({ s with ks := Function.update s.ks link.2 r.ks },
      ((r.handled rd).map fun rd => ⟨link, byChannel, rd⟩).toList)
  | _ => (s, [])

/-- One event.  A datagram longer than the buffer of `host_cb` is cut. -/
def meshStep (s : MeshState) : MeshEvent → MeshState × List Delivery
  | .sendto link cmd data => (meshSendto net s link cmd data, [])
  | .gotData link now after =>
    match s.channel link with
    | [] => (s, [])
    | d :: rest =>
      meshReceive net { s with channel := Function.update s.channel link rest } link true now d after
  | .gotDataNoTrudp link now after i =>
    match (s.udp link)[i]? with
    | none => (s, [])
    | some d => meshReceive net s link false now (d.take ksnBufferDbSize) after

/-! ### What was sent, and what arrived -/

/-- The data is sent in sub-packets, or the command is one of `CMD_TRUDP_CHECK`. -/
def viaChannel (cmd : UInt8) (data : List UInt8) : Bool :=
  cmdTrudpCheck cmd || (decide (maxDataLen < data.length) && cmd != cmdVpn)

instance (data : List UInt8) : Decidable (SendFits data) := inferInstanceAs (Decidable (_ ≤ _))

/-- The command that an event sends on a link, by channel or not. -/
def MeshEvent.sent (link : Link) (byChannel : Bool) : MeshEvent → List (UInt8 × List UInt8)
  | .sendto l cmd data =>
    if l = link ∧ SendFits data ∧ viaChannel cmd data = byChannel then [(cmd, data)] else []
  | _ => []

@[simp] theorem MeshEvent.sent_gotData (l link : Link) (byChannel : Bool) (now : ℚ)
    (after : List UInt8) : (MeshEvent.gotData link now after).sent l byChannel = [] :=
  rfl

@[simp] theorem MeshEvent.sent_gotDataNoTrudp (l link : Link) (byChannel : Bool) (now : ℚ)
    (after : List UInt8) (i : ℕ) :
    (MeshEvent.gotDataNoTrudp link now after i).sent l byChannel = [] :=
  rfl

/-- The commands sent on a link in a run, in order. -/
def sentOn (link : Link) (byChannel : Bool) (es : List MeshEvent) : List (UInt8 × List UInt8) :=
  es.flatMap (MeshEvent.sent link byChannel)

/-- The command of a delivery on a link, if it came by channel. -/
def Delivery.on (link : Link) (d : Delivery) : Option (UInt8 × List UInt8) :=
  if d.link = link ∧ d.byChannel = true then some (d.rd.cmd, d.rd.data) else none

/-- The packet names the first host of the link, with its address. -/
def Delivery.Genuine (d : Delivery) : Prop :=
  d.rd.fromName = d.link.1 ∧ d.rd.addr = net.addr d.link.1 ∧ d.rd.port = net.port d.link.1

/-- What the senders and the clock see to: names fit in a packet, `CMD_SPLIT` is only sent by the core,
data of `CMD_VPN`, which is not split, fits in the buffer of the receiver, and the map of a host that
has sub-packets in it got the last one no more than ten seconds ago. -/
def MeshGuard (s : MeshState) : MeshEvent → Prop
  | .sendto link cmd data => link.1.length ≤ 254 ∧ cmd ≠ cmdSplit ∧
      (cmd = cmdVpn → 2 + encryptLen (link.1.length + data.length + 3) ≤ ksnBufferDbSize)
  | .gotData link now _ =>
      (s.ks link.2).map.isEmpty = false → now - (s.ks link.2).lastAdded ≤ 10
  | .gotDataNoTrudp _ _ _ _ => True

instance (s : MeshState) (e : MeshEvent) : Decidable (MeshGuard s e) := by
  cases e <;> unfold MeshGuard <;> infer_instance

/-! ### One datagram -/

variable {net}

/-- The datagram of a packet. -/
def MeshConfig.datagram (net : MeshConfig) (name : CString) (cmd : UInt8) (data : List UInt8) :
    List UInt8 :=
  sendtoEncrypt (net.core name) (ksnCoreCreatePacket name cmd data)

/-- The datagram of a sub-packet. -/
def MeshConfig.subDatagram (net : MeshConfig) (name : CString) (m : Message) (i : ℕ) : List UInt8 :=
  net.datagram name cmdSplit (splitPayload (m.subPacket i))

theorem ksnCoreCreatePacket_length {name : CString} (hname : name.length ≤ 254) (cmd : UInt8)
    (data : List UInt8) :
    (ksnCoreCreatePacket name cmd data).length = name.length + data.length + 3 := by
  rw [ksnCoreCreatePacket_eq hname, ksnCoreCreatePacketFrom_length, CString.toBuf_length,
    packetHeaderAddSize]
  omega

theorem MeshConfig.datagram_length (net : MeshConfig) {name : CString} (hname : name.length ≤ 254)
    (cmd : UInt8) (data : List UInt8) :
    (net.datagram name cmd data).length = 2 + encryptLen (name.length + data.length + 3) := by
  rw [← ksnCoreCreatePacket_length hname cmd data]
  exact ksnEncryptPackage_length net.cipher _

/-- **One datagram**: what the receiver dispatches is what the sender packed. -/
theorem ksnCoreProcessPacket_datagram (net : MeshConfig) {name : CString} (name' : CString)
    (hname : name.length ≤ 254) (cmd : UInt8) {data : List UInt8}
    (hlt : name.length + data.length + 3 < 65536) (addr : CString) (port : ℕ)
    (after : List UInt8) :
    ∃ behind, ksnCoreProcessPacket (net.core name') false addr port (net.datagram name cmd data)
      after = .command {
        addr := addr
        port := port
        fromName := name
        fromLen := nameLen name
        cmd := cmd
        data := data
        after := behind
        rawData := ksnCoreCreatePacket name cmd data } := by
  have hlen := ksnCoreCreatePacket_length hname cmd data
  have hne : ksnCoreCreatePacket name cmd data ≠ [] := by
    intro h
    rw [h, List.length_nil] at hlen
    omega
  rw [← hlen] at hlt
  have hparsed := packetData_sendtoEncrypt net.cipher name name' true hne hlt after
  have htaken := takenForEncrypted_sendtoEncrypt net.cipher name name' true hne hlt
  have hdatagram : net.datagram name cmd data ≠ [] := by
    intro h
    have hlength := net.datagram_length hname cmd data
    rw [h, List.length_nil] at hlength
    omega
  have hframe := frame_create hname cmd data
  refine ⟨(packetData (net.core name') (net.datagram name cmd data) after).2, ?_⟩
  refine (ksnCoreProcessPacket_command_iff ..).mpr ⟨rfl, hdatagram, ?_, Or.inl htaken⟩
  have hraw : (packetData (net.core name') (net.datagram name cmd data) after).1 =
      ksnCoreCreatePacket name cmd data := hparsed
  rw [hraw, ksnCoreParsePacket_frame hframe]

/-! ### What `ksnCommandCheck` does with it -/

variable {now : ℚ} {ks : KsnSplitClass} {rd : KsnCorePacketData}

/-- Only `cmd_split_cb` changes the class. -/
theorem ksnCommandCheck_ks (other : KsnCorePacketData → ℤ) (now : ℚ) (ks : KsnSplitClass)
    {rd : KsnCorePacketData} (h : rd.cmd ≠ cmdSplit) : (ksnCommandCheck other now ks rd).ks = ks := by
  rw [ksnCommandCheck, dif_neg h]
  split_ifs with hl0
  · split
    · rfl
    · rename_i rds hclient
      rw [ksnCommandCheck, dif_neg (cmdL0Cb_cmd hclient).2, dif_neg (cmdL0Cb_cmd hclient).1]
  · rfl

theorem ksnCommandCheck_keeps (other : KsnCorePacketData → ℤ) {ks' : KsnSplitClass}
    (h : rd.cmd = cmdSplit)
    (hcombine : ksnSplitCombine now ks rd = .ok (ks', none)) :
    (ksnCommandCheck other now ks rd).ks = ks' ∧
      (ksnCommandCheck other now ks rd).handled rd = none := by
  have hcheck : ksnCommandCheck other now ks rd = { ks := ks', processed := 1 } := by
    rw [ksnCommandCheck, dif_pos h]
    split <;> rename_i heq <;> rw [hcombine] at heq <;> cases heq
    rfl
  rw [hcheck, CheckResult.handled, if_pos h]
  exact ⟨rfl, rfl⟩

theorem ksnCommandCheck_joins (other : KsnCorePacketData → ℤ) {ks' : KsnSplitClass}
    {rds : KsnCorePacketData} (h : rd.cmd = cmdSplit)
    (hcombine : ksnSplitCombine now ks rd = .ok (ks', some rds)) (hrds : rds.cmd ≠ cmdSplit) :
    (ksnCommandCheck other now ks rd).ks = ks' ∧
      (ksnCommandCheck other now ks rd).handled rd = some rds := by
  have hks := ksnCommandCheck_ks other now ks' hrds
  have hcheck : (ksnCommandCheck other now ks rd).ks = (ksnCommandCheck other now ks' rds).ks ∧
      (ksnCommandCheck other now ks rd).calls =
        rds :: (ksnCommandCheck other now ks' rds).calls := by
    rw [ksnCommandCheck, dif_pos h]
    split <;> rename_i heq <;> rw [hcombine] at heq <;> cases heq
    exact ⟨rfl, rfl⟩
  rw [CheckResult.handled, if_pos h, hcheck.1, hcheck.2, hks]
  exact ⟨rfl, rfl⟩

/-! ### Whole commands -/

/-- A command in transit: one packet, or the sub-packets of a message. -/
inductive Parcel
  | small (cmd : UInt8) (data : List UInt8)
  | large (m : Message)

def Parcel.command : Parcel → UInt8 × List UInt8
  | .small cmd data => (cmd, data)
  | .large m => (m.cmd, m.data)

def Parcel.datagrams (net : MeshConfig) (name : CString) : Parcel → List (List UInt8)
  | .small cmd data => [net.datagram name cmd data]
  | .large m => (List.range m.num).map (net.subDatagram name m)

/-- A packet that is not a sub-packet, with data that need not be split. -/
def Parcel.Fits : Parcel → Prop
  | .small cmd data => cmd ≠ cmdSplit ∧ data.length ≤ maxDataLen
  | .large m => m.cmd ≠ cmdSplit

theorem Message.num_pos (m : Message) : 0 < m.num := by
  have hcover : m.data.length ≤ maxDataLen * m.num := le_mul_windowCount (by decide) _
  have hlong := m.long
  rcases Nat.eq_zero_or_pos m.num with h | h
  · rw [h] at hcover
    omega
  · exact h

/-- The three outcomes of `ksnCoreSendto`. -/
theorem ksnCoreSendto_cases (kc : KsnCoreClass) (ks : KsnSplitClass) (cmd : UInt8)
    (data : List UInt8) :
    (¬ SendFits data ∧ ksnCoreSendto kc ks cmd data = none) ∨
    (SendFits data ∧ (data.length ≤ maxDataLen ∨ cmd = cmdVpn) ∧ ksnCoreSendto kc ks cmd data =
      some (ks, [(cmd, sendtoEncrypt kc (ksnCoreCreatePacket kc.name cmd data))])) ∨
    (SendFits data ∧ maxDataLen < data.length ∧ cmd ≠ cmdVpn ∧ ∃ m : Message, m.cmd = cmd ∧
      m.data = data ∧ ksnCoreSendto kc ks cmd data =
        some ({ ks with packetNumber := ks.packetNumber + 1 }, (List.range m.num).map fun i =>
          (cmdSplit, sendtoEncrypt kc
            (ksnCoreCreatePacket kc.name cmdSplit (splitPayload (m.subPacket i)))))) := by
  by_cases hfit : SendFits data
  · by_cases hsmall : data.length ≤ maxDataLen
    · exact .inr (.inl ⟨hfit, .inl hsmall, ksnCoreSendto_small kc ks cmd hsmall⟩)
    · have hlong : maxDataLen < data.length := not_le.mp hsmall
      by_cases hvpn : cmd = cmdVpn
      · refine .inr (.inl ⟨hfit, .inr hvpn, ?_⟩)
        have hle : data.length ≤ maxPacketLen - maxDataLen := hfit
        rw [ksnCoreSendto, if_pos hle, if_neg (not_not_intro hvpn)]
        rfl
      · have hnum : windowCount maxDataLen data.length ≤ lastPacketFlag := by
          have hle : data.length ≤ maxPacketLen - maxDataLen := hfit
          apply windowCount_le
          simp only [maxDataLen, maxPacketLen, lastPacketFlag] at *
          omega
        let m : Message := ⟨ks.packetNumber, cmd, data, hlong, hnum⟩
        have hsplit : ksnSplitPacket ks cmd data =
            ({ ks with packetNumber := ks.packetNumber + 1 },
              (List.range m.num).map m.subPacket) := by
          rw [ksnSplitPacket, if_pos hlong]
          rfl
        have hne : (List.range m.num).map m.subPacket ≠ [] := by
          rw [ne_eq, List.map_eq_nil_iff, List.range_eq_nil]
          exact m.num_pos.ne'
        refine .inr (.inr ⟨hfit, hlong, hvpn, m, rfl, rfl, ?_⟩)
        have hle : data.length ≤ maxPacketLen - maxDataLen := hfit
        rw [ksnCoreSendto, if_pos hle, if_pos hvpn, hsplit]
        dsimp only
        rw [if_pos hne, List.map_map]
        rfl
  · exact .inl ⟨hfit, (ksnCoreSendto_eq_none_iff kc ks cmd data).mpr hfit⟩

/-- Datagrams of commands of `CMD_TRUDP_CHECK` are queued in their order. -/
theorem foldl_ksnTRUDPsendto (s : MeshState) (link : Link) (l : List (UInt8 × List UInt8))
    (h : ∀ d ∈ l, cmdTrudpCheck d.1 = true) :
    l.foldl (fun s d => ksnTRUDPsendto s link d.1 d.2) s =
      { s with channel := Function.update s.channel link (s.channel link ++ l.map Prod.snd) } := by
  induction l generalizing s with
  | nil => simp
  | cons d l ih =>
    obtain ⟨hd, hl⟩ := List.forall_mem_cons.mp h
    rw [List.foldl_cons, ih _ hl, ksnTRUDPsendto, if_pos hd]
    simp [List.append_assoc]

/-! ### The invariant -/

/-- What is left of the message that a receiver is in the middle of. -/
def restDatagrams (net : MeshConfig) (name : CString) : Option (Message × ℕ) → List (List UInt8)
  | none => []
  | some (m, k) => ((List.range m.num).drop k).map (net.subDatagram name m)

/-- What each receiver is in the middle of, for each sender; the commands that are wholly in a
channel; the commands that were sent as plain datagrams. -/
structure MeshGhost where
  sending : CString → Sending
  owed : Link → List Parcel
  plain : Link → List (UInt8 × List UInt8)

/-- The commands of a channel that are still to be dispatched. -/
def MeshGhost.pending (g : MeshGhost) (link : Link) : List (UInt8 × List UInt8) :=
  ((g.sending link.2 link.1).map fun p => (p.1.cmd, p.1.data)).toList ++
    (g.owed link).map Parcel.command

/-- The state is what the ghost says. -/
structure MeshInv (net : MeshConfig) (s : MeshState) (g : MeshGhost) : Prop where
  held : ∀ dst, Held (s.ks dst) (g.sending dst) (some (s.ks dst).lastAdded)
  begun : ∀ {dst src m k}, g.sending dst src = some (m, k) → 0 < k ∧ m.cmd ≠ cmdSplit
  channel : ∀ l : Link, s.channel l = restDatagrams net l.1 (g.sending l.2 l.1) ++
    (g.owed l).flatMap (Parcel.datagrams net l.1)
  owed : ∀ l : Link, ∀ p ∈ g.owed l, l.1.length ≤ 254 ∧ p.Fits
  udp : ∀ l : Link, s.udp l = (g.plain l).map fun c => net.datagram l.1 c.1 c.2
  plain : ∀ l : Link, ∀ c ∈ g.plain l, l.1.length ≤ 254 ∧ c.1 ≠ cmdSplit ∧
    2 + encryptLen (l.1.length + c.2.length + 3) ≤ ksnBufferDbSize

/-- What an event does to the ghost: on each link what is pending and what is sent is what is
delivered and what is pending then. -/
structure Accounts (net : MeshConfig) (g g' : MeshGhost) (e : MeshEvent) (out : List Delivery) :
    Prop where
  channel : ∀ l, g.pending l ++ e.sent l true = out.filterMap (Delivery.on l) ++ g'.pending l
  plain : ∀ l, g'.plain l = g.plain l ++ e.sent l false
  genuine : ∀ d ∈ out, d.Genuine net
  sent : ∀ d ∈ out, d.byChannel = false → (d.rd.cmd, d.rd.data) ∈ g'.plain d.link

/-- Nothing happens. -/
theorem Accounts.idle (g : MeshGhost) {e : MeshEvent} (h : ∀ l b, e.sent l b = []) :
    Accounts net g g e [] where
  channel l := by rw [h, List.append_nil, List.filterMap_nil, List.nil_append]
  plain l := by rw [h, List.append_nil]
  genuine d hd := absurd hd List.not_mem_nil
  sent d hd := absurd hd List.not_mem_nil

/-! ### Sending keeps the invariant -/

variable {s : MeshState} {g : MeshGhost}

/-- Another packet number does not matter to what is held. -/
theorem Held.of_same {ks ks' : KsnSplitClass} {sending : Sending} {last : Option ℚ}
    (h : Held ks sending last) (hmap : ks'.map = ks.map) (hlast : ks'.lastAdded = ks.lastAdded) :
    Held ks' sending last where
  name_le := h.name_le
  last hs := by rw [hlast]; exact h.last hs
  bound := h.bound
  piece hs i hi := by rw [hmap]; exact h.piece hs i hi

/-- A command is queued on a channel. -/
theorem MeshInv.queue (h : MeshInv net s g) {link : Link} {ks : KsnSplitClass} {p : Parcel}
    (hmap : ks.map = (s.ks link.1).map) (hlast : ks.lastAdded = (s.ks link.1).lastAdded)
    (hname : link.1.length ≤ 254) (hfits : p.Fits) :
    MeshInv net
      { s with
          ks := Function.update s.ks link.1 ks
          channel := Function.update s.channel link
            (s.channel link ++ p.datagrams net link.1) }
      { g with owed := Function.update g.owed link (g.owed link ++ [p]) } where
  held dst := by
    dsimp only
    by_cases hdst : dst = link.1
    · subst hdst
      rw [Function.update_self, hlast]
      exact (h.held link.1).of_same hmap hlast
    · rw [Function.update_of_ne hdst]
      exact h.held dst
  begun := h.begun
  channel l := by
    dsimp only
    by_cases hl : l = link
    · subst hl
      rw [Function.update_self, Function.update_self, h.channel l, List.flatMap_append,
        List.append_assoc]
      simp
    · rw [Function.update_of_ne hl, Function.update_of_ne hl]
      exact h.channel l
  owed l := by
    dsimp only
    by_cases hl : l = link
    · subst hl
      rw [Function.update_self]
      intro q hq
      rcases List.mem_append.mp hq with hq | hq
      · exact h.owed l q hq
      · obtain rfl := List.mem_singleton.mp hq
        exact ⟨hname, hfits⟩
    · rw [Function.update_of_ne hl]
      exact h.owed l
  udp := h.udp
  plain := h.plain

/-- What is then pending. -/
theorem MeshGhost.pending_queue (g : MeshGhost) (link l : Link) (p : Parcel) :
    MeshGhost.pending { g with owed := Function.update g.owed link (g.owed link ++ [p]) } l =
      g.pending l ++ if link = l then [p.command] else [] := by
  unfold MeshGhost.pending
  dsimp only
  by_cases hl : link = l
  · subst hl
    rw [Function.update_self, if_pos rfl, List.map_append, List.append_assoc]
    rfl
  · rw [Function.update_of_ne (Ne.symm hl), if_neg hl, List.append_nil]

theorem Accounts.queue (g : MeshGhost) {link : Link} {cmd : UInt8} {data : List UInt8} {p : Parcel}
    (hfit : SendFits data) (hvia : viaChannel cmd data = true) (hp : p.command = (cmd, data)) :
    Accounts net g { g with owed := Function.update g.owed link (g.owed link ++ [p]) }
      (.sendto link cmd data) [] where
  channel l := by
    rw [g.pending_queue, List.filterMap_nil, List.nil_append, MeshEvent.sent, hvia, hp]
    by_cases hl : link = l
    · rw [if_pos hl, if_pos ⟨hl, hfit, rfl⟩]
    · rw [if_neg hl, if_neg fun h => hl h.1]
  plain l := by
    rw [MeshEvent.sent, hvia, if_neg fun h => absurd h.2.2 (by decide), List.append_nil]
  genuine d hd := absurd hd List.not_mem_nil
  sent d hd := absurd hd List.not_mem_nil

/-- A command is sent as a plain datagram. -/
theorem MeshInv.plain_sent (h : MeshInv net s g) {link : Link} {cmd : UInt8} {data : List UInt8}
    (hname : link.1.length ≤ 254) (hcmd : cmd ≠ cmdSplit)
    (hlen : 2 + encryptLen (link.1.length + data.length + 3) ≤ ksnBufferDbSize) :
    MeshInv net
      { s with udp := Function.update s.udp link (s.udp link ++ [net.datagram link.1 cmd data]) }
      { g with plain := Function.update g.plain link (g.plain link ++ [(cmd, data)]) } where
  held := h.held
  begun := h.begun
  channel := h.channel
  owed := h.owed
  udp l := by
    dsimp only
    by_cases hl : l = link
    · subst hl
      rw [Function.update_self, Function.update_self, h.udp l, List.map_append]
      rfl
    · rw [Function.update_of_ne hl, Function.update_of_ne hl]
      exact h.udp l
  plain l := by
    dsimp only
    by_cases hl : l = link
    · subst hl
      rw [Function.update_self]
      intro c hc
      rcases List.mem_append.mp hc with hc | hc
      · exact h.plain l c hc
      · obtain rfl := List.mem_singleton.mp hc
        exact ⟨hname, hcmd, hlen⟩
    · rw [Function.update_of_ne hl]
      exact h.plain l

theorem Accounts.plain_sent (g : MeshGhost) {link : Link} {cmd : UInt8} {data : List UInt8}
    (hfit : SendFits data) (hvia : viaChannel cmd data = false) :
    Accounts net g { g with plain := Function.update g.plain link (g.plain link ++ [(cmd, data)]) }
      (.sendto link cmd data) [] where
  channel l := by
    rw [MeshEvent.sent, hvia, if_neg fun h => absurd h.2.2 (by decide), List.append_nil]
    rfl
  plain l := by
    rw [MeshEvent.sent, hvia]
    dsimp only
    by_cases hl : l = link
    · subst hl
      rw [Function.update_self, if_pos ⟨rfl, hfit, rfl⟩]
    · rw [Function.update_of_ne hl, if_neg fun h => hl h.1.symm, List.append_nil]
  genuine d hd := absurd hd List.not_mem_nil
  sent d hd := absurd hd List.not_mem_nil

theorem encryptLen_small {name data : ℕ} (hname : name ≤ 254) (hdata : data ≤ maxDataLen) :
    2 + encryptLen (name + data + 3) ≤ ksnBufferDbSize := by
  simp only [maxDataLen, encryptLen_eq, blockSize, ksnBufferDbSize] at *
  omega

/-- **Sending**: the command is behind everything that is pending on its link. -/
theorem MeshInv.sendto (h : MeshInv net s g) {link : Link} {cmd : UInt8} {data : List UInt8}
    (hguard : MeshGuard s (.sendto link cmd data)) :
    ∃ g', MeshInv net (meshSendto net s link cmd data) g' ∧
      Accounts net g g' (.sendto link cmd data) [] := by
  obtain ⟨hname, hcmd, hvpn⟩ := hguard
  unfold meshSendto
  rcases ksnCoreSendto_cases (net.core link.1) (s.ks link.1) cmd data with
    ⟨hfit, hsend⟩ | ⟨hfit, hsmall, hsend⟩ | ⟨hfit, hlong, hne, m, rfl, rfl, hsend⟩
  · rw [hsend]
    refine ⟨g, h, .idle g fun l b => ?_⟩
    rw [MeshEvent.sent, if_neg fun hsent => hfit hsent.2.1]
  · rw [hsend]
    dsimp only [List.foldl_cons, List.foldl_nil]
    rw [Function.update_eq_self, ksnTRUDPsendto]
    cases hcheck : cmdTrudpCheck cmd with
    | true =>
      have hvia : viaChannel cmd data = true := by rw [viaChannel, hcheck, Bool.true_or]
      have hdata : data.length ≤ maxDataLen := hsmall.resolve_right fun hc => by
        rw [hc] at hcheck
        exact absurd hcheck (by decide)
      have hinv := h.queue (p := .small cmd data) rfl rfl hname ⟨hcmd, hdata⟩
      rw [Function.update_eq_self] at hinv
      exact ⟨_, hinv, .queue g hfit hvia rfl⟩
    | false =>
      have hvia : viaChannel cmd data = false := by
        rw [viaChannel, hcheck, Bool.false_or]
        rcases hsmall with hdata | hc
        · rw [decide_eq_false (not_lt.mpr hdata), Bool.false_and]
        · rw [hc, bne_self_eq_false, Bool.and_false]
      have hlen : 2 + encryptLen (link.1.length + data.length + 3) ≤ ksnBufferDbSize := by
        rcases hsmall with hdata | hc
        · exact encryptLen_small hname hdata
        · exact hvpn hc
      exact ⟨_, h.plain_sent hname hcmd hlen, .plain_sent g hfit hvia⟩
  · rw [hsend]
    have hvia : viaChannel m.cmd m.data = true := by
      rw [viaChannel, decide_eq_true hlong, Bool.true_and, bne_iff_ne.mpr hne, Bool.or_true]
    have hall : ∀ d ∈ (List.range m.num).map fun i => (cmdSplit,
        sendtoEncrypt (net.core link.1)
          (ksnCoreCreatePacket (net.core link.1).name cmdSplit (splitPayload (m.subPacket i)))),
        cmdTrudpCheck d.1 = true := by
      intro d hd
      obtain ⟨i, -, rfl⟩ := List.mem_map.mp hd
      show cmdTrudpCheck cmdSplit = true
      decide
    dsimp only
    rw [foldl_ksnTRUDPsendto _ _ _ hall, List.map_map]
    exact ⟨_, h.queue (p := .large m) rfl rfl hname hcmd, .queue g hfit hvia rfl⟩

/-! ### Receiving keeps the invariant -/

/-- A packet that is not a sub-packet changes nothing. -/
theorem meshReceive_datagram (net : MeshConfig) (s : MeshState) {link : Link} (byChannel : Bool)
    (now : ℚ) (hname : link.1.length ≤ 254) {cmd : UInt8} {data : List UInt8}
    (hcmd : cmd ≠ cmdSplit) (hlt : link.1.length + data.length + 3 < 65536)
    (after : List UInt8) :
    ∃ d : Delivery, meshReceive net s link byChannel now (net.datagram link.1 cmd data) after =
      (s, [d]) ∧ d.link = link ∧ d.byChannel = byChannel ∧ d.Genuine net ∧
      (d.rd.cmd, d.rd.data) = (cmd, data) := by
  obtain ⟨behind, hprocess⟩ := ksnCoreProcessPacket_datagram net link.2 hname cmd hlt
    (net.addr link.1) (net.port link.1) after
  unfold meshReceive
  rw [hprocess]
  dsimp only
  rw [ksnCommandCheck_ks _ _ _ hcmd, Function.update_eq_self, CheckResult.handled, if_neg hcmd]
  exact ⟨_, rfl, rfl, rfl, ⟨rfl, rfl, rfl⟩, rfl⟩

theorem splitPayload_length_le (m : Message) {i : ℕ} (hi : i < m.num) :
    (splitPayload (m.subPacket i)).length ≤ 4 + (maxDataLen + 1) := by
  have hpiece := splitPiece_length_lt m.cmd m.data i
  have hpayload : splitPayload (m.subPacket i) = _ :=
    splitPayload_subPacket m.cmd m.number m.data hi m.fits
  rw [hpayload, List.length_append, List.length_append, Bytes.le_length, Bytes.le_length]
  omega

/-- What a sub-packet gives. -/
def Arrival.deliveries (a : Arrival) (link : Link) : List Delivery :=
  (a.answer.map fun rd => ⟨link, true, rd⟩).toList

/-- A sub-packet does what `ksnSplitCombine` does with it. -/
theorem meshReceive_subDatagram (net : MeshConfig) (s : MeshState) {link : Link} {a : Arrival}
    (hname : a.name = link.1) (haddr : a.addr = net.addr link.1) (hport : a.port = net.port link.1)
    (hcmd : a.message.cmd ≠ cmdSplit) {ks' : KsnSplitClass}
    (hcombine : ksnSplitCombine a.now (s.ks link.2) a.rd = .ok (ks', a.answer))
    (after : List UInt8) :
    meshReceive net s link true a.now (net.subDatagram link.1 a.message a.index) after =
      ({ s with ks := Function.update s.ks link.2 ks' }, a.deliveries link) := by
  have hle : link.1.length ≤ 254 := hname ▸ a.name_le
  have hpayload := splitPayload_length_le a.message a.index_lt
  have hlt : link.1.length + (splitPayload (a.message.subPacket a.index)).length + 3 < 65536 := by
    simp only [maxDataLen] at hpayload
    omega
  obtain ⟨behind, hprocess⟩ := ksnCoreProcessPacket_datagram net link.2 hle cmdSplit hlt
    (net.addr link.1) (net.port link.1) after
  rw [← haddr, ← hport] at hprocess
  -- the bytes behind the data and the raw packet are not looked at
  have hcombine' : ksnSplitCombine a.now (s.ks link.2) {
      addr := a.addr
      port := a.port
      fromName := link.1
      fromLen := nameLen link.1
      cmd := cmdSplit
      data := splitPayload (a.message.subPacket a.index)
      after := behind
      rawData := ksnCoreCreatePacket link.1 cmdSplit
        (splitPayload (a.message.subPacket a.index)) } = .ok (ks', a.answer) := by
    rw [← hcombine, ← hname]
    rfl
  unfold meshReceive MeshConfig.subDatagram
  rw [← haddr, ← hport, hprocess]
  dsimp only
  by_cases hlast : a.IsLast
  · rw [Arrival.answer, if_pos hlast] at hcombine'
    obtain ⟨hks, hhandled⟩ := ksnCommandCheck_joins (net.other link.2) rfl hcombine' hcmd
    rw [hks, hhandled, Arrival.deliveries, Arrival.answer, if_pos hlast]
  · rw [Arrival.answer, if_neg hlast] at hcombine'
    obtain ⟨hks, hhandled⟩ := ksnCommandCheck_keeps (net.other link.2) rfl hcombine'
    rw [hks, hhandled, Arrival.deliveries, Arrival.answer, if_neg hlast]

theorem ksnSplitCombine_lastAdded {now : ℚ} {ks ks' : KsnSplitClass} {rd : KsnCorePacketData}
    {r : Option KsnCorePacketData} (h : ksnSplitCombine now ks rd = .ok (ks', r)) :
    ks'.lastAdded = now := by
  unfold ksnSplitCombine at h
  dsimp only at h
  split_ifs at h with hshort hlast
  · split at h <;> cases h <;> rfl
  · cases h
    rfl

/-- Where the map is empty, no message is in pieces. -/
theorem MeshInv.gap (h : MeshInv net s g) {dst : CString} {now : ℚ}
    (hguard : (s.ks dst).map.isEmpty = false → now - (s.ks dst).lastAdded ≤ 10) :
    ∃ last, Held (s.ks dst) (g.sending dst) last ∧ ∀ t ∈ last, now - t ≤ 10 := by
  cases hempty : (s.ks dst).map.isEmpty with
  | false =>
    refine ⟨_, h.held dst, fun t ht => ?_⟩
    rw [← Option.some.inj ht]
    exact hguard hempty
  | true =>
    have hmap : (s.ks dst).map = FinMap.empty := by
      rw [FinMap.isEmpty, List.isEmpty_iff] at hempty
      exact AList.ext hempty
    have hnone : g.sending dst = fun _ => none := by
      funext src
      cases hsrc : g.sending dst src with
      | none => rfl
      | some p =>
        have hpiece := (h.held dst).piece hsrc 0 (h.begun hsrc).1
        rw [hmap, FinMap.get_empty] at hpiece
        cases hpiece
    exact ⟨none, hnone ▸ held_start _, fun t ht => absurd ht (Option.not_mem_none t)⟩

/-- The ghost after a sub-packet. -/
def MeshGhost.arrive (g : MeshGhost) (link : Link) (a : Arrival) (owed : List Parcel) :
    MeshGhost where
  sending := Function.update g.sending link.2 ((g.sending link.2).arrive a)
  owed := Function.update g.owed link owed
  plain := g.plain

variable {link : Link} {a : Arrival} {owed : List Parcel}

/-- What a receiver is in the middle of, for the other links. -/
theorem MeshGhost.arrive_sending_of_ne (g : MeshGhost) (hname : a.name = link.1) (owed : List Parcel)
    {l : Link} (hl : l ≠ link) : (g.arrive link a owed).sending l.2 l.1 = g.sending l.2 l.1 := by
  unfold MeshGhost.arrive
  dsimp only
  by_cases hdst : l.2 = link.2
  · have hsrc : l.1 ≠ a.name := fun hsrc => hl (Prod.ext (hsrc.trans hname) hdst)
    rw [hdst, Function.update_self, arrive_of_ne hsrc]
  · rw [Function.update_of_ne hdst]

theorem MeshGhost.arrive_sending_self (g : MeshGhost) (hname : a.name = link.1)
    (owed : List Parcel) : (g.arrive link a owed).sending link.2 link.1 =
      if a.IsLast then none else some (a.message, a.index + 1) := by
  unfold MeshGhost.arrive
  dsimp only
  rw [Function.update_self, ← hname, arrive_self]

@[simp] theorem MeshGhost.arrive_owed_self (g : MeshGhost) (link : Link) (a : Arrival)
    (owed : List Parcel) : (g.arrive link a owed).owed link = owed :=
  Function.update_self ..

theorem MeshGhost.arrive_owed_of_ne (g : MeshGhost) (a : Arrival) (owed : List Parcel) {l : Link}
    (hl : l ≠ link) : (g.arrive link a owed).owed l = g.owed l :=
  Function.update_of_ne hl ..

/-- The datagrams behind a sub-packet. -/
theorem restDatagrams_arrive (net : MeshConfig) (name : CString) (a : Arrival) :
    restDatagrams net name (if a.IsLast then none else some (a.message, a.index + 1)) =
      ((List.range a.message.num).drop (a.index + 1)).map (net.subDatagram name a.message) := by
  by_cases hlast : a.IsLast
  · have hnum : a.index + 1 = a.message.num := hlast
    rw [if_pos hlast, hnum, List.drop_of_length_le (by rw [List.length_range])]
    rfl
  · rw [if_neg hlast]
    rfl

/-- The receiver has one more sub-packet. -/
theorem MeshInv.arrive (h : MeshInv net s g) (hname : a.name = link.1) {ks' : KsnSplitClass}
    (hheld : Held ks' ((g.sending link.2).arrive a) (some a.now)) (hlast : ks'.lastAdded = a.now)
    (hcmd : a.message.cmd ≠ cmdSplit) (howed : ∀ p ∈ owed, p ∈ g.owed link) :
    MeshInv net
      { s with
          ks := Function.update s.ks link.2 ks'
          channel := Function.update s.channel link
            (((List.range a.message.num).drop (a.index + 1)).map
              (net.subDatagram link.1 a.message) ++
              owed.flatMap (Parcel.datagrams net link.1)) }
      (g.arrive link a owed) where
  held dst := by
    unfold MeshGhost.arrive
    dsimp only
    by_cases hdst : dst = link.2
    · subst hdst
      rw [Function.update_self, Function.update_self, hlast]
      exact hheld
    · rw [Function.update_of_ne hdst, Function.update_of_ne hdst]
      exact h.held dst
  begun := by
    intro dst src m k hsend
    by_cases hl : (src, dst) = link
    · obtain ⟨rfl, rfl⟩ := Prod.mk.inj hl
      rw [g.arrive_sending_self hname] at hsend
      split_ifs at hsend
      obtain ⟨rfl, rfl⟩ := Prod.mk.inj (Option.some.inj hsend)
      exact ⟨Nat.succ_pos _, hcmd⟩
    · have hsame := g.arrive_sending_of_ne hname owed hl
      exact h.begun (hsame.symm.trans hsend)
  channel l := by
    dsimp only
    by_cases hl : l = link
    · subst hl
      rw [Function.update_self, g.arrive_sending_self hname, restDatagrams_arrive,
        g.arrive_owed_self]
    · rw [Function.update_of_ne hl, g.arrive_sending_of_ne hname owed hl, h.channel l,
        g.arrive_owed_of_ne a owed hl]
  owed l := by
    by_cases hl : l = link
    · subst hl
      rw [g.arrive_owed_self]
      exact fun p hp => h.owed l p (howed p hp)
    · rw [g.arrive_owed_of_ne a owed hl]
      exact h.owed l
  udp := h.udp
  plain := h.plain

theorem Accounts.arrive (net : MeshConfig) (g : MeshGhost) (hname : a.name = link.1)
    (haddr : a.addr = net.addr link.1) (hport : a.port = net.port link.1)
    (hpending : g.pending link = (a.message.cmd, a.message.data) :: owed.map Parcel.command)
    (now : ℚ) (after : List UInt8) :
    Accounts net g (g.arrive link a owed) (.gotData link now after) (a.deliveries link) where
  channel l := by
    rw [MeshEvent.sent_gotData, List.append_nil, Arrival.deliveries, Arrival.answer]
    by_cases hl : l = link
    · subst hl
      rw [hpending, MeshGhost.pending, g.arrive_sending_self hname, g.arrive_owed_self]
      by_cases hlast : a.IsLast
      · rw [if_pos hlast, if_pos hlast]
        simp [Delivery.on]
      · rw [if_neg hlast, if_neg hlast]
        simp
    · have hpend : (g.arrive link a owed).pending l = g.pending l := by
        rw [MeshGhost.pending, g.arrive_sending_of_ne hname owed hl,
          g.arrive_owed_of_ne a owed hl]
        rfl
      rw [hpend]
      by_cases hlast : a.IsLast
      · rw [if_pos hlast]
        simp [Delivery.on, Ne.symm hl]
      · rw [if_neg hlast]
        simp
  plain l := by
    rw [MeshEvent.sent_gotData, List.append_nil]
    rfl
  genuine d hd := by
    rw [Arrival.deliveries, Arrival.answer] at hd
    by_cases hlast : a.IsLast
    · rw [if_pos hlast] at hd
      obtain rfl := List.mem_singleton.mp hd
      exact ⟨hname, haddr, hport⟩
    · rw [if_neg hlast] at hd
      exact absurd hd List.not_mem_nil
  sent d hd hchannel := by
    rw [Arrival.deliveries, Option.toList_map] at hd
    obtain ⟨rd, -, rfl⟩ := List.mem_map.mp hd
    cases hchannel

theorem meshStep_gotData {d : List UInt8} {rest : List (List UInt8)}
    (h : s.channel link = d :: rest) (now : ℚ) (after : List UInt8) :
    meshStep net s (.gotData link now after) =
      meshReceive net { s with channel := Function.update s.channel link rest } link true now d
        after := by
  rw [meshStep, h]

/-- A sub-packet arrives. -/
theorem MeshInv.gotData_sub (h : MeshInv net s g) {after : List UInt8}
    (hguard : MeshGuard s (.gotData link a.now after)) (hname : a.name = link.1)
    (haddr : a.addr = net.addr link.1) (hport : a.port = net.port link.1)
    (hcmd : a.message.cmd ≠ cmdSplit)
    (horder : a.index = 0 ∨ g.sending link.2 a.name = some (a.message, a.index))
    (howed : ∀ p ∈ owed, p ∈ g.owed link)
    (hpending : g.pending link = (a.message.cmd, a.message.data) :: owed.map Parcel.command)
    (hchannel : s.channel link =
      ((List.range a.message.num).drop a.index).map (net.subDatagram link.1 a.message) ++
        owed.flatMap (Parcel.datagrams net link.1)) :
    ∃ g', MeshInv net (meshStep net s (.gotData link a.now after)).1 g' ∧
      Accounts net g g' (.gotData link a.now after)
        (meshStep net s (.gotData link a.now after)).2 := by
  obtain ⟨last, hheld, hgap⟩ := h.gap hguard
  obtain ⟨ks', hcombine, hheld', -⟩ := ksnSplitCombine_arrival hheld horder hgap
  have hdrop : (List.range a.message.num).drop a.index =
      a.index :: (List.range a.message.num).drop (a.index + 1) := by
    rw [List.drop_eq_getElem_cons (by rw [List.length_range]; exact a.index_lt),
      List.getElem_range]
  rw [hdrop, List.map_cons, List.cons_append] at hchannel
  have hreceive := meshReceive_subDatagram net
    { s with
      channel := Function.update s.channel link
        (((List.range a.message.num).drop (a.index + 1)).map (net.subDatagram link.1 a.message) ++
          owed.flatMap (Parcel.datagrams net link.1)) }
    hname haddr hport hcmd hcombine after
  rw [(meshStep_gotData hchannel a.now after).trans hreceive]
  exact ⟨_, h.arrive hname hheld' (ksnSplitCombine_lastAdded hcombine) hcmd howed,
    .arrive net g hname haddr hport hpending a.now after⟩

/-- The receiver is in the middle of nothing, and one packet is next. -/
theorem MeshInv.gotData_small (h : MeshInv net s g) {link : Link} (now : ℚ)
    (hsend : g.sending link.2 link.1 = none) {cmd : UInt8} {data : List UInt8}
    {owed : List Parcel} (howed : g.owed link = .small cmd data :: owed) (after : List UInt8) :
    ∃ g', MeshInv net (meshStep net s (.gotData link now after)).1 g' ∧
      Accounts net g g' (.gotData link now after) (meshStep net s (.gotData link now after)).2 := by
  obtain ⟨hname, hcmd, hdata⟩ := h.owed link (.small cmd data) (by rw [howed]; simp)
  have hlt : link.1.length + data.length + 3 < 65536 := by
    simp only [maxDataLen] at hdata
    omega
  have hchannel := h.channel link
  rw [hsend, howed, List.flatMap_cons] at hchannel
  obtain ⟨d, hreceive, hlink, hby, hgenuine, hrd⟩ := meshReceive_datagram net
    { s with
      channel := Function.update s.channel link
        (owed.flatMap (Parcel.datagrams net link.1)) } true now hname hcmd hlt after
  rw [(meshStep_gotData hchannel now after).trans hreceive]
  refine ⟨{ g with owed := Function.update g.owed link owed }, ?_, ?_⟩
  · refine ⟨h.held, h.begun, fun l => ?_, fun l => ?_, h.udp, h.plain⟩
    · dsimp only
      by_cases hl : l = link
      · subst hl
        rw [Function.update_self, Function.update_self, hsend]
        rfl
      · rw [Function.update_of_ne hl, Function.update_of_ne hl]
        exact h.channel l
    · dsimp only
      by_cases hl : l = link
      · subst hl
        rw [Function.update_self]
        exact fun p hp => h.owed l p (by rw [howed]; exact List.mem_cons_of_mem _ hp)
      · rw [Function.update_of_ne hl]
        exact h.owed l
  · refine ⟨fun l => ?_, fun l => ?_, fun d' hd' => ?_, fun d' hd' hplain => ?_⟩
    · rw [MeshEvent.sent_gotData, List.append_nil, MeshGhost.pending, MeshGhost.pending]
      dsimp only
      by_cases hl : l = link
      · subst hl
        rw [Function.update_self, howed, hsend]
        simp [Delivery.on, hlink, hby, hrd, Parcel.command]
      · rw [Function.update_of_ne hl]
        simp [Delivery.on, hlink, Ne.symm hl]
    · rw [MeshEvent.sent_gotData, List.append_nil]
    · obtain rfl := List.mem_singleton.mp hd'
      exact hgenuine
    · obtain rfl := List.mem_singleton.mp hd'
      rw [hby] at hplain
      cases hplain

/-- **The next datagram of a channel arrives**. -/
theorem MeshInv.gotData (h : MeshInv net s g) {link : Link} {now : ℚ} {after : List UInt8}
    (hguard : MeshGuard s (.gotData link now after)) :
    ∃ g', MeshInv net (meshStep net s (.gotData link now after)).1 g' ∧
      Accounts net g g' (.gotData link now after) (meshStep net s (.gotData link now after)).2 := by
  have hchannel := h.channel link
  cases hsend : g.sending link.2 link.1 with
  | some p =>
    obtain ⟨m, k⟩ := p
    rw [hsend] at hchannel
    refine h.gotData_sub (a := ⟨now, net.addr link.1, net.port link.1, link.1, m, k,
      (h.held link.2).name_le hsend, (h.held link.2).bound hsend⟩) hguard rfl rfl rfl
      (h.begun hsend).2 (.inr hsend) (fun p hp => hp) ?_ hchannel
    rw [MeshGhost.pending, hsend]
    rfl
  | none =>
    rw [hsend] at hchannel
    cases howed : g.owed link with
    | nil =>
      rw [howed] at hchannel
      have hstep : meshStep net s (.gotData link now after) = (s, []) := by
        rw [meshStep, hchannel]
        rfl
      rw [hstep]
      exact ⟨g, h, .idle g fun l b => rfl⟩
    | cons p owed =>
      have hfits := h.owed link p (by rw [howed]; exact List.mem_cons_self)
      cases p with
      | small cmd data => exact h.gotData_small now hsend howed after
      | large m =>
        rw [howed, List.flatMap_cons] at hchannel
        refine h.gotData_sub (a := ⟨now, net.addr link.1, net.port link.1, link.1, m, 0, hfits.1,
          m.num_pos⟩) hguard rfl rfl rfl hfits.2 (.inl rfl)
          (fun p hp => by rw [howed]; exact List.mem_cons_of_mem _ hp) ?_ hchannel
        rw [MeshGhost.pending, hsend, howed]
        rfl

/-- **A plain datagram arrives**: nothing changes. -/
theorem MeshInv.gotDataNoTrudp (h : MeshInv net s g) (link : Link) (now : ℚ)
    (after : List UInt8) (i : ℕ) :
    ∃ g', MeshInv net (meshStep net s (.gotDataNoTrudp link now after i)).1 g' ∧
      Accounts net g g' (.gotDataNoTrudp link now after i)
        (meshStep net s (.gotDataNoTrudp link now after i)).2 := by
  rw [meshStep]
  cases hd : (s.udp link)[i]? with
  | none => exact ⟨g, h, .idle g fun l b => rfl⟩
  | some d =>
    have hmem := List.mem_of_getElem? hd
    rw [h.udp link] at hmem
    obtain ⟨c, hc, rfl⟩ := List.mem_map.mp hmem
    obtain ⟨hname, hcmd, hfits⟩ := h.plain link c hc
    have htake : (net.datagram link.1 c.1 c.2).take ksnBufferDbSize =
        net.datagram link.1 c.1 c.2 := by
      rw [List.take_of_length_le]
      rw [net.datagram_length hname]
      exact hfits
    have hlt : link.1.length + c.2.length + 3 < 65536 := by
      simp only [encryptLen_eq, blockSize, ksnBufferDbSize] at hfits
      omega
    obtain ⟨d, hreceive, hlink, hby, hgenuine, hrd⟩ :=
      meshReceive_datagram net s false now hname hcmd hlt after
    dsimp only
    rw [htake, hreceive]
    refine ⟨g, h, ⟨fun l => ?_, fun l => ?_, fun d' hd' => ?_, fun d' hd' _ => ?_⟩⟩
    · simp [Delivery.on, hby]
    · rw [MeshEvent.sent_gotDataNoTrudp, List.append_nil]
    · obtain rfl := List.mem_singleton.mp hd'
      exact hgenuine
    · obtain rfl := List.mem_singleton.mp hd'
      rw [hrd, hlink]
      exact hc

/-- **One event** of the mesh. -/
theorem MeshInv.step (h : MeshInv net s g) {e : MeshEvent} (hguard : MeshGuard s e) :
    ∃ g', MeshInv net (meshStep net s e).1 g' ∧ Accounts net g g' e (meshStep net s e).2 := by
  cases e with
  | sendto link cmd data => exact h.sendto hguard
  | gotData link now after => exact h.gotData hguard
  | gotDataNoTrudp link now after i => exact h.gotDataNoTrudp link now after i

/-! ### Runs -/

/-- The state after an event. -/
def meshNext (net : MeshConfig) (s : MeshState) (e : MeshEvent) : MeshState := (meshStep net s e).1

/-- Nothing is in transit; the classes of the hosts may be any. -/
def meshStart (ks : CString → KsnSplitClass) : MeshState where
  ks := ks
  channel _ := []
  udp _ := []

theorem MeshInv.start (net : MeshConfig) (ks : CString → KsnSplitClass) :
    MeshInv net (meshStart ks) ⟨fun _ _ => none, fun _ => [], fun _ => []⟩ where
  held dst := by
    constructor <;> intros <;> contradiction
  begun h := nomatch h
  channel l := rfl
  owed l p hp := absurd hp List.not_mem_nil
  udp l := rfl
  plain l c hc := absurd hc List.not_mem_nil

theorem sentOn_cons (l : Link) (byChannel : Bool) (e : MeshEvent) (es : List MeshEvent) :
    sentOn l byChannel (e :: es) = e.sent l byChannel ++ sentOn l byChannel es :=
  List.flatMap_cons ..

/-- **Runs** account for every command. -/
theorem MeshInv.run {es : List MeshEvent} (h : MeshInv net s g)
    (hguard : Always MeshGuard (meshNext net) s es) :
    ∃ g', MeshInv net (es.foldl (meshNext net) s) g' ∧
      (∀ l, g.pending l ++ sentOn l true es =
        (outputs (meshStep net) s es).filterMap (Delivery.on l) ++ g'.pending l) ∧
      (∀ l, g'.plain l = g.plain l ++ sentOn l false es) ∧
      ∀ d ∈ outputs (meshStep net) s es, d.Genuine net ∧
        (d.byChannel = false → (d.rd.cmd, d.rd.data) ∈ g'.plain d.link) := by
  induction es generalizing s g with
  | nil =>
    refine ⟨g, h, fun l => ?_, fun l => ?_, fun d hd => absurd hd List.not_mem_nil⟩
    · exact List.append_nil _
    · exact (List.append_nil _).symm
  | cons e es ih =>
    obtain ⟨g₁, hinv, hstep⟩ := h.step hguard.1
    obtain ⟨g', hinv', hchannel, hplain, hout⟩ := ih hinv hguard.2
    refine ⟨g', hinv', fun l => ?_, fun l => ?_, fun d hd => ?_⟩
    · rw [sentOn_cons, ← List.append_assoc, hstep.channel l, List.append_assoc, hchannel l, outputs,
        List.filterMap_append, List.append_assoc]
    · rw [hplain l, hstep.plain l, sentOn_cons, List.append_assoc]
    · rcases List.mem_append.mp hd with hd | hd
      · refine ⟨hstep.genuine d hd, fun hby => ?_⟩
        rw [hplain]
        exact List.mem_append_left _ (hstep.sent d hd hby)
      · exact hout d hd

/-- A channel from the host `name` holds the commands `owed`, and nothing else: the last datagrams of
a message of which the receiver has got the first ones, then the datagrams of the other commands. -/
def ChannelHolds (net : MeshConfig) (name : CString) (channel : List (List UInt8))
    (owed : List (UInt8 × List UInt8)) : Prop :=
  ∃ (part : Option (Message × ℕ)) (parcels : List Parcel),
    owed = (part.map fun p => (p.1.cmd, p.1.data)).toList ++ parcels.map Parcel.command ∧
    channel = restDatagrams net name part ++ parcels.flatMap (Parcel.datagrams net name) ∧
    ∀ m k, part = some (m, k) → 0 < k ∧ k < m.num

theorem Parcel.datagrams_ne_nil (net : MeshConfig) (name : CString) (p : Parcel) :
    p.datagrams net name ≠ [] := by
  cases p with
  | small cmd data => exact List.cons_ne_nil _ _
  | large m =>
    intro h
    rw [Parcel.datagrams, List.map_eq_nil_iff, List.range_eq_nil] at h
    exact m.num_pos.ne' h

/-- A command that is owed has a datagram in the channel. -/
theorem ChannelHolds.length_le {name : CString} {channel : List (List UInt8)}
    {owed : List (UInt8 × List UInt8)} (h : ChannelHolds net name channel owed) :
    owed.length ≤ channel.length := by
  obtain ⟨part, parcels, rfl, rfl, hpart⟩ := h
  have hparcels : parcels.length ≤ (parcels.flatMap (Parcel.datagrams net name)).length := by
    rw [List.length_flatMap, ← List.length_map fun p : Parcel => (p.datagrams net name).length]
    refine List.length_le_sum_of_one_le _ fun n hn => ?_
    obtain ⟨p, -, rfl⟩ := List.mem_map.mp hn
    exact List.length_pos_of_ne_nil (p.datagrams_ne_nil net name)
  cases part with
  | none => simpa [restDatagrams] using hparcels
  | some p =>
    have hlt := (hpart p.1 p.2 rfl).2
    simp only [Option.map_some, Option.toList_some, List.length_append, List.length_singleton,
      List.length_map, restDatagrams, List.length_drop, List.length_range]
    omega

theorem MeshInv.holds (h : MeshInv net s g) (l : Link) : ChannelHolds net l.1 (s.channel l) (g.pending l) :=
  ⟨g.sending l.2 l.1, g.owed l, rfl, h.channel l,
    fun _ _ hsend => ⟨(h.begun hsend).1, (h.held l.2).bound hsend⟩⟩

/-- **The mesh delivers**: in every run, on each link the commands that travel by channel are
dispatched in the order in which they were sent, each once, and the channel holds those that have not
been, all their datagrams but those that the receiver has collected; whatever is dispatched names its
sender, and what came as a plain datagram was sent as one. -/
theorem mesh_delivers (net : MeshConfig) (ks : CString → KsnSplitClass) (es : List MeshEvent)
    (h : Always MeshGuard (meshNext net) (meshStart ks) es) :
    (∀ link, ∃ owed, sentOn link true es =
        (outputs (meshStep net) (meshStart ks) es).filterMap (Delivery.on link) ++ owed ∧
      ChannelHolds net link.1 ((es.foldl (meshNext net) (meshStart ks)).channel link) owed) ∧
    ∀ d ∈ outputs (meshStep net) (meshStart ks) es, d.Genuine net ∧
      (d.byChannel = false → (d.rd.cmd, d.rd.data) ∈ sentOn d.link false es) := by
  obtain ⟨g', hinv, hchannel, hplain, hout⟩ := (MeshInv.start net ks).run h
  refine ⟨fun link => ⟨g'.pending link, hchannel link, hinv.holds link⟩, fun d hd => ?_⟩
  obtain ⟨hgenuine, hsent⟩ := hout d hd
  refine ⟨hgenuine, fun hby => ?_⟩
  rw [← List.nil_append (sentOn d.link false es)]
  exact hplain d.link ▸ hsent hby

/-- When a channel is empty all that was sent on it has been dispatched. -/
theorem ChannelHolds.eq_nil {name : CString} {owed : List (UInt8 × List UInt8)}
    (h : ChannelHolds net name [] owed) : owed = [] :=
  List.length_eq_zero_iff.mp (Nat.le_zero.mp h.length_le)

theorem blockSize_pos : 0 < blockSize := by decide

theorem blockSize_lt : blockSize < 256 := by decide

/-- Two hosts. -/
def sampleMesh : MeshConfig where
  cipher := PaddedCipher.mask blockSize_pos blockSize_lt 90
  addr name := name
  port _ := 9000
  other _ _ := 0

/-- The host `a` sends large data and an echo request to `b`, which sends a plain datagram back and
itself large data under the same packet number. -/
def sampleMeshRun : List MeshEvent :=
  let a := CString.ofBuf [97]
  let b := CString.ofBuf [98]
  [.sendto (a, b) 129 (List.replicate 449 1), .sendto (b, a) 129 (List.replicate 449 2),
    .gotData (a, b) 0 [], .sendto (b, a) 195 [3], .gotData (b, a) 1 [],
    .sendto (a, b) cmdEcho [4], .gotDataNoTrudp (b, a) 2 [] 0, .gotData (a, b) 3 [7, 7],
    .gotDataNoTrudp (b, a) 4 [] 0, .gotData (b, a) 5 [], .gotData (a, b) 20 []]

theorem mesh_delivers_sample :
    (∀ link, ∃ owed, sentOn link true sampleMeshRun =
        (outputs (meshStep sampleMesh) (meshStart fun _ => {}) sampleMeshRun).filterMap
          (Delivery.on link) ++ owed ∧
      ChannelHolds sampleMesh link.1
        ((sampleMeshRun.foldl (meshNext sampleMesh) (meshStart fun _ => {})).channel link) owed) ∧
    ∀ d ∈ outputs (meshStep sampleMesh) (meshStart fun _ => {}) sampleMeshRun,
      d.Genuine sampleMesh ∧
      (d.byChannel = false → (d.rd.cmd, d.rd.data) ∈ sentOn d.link false sampleMeshRun) :=
  mesh_delivers sampleMesh (fun _ => {}) sampleMeshRun (by decide +kernel)

end Teonet
