import Teonet.Lib.Alternation
import Teonet.PeersTable

/-! # Presence events

The subscribers of a host are told when a peer connects and when it disconnects.  `EV_K_CONNECTED`
comes from `cmd_host_info_answer_cb`, for a peer without a type in its record, and from
`cmd_connect_r_cb`, for a peer behind a TCP proxy; `EV_K_DISCONNECTED` comes from
`cmd_disconnected_cb`.

Nothing in the table says whether a peer has been announced.  While every event meets
`PresenceGuard` it is told by the type: a peer with a type has been announced, and no other
(`peersHandle_turns`).  `presence_of_run` draws the consequences for runs. -/

namespace Teonet

open Alternation Runs

/-! ### What the subscribers are told -/

/-- The type of a peer is known. -/
def typed (s : Peers) (n : CString) : Bool := ((s.arp.get n).bind ArpData.type).isSome

/-- What the subscribers are told about a peer. -/
def presenceOf (n : CString) (calls : List PeerCall) : List PeerEv :=
  calls.filterMap fun
    | .subscribers ev name => if name = n then some ev else none
    | _ => none

/-- What the subscribers are told about a peer in a run. -/
def presence (env : PeersEnv) (n : CString) : Peers → List PeersEvent → List PeerEv :=
  outputs fun s e => ((peersHandle env s e).1, presenceOf n (peersHandle env s e).2)

/-- The data of a `CMD_HOST_INFO_ANSWER` are taken for binary. -/
def BinaryAnswer (rd : KsnCorePacketData) : Prop :=
  rd.data ≠ [] ∧ rd.data.head? ≠ some 123 ∧ rd.data.getLast? ≠ some 125

instance (rd : KsnCorePacketData) : Decidable (BinaryAnswer rd) :=
  inferInstanceAs (Decidable (_ ∧ _ ∧ _))

/-- The packet of the event acts as an answer of the peer to `CMD_HOST_INFO`. -/
def Answers (n : CString) (_s : Peers) : PeersEvent → Prop
  | .packet rd combined =>
    ∃ d, dispatched rd combined = some d ∧ d.cmd = cmdHostInfoAnswer ∧ d.fromName = n
  | _ => False

/-- The event leaves a record under the name. -/
def KeepsRecord (env : PeersEnv) (n : CString) (s : Peers) (e : PeersEvent) : Prop :=
  (peersHandle env s e).1.arp.get n ≠ none

/-! ### The condition -/

/-- The condition on a received packet. -/
structure PacketPresence (s : Peers) (rd : KsnCorePacketData)
    (combined : List (UInt8 × List UInt8 × List UInt8)) : Prop where
  /-- a peer asks this host to be its r-host without addresses when that is its first packet,
  which was not split, and only then -/
  connectR : ∀ d, dispatched rd combined = some d → d.cmd = cmdConnectR →
    d.fromName ≠ s.hostName →
    (connectRIpCounts d = 0 ↔ rd.cmd = cmdConnectR ∧ s.arp.get d.fromName = none)
  /-- a peer says only of itself that it is gone, and when its type is known -/
  goodbye : ∀ d, dispatched rd combined = some d → d.cmd = cmdDisconnected →
    disconnectedPeer d = d.fromName ∧ (d.fromName ≠ s.hostName → typed s d.fromName = true)
  /-- the host info of a peer without a type is binary -/
  answer : ∀ d, dispatched rd combined = some d → d.cmd = cmdHostInfoAnswer →
    d.fromName ≠ s.hostName → BinaryAnswer d ∨ typed s d.fromName = true

/-- The condition on an event: a peer that is removed for its silence has a type, and when the
connection to the TCP proxy ends no peer has. -/
def PresenceGuard (s : Peers) : PeersEvent → Prop
  | .packet rd combined => PacketPresence s rd combined
  | .tcpClosed => s.rTcpF = true → s.fdClient > 0 → ∀ n, n ≠ s.hostName → typed s n = false
  | e => ∀ name a, SilentPeer s name a e → 0 ≤ a.mode → name ≠ s.hostName → typed s name = true

/-! ### What one function tells -/

variable {env : PeersEnv} {s : Peers} {rd : KsnCorePacketData} {n : CString}

theorem presenceOf_append (n : CString) (l l' : List PeerCall) :
    presenceOf n (l ++ l') = presenceOf n l ++ presenceOf n l' :=
  List.filterMap_append

/-- Calls that are not for the subscribers. -/
theorem presenceOf_eq_nil {calls : List PeerCall} (h : TellsNobody calls) :
    presenceOf n calls = [] := by
  refine List.filterMap_eq_nil_iff.mpr fun c hc => ?_
  cases c with
  | subscribers ev name => exact absurd rfl (h _ hc ev name)
  | _ => rfl

/-- An event is told to the application and to the subscribers. -/
theorem presenceOf_told (ev : PeerEv) (name : CString) :
    presenceOf n [.event ev name, .subscribers ev name] = if n = name then [ev] else [] := by
  by_cases hn : n = name
  · subst hn
    simp [presenceOf]
  · simp [presenceOf, hn, Ne.symm hn]

theorem presenceOf_sendCmdConnectCb (arp : KsnetArpClass) (name addr : CString) (port : ℕ) :
    presenceOf n (sendCmdConnectCb env arp name addr port) = [] := by
  refine presenceOf_eq_nil fun c hc ev m => ?_
  obtain ⟨p, -, rfl⟩ := List.mem_map.mp hc
  simp

theorem presenceOf_sendCmdConnectCbB (arp : KsnetArpClass) (name addr : CString) (port : ℕ) :
    presenceOf n (sendCmdConnectCbB env arp name addr port) = [] := by
  refine presenceOf_eq_nil fun c hc ev m => ?_
  obtain ⟨p, -, rfl⟩ := List.mem_map.mp hc
  simp

theorem presenceOf_ksnCoreCheckNewPeer :
    presenceOf n (ksnCoreCheckNewPeer env s rd).2 = [] := by
  unfold ksnCoreCheckNewPeer
  cases s.arp.get rd.fromName with
  | none =>
    dsimp only
    split_ifs
    · rw [← List.singleton_append, presenceOf_append, presenceOf_append,
        presenceOf_sendCmdConnectCb, presenceOf_sendCmdConnectCbB]
      rfl
    · rfl
  | some a =>
    dsimp only
    split_ifs <;> rfl

/-- A peer with addresses is not announced. -/
theorem presenceOf_cmdConnectRCb_udp (h : connectRIpCounts rd ≠ 0) :
    presenceOf n (cmdConnectRCb env s rd).2 = [] := by
  unfold cmdConnectRCb
  rw [if_pos h]
  dsimp only
  rw [← List.singleton_append, presenceOf_append, presenceOf_append, presenceOf_sendCmdConnectCb,
    presenceOf_sendCmdConnectCbB]
  rfl

/-- A peer behind a TCP proxy is. -/
theorem presenceOf_cmdConnectRCb_tcp {a : ArpData} (h : connectRIpCounts rd = 0)
    (hget : s.arp.get rd.fromName = some a) :
    presenceOf n (cmdConnectRCb env s rd).2 = if n = rd.fromName then [.connected] else [] := by
  have hmode : (s.arp.modify rd.fromName fun a => { a with mode := 2 }).get rd.fromName =
      some { a with mode := 2 } := by
    rw [FinMap.get_modify, if_pos rfl, hget]
    rfl
  have hlocal : ∀ (addrs : List CString) (tell : CString → List PeerCall),
      (∀ addr, presenceOf n (tell addr) = []) → presenceOf n (addrs.flatMap tell) = [] := by
    intro addrs tell htell
    induction addrs with
    | nil => rfl
    | cons addr addrs ih => rw [List.flatMap_cons, presenceOf_append, htell, ih, List.append_nil]
  unfold cmdConnectRCb
  rw [if_neg (not_not_intro h)]
  dsimp only
  rw [hmode]
  dsimp only
  rw [← List.singleton_append, presenceOf_append, presenceOf_append, presenceOf_append,
    presenceOf_sendCmdConnectCb, hlocal _ _ fun _ => presenceOf_sendCmdConnectCb _ _ _ _,
    presenceOf_told, List.append_nil, List.nil_append]
  rfl

theorem presenceOf_cmdConnectCb : presenceOf n (cmdConnectCb s rd) = [] := by
  unfold cmdConnectCb
  dsimp only
  split <;> rfl

theorem presenceOf_cmdDisconnectedCb :
    presenceOf n (cmdDisconnectedCb s rd).2 = if n = rd.fromName then [.disconnected] else [] := by
  unfold cmdDisconnectedCb
  dsimp only
  rw [presenceOf_append]
  have hreconnect : presenceOf n (if s.rHostName ≠ CString.empty ∧ s.rHostName = rd.fromName then []
      else [.reconnect (disconnectedPeer rd)]) = [] := by
    split_ifs <;> rfl
  rw [hreconnect, List.nil_append, presenceOf_told]

/-- A peer is announced when it gets its type. -/
theorem cmdHostInfoAnswerCb_presence (env : PeersEnv) (s : Peers) (rd : KsnCorePacketData)
    (n : CString) :
    ((cmdHostInfoAnswerCb env s rd) = (s, []) ∧
        (BinaryAnswer rd → ∀ a, s.arp.get rd.fromName = some a → a.type ≠ none)) ∨
      (typed s rd.fromName = false ∧
        typed (cmdHostInfoAnswerCb env s rd).1 rd.fromName = true ∧
        presenceOf n (cmdHostInfoAnswerCb env s rd).2 =
          if n = rd.fromName then [.connected] else []) := by
  unfold cmdHostInfoAnswerCb
  split
  · rename_i addr port mode hget
    by_cases hbinary : rd.data ≠ [] ∧ rd.data.head? ≠ some 123 ∧ rd.data.getLast? ≠ some 125
    · rw [if_pos hbinary]
      refine Or.inr ⟨by rw [typed, hget]; rfl, ?_, presenceOf_told _ _⟩
      rw [typed, FinMap.get_add_self]
      rfl
    · rw [if_neg hbinary]
      exact Or.inl ⟨rfl, fun h => absurd h hbinary⟩
  · rename_i hother
    refine Or.inl ⟨rfl, fun _ a hget htype => ?_⟩
    obtain ⟨addr, port, mode, type⟩ := a
    obtain rfl : type = none := htype
    exact hother addr port mode hget

/-! ### Types -/

theorem typed_eq_true {a : ArpData} (hget : s.arp.get n = some a) (htype : a.type ≠ none) :
    typed s n = true := by
  rw [typed, hget]
  exact Option.isSome_iff_ne_none.mpr htype

theorem typed_eq_false (h : s.arp.get n = none) : typed s n = false := by
  rw [typed, h]
  rfl

theorem typed_congr {s' : Peers} (h : s'.arp.get n = s.arp.get n) : typed s' n = typed s n := by
  rw [typed, h, typed]

/-- The new-peer check gives a type to a new peer that asks this host to be its r-host. -/
theorem typed_ksnCoreCheckNewPeer (env : PeersEnv) (s : Peers) (rd : KsnCorePacketData)
    (n : CString) :
    typed (ksnCoreCheckNewPeer env s rd).1 n =
      (typed s n || decide (n = rd.fromName ∧ s.arp.get rd.fromName = none ∧
        rd.cmd = cmdConnectR)) := by
  by_cases hn : n = rd.fromName
  · subst hn
    cases hold : s.arp.get rd.fromName with
    | none =>
      obtain ⟨mode, -, hnew⟩ := ksnCoreCheckNewPeer_get_new env s rd hold
      rw [typed_eq_false hold, typed, hnew]
      by_cases hcmd : rd.cmd = cmdConnectR <;> simp [newArpData, hcmd]
    | some a =>
      rw [typed, ksnCoreCheckNewPeer_get_known env s rd hold, typed, hold]
      split_ifs <;> simp
  · rw [typed_congr (ksnCoreCheckNewPeer_get_of_ne env s rd n hn)]
    simp [hn]

theorem typed_cmdConnectRCb : typed (cmdConnectRCb env s rd).1 n = typed s n := by
  rw [typed, cmdConnectRCb_get, typed]
  split_ifs
  · cases s.arp.get n <;> rfl
  · rfl

theorem typed_cmdDisconnectedCb :
    typed (cmdDisconnectedCb s rd).1 n = (decide (n ≠ disconnectedPeer rd) && typed s n) := by
  rw [typed, cmdDisconnectedCb_get, typed]
  split_ifs with hn <;> simp [hn]

/-- An answer changes no other peer. -/
theorem typed_cmdHostInfoAnswerCb_of_ne (h : n ≠ rd.fromName) :
    typed (cmdHostInfoAnswerCb env s rd).1 n = typed s n := by
  rcases cmdHostInfoAnswerCb_get env s rd n with hsame | ⟨hn, -⟩
  · exact typed_congr hsame
  · exact absurd hn h

/-! ### One event -/

/-- What a peer's events have to do with its type. -/
abbrev PeerTurns : Bool → List PeerEv → Bool → Prop := Turns .connected .disconnected

/-- A command of a peer in the table.  The peer asks this host to be its r-host with addresses,
and says only of itself, with a type, that it is gone. -/
theorem ksnCommandCheckPeers_turns {a : ArpData} (hget : s.arp.get rd.fromName = some a)
    (hconnectR : rd.cmd = cmdConnectR → rd.fromName = n → connectRIpCounts rd ≠ 0)
    (hgoodbye : rd.cmd = cmdDisconnected → disconnectedPeer rd = rd.fromName ∧
      (rd.fromName = n → typed s n = true)) :
    PeerTurns (typed s n) (presenceOf n (ksnCommandCheckPeers env s rd).2)
      (typed (ksnCommandCheckPeers env s rd).1 n) := by
  unfold ksnCommandCheckPeers
  split_ifs with hcmd hcmd hcmd
  · rw [typed_cmdConnectRCb]
    by_cases hzero : connectRIpCounts rd = 0
    · have hne : n ≠ rd.fromName := fun h => hconnectR hcmd h.symm hzero
      rw [presenceOf_cmdConnectRCb_tcp hzero hget, if_neg hne]
      exact Turns.refl _
    · rw [presenceOf_cmdConnectRCb_udp hzero]
      exact Turns.refl _
  · rw [presenceOf_cmdConnectCb]
    exact Turns.refl _
  · obtain ⟨hself, htyped⟩ := hgoodbye hcmd
    rw [typed_cmdDisconnectedCb, presenceOf_cmdDisconnectedCb, hself]
    by_cases hn : n = rd.fromName
    · rw [if_pos hn, htyped hn.symm, decide_eq_false (not_not_intro hn)]
      exact Turns.second
    · rw [if_neg hn, decide_eq_true hn, Bool.true_and]
      exact Turns.refl _
  · rcases cmdHostInfoAnswerCb_presence env s rd n with
      ⟨hsame, -⟩ | ⟨hold, hnew, htold⟩
    · rw [hsame]
      exact Turns.refl _
    · rw [htold]
      by_cases hn : n = rd.fromName
      · rw [if_pos hn, hn, hold, hnew]
        exact Turns.first
      · rw [if_neg hn, typed_cmdHostInfoAnswerCb_of_ne hn]
        exact Turns.refl _
  · exact Turns.refl _

/-- After the new-peer check the sender is in the table. -/
theorem ksnCoreCheckNewPeer_recorded (env : PeersEnv) (s : Peers) (rd : KsnCorePacketData) :
    ∃ a, (ksnCoreCheckNewPeer env s rd).1.arp.get rd.fromName = some a := by
  cases hold : s.arp.get rd.fromName with
  | none =>
    obtain ⟨mode, -, hnew⟩ := ksnCoreCheckNewPeer_get_new env s rd hold
    exact ⟨_, hnew⟩
  | some a => exact ⟨_, ksnCoreCheckNewPeer_get_known env s rd hold⟩

theorem receivePacket_turns {combined : List (UInt8 × List UInt8 × List UInt8)}
    (hn : n ≠ s.hostName) (hg : PacketPresence s rd combined) :
    PeerTurns (typed s n) (presenceOf n (receivePacket env s rd combined).2)
      (typed (receivePacket env s rd combined).1 n) := by
  have htyped := typed_ksnCoreCheckNewPeer env s rd n
  cases hd : dispatched rd combined with
  | none =>
    have hsplit : rd.cmd = cmdSplit := by
      by_contra hne
      rw [dispatched_of_ne rd combined hne] at hd
      cases hd
    rw [receivePacket_eq_none env s rd hd, presenceOf_ksnCoreCheckNewPeer, htyped, hsplit,
      decide_eq_false (by simp [cmdSplit, cmdConnectR]), Bool.or_false]
    exact Turns.refl _
  | some d =>
    have hfrom := dispatched_fromName rd combined hd
    obtain ⟨a, hget⟩ := ksnCoreCheckNewPeer_recorded env s rd
    rw [← hfrom] at hget
    rw [receivePacket_eq_some env s rd hd, presenceOf_append, presenceOf_ksnCoreCheckNewPeer,
      List.nil_append]
    by_cases hfirst : n = rd.fromName ∧ s.arp.get rd.fromName = none ∧ rd.cmd = cmdConnectR
    · -- the packet is the peer's first, and has given it its type
      obtain ⟨rfl, hnew, hcmd⟩ := hfirst
      have hsame := dispatched_of_ne rd combined (by rw [hcmd]; decide)
      obtain rfl : d = rd := Option.some.inj (hd.symm.trans hsame)
      have hzero := (hg.connectR d hd hcmd hn).mpr ⟨hcmd, hnew⟩
      have hcommand : ksnCommandCheckPeers env (ksnCoreCheckNewPeer env s d).1 d =
          cmdConnectRCb env (ksnCoreCheckNewPeer env s d).1 d := if_pos hcmd
      rw [hcommand, typed_cmdConnectRCb, presenceOf_cmdConnectRCb_tcp hzero hget, if_pos rfl,
        htyped, typed_eq_false hnew, decide_eq_true ⟨rfl, hnew, hcmd⟩]
      exact Turns.first
    · rw [decide_eq_false hfirst, Bool.or_false] at htyped
      rw [← htyped]
      refine ksnCommandCheckPeers_turns hget (fun hcmd hname hzero => ?_) fun hcmd => ?_
      · have hhost : d.fromName ≠ s.hostName := fun h => hn (hname.symm.trans h)
        obtain ⟨hdirect, hnew⟩ := (hg.connectR d hd hcmd hhost).mp hzero
        exact hfirst ⟨hname.symm.trans hfrom, hfrom ▸ hnew, hdirect⟩
      · obtain ⟨hself, hknown⟩ := hg.goodbye d hd hcmd
        refine ⟨hself, fun hname => ?_⟩
        rw [htyped, ← hname]
        exact hknown fun h => hn (hname.symm.trans h)

/-- A peer with a type is removed for its silence, or this host is. -/
theorem removePeer_turns {name : CString} (a : ArpData) (hn : n ≠ s.hostName)
    (htyped : name ≠ s.hostName → typed s name = true) :
    PeerTurns (typed s n) (presenceOf n (removePeer s name a).2)
      (typed (removePeer s name a).1 n) := by
  rw [removePeer, presenceOf_cmdDisconnectedCb, typed_cmdDisconnectedCb, disconnectedPeer_removePeer]
  dsimp only
  by_cases hname : n = name
  · subst hname
    rw [if_pos rfl, htyped hn, decide_eq_false (not_not_intro rfl)]
    exact Turns.second
  · rw [if_neg hname, decide_eq_true hname, Bool.true_and]
    exact Turns.refl _

/-- What the condition says of an event other than a packet. -/
theorem PresenceGuard.silent {e : PeersEvent} (h : PresenceGuard s e) {name : CString} {a : ArpData}
    (hsilent : SilentPeer s name a e) (hmode : 0 ≤ a.mode) (hn : name ≠ s.hostName) :
    typed s name = true := by
  cases e with
  | packet rd combined => cases hsilent
  | tcpClosed => cases hsilent
  | connectRHost resolved fd => cases hsilent
  | timeout name' echo => exact h name a hsilent hmode hn
  | reset addr port => exact h name a hsilent hmode hn

/-- **What an event tells about a peer**: connected when the peer gets its type, disconnected when
the record of a peer with a type is removed, and nothing else. -/
theorem peersHandle_turns {e : PeersEvent} (hn : n ≠ s.hostName) (hg : PresenceGuard s e) :
    PeerTurns (typed s n) (presenceOf n (peersHandle env s e).2)
      (typed (peersHandle env s e).1 n) := by
  by_cases hpacket : ∃ rd combined, e = .packet rd combined
  · obtain ⟨rd, combined, rfl⟩ := hpacket
    exact receivePacket_turns hn hg
  · cases peersHandle_quiet env s e fun rd combined h => hpacket ⟨rd, combined, h⟩ with
    | same harp _ hcalls =>
      rw [presenceOf_eq_nil hcalls, typed_congr (congrArg (fun arp => FinMap.get arp n) harp)]
      exact Turns.refl _
    | removed hsilent _ hmode hstate hcalls hbefore =>
      rw [hstate, hcalls, presenceOf_append, presenceOf_eq_nil hbefore, List.nil_append]
      exact removePeer_turns _ hn (hg.silent hsilent hmode)
    | closed he htcp hfd hstate hcalls =>
      subst he
      rw [hstate, hcalls, hg htcp hfd n hn]
      exact (typed_eq_false ((ksnetArpAddHost_get env _ n).trans (if_neg hn))).symm

/-! ### Whose record is removed -/

/-- `disconnected` is told of the sender of a `CMD_DISCONNECTED` packet. -/
theorem cmdDisconnected_of_mem {a : ArpData} (hget : s.arp.get rd.fromName = some a)
    (h : .disconnected ∈ presenceOf n (ksnCommandCheckPeers env s rd).2) :
    rd.cmd = cmdDisconnected ∧ n = rd.fromName ∧
      ksnCommandCheckPeers env s rd = cmdDisconnectedCb s rd := by
  have honly : ∀ {l : List PeerEv} {name : CString},
      l = (if n = name then [PeerEv.connected] else []) → PeerEv.disconnected ∉ l := by
    rintro l name rfl hmem
    split_ifs at hmem
    · cases List.mem_singleton.mp hmem
    · cases hmem
  unfold ksnCommandCheckPeers at h ⊢
  split_ifs at h ⊢ with hcmd hcmd hcmd
  · by_cases hzero : connectRIpCounts rd = 0
    · exact absurd h (honly (presenceOf_cmdConnectRCb_tcp hzero hget))
    · rw [presenceOf_cmdConnectRCb_udp hzero] at h
      cases h
  · rw [presenceOf_cmdConnectCb] at h
    cases h
  · rw [presenceOf_cmdDisconnectedCb] at h
    split_ifs at h with hn
    · exact ⟨hcmd, hn, rfl⟩
    · cases h
  · rcases cmdHostInfoAnswerCb_presence env s rd n with
      ⟨hsame, -⟩ | ⟨-, -, htold⟩
    · rw [hsame] at h
      cases h
    · exact absurd h (honly htold)
  · cases h

/-- From one table to the other the record under the name is removed, and no other one. -/
structure RemovesRecord (n : CString) (hostName : CString) (before after : KsnetArpClass) :
    Prop where
  /-- a packet under this host's name may come where there is no record -/
  recorded : n ≠ hostName → before.get n ≠ none
  removed : after.get n = none
  others : ∀ m, m ≠ n → before.get m ≠ none → after.get m ≠ none

theorem recorded_of_typed (h : typed s n = true) : s.arp.get n ≠ none := by
  intro hnone
  rw [typed_eq_false hnone] at h
  cases h

theorem receivePacket_removes {combined : List (UInt8 × List UInt8 × List UInt8)}
    (hg : PacketPresence s rd combined)
    (h : .disconnected ∈ presenceOf n (receivePacket env s rd combined).2) :
    RemovesRecord n s.hostName s.arp (receivePacket env s rd combined).1.arp := by
  cases hd : dispatched rd combined with
  | none =>
    rw [receivePacket_eq_none env s rd hd, presenceOf_ksnCoreCheckNewPeer] at h
    cases h
  | some d =>
    have hfrom := dispatched_fromName rd combined hd
    obtain ⟨a, hget⟩ := ksnCoreCheckNewPeer_recorded env s rd
    rw [← hfrom] at hget
    rw [receivePacket_eq_some env s rd hd, presenceOf_append, presenceOf_ksnCoreCheckNewPeer,
      List.nil_append] at h
    obtain ⟨hcmd, hn, heq⟩ := cmdDisconnected_of_mem hget h
    obtain ⟨hself, hknown⟩ := hg.goodbye d hd hcmd
    rw [receivePacket_eq_some env s rd hd, heq]
    subst hn
    refine ⟨fun hhost => recorded_of_typed (hknown hhost), ?_, fun m hm hmget => ?_⟩
    · rw [cmdDisconnectedCb_get, if_pos hself.symm]
    · rw [cmdDisconnectedCb_get, hself, if_neg hm,
        ksnCoreCheckNewPeer_get_of_ne env s rd m (hfrom ▸ hm)]
      exact hmget

theorem removePeer_removes {name : CString} {a : ArpData} (hget : s.arp.get name = some a)
    (h : .disconnected ∈ presenceOf n (removePeer s name a).2) :
    RemovesRecord n s.hostName s.arp (removePeer s name a).1.arp := by
  rw [removePeer, presenceOf_cmdDisconnectedCb] at h
  split_ifs at h with hn
  · obtain rfl : n = name := hn
    refine ⟨fun _ hnone => ?_, ?_, fun m hm hmget => ?_⟩
    · rw [hget] at hnone
      cases hnone
    · rw [removePeer_get, if_pos rfl]
    · rw [removePeer_get, if_neg hm]
      exact hmget
  · cases h

/-- **Whose record is removed**: that of the peer that is said to be disconnected. -/
theorem peersHandle_removes {e : PeersEvent} (hg : PresenceGuard s e)
    (h : .disconnected ∈ presenceOf n (peersHandle env s e).2) :
    RemovesRecord n s.hostName s.arp (peersHandle env s e).1.arp := by
  by_cases hpacket : ∃ rd combined, e = .packet rd combined
  · obtain ⟨rd, combined, rfl⟩ := hpacket
    exact receivePacket_removes hg h
  · cases peersHandle_quiet env s e fun rd combined h => hpacket ⟨rd, combined, h⟩ with
    | same _ _ hcalls =>
      rw [presenceOf_eq_nil hcalls] at h
      cases h
    | removed _ hget _ hstate hcalls hbefore =>
      rw [hcalls, presenceOf_append, presenceOf_eq_nil hbefore, List.nil_append] at h
      rw [hstate]
      exact removePeer_removes hget h
    | closed _ _ _ _ hcalls =>
      rw [hcalls] at h
      cases h

/-! ### Peers that have answered -/

/-- An answer that meets the condition leaves a type. -/
theorem typed_of_answers {e : PeersEvent} (hn : n ≠ s.hostName) (hg : PresenceGuard s e)
    (h : Answers n s e) : typed (peersHandle env s e).1 n = true := by
  cases e with
  | packet rd combined =>
    obtain ⟨d, hd, hcmd, rfl⟩ := h
    have hfrom := dispatched_fromName rd combined hd
    obtain ⟨a, hget⟩ := ksnCoreCheckNewPeer_recorded env s rd
    rw [← hfrom] at hget
    have hcommand : ksnCommandCheckPeers env (ksnCoreCheckNewPeer env s rd).1 d =
        cmdHostInfoAnswerCb env (ksnCoreCheckNewPeer env s rd).1 d := by
      unfold ksnCommandCheckPeers
      rw [hcmd]
      rfl
    show typed (receivePacket env s rd combined).1 d.fromName = true
    rw [receivePacket_eq_some env s rd hd, hcommand]
    rcases cmdHostInfoAnswerCb_presence env (ksnCoreCheckNewPeer env s rd).1 d d.fromName with ⟨hsame, hbinary⟩ | ⟨-, hnew, -⟩
    · rw [hsame]
      rcases hg.answer d hd hcmd hn with hdata | hknown
      · exact typed_eq_true hget (hbinary hdata a hget)
      · rw [typed_ksnCoreCheckNewPeer, hknown, Bool.true_or]
    · exact hnew
  | _ => cases h

/-- A type stays as long as the record does. -/
theorem typed_of_keepsRecord {e : PeersEvent} (hn : n ≠ s.hostName) (htyped : typed s n = true)
    (h : KeepsRecord env n s e) : typed (peersHandle env s e).1 n = true := by
  by_cases hpacket : ∃ rd combined, e = .packet rd combined
  · obtain ⟨rd, combined, rfl⟩ := hpacket
    have hchecked : typed (ksnCoreCheckNewPeer env s rd).1 n = true := by
      rw [typed_ksnCoreCheckNewPeer, htyped, Bool.true_or]
    revert h
    show (receivePacket env s rd combined).1.arp.get n ≠ none →
      typed (receivePacket env s rd combined).1 n = true
    cases hd : dispatched rd combined with
    | none =>
      rw [receivePacket_eq_none env s rd hd]
      exact fun _ => hchecked
    | some d =>
      rw [receivePacket_eq_some env s rd hd]
      dsimp only
      unfold ksnCommandCheckPeers
      intro h
      split_ifs at h ⊢
      · rw [typed_cmdConnectRCb]
        exact hchecked
      · exact hchecked
      · rw [cmdDisconnectedCb_get] at h
        rw [typed_cmdDisconnectedCb, hchecked, Bool.and_true, decide_eq_true_iff]
        rintro rfl
        exact h (if_pos rfl)
      · by_cases hname : n = d.fromName
        · rcases cmdHostInfoAnswerCb_presence env (ksnCoreCheckNewPeer env s rd).1 d n with ⟨hsame, -⟩ | ⟨-, hnew, -⟩
          · rw [hsame]
            exact hchecked
          · rw [hname]
            exact hnew
        · rw [typed_cmdHostInfoAnswerCb_of_ne hname]
          exact hchecked
      · exact hchecked
  · cases peersHandle_quiet env s e fun rd combined h => hpacket ⟨rd, combined, h⟩ with
    | same harp _ _ =>
      rw [typed_congr (congrArg (fun arp => FinMap.get arp n) harp)]
      exact htyped
    | @removed name a _ _ _ _ hstate _ _ =>
      rw [KeepsRecord, hstate, removePeer_get] at h
      rw [hstate, typed_congr ((removePeer_get s n name a).trans (if_neg fun hn => h (if_pos hn)))]
      exact htyped
    | closed _ _ _ hstate _ =>
      rw [KeepsRecord, hstate] at h
      exact absurd ((ksnetArpAddHost_get env _ n).trans (if_neg hn)) h

/-! ### Runs -/

/-- The host keeps its name in a run. -/
theorem hostName_of_run {s' : Peers} {es : List PeersEvent} (h : Run (PeersStep env) s es s') :
    s'.hostName = s.hostName := by
  induction h with
  | nil s => rfl
  | cons hstep _ ih => rw [ih, hstep, peersHandle_hostName]

/-- In a run the last event of a peer says whether it has a type. -/
theorem presence_turns {s' : Peers} {es : List PeersEvent} (hstart : PeersStart env s)
    (h : Run (Guarded PresenceGuard (PeersStep env)) s es s') (hn : n ≠ s.hostName) :
    PeerTurns false (presence env n s es) (typed s' n) := by
  have hnew : typed s n = false := by
    refine typed_eq_false ?_
    rw [hstart.onlyHost, ksnetArpAddHost_get, if_neg hn]
  rw [← hnew]
  refine Turns.run _ (fun t => typed t n) (fun t => n ≠ t.hostName) (fun t e u ht hstep => ?_) h hn
  obtain ⟨hg, rfl⟩ := hstep
  refine ⟨rfl, ?_, peersHandle_turns ht hg⟩
  rw [peersHandle_hostName]
  exact ht

/-- A type stays in a run as long as the record does. -/
theorem typed_of_run {s' : Peers} {es : List PeersEvent}
    (h : Run (Guarded (KeepsRecord env n) (PeersStep env)) s es s') (hn : n ≠ s.hostName)
    (htyped : typed s n = true) : typed s' n = true := by
  induction h with
  | nil s => exact htyped
  | cons hstep _ ih =>
    obtain ⟨hkept, rfl⟩ := hstep
    refine ih ?_ (typed_of_keepsRecord hn htyped hkept)
    rw [peersHandle_hostName]
    exact hn

/-- A peer that has answered, and whose record has stayed since, has a type. -/
theorem typed_of_since {s' : Peers} {es : List PeersEvent} (hn : n ≠ s.hostName)
    (h : Since (Guarded PresenceGuard (PeersStep env)) (Answers n) (KeepsRecord env n) s es s') :
    typed s' n = true := by
  obtain ⟨pre, e, post, s₁, s₂, rfl, hpre, hanswers, ⟨hg, rfl⟩, hpost⟩ := h
  have hhost : n ≠ s₁.hostName := by
    rw [hostName_of_run hpre.of_guarded]
    exact hn
  refine typed_of_run (hpost.mono fun t e u hstep => ⟨hstep.1, hstep.2.2⟩) ?_
    (typed_of_answers hhost hg hanswers)
  rw [peersHandle_hostName]
  exact hhost

/-- **Presence events in every run** whose events all meet the condition: for every peer
`connected` and `disconnected` take turns, `connected` first; whoever is said to be disconnected is
the peer whose record is removed; and the last that is said of a peer that has answered
`CMD_HOST_INFO` is `connected`, as long as its record stays. -/
theorem presence_of_run {env : PeersEnv} {s s' : Peers} {es : List PeersEvent}
    (hstart : PeersStart env s) (h : Run (Guarded PresenceGuard (PeersStep env)) s es s') :
    (∀ n, n ≠ s.hostName → Alternates .connected .disconnected (presence env n s es)) ∧
    (∀ e, PresenceGuard s' e → ∀ n, .disconnected ∈ presenceOf n (peersHandle env s' e).2 →
      RemovesRecord n s'.hostName s'.arp (peersHandle env s' e).1.arp) ∧
    ∀ n, n ≠ s.hostName →
      Since (Guarded PresenceGuard (PeersStep env)) (Answers n) (KeepsRecord env n) s es s' →
      (presence env n s es).getLast? = some .connected := by
  refine ⟨fun n hn => ?_, fun e hg n hmem => peersHandle_removes hg hmem, fun n hn hsince => ?_⟩
  · have hturns := presence_turns hstart h hn
    exact hturns.alternates
  · have hturns := presence_turns hstart h hn
    rw [typed_of_since hn hsince] at hturns
    rcases hturns.getLast? with hlast | ⟨-, hfalse⟩
    · exact hlast
    · cases hfalse

/-- A first packet of the peer `p`, an answer to `CMD_HOST_INFO`, and a `CMD_CONNECT_R` with one
address. -/
def firstPacket : PeersEvent := .packet (peerPacket cmdNone [0]) []
def infoAnswer : PeersEvent := .packet (peerPacket cmdHostInfoAnswer [1, 0]) []
def connectRUdp : PeersEvent := .packet (peerPacket cmdConnectR [0, 0, 0, 0, 1, 0]) []

theorem firstPacket_guard : PresenceGuard newHost firstPacket := by
  refine ⟨?_, ?_, ?_⟩ <;>
  · intro d hd hcmd
    obtain rfl : peerPacket cmdNone [0] = d := Option.some.inj hd
    exact absurd hcmd (by decide)

theorem infoAnswer_guard (s : Peers) : PresenceGuard s infoAnswer := by
  refine ⟨fun d hd hcmd => ?_, fun d hd hcmd => ?_, fun d hd _ _ => Or.inl ?_⟩
  all_goals obtain rfl : peerPacket cmdHostInfoAnswer [1, 0] = d := Option.some.inj hd
  · exact absurd hcmd (by decide)
  · exact absurd hcmd (by decide)
  · decide

theorem infoAnswer_answers (s : Peers) : Answers ⟨[112], by decide⟩ s infoAnswer :=
  ⟨_, rfl, rfl, rfl⟩

theorem presence_of_run_infoAnswer :
    (presence plainEnv ⟨[112], by decide⟩ newHost [firstPacket, infoAnswer]).getLast? =
      some .connected := by
  have hfirst : Guarded PresenceGuard (PeersStep plainEnv) newHost firstPacket _ :=
    ⟨firstPacket_guard, rfl⟩
  have hanswer : Guarded PresenceGuard (PeersStep plainEnv)
      (peersHandle plainEnv newHost firstPacket).1 infoAnswer _ := ⟨infoAnswer_guard _, rfl⟩
  exact (presence_of_run newHost_start (.cons hfirst (.single hanswer))).2.2 _ (by decide)
    ⟨[firstPacket], infoAnswer, [], _, _, rfl, .single hfirst, infoAnswer_answers _, hanswer,
      .nil _⟩

/-- A peer that asks this host over UDP to be its r-host, and then sends its host info, is in the
table and is not announced. -/
theorem not_presence_of_run :
    ¬ ∀ (env : PeersEnv) (s s' : Peers) (es : List PeersEvent), PeersStart env s →
      Run (PeersStep env) s es s' →
      (∀ n, n ≠ s.hostName → Alternates .connected .disconnected (presence env n s es)) ∧
      (∀ e n, .disconnected ∈ presenceOf n (peersHandle env s' e).2 →
        RemovesRecord n s'.hostName s'.arp (peersHandle env s' e).1.arp) ∧
      ∀ n, n ≠ s.hostName →
        Since (PeersStep env) (Answers n) (KeepsRecord env n) s es s' →
        (presence env n s es).getLast? = some .connected := by
  intro h
  have hlast := (h plainEnv newHost _ [connectRUdp, infoAnswer] newHost_start
    (.cons rfl (.single rfl))).2.2 ⟨[112], by decide⟩ (by decide)
    ⟨[connectRUdp], infoAnswer, [], _, _, rfl, .single rfl, infoAnswer_answers _, rfl, .nil _⟩
  have hquiet : presence plainEnv ⟨[112], by decide⟩ newHost [connectRUdp, infoAnswer] = [] := by
    decide
  rw [hquiet] at hlast
  cases hlast

end Teonet
