import Teonet.Peers

/-! # This host's record

This host has a record of its own in the ARP table, with mode `-1`.  The walks of the host skip
records of negative mode, a timeout and a reset do too, and the table that replaces the old one
when the TCP proxy connection ends starts with this record.  The commands look records up by name
only.

The first part says, for each function of `Peers.lean`, what it does to the record under a name.
From it follows which events keep this host's record: `peersHandle_ownRecord_iff`, for a single
event, and `ownRecord_of_run`, for runs. -/

namespace Teonet

open Runs

variable (env : PeersEnv) (s : Peers) (rd : KsnCorePacketData) (n : CString)

/-! ### One record -/

theorem ksnCoreCheckNewPeer_get_of_ne (h : n ≠ rd.fromName) :
    (ksnCoreCheckNewPeer env s rd).1.arp.get n = s.arp.get n := by
  unfold ksnCoreCheckNewPeer
  cases s.arp.get rd.fromName with
  | none =>
    dsimp only
    split_ifs <;> exact FinMap.get_add_of_ne _ h _
  | some a =>
    dsimp only
    split_ifs
    · exact FinMap.get_add_of_ne _ h _
    · rfl

/-- A new peer gets a record of mode 0 or 1. -/
theorem ksnCoreCheckNewPeer_get_new (h : s.arp.get rd.fromName = none) :
    ∃ mode, (mode = 0 ∨ mode = 1) ∧
      (ksnCoreCheckNewPeer env s rd).1.arp.get rd.fromName = some (newArpData env rd mode) := by
  unfold ksnCoreCheckNewPeer
  rw [h]
  dsimp only
  split_ifs
  · exact ⟨1, Or.inr rfl, FinMap.get_add_self _ _ _⟩
  · exact ⟨0, Or.inl rfl, FinMap.get_add_self _ _ _⟩

/-- A known peer's record stays, with mode 1 for an answer to `CMD_CONNECT_R`. -/
theorem ksnCoreCheckNewPeer_get_known {a : ArpData} (h : s.arp.get rd.fromName = some a) :
    (ksnCoreCheckNewPeer env s rd).1.arp.get rd.fromName =
      some (if rd.cmd = cmdNone ∧ rd.data.length = 2 then { a with mode := 1 } else a) := by
  unfold ksnCoreCheckNewPeer
  rw [h]
  dsimp only
  split_ifs
  · exact FinMap.get_add_self _ _ _
  · exact h

theorem cmdConnectRCb_get :
    (cmdConnectRCb env s rd).1.arp.get n =
      if n = rd.fromName ∧ connectRIpCounts rd = 0 then
        (s.arp.get n).map fun a => { a with mode := 2 }
      else s.arp.get n := by
  unfold cmdConnectRCb
  by_cases hzero : connectRIpCounts rd = 0
  · rw [if_neg (not_not_intro hzero)]
    by_cases hn : n = rd.fromName
    · rw [if_pos ⟨hn, hzero⟩, hn]
      exact (FinMap.get_modify ..).trans (if_pos rfl)
    · rw [if_neg fun h => hn h.1]
      exact FinMap.get_modify_of_ne _ hn _
  · rw [if_pos hzero, if_neg fun h => hzero h.2]

theorem cmdDisconnectedCb_get :
    (cmdDisconnectedCb s rd).1.arp.get n =
      if n = disconnectedPeer rd then none else s.arp.get n :=
  FinMap.get_remove ..

/-- An answer gives a type to a peer that has none, and changes nothing else. -/
theorem cmdHostInfoAnswerCb_get :
    (cmdHostInfoAnswerCb env s rd).1.arp.get n = s.arp.get n ∨
    n = rd.fromName ∧ ∃ a type, s.arp.get n = some a ∧ a.type = none ∧
      (cmdHostInfoAnswerCb env s rd).1.arp.get n = some { a with type := some type } := by
  unfold cmdHostInfoAnswerCb
  split
  · rename_i addr port mode hget
    split_ifs
    · by_cases hn : n = rd.fromName
      · subst hn
        exact Or.inr ⟨rfl, _, _, hget, rfl, FinMap.get_add_self _ _ _⟩
      · exact Or.inl (FinMap.get_add_of_ne _ hn _)
    · exact Or.inl rfl
  · exact Or.inl rfl

/-- A peer that is removed for its silence is removed under its own name. -/
theorem disconnectedPeer_removePeer (a : ArpData) :
    disconnectedPeer
      { addr := a.addr, port := a.port, fromName := n, fromLen := nameLen n } = n := rfl

theorem removePeer_get (name : CString) (a : ArpData) :
    (removePeer s name a).1.arp.get n = if n = name then none else s.arp.get n :=
  cmdDisconnectedCb_get s _ n

/-- What is left when the connection to the TCP proxy has ended. -/
theorem ksnetArpAddHost_get :
    (ksnetArpAddHost env s).get n =
      if n = s.hostName then
        some { addr := localhost, port := s.hostPort, mode := -1, type := some env.fullType }
      else none := by
  rw [ksnetArpAddHost, FinMap.get_add, FinMap.get_empty]

/-! ### The host's name -/

theorem ksnCoreCheckNewPeer_hostName :
    (ksnCoreCheckNewPeer env s rd).1.hostName = s.hostName := by
  unfold ksnCoreCheckNewPeer
  cases s.arp.get rd.fromName <;> dsimp only <;> split_ifs <;> rfl

theorem ksnCommandCheckPeers_hostName :
    (ksnCommandCheckPeers env s rd).1.hostName = s.hostName := by
  unfold ksnCommandCheckPeers
  split_ifs
  · unfold cmdConnectRCb
    dsimp only
    split_ifs <;> rfl
  · rfl
  · rfl
  · unfold cmdHostInfoAnswerCb
    split
    · split_ifs <;> rfl
    · rfl
  · rfl

theorem receivePacket_eq_none {combined : List (UInt8 × List UInt8 × List UInt8)}
    (h : dispatched rd combined = none) :
    receivePacket env s rd combined = ksnCoreCheckNewPeer env s rd := by
  rw [receivePacket, h]

theorem receivePacket_eq_some {combined : List (UInt8 × List UInt8 × List UInt8)}
    {d : KsnCorePacketData} (h : dispatched rd combined = some d) :
    receivePacket env s rd combined =
      ((ksnCommandCheckPeers env (ksnCoreCheckNewPeer env s rd).1 d).1,
        (ksnCoreCheckNewPeer env s rd).2 ++
          (ksnCommandCheckPeers env (ksnCoreCheckNewPeer env s rd).1 d).2) := by
  rw [receivePacket, h]

/-- A packet that is not split is acted on as it is. -/
theorem dispatched_of_ne (combined : List (UInt8 × List UInt8 × List UInt8))
    (h : rd.cmd ≠ cmdSplit) : dispatched rd combined = some rd := by
  cases combined <;> rw [dispatched, if_neg h]

/-- The event is that the peer with this record has been silent for too long, or has reset its
connection. -/
def SilentPeer (s : Peers) (name : CString) (a : ArpData) : PeersEvent → Prop
  | .timeout name' _ => name' = name ∧ s.arp.get name = some a
  | .reset addr port =>
    s.arp.toPairs.find? (fun p => p.2.addr = addr ∧ p.2.port = port) = some (name, a)
  | _ => False

/-- None of the calls is for the subscribers. -/
def TellsNobody (calls : List PeerCall) : Prop := ∀ c ∈ calls, ∀ ev name, c ≠ .subscribers ev name

/-- What an event other than a packet does: it leaves the table alone, removes a silent peer, or
ends the connection to the TCP proxy. -/
inductive QuietOutcome (env : PeersEnv) (s : Peers) (e : PeersEvent) : Prop
  | same (harp : (peersHandle env s e).1.arp = s.arp)
      (hname : (peersHandle env s e).1.hostName = s.hostName)
      (hcalls : TellsNobody (peersHandle env s e).2)
  | removed {name : CString} {a : ArpData} {before : List PeerCall}
      (hsilent : SilentPeer s name a e) (hget : s.arp.get name = some a) (hmode : 0 ≤ a.mode)
      (hstate : (peersHandle env s e).1 = (removePeer s name a).1)
      (hcalls : (peersHandle env s e).2 = before ++ (removePeer s name a).2)
      (hbefore : TellsNobody before)
  | closed (he : e = .tcpClosed) (htcp : s.rTcpF = true) (hfd : s.fdClient > 0)
      (hstate : (peersHandle env s e).1 = ksnetArpRemoveAll env { s with fdClient := 0 })
      (hcalls : (peersHandle env s e).2 = [])

theorem TellsNobody.nil : TellsNobody [] := by
  intro c hc
  cases hc

theorem TellsNobody.cons {c : PeerCall} {calls : List PeerCall}
    (h : ∀ ev name, c ≠ .subscribers ev name) (hcalls : TellsNobody calls) :
    TellsNobody (c :: calls) := by
  intro c' hc'
  rcases List.mem_cons.mp hc' with rfl | hrest
  · exact h
  · exact hcalls c' hrest

theorem timeout_outcome (name : CString) (echo : List UInt8) :
    QuietOutcome env s (.timeout name echo) := by
  have hsame : checkConnectedCb s name echo = (s, []) → QuietOutcome env s (.timeout name echo) := by
    intro h
    have hstep : peersHandle env s (.timeout name echo) = (s, []) := h
    exact .same (by rw [hstep]) (by rw [hstep]) (by rw [hstep]; exact .nil)
  cases hget : s.arp.get name with
  | none => exact hsame (by rw [checkConnectedCb, hget])
  | some a =>
    by_cases hmode : 0 ≤ a.mode
    · have hstep : peersHandle env s (.timeout name echo) = ((removePeer s name a).1,
          [.sendCmdto name cmdEcho echo, .sendto a.addr a.port cmdDisconnected []] ++
            (removePeer s name a).2) := by
        show checkConnectedCb s name echo = _
        rw [checkConnectedCb, hget]
        exact if_pos hmode
      exact .removed ⟨rfl, hget⟩ hget hmode (by rw [hstep]) (by rw [hstep])
        (.cons (by simp) (.cons (by simp) .nil))
    · exact hsame (by rw [checkConnectedCb, hget]; exact if_neg hmode)

theorem reset_outcome (addr : CString) (port : ℕ) : QuietOutcome env s (.reset addr port) := by
  have hsame : removePeerAddr s addr port = (s, []) → QuietOutcome env s (.reset addr port) := by
    intro h
    have hstep : peersHandle env s (.reset addr port) = (s, []) := h
    exact .same (by rw [hstep]) (by rw [hstep]) (by rw [hstep]; exact .nil)
  cases hfind : ksnetArpFindByAddr s.arp addr port with
  | none => exact hsame (by rw [removePeerAddr, hfind])
  | some p =>
    obtain ⟨name, a⟩ := p
    by_cases hmode : 0 ≤ a.mode
    · have hget := (FinMap.mem_toPairs _ _ _).mp (List.mem_of_find?_eq_some hfind)
      have hstep : peersHandle env s (.reset addr port) = removePeer s name a := by
        show removePeerAddr s addr port = _
        rw [removePeerAddr, hfind]
        exact if_pos hmode
      exact .removed hfind hget hmode (by rw [hstep]) (by rw [hstep]; rfl) .nil
    · exact hsame (by rw [removePeerAddr, hfind]; exact if_neg hmode)

/-- **What happens to the table without a packet**. -/
theorem peersHandle_quiet (e : PeersEvent) (h : ∀ rd combined, e ≠ .packet rd combined) :
    QuietOutcome env s e := by
  cases e with
  | packet rd combined => exact absurd rfl (h rd combined)
  | timeout name echo => exact timeout_outcome env s name echo
  | reset addr port => exact reset_outcome env s addr port
  | tcpClosed =>
    by_cases hstop : s.rTcpF = true ∧ s.fdClient > 0
    · have hstep : ksnTCPProxyClientStop env s = ksnetArpRemoveAll env { s with fdClient := 0 } :=
        if_pos hstop
      exact .closed rfl hstop.1 hstop.2 hstep rfl
    · have hstep : ksnTCPProxyClientStop env s = s := if_neg hstop
      exact .same (congrArg Peers.arp hstep) (congrArg Peers.hostName hstep) .nil
  | connectRHost resolved fd =>
    have hstep : (connectRHostCb env s resolved fd).1.arp = s.arp ∧
        (connectRHostCb env s resolved fd).1.hostName = s.hostName ∧
        TellsNobody (connectRHostCb env s resolved fd).2 := by
      unfold connectRHostCb
      split_ifs
      · refine ⟨rfl, rfl, ?_⟩
        dsimp only
        split_ifs
        · exact .cons (by simp) (.cons (by simp) .nil)
        · exact .cons (by simp) .nil
      · exact ⟨rfl, rfl, .cons (by simp) .nil⟩
      · exact ⟨rfl, rfl, .nil⟩
    exact .same hstep.1 hstep.2.1 hstep.2.2

theorem peersHandle_hostName (e : PeersEvent) : (peersHandle env s e).1.hostName = s.hostName := by
  by_cases hpacket : ∃ rd combined, e = .packet rd combined
  · obtain ⟨rd, combined, rfl⟩ := hpacket
    show (receivePacket env s rd combined).1.hostName = _
    cases hd : dispatched rd combined with
    | none =>
      rw [receivePacket_eq_none env s rd hd]
      exact ksnCoreCheckNewPeer_hostName env s rd
    | some d =>
      rw [receivePacket_eq_some env s rd hd]
      exact (ksnCommandCheckPeers_hostName env _ d).trans (ksnCoreCheckNewPeer_hostName env s rd)
  · cases peersHandle_quiet env s e fun rd combined h => hpacket ⟨rd, combined, h⟩ with
    | same _ hname _ => exact hname
    | removed _ _ _ hstate _ _ => rw [hstate]; rfl
    | closed _ _ _ hstate _ => rw [hstate]; rfl

/-! ### This host's record -/

/-- The table has a record of mode `-1` under this host's name. -/
def HasOwn (hostName : CString) (arp : KsnetArpClass) : Prop :=
  ∃ a, arp.get hostName = some a ∧ a.mode = -1

/-- Only the record under this host's name may have mode `-1`. -/
def OnlyOwn (hostName : CString) (arp : KsnetArpClass) : Prop :=
  ∀ n a, arp.get n = some a → a.mode = -1 → n = hostName

/-- The table contains a record for this host's own name with mode `-1`, and no other record has
mode `-1`. -/
structure OwnRecord (s : Peers) : Prop where
  recorded : HasOwn s.hostName s.arp
  only : OnlyOwn s.hostName s.arp

/-- The packet leaves this host's record alone. -/
structure PacketLeavesOwn (s : Peers) (rd : KsnCorePacketData)
    (combined : List (UInt8 × List UInt8 × List UInt8)) : Prop where
  /-- no answer to `CMD_CONNECT_R` comes under this host's name -/
  notAnswer : rd.fromName = s.hostName → ¬ (rd.cmd = cmdNone ∧ rd.data.length = 2)
  /-- no `CMD_CONNECT_R` without addresses comes under this host's name -/
  notConnectR : ∀ d, dispatched rd combined = some d → d.cmd = cmdConnectR →
    connectRIpCounts d = 0 → d.fromName ≠ s.hostName
  /-- no `CMD_DISCONNECTED` is about this host -/
  notGoodbye : ∀ d, dispatched rd combined = some d → d.cmd = cmdDisconnected →
    disconnectedPeer d ≠ s.hostName

/-- The condition on a step. -/
def OwnGuard (s : Peers) : PeersEvent → Prop
  | .packet rd combined => PacketLeavesOwn s rd combined
  | _ => True

variable {env s rd n} {hostName : CString}

theorem HasOwn.congr {arp arp' : KsnetArpClass} (h : arp'.get hostName = arp.get hostName) :
    HasOwn hostName arp' ↔ HasOwn hostName arp := by
  rw [HasOwn, h, HasOwn]

/-! ### No other record has mode -1 -/

/-- Where the mode of a record comes from: it is not negative, it is the mode that the record had
in `arp`, or the record is this host's new one. -/
inductive ModeFrom (hostName : CString) (arp : KsnetArpClass) (n : CString) (a : ArpData) : Prop
  | set (h : 0 ≤ a.mode)
  | kept (a' : ArpData) (hget : arp.get n = some a') (hmode : a'.mode = a.mode)
  | own (hname : n = hostName) (hmode : a.mode = -1)

theorem ModeFrom.trans {arp arp' : KsnetArpClass} {a : ArpData} (h : ModeFrom hostName arp' n a)
    (hstep : ∀ a', arp'.get n = some a' → ModeFrom hostName arp n a') :
    ModeFrom hostName arp n a := by
  cases h with
  | set h => exact .set h
  | own hname hmode => exact .own hname hmode
  | kept a' hget hmode =>
    cases hstep a' hget with
    | set h => exact .set (hmode ▸ h)
    | own hname hmode' => exact .own hname (hmode ▸ hmode')
    | kept a'' hget' hmode' => exact .kept a'' hget' (hmode'.trans hmode)

theorem ksnCoreCheckNewPeer_mode {a : ArpData}
    (h : (ksnCoreCheckNewPeer env s rd).1.arp.get n = some a) : ModeFrom hostName s.arp n a := by
  by_cases hn : n = rd.fromName
  · subst hn
    cases hold : s.arp.get rd.fromName with
    | none =>
      obtain ⟨mode, hnew, hnewget⟩ := ksnCoreCheckNewPeer_get_new env s rd hold
      obtain rfl := Option.some.inj (hnewget.symm.trans h)
      rcases hnew with rfl | rfl
      · exact .set le_rfl
      · exact .set zero_le_one
    | some a' =>
      rw [ksnCoreCheckNewPeer_get_known env s rd hold] at h
      obtain rfl := Option.some.inj h
      split_ifs
      · exact .set zero_le_one
      · exact .kept a' hold rfl
  · rw [ksnCoreCheckNewPeer_get_of_ne env s rd n hn] at h
    exact .kept a h rfl

theorem ksnCommandCheckPeers_mode {a : ArpData}
    (h : (ksnCommandCheckPeers env s rd).1.arp.get n = some a) : ModeFrom hostName s.arp n a := by
  unfold ksnCommandCheckPeers at h
  split_ifs at h
  · rw [cmdConnectRCb_get] at h
    split_ifs at h
    · obtain ⟨a', -, rfl⟩ := Option.map_eq_some_iff.mp h
      exact .set zero_le_two
    · exact .kept a h rfl
  · exact .kept a h rfl
  · rw [cmdDisconnectedCb_get] at h
    split_ifs at h
    exact .kept a h rfl
  · rcases cmdHostInfoAnswerCb_get env s rd n with hsame | ⟨-, a', type, hold, -, hnew⟩
    · exact .kept a (hsame.symm.trans h) rfl
    · obtain rfl := Option.some.inj (hnew.symm.trans h)
      exact .kept a' hold rfl
  · exact .kept a h rfl

/-- **No event makes a mode negative**, except that this host's record is made anew. -/
theorem peersHandle_mode {e : PeersEvent} {a : ArpData}
    (h : (peersHandle env s e).1.arp.get n = some a) : ModeFrom s.hostName s.arp n a := by
  by_cases hpacket : ∃ rd combined, e = .packet rd combined
  · obtain ⟨rd, combined, rfl⟩ := hpacket
    change (receivePacket env s rd combined).1.arp.get n = some a at h
    cases hd : dispatched rd combined with
    | none =>
      rw [receivePacket_eq_none env s rd hd] at h
      exact ksnCoreCheckNewPeer_mode h
    | some d =>
      rw [receivePacket_eq_some env s rd hd] at h
      exact (ksnCommandCheckPeers_mode h).trans fun a' => ksnCoreCheckNewPeer_mode
  · cases peersHandle_quiet env s e fun rd combined h => hpacket ⟨rd, combined, h⟩ with
    | same harp _ _ => exact .kept a (harp ▸ h) rfl
    | removed _ _ _ hstate _ _ =>
      rw [hstate, removePeer_get] at h
      split_ifs at h
      exact .kept a h rfl
    | closed _ _ _ hstate _ =>
      rw [hstate] at h
      have hget := (ksnetArpAddHost_get env { s with fdClient := 0 } n).symm.trans h
      split_ifs at hget with hname
      obtain rfl := Option.some.inj hget
      exact .own hname rfl

/-- **No event gives another record the mode of this host's**. -/
theorem peersHandle_onlyOwn (h : OnlyOwn s.hostName s.arp) (e : PeersEvent) :
    OnlyOwn s.hostName (peersHandle env s e).1.arp := by
  intro n a hget hmode
  cases peersHandle_mode hget with
  | set hset => rw [hmode] at hset; cases hset
  | kept a' hget' hmode' => exact h n a' hget' (hmode'.trans hmode)
  | own hname _ => exact hname

/-! ### Which events keep the record -/

/-- The new-peer check changes the record only for an answer under this host's name. -/
theorem ksnCoreCheckNewPeer_hasOwn_iff (h : HasOwn hostName s.arp) :
    HasOwn hostName (ksnCoreCheckNewPeer env s rd).1.arp ↔
      (rd.fromName = hostName → ¬ (rd.cmd = cmdNone ∧ rd.data.length = 2)) := by
  by_cases hn : hostName = rd.fromName
  · obtain ⟨a, hget, hmode⟩ := h
    subst hn
    have hknown := ksnCoreCheckNewPeer_get_known env s rd hget
    rw [HasOwn, hknown]
    constructor
    · rintro ⟨a', ha', hmode'⟩ - hanswer
      rw [if_pos hanswer] at ha'
      obtain rfl := Option.some.inj ha'
      cases hmode'
    · intro hnot
      rw [if_neg (hnot rfl)]
      exact ⟨a, rfl, hmode⟩
  · rw [HasOwn.congr (ksnCoreCheckNewPeer_get_of_ne env s rd hostName hn)]
    exact iff_of_true h fun heq => absurd heq.symm hn

/-- A command changes the record only if it is one of two. -/
theorem ksnCommandCheckPeers_hasOwn_iff (h : HasOwn hostName s.arp) :
    HasOwn hostName (ksnCommandCheckPeers env s rd).1.arp ↔
      (rd.cmd = cmdConnectR → connectRIpCounts rd = 0 → rd.fromName ≠ hostName) ∧
        (rd.cmd = cmdDisconnected → disconnectedPeer rd ≠ hostName) := by
  have hother : ∀ {c c' : UInt8}, rd.cmd = c → c ≠ c' → rd.cmd ≠ c' := by
    rintro c c' rfl hne
    exact hne
  unfold ksnCommandCheckPeers
  split_ifs with hconnectR hconnect hdisconnected hanswer
  · have hnot := hother hconnectR (show cmdConnectR ≠ cmdDisconnected by decide)
    rw [and_iff_left fun hcmd => absurd hcmd hnot, HasOwn, cmdConnectRCb_get]
    constructor
    · rintro ⟨a, hget, hmode⟩ - hzero hname
      rw [if_pos ⟨hname.symm, hzero⟩] at hget
      obtain ⟨a', -, rfl⟩ := Option.map_eq_some_iff.mp hget
      cases hmode
    · intro hnot
      rw [if_neg fun hsame => hnot hconnectR hsame.2 hsame.1.symm]
      exact h
  · exact iff_of_true h ⟨fun hcmd => absurd hcmd hconnectR,
      fun hcmd => absurd hcmd (hother hconnect (by decide))⟩
  · rw [and_iff_right fun hcmd => absurd hcmd hconnectR, HasOwn, cmdDisconnectedCb_get]
    constructor
    · rintro ⟨a, hget, -⟩ - hname
      rw [if_pos hname.symm] at hget
      cases hget
    · intro hnot
      rw [if_neg fun hname => hnot hdisconnected hname.symm]
      exact h
  · refine iff_of_true ?_ ⟨fun hcmd => absurd hcmd hconnectR,
      fun hcmd => absurd hcmd hdisconnected⟩
    rcases cmdHostInfoAnswerCb_get env s rd hostName with hsame | ⟨-, a', type, hold, -, hnew⟩
    · exact (HasOwn.congr hsame).mpr h
    · obtain ⟨a, hget, hmode⟩ := h
      obtain rfl := Option.some.inj (hold.symm.trans hget)
      exact ⟨_, hnew, hmode⟩
  · exact iff_of_true h ⟨fun hcmd => absurd hcmd hconnectR,
      fun hcmd => absurd hcmd hdisconnected⟩

theorem receivePacket_hasOwn_iff (h : HasOwn s.hostName s.arp)
    (combined : List (UInt8 × List UInt8 × List UInt8)) :
    HasOwn s.hostName (receivePacket env s rd combined).1.arp ↔ PacketLeavesOwn s rd combined := by
  have hchecked := @ksnCoreCheckNewPeer_hasOwn_iff env s rd _ h
  cases hd : dispatched rd combined with
  | none =>
    rw [receivePacket_eq_none env s rd hd, hchecked]
    constructor
    · intro hanswer
      have hnone : ∀ d, dispatched rd combined ≠ some d := by
        intro d hsome
        rw [hd] at hsome
        cases hsome
      exact ⟨hanswer, fun d hsome => absurd hsome (hnone d), fun d hsome => absurd hsome (hnone d)⟩
    · exact fun hleaves => hleaves.notAnswer
  | some d =>
    rw [receivePacket_eq_some env s rd hd]
    by_cases hanswer : rd.fromName = s.hostName → ¬ (rd.cmd = cmdNone ∧ rd.data.length = 2)
    · rw [ksnCommandCheckPeers_hasOwn_iff (hchecked.mpr hanswer)]
      constructor
      · rintro ⟨hconnectR, hgoodbye⟩
        refine ⟨hanswer, fun d' hd' => ?_, fun d' hd' => ?_⟩
        · obtain rfl := Option.some.inj (hd.symm.trans hd')
          exact hconnectR
        · obtain rfl := Option.some.inj (hd.symm.trans hd')
          exact hgoodbye
      · intro hleaves
        exact ⟨hleaves.notConnectR d hd, hleaves.notGoodbye d hd⟩
    · -- the check has changed the record, and an answer is no command
      refine iff_of_false (fun hown => ?_) fun hleaves => hanswer hleaves.notAnswer
      obtain ⟨hname, hcmd, hlen⟩ : rd.fromName = s.hostName ∧ rd.cmd = cmdNone ∧
          rd.data.length = 2 := by simpa using hanswer
      have hsame := dispatched_of_ne rd combined (by rw [hcmd]; decide)
      obtain rfl := Option.some.inj (hd.symm.trans hsame)
      have hquiet : ksnCommandCheckPeers env (ksnCoreCheckNewPeer env s d).1 d =
          ((ksnCoreCheckNewPeer env s d).1, []) := by
        unfold ksnCommandCheckPeers
        rw [hcmd]
        rfl
      rw [hquiet] at hown
      exact hanswer (hchecked.mp hown)

/-- A peer that is removed for its silence has a record of another mode. -/
theorem removePeer_hasOwn (h : HasOwn hostName s.arp) {name : CString} {a : ArpData}
    (hget : s.arp.get name = some a) (hmode : 0 ≤ a.mode) :
    HasOwn hostName (removePeer s name a).1.arp := by
  obtain ⟨own, hown, hneg⟩ := h
  refine ⟨own, ?_, hneg⟩
  rw [removePeer_get, if_neg]
  · exact hown
  · rintro rfl
    obtain rfl := Option.some.inj (hget.symm.trans hown)
    omega

/-- **Which events keep this host's record**: all but three kinds of packets. -/
theorem peersHandle_ownRecord_iff (h : OwnRecord s) (e : PeersEvent) :
    OwnRecord (peersHandle env s e).1 ↔ OwnGuard s e := by
  have hiff : OwnRecord (peersHandle env s e).1 ↔
      HasOwn s.hostName (peersHandle env s e).1.arp := by
    have hname := peersHandle_hostName env s e
    constructor
    · intro hown
      rw [← hname]
      exact hown.recorded
    · intro hown
      exact ⟨hname.symm ▸ hown, hname.symm ▸ peersHandle_onlyOwn h.only e⟩
  rw [hiff]
  by_cases hpacket : ∃ rd combined, e = .packet rd combined
  · obtain ⟨rd, combined, rfl⟩ := hpacket
    exact receivePacket_hasOwn_iff h.recorded combined
  · have hguard : OwnGuard s e := by
      cases e with
      | packet rd combined => exact absurd ⟨rd, combined, rfl⟩ hpacket
      | _ => trivial
    refine iff_of_true ?_ hguard
    cases peersHandle_quiet env s e fun rd combined h => hpacket ⟨rd, combined, h⟩ with
    | same harp _ _ =>
      rw [harp]
      exact h.recorded
    | removed _ hget hmode hstate _ _ =>
      rw [hstate]
      exact removePeer_hasOwn h.recorded hget hmode
    | closed _ _ _ hstate _ =>
      rw [hstate]
      exact ⟨_, (ksnetArpAddHost_get env _ s.hostName).trans (if_pos rfl), rfl⟩

/-! ### Runs -/

theorem PeersStart.ownRecord (h : PeersStart env s) : OwnRecord s := by
  have hget := ksnetArpAddHost_get env s
  rw [← h.onlyHost] at hget
  refine ⟨⟨_, (hget s.hostName).trans (if_pos rfl), rfl⟩, fun n a hn _ => ?_⟩
  by_contra hne
  rw [hget, if_neg hne] at hn
  cases hn

/-- **This host's record in every run** whose received packets all meet the condition. -/
theorem ownRecord_of_run {env : PeersEnv} {s s' : Peers} {es : List PeersEvent}
    (hstart : PeersStart env s) (h : Run (Guarded OwnGuard (PeersStep env)) s es s') :
    (∃ a, s'.arp.get s'.hostName = some a ∧ a.mode = -1) ∧
    ∀ n a, s'.arp.get n = some a → a.mode = -1 → n = s'.hostName := by
  have hinv : OwnRecord s' := by
    refine h.guarded_invariant (fun s e t hs hg hstep => ?_) hstart.ownRecord
    rw [hstep]
    exact (peersHandle_ownRecord_iff hs e).mpr hg
  exact ⟨hinv.recorded, hinv.only⟩

/-- The r-host `r` answers. -/
theorem ownRecord_of_run_answer :
    (∃ a, (receivePacket plainEnv newHost rHostAnswer []).1.arp.get ⟨[104], by decide⟩ = some a ∧
      a.mode = -1) ∧
    ∀ n a, (receivePacket plainEnv newHost rHostAnswer []).1.arp.get n = some a → a.mode = -1 →
      n = ⟨[104], by decide⟩ := by
  have hguard : OwnGuard newHost (.packet rHostAnswer []) := by
    refine ⟨by decide, fun d hd => ?_, fun d hd => ?_⟩
    · obtain rfl : rHostAnswer = d := Option.some.inj hd
      decide
    · obtain rfl : rHostAnswer = d := Option.some.inj hd
      decide
  exact ownRecord_of_run newHost_start (Run.single ⟨hguard, rfl⟩)

/-- The peer `p` says that this host is gone. -/
theorem not_ownRecord_of_run :
    ¬ ∀ (env : PeersEnv) (s s' : Peers) (es : List PeersEvent), PeersStart env s →
      Run (PeersStep env) s es s' →
      (∃ a, s'.arp.get s'.hostName = some a ∧ a.mode = -1) ∧
      ∀ n a, s'.arp.get n = some a → a.mode = -1 → n = s'.hostName := by
  intro h
  obtain ⟨⟨a, hget, -⟩, -⟩ := h plainEnv newHost _
    [.packet (peerPacket cmdDisconnected [104, 0]) []] newHost_start (.single rfl)
  have hnone : (peersHandle plainEnv newHost
      (.packet (peerPacket cmdDisconnected [104, 0]) [])).1.arp.get
        (peersHandle plainEnv newHost
          (.packet (peerPacket cmdDisconnected [104, 0]) [])).1.hostName = none := by
    decide
  exact absurd (hnone.symm.trans hget) (by simp)

end Teonet
