import Teonet.L0Names

/-! # Who sends through the L0 server

The server sends a client's packet to the mesh with `ksnLNullSendFromL0`, under the name in the
record of the connection.  `ForwardsAs` are the events in whose callback that function is called,
and `mem_toMesh_iff` says that nothing else of the server sends to the mesh.

A name comes into a record only by an accepted login, and a registration makes a record without
one (`named_step`).  So in every run, over both transports, the client under whose name a packet
is sent has logged in on this connection under this name since the connection was last registered
(`forwardsAs_loggedIn`). -/

namespace Teonet

open Runs

variable {Ctx : Type}

/-! ### Events -/

/-- A login with a right signature that has not expired, and the name for it. -/
def AcceptedLogin (env : L0AuthEnv) (now : ℚ) (payload : List UInt8) (name : CString) : Prop :=
  ∃ userId sign timestamp, parseAuthPayload env payload = some (userId, sign, timestamp) ∧
    env.authSecret ≠ CString.empty ∧
    hexBytes (env.md5 (userId ++ (env.authSecret.bytes ++ timestamp))) = sign ∧
    outdated env.intOverflow now timestamp = false ∧ name = clientName userId

/-- The context under which `ksnLNulltrudpCheckPaket` processes a packet of a connection: a record
that it registers has none. -/
def trudpContext (kl : KsnLNullClass Ctx) (fd : ℤ) : Option Ctx :=
  (kl.map.get fd).bind (·.serverCrypt)

/-- `ksnLNulltrudpCheckPaket` registers the connection. -/
def TrudpRegisters (kl : KsnLNullClass Ctx) (fd : ℤ) (rd : KsnCorePacketData) (small : Bool) :
    Prop :=
  kl.map.get fd = none ∧ ¬ (small = true ∧ rd.cmd ≠ 0)

/-- The connection is registered in the callback of the event. -/
def Registers (fd : ℤ) (s : L0System Ctx) : L0Event → Prop
  | .accept _ fd' _ _ => fd' = fd
  | .trudpPacket _ _ fd' rd small _ => fd' = fd ∧ TrudpRegisters s.kl fd' rd small
  | _ => False

/-- A decrypted packet, at the start of `buf`, that holds a login with this payload. -/
def IsLogin (env : L0Env Ctx) (buf payload : List UInt8) : Prop :=
  isInitialize env.cli buf = true ∧
    env.cli.kexGetFromPayload (initializeData env.cli buf) = none ∧
    isLoginData env.cli buf = true ∧ payload = env.cli.packetPayload buf

/-- In the callback of the event a login is processed on the connection, and accepted under the
name. -/
inductive LogsInAs (env : L0Env Ctx) (fd : ℤ) (name : CString) (s : L0System Ctx) : L0Event → Prop
  | tcp {now subscribed kld buf plain payload} (hget : s.kl.map.get fd = some kld)
      (hsums : env.cli.checksumsMatch buf = true)
      (hplain : decrypted env.cli kld.serverCrypt buf = some plain)
      (hlogin : IsLogin env plain payload)
      (haccepted : AcceptedLogin env.toL0AuthEnv now payload name) :
      LogsInAs env fd name s (.tcpPacket now subscribed fd buf)
  | trudp {now subscribed rd small buf plain payload}
      (hrecord : s.kl.map.get fd ≠ none ∨ TrudpRegisters s.kl fd rd small)
      (hplain : decrypted env.cli (trudpContext s.kl fd) buf = some plain)
      (hlogin : IsLogin env plain payload)
      (haccepted : AcceptedLogin env.toL0AuthEnv now payload name) :
      LogsInAs env fd name s (.trudpPacket now subscribed fd rd small buf)

/-- In the callback of the event `ksnLNullSendFromL0` is called for the connection with the
name. -/
inductive ForwardsAs (env : L0Env Ctx) (fd : ℤ) (name : CString) (s : L0System Ctx) :
    L0Event → Prop
  | tcp {now subscribed kld buf plain} (hget : s.kl.map.get fd = some kld)
      (hsums : env.cli.checksumsMatch buf = true)
      (hplain : decrypted env.cli kld.serverCrypt buf = some plain)
      (hother : isInitialize env.cli plain = false) (hname : kld.name = some name) :
      ForwardsAs env fd name s (.tcpPacket now subscribed fd buf)
  | trudp {now subscribed rd small kld buf plain} (hget : s.kl.map.get fd = some kld)
      (hplain : decrypted env.cli kld.serverCrypt buf = some plain)
      (hcmd : (env.cli.packetHeader plain).cmd ≠ 0) (hname : kld.name = some name) :
      ForwardsAs env fd name s (.trudpPacket now subscribed fd rd small buf)

/-- The connection has a record with the name. -/
def Named (fd : ℤ) (name : CString) (s : L0System Ctx) : Prop :=
  s.kl.directory.member fd = some (some name)

theorem Named.record {fd : ℤ} {name : CString} {s : L0System Ctx} (h : Named fd name s) :
    ∃ kld, s.kl.map.get fd = some kld ∧ kld.name = some name := Option.map_eq_some_iff.mp h

/-! ### What names come from -/

theorem acceptedLogin_of_loginName {env : L0AuthEnv} {now : ℚ} {payload : List UInt8}
    {name : CString} (h : loginName env now payload = some name) :
    AcceptedLogin env now payload name := by
  unfold loginName at h
  split_ifs at h with hsecret
  cases hparse : parseAuthPayload env payload with
  | none =>
    rw [hparse] at h
    cases h
  | some fields =>
    obtain ⟨userId, sign, timestamp⟩ := fields
    rw [hparse] at h
    dsimp only at h
    split_ifs at h with hcheck
    obtain ⟨-, hexpiry, hsign⟩ := of_decide_eq_true hcheck
    exact ⟨userId, sign, timestamp, hparse, hsecret, hsign, hexpiry, (Option.some.inj h).symm⟩

/-- What a packet is as a login that is accepted. -/
theorem loginOutcome_accepted {env : L0Env Ctx} {now : ℚ} {ctx : Option Ctx} {buf : List UInt8}
    {name : CString} (h : loginOutcome env now ctx buf = some (some name)) :
    ∃ plain payload, decrypted env.cli ctx buf = some plain ∧ IsLogin env plain payload ∧
      loginName env.toL0AuthEnv now payload = some name := by
  unfold loginOutcome at h
  cases hplain : decrypted env.cli ctx buf with
  | none =>
    rw [hplain] at h
    cases h
  | some plain =>
    rw [hplain] at h
    dsimp only at h
    split_ifs at h with hlogin
    exact ⟨plain, _, rfl, ⟨hlogin.1, hlogin.2.1, hlogin.2.2, rfl⟩, Option.some.inj h⟩

/-- The names in `kl'` are those of `kl`, and that of the login on the connection. -/
def NamesFrom (kl : KsnLNullClass Ctx) (fd : ℤ) (login : Option (Option CString))
    (kl' : KsnLNullClass Ctx) : Prop :=
  ∀ fd' name, kl'.directory.member fd' = some (some name) →
    kl.directory.member fd' = some (some name) ∨ (fd' = fd ∧ login = some (some name))

theorem Quiet.namesFrom {kl : KsnLNullClass Ctx} {r : KsnLNullClass Ctx × List L0Effect}
    (h : Quiet kl r) (fd : ℤ) (login : Option (Option CString)) : NamesFrom kl fd login r.1 := by
  intro fd' name hname
  rw [h.1] at hname
  exact Or.inl hname

theorem Leaves.namesFrom {kl : KsnLNullClass Ctx} {fd : ℤ}
    {r : KsnLNullClass Ctx × List L0Effect} (h : Leaves kl fd r) (fd₀ : ℤ)
    (login : Option (Option CString)) : NamesFrom kl fd₀ login r.1 := by
  intro fd' name hname
  rw [h.directory] at hname
  by_cases hfd : fd' = fd
  · subst hfd
    have hself : (kl.directory.leave fd').member fd' = none := Function.update_self _ _ _
    rw [hself] at hname
    cases hname
  · rw [kl.directory.leave_member_of_ne hfd] at hname
    exact Or.inl hname

theorem NamesFrom.of_directory_eq {kl kl₁ kl' : KsnLNullClass Ctx} {fd : ℤ}
    {login : Option (Option CString)} (hdir : kl₁.directory = kl.directory)
    (h : NamesFrom kl₁ fd login kl') : NamesFrom kl fd login kl' := by
  intro fd' name hname
  rw [← hdir]
  exact h fd' name hname

theorem updateClientName_namesFrom (env : L0Env Ctx) (kl : KsnLNullClass Ctx) {fd : ℤ}
    (name : CString) (hmember : kl.directory.member fd ≠ none) :
    NamesFrom kl fd (some (some name)) (updateClientName env kl fd name).1 := by
  have hstays := (disconnectOwner_stays env kl name hmember).1
  have hdisplaced : NamesFrom kl fd (some (some name)) (disconnectOwner env kl fd name).1 := by
    unfold disconnectOwner
    dsimp only
    split_ifs
    · exact (ksnLNullClientDisconnect_leaves env kl _ one_ne_zero).namesFrom fd _
    · exact fun _ _ h => Or.inl h
  have hnamed : (updateClientName env kl fd name).1.directory.member =
      Function.update (disconnectOwner env kl fd name).1.directory.member fd
        (some (some name)) := by
    rw [← setName_member _ name hstays]
    unfold updateClientName
    dsimp only
    split_ifs <;> rfl
  intro fd' name' hname
  rw [hnamed, Function.update_apply] at hname
  split_ifs at hname with hfd
  · exact Or.inr ⟨hfd, by rw [Option.some.inj hname]⟩
  · exact hdisplaced fd' name' hname

theorem ksnLNullClientAuthCheck_namesFrom (env : L0Env Ctx) (now : ℚ) (subscribed : Bool)
    (kl : KsnLNullClass Ctx) {fd : ℤ} (payload : List UInt8)
    (hmember : kl.directory.member fd ≠ none) :
    NamesFrom kl fd (some (loginName env.toL0AuthEnv now payload))
      (ksnLNullClientAuthCheck env now subscribed kl fd payload).1 := by
  unfold ksnLNullClientAuthCheck
  cases hname : loginName env.toL0AuthEnv now payload with
  | none => exact (ksnLNullClientDisconnect_leaves env kl fd one_ne_zero).namesFrom fd _
  | some name =>
    have hnamed := updateClientName_namesFrom env kl name hmember
    dsimp only
    split_ifs
    · exact hnamed
    · have hquiet : Quiet (updateClientName env kl fd name).1
          (confirmAuth env (updateClientName env kl fd name).1 fd name) :=
        ksnLNullPacketSend_quiet env _ fd _
      intro fd' name' h
      rw [hquiet.1] at h
      exact hnamed fd' name' h

/-- A packet that is not an accepted login gives nobody a name. -/
theorem PacketOutcome.namesFrom {kl : KsnLNullClass Ctx} {fd : ℤ}
    {login : Option (Option CString)} {stops : Bool} {r : KsnLNullClass Ctx × List L0Effect}
    (h : PacketOutcome kl fd login stops r) (hlogin : ∀ name, login ≠ some (some name)) :
    NamesFrom kl fd login r.1 := by
  cases h with
  | quiet h _ => exact h.namesFrom fd _
  | gone h _ => exact h.namesFrom fd _
  | rejected h _ => exact h.namesFrom fd _
  | accepted name _ hname => exact absurd hname (hlogin name)

theorem PacketCase.namesFrom {env : L0Env Ctx} {now : ℚ} {subscribed : Bool}
    {kl : KsnLNullClass Ctx} {fd : ℤ} {Forwards : List UInt8 → CString → Prop}
    {login : Option (Option CString)} {stops : Bool} {r : KsnLNullClass Ctx × List L0Effect}
    (h : PacketCase env now subscribed kl fd Forwards login stops r)
    (hmember : kl.directory.member fd ≠ none) : NamesFrom kl fd login r.1 := by
  have hout := h.outcome hmember
  cases h with
  | login payload => exact ksnLNullClientAuthCheck_namesFrom env now subscribed kl payload hmember
  | _ => exact hout.namesFrom fun _ => (Option.some_ne_none _).symm

theorem tcpProcessPacket_namesFrom (env : L0Env Ctx) (now : ℚ) (subscribed : Bool)
    (kl : KsnLNullClass Ctx) {fd : ℤ} (kld : KsnLNullData Ctx) (buf : List UInt8)
    (hmember : kl.directory.member fd ≠ none) :
    NamesFrom kl fd (tcpLoginOutcome env now kld.serverCrypt buf)
      (tcpProcessPacket env now subscribed kl fd kld buf).1 := by
  obtain ⟨kl', hkl', hcase⟩ := tcpProcessPacket_case env now subscribed kl fd kld buf
  have hdir := hkl'.directory_eq
  exact (hcase.namesFrom (hdir ▸ hmember)).of_directory_eq hdir

theorem processPacket_namesFrom (env : L0Env Ctx) (now : ℚ) (subscribed : Bool)
    (kl : KsnLNullClass Ctx) {fd : ℤ} (kld : KsnLNullData Ctx) (buf : List UInt8)
    (hmember : kl.directory.member fd ≠ none) :
    NamesFrom kl fd (loginOutcome env now kld.serverCrypt buf)
      (processPacket env now subscribed kl fd kld buf).1 := by
  obtain ⟨kl', _, hkl', hcase⟩ := processPacket_case env now subscribed kl fd kld buf
  have hdir := hkl'.directory_eq
  exact (hcase.namesFrom (hdir ▸ hmember)).of_directory_eq hdir

/-! ### One step -/

theorem checkConnected_namesFrom (env : L0Env Ctx) (now : ℚ) (kl : KsnLNullClass Ctx) (fd : ℤ)
    (echo : List UInt8) : NamesFrom kl fd none (checkConnected env now kl fd echo).1 := by
  unfold checkConnected
  cases kl.map.get fd with
  | none => exact fun _ _ h => Or.inl h
  | some kld =>
    dsimp only
    split_ifs
    · exact (ksnLNullClientDisconnect_leaves env kl fd one_ne_zero).namesFrom fd none
    · exact (ksnLNullPacketSend_quiet env kl fd _).namesFrom fd none
    · exact fun _ _ h => Or.inl h

theorem cmdL0KickClient_namesFrom (env : L0Env Ctx) (kl : KsnLNullClass Ctx) (fd : ℤ)
    (userId : Option CString) : NamesFrom kl fd none (cmdL0KickClient env kl userId).1 := by
  unfold cmdL0KickClient
  cases userId with
  | none => exact fun _ _ h => Or.inl h
  | some name =>
    dsimp only
    split_ifs
    · exact ((ksnLNullPacketSend_quiet env kl _ _).leaves
        (ksnLNullClientDisconnect_leaves env _ _ two_ne_zero)).namesFrom fd none
    · exact fun _ _ h => Or.inl h

/-- A record that is registered has no name, and the others keep theirs. -/
theorem ksnLNullClientRegister_named {kl : KsnLNullClass Ctx} {now : ℚ} {fd fd' : ℤ}
    {addr : Option CString} {port : ℕ} {name : CString}
    (h : (ksnLNullClientRegister now kl fd' addr port).directory.member fd = some (some name)) :
    fd' ≠ fd ∧ kl.directory.member fd = some (some name) := by
  rw [ksnLNullClientRegister_directory] at h
  unfold Directory.enter at h
  dsimp only at h
  rw [Function.update_apply] at h
  split_ifs at h with hfd
  · cases Option.some.inj h
  · exact ⟨Ne.symm hfd, h⟩

theorem tcpDeliver_named {env : L0Env Ctx} {s : L0System Ctx} {now : ℚ} {subscribed : Bool}
    {fd fd' : ℤ} {buf : List UInt8} {name : CString}
    (h : (tcpDeliver env now subscribed s.kl fd' buf).1.directory.member fd = some (some name)) :
    LogsInAs env fd name s (.tcpPacket now subscribed fd' buf) ∨ Named fd name s := by
  unfold tcpDeliver at h
  cases hget : s.kl.map.get fd' with
  | none =>
    rw [hget] at h
    exact Or.inr h
  | some kld =>
    rw [hget] at h
    rcases tcpProcessPacket_namesFrom env now subscribed s.kl kld buf
      (KsnLNullClass.directory_member_ne_none hget) fd name h with hname | ⟨rfl, hlogin⟩
    · exact Or.inr hname
    · unfold tcpLoginOutcome at hlogin
      split_ifs at hlogin with hsums
      obtain ⟨plain, payload, hplain, hpacket, hname⟩ := loginOutcome_accepted hlogin
      exact Or.inl (.tcp hget hsums hplain hpacket (acceptedLogin_of_loginName hname))

theorem trudpDeliver_named {env : L0Env Ctx} {s : L0System Ctx} {now : ℚ} {subscribed : Bool}
    {fd fd' : ℤ} {rd : KsnCorePacketData} {small : Bool} {buf : List UInt8} {name : CString}
    (h : (trudpDeliver env now subscribed s.kl fd' rd small buf).1.directory.member fd =
      some (some name)) :
    LogsInAs env fd name s (.trudpPacket now subscribed fd' rd small buf) ∨
      (Named fd name s ∧ ¬ (fd' = fd ∧ TrudpRegisters s.kl fd' rd small)) := by
  unfold trudpDeliver at h
  cases hget : s.kl.map.get fd' with
  | some kld =>
    rw [hget] at h
    rcases processPacket_namesFrom env now subscribed s.kl kld buf
      (KsnLNullClass.directory_member_ne_none hget) fd name h with hname | ⟨rfl, hlogin⟩
    · refine Or.inr ⟨hname, fun hreg => ?_⟩
      rw [hreg.2.1] at hget
      cases hget
    · obtain ⟨plain, payload, hplain, hpacket, hname⟩ := loginOutcome_accepted hlogin
      have hctx : trudpContext s.kl fd = kld.serverCrypt := by
        rw [trudpContext, hget, Option.bind_some]
      exact Or.inl (.trudp (Or.inl (by rw [hget]; simp)) (hctx ▸ hplain) hpacket
        (acceptedLogin_of_loginName hname))
  | none =>
    rw [hget] at h
    dsimp only at h
    split_ifs at h with hsmall
    · rcases (ksnLNullClientDisconnect_leaves env s.kl fd' one_ne_zero).namesFrom fd none fd name h
        with hname | ⟨-, hlogin⟩
      · exact Or.inr ⟨hname, fun hreg => hreg.2.2 hsmall⟩
      · cases hlogin
    · -- the connection is registered, and its first packet is processed
      have hnew : (ksnLNullClientRegister now s.kl fd' (some rd.addr) rd.port).map.get fd' =
          some { tAddr := some rd.addr, tPort := rd.port, lastTime := now } :=
        FinMap.get_add_self _ _ _
      rw [hnew] at h
      rcases processPacket_namesFrom env now subscribed
        (ksnLNullClientRegister now s.kl fd' (some rd.addr) rd.port) _ buf
        (KsnLNullClass.directory_member_ne_none hnew) fd name h with hname | ⟨rfl, hlogin⟩
      · obtain ⟨hne, hnamed⟩ := ksnLNullClientRegister_named hname
        exact Or.inr ⟨hnamed, fun hreg => hne hreg.1⟩
      · obtain ⟨plain, payload, hplain, hpacket, hname⟩ := loginOutcome_accepted hlogin
        have hctx : trudpContext s.kl fd = none := by
          rw [trudpContext, hget, Option.bind_none]
        exact Or.inl (.trudp (Or.inr ⟨hget, hsmall⟩) (hctx ▸ hplain) hpacket
          (acceptedLogin_of_loginName hname))

/-- **Where a name comes from**: a login on the connection, or the state before a step that does
not register the connection. -/
theorem named_step {env : L0Env Ctx} {fd : ℤ} {name : CString} {s t : L0System Ctx} {e : L0Event}
    (hstep : L0Step env s e t) (hnamed : Named fd name t) :
    LogsInAs env fd name s e ∨ (Named fd name s ∧ ¬ Registers fd s e) := by
  obtain ⟨-, rfl⟩ := hstep
  -- the callbacks that give nobody a name
  have hkeeps : ∀ (fd' : ℤ) (kl : KsnLNullClass Ctx), NamesFrom s.kl fd' none kl →
      kl.directory.member fd = some (some name) → Named fd name s := by
    intro fd' kl hfrom hname
    rcases hfrom fd name hname with hname | ⟨-, hlogin⟩
    · exact hname
    · cases hlogin
  cases e with
  | accept now fd' addr port =>
    obtain ⟨hne, hname⟩ := ksnLNullClientRegister_named hnamed
    exact Or.inr ⟨hname, hne⟩
  | tcpPacket now subscribed fd' buf =>
    exact (tcpDeliver_named hnamed).imp_right fun hname => ⟨hname, id⟩
  | trudpPacket now subscribed fd' rd small buf => exact trudpDeliver_named hnamed
  | tcpClosed fd' =>
    exact Or.inr ⟨hkeeps fd' _ ((ksnLNullClientDisconnect_leaves env s.kl fd'
      one_ne_zero).namesFrom fd' none) hnamed, id⟩
  | channelDisconnected fd' =>
    exact Or.inr ⟨hkeeps fd' _ ((ksnLNullClientDisconnect_leaves env s.kl fd'
      one_ne_zero).namesFrom fd' none) hnamed, id⟩
  | timeout now fd' echo =>
    exact Or.inr ⟨hkeeps fd' _ (checkConnected_namesFrom env now s.kl fd' echo) hnamed, id⟩
  | kick userId =>
    exact Or.inr ⟨hkeeps fd _ (cmdL0KickClient_namesFrom env s.kl fd userId) hnamed, id⟩
  | dataTo rd =>
    exact Or.inr ⟨hkeeps fd _ ((cmdL0ToCb_quiet env s.kl rd).namesFrom fd none) hnamed, id⟩
  | stop =>
    have hgone : (ksnLNullStop env s.kl).1.directory.member fd = none :=
      KsnLNullClass.directory_absent (FinMap.get_empty fd)
    exact absurd (hnamed.symm.trans hgone) (by simp)
  | fakeFd => exact Or.inr ⟨hnamed, id⟩
  | otherOpens fd' => exact Or.inr ⟨hnamed, id⟩
  | otherCloses fd' => exact Or.inr ⟨hnamed, id⟩

/-! ### What is sent to the mesh -/

/-- The calls that send to the mesh: `ksnCoreSendCmdto` with `CMD_L0`, and the packet that is
processed by this host. -/
def L0Effect.toMesh : L0Effect → Bool
  | .toPeer _ _ => true
  | .toThisHost _ => true
  | _ => false

/-- None of the calls sends to the mesh. -/
def Offline (es : List L0Effect) : Prop := ∀ f ∈ es, f.toMesh = false

theorem Offline.append {es fs : List L0Effect} (he : Offline es) (hf : Offline fs) :
    Offline (es ++ fs) := by
  intro f hmem
  rcases List.mem_append.mp hmem with h | h
  · exact he f h
  · exact hf f h

theorem Offline.cons {f : L0Effect} {es : List L0Effect} (h : f.toMesh = false)
    (hes : Offline es) : Offline (f :: es) := by
  intro g hmem
  rcases List.mem_cons.mp hmem with rfl | hrest
  · exact h
  · exact hes g hrest

theorem offline_nil : Offline [] := by
  intro f hmem
  cases hmem

theorem offline_singleton {f : L0Effect} (h : f.toMesh = false) : Offline [f] :=
  .cons h offline_nil

theorem ksnLNullClientDisconnect_offline (env : L0Env Ctx) (kl : KsnLNullClass Ctx) (fd : ℤ)
    (removeF : ℕ) : Offline (ksnLNullClientDisconnect env kl fd removeF).2 := by
  have hclose : Offline (closeSocket env fd removeF) := by
    unfold closeSocket
    split_ifs
    · exact (offline_singleton rfl).append (offline_singleton rfl)
    · exact offline_singleton rfl
    · exact offline_nil
  have htold : ∀ (kld : KsnLNullData Ctx) clients,
      Offline (disconnectedEvent kld removeF clients) := by
    intro kld clients
    unfold disconnectedEvent
    cases kld.name with
    | none => exact offline_nil
    | some name =>
      dsimp only
      split_ifs
      · exact offline_singleton rfl
      · exact offline_nil
  unfold ksnLNullClientDisconnect
  cases kl.map.get fd with
  | none => exact offline_nil
  | some kld =>
    dsimp only
    split_ifs
    · exact (hclose.append (htold kld _)).append (offline_singleton rfl)
    · exact hclose.append (htold kld _)

theorem ksnLNullPacketSend_offline (env : L0Env Ctx) (kl : KsnLNullClass Ctx) (fd : ℤ)
    (pkg : List UInt8) : Offline (ksnLNullPacketSend env kl fd pkg).2 := by
  unfold ksnLNullPacketSend
  by_cases hfd : fd < env.maxFdNumber
  · simp only [hfd, if_true]
    exact offline_singleton rfl
  · simp only [hfd, if_false]
    cases kl.map.get fd with
    | none => exact offline_nil
    | some kld =>
      intro f hmem
      obtain ⟨chunk, -, rfl⟩ := List.mem_map.mp hmem
      rfl

theorem updateClientName_offline (env : L0Env Ctx) (kl : KsnLNullClass Ctx) (fd : ℤ)
    (name : CString) : Offline (updateClientName env kl fd name).2 := by
  show Offline (disconnectOwner env kl fd name).2
  unfold disconnectOwner
  dsimp only
  split_ifs
  · exact ksnLNullClientDisconnect_offline env kl _ 1
  · exact offline_nil

theorem ksnLNullClientAuthCheck_offline (env : L0Env Ctx) (now : ℚ) (subscribed : Bool)
    (kl : KsnLNullClass Ctx) (fd : ℤ) (payload : List UInt8) :
    Offline (ksnLNullClientAuthCheck env now subscribed kl fd payload).2.1 := by
  unfold ksnLNullClientAuthCheck
  cases loginName env.toL0AuthEnv now payload with
  | none => exact ksnLNullClientDisconnect_offline env kl fd 1
  | some name =>
    refine (updateClientName_offline env kl fd name).append ?_
    split_ifs
    · exact offline_singleton rfl
    · exact ksnLNullPacketSend_offline env _ fd _

theorem processKeyExchange_offline (env : L0Env Ctx) (kl : KsnLNullClass Ctx) (fd : ℤ)
    (protocolId : ℕ) (kex : List UInt8) :
    Offline (processKeyExchange env kl fd protocolId kex).2.1 := by
  have hsend : ∀ kl ctx, Offline (sendKexResponse env kl fd ctx).2.1 := by
    intro kl ctx
    unfold sendKexResponse
    cases env.cli.kexCreate ctx with
    | none => exact offline_nil
    | some resp => exact ksnLNullPacketSend_offline env kl fd _
  unfold processKeyExchange
  cases kexContext env kl fd protocolId with
  | none => exact offline_nil
  | some ctx =>
    dsimp only
    split_ifs
    · exact hsend _ _
    · exact hsend _ _
    · exact offline_nil
    · exact offline_nil

theorem disconnectAll_offline (env : L0Env Ctx) (kl : KsnLNullClass Ctx) (fds : List ℤ) :
    Offline (disconnectAll env kl fds).2 := by
  induction fds generalizing kl with
  | nil => exact offline_nil
  | cons fd fds ih => exact (ksnLNullClientDisconnect_offline env kl fd 0).append (ih _)

theorem IsReset.offline {es : List L0Effect} (h : IsReset es) : Offline es := by
  rcases h with rfl | rfl
  · exact offline_nil
  · exact offline_singleton rfl

theorem PacketCase.offline {env : L0Env Ctx} {now : ℚ} {subscribed : Bool}
    {kl : KsnLNullClass Ctx} {fd : ℤ} {Forwards : List UInt8 → CString → Prop}
    {login : Option (Option CString)} {stops : Bool} {r : KsnLNullClass Ctx × List L0Effect}
    (h : PacketCase env now subscribed kl fd Forwards login stops r) :
    Offline r.2 ∨ ∃ plain name, Forwards plain name := by
  cases h with
  | nothing es _ hes => exact Or.inl hes.offline
  | kex protocolId kex => exact Or.inl (processKeyExchange_offline env kl fd protocolId kex)
  | kexFailed protocolId kex es hes =>
    exact Or.inl ((processKeyExchange_offline env kl fd protocolId kex).append
      (hes.offline.append (ksnLNullClientDisconnect_offline env _ fd 1)))
  | login payload es hes hfs =>
    rw [hfs]
    exact Or.inl ((ksnLNullClientAuthCheck_offline env now subscribed kl fd payload).append
      hes.offline)
  | gone es hes =>
    exact Or.inl (hes.offline.append (ksnLNullClientDisconnect_offline env kl fd 1))
  | toMesh _ h => exact Or.inr ⟨_, _, h⟩

/-- A packet of a TCP client is sent to the mesh, or nothing is. -/
theorem tcpProcessPacket_offline (env : L0Env Ctx) (now : ℚ) (subscribed : Bool)
    (kl : KsnLNullClass Ctx) (fd : ℤ) (kld : KsnLNullData Ctx) (buf : List UInt8) :
    Offline (tcpProcessPacket env now subscribed kl fd kld buf).2.1 ∨
    ∃ plain name, env.cli.checksumsMatch buf = true ∧
      decrypted env.cli kld.serverCrypt buf = some plain ∧
      isInitialize env.cli plain = false ∧ kld.name = some name := by
  obtain ⟨_, _, hcase⟩ := tcpProcessPacket_case env now subscribed kl fd kld buf
  exact hcase.offline

/-- A packet of a TR-UDP client is sent to the mesh, or nothing is. -/
theorem processPacket_offline (env : L0Env Ctx) (now : ℚ) (subscribed : Bool)
    (kl : KsnLNullClass Ctx) (fd : ℤ) (kld : KsnLNullData Ctx) (buf : List UInt8) :
    Offline (processPacket env now subscribed kl fd kld buf).2.1 ∨
    ∃ plain name, decrypted env.cli kld.serverCrypt buf = some plain ∧
      (env.cli.packetHeader plain).cmd ≠ 0 ∧ kld.name = some name := by
  obtain ⟨_, _, _, hcase⟩ := processPacket_case env now subscribed kl fd kld buf
  exact hcase.offline

/-- `ksnLNullSendFromL0` sends one packet to the mesh. -/
theorem ksnLNullSendFromL0_toMesh (env : L0Env Ctx) (kl : KsnLNullClass Ctx) (buf : List UInt8)
    (name : CString) : ∃ f ∈ (ksnLNullSendFromL0 env kl buf name).2, f.toMesh = true := by
  refine ⟨_, List.mem_singleton_self _, ?_⟩
  split_ifs <;> rfl

theorem tcpDeliver_offline (env : L0Env Ctx) (s : L0System Ctx) (now : ℚ) (subscribed : Bool)
    (fd : ℤ) (buf : List UInt8) :
    Offline (tcpDeliver env now subscribed s.kl fd buf).2 ∨
      ∃ name, ForwardsAs env fd name s (.tcpPacket now subscribed fd buf) := by
  unfold tcpDeliver
  cases hget : s.kl.map.get fd with
  | none => exact Or.inl offline_nil
  | some kld =>
    rcases tcpProcessPacket_offline env now subscribed s.kl fd kld buf with
      hoff | ⟨plain, name, hsums, hplain, hinit, hname⟩
    · exact Or.inl hoff
    · exact Or.inr ⟨name, .tcp hget hsums hplain hinit hname⟩

theorem trudpDeliver_offline (env : L0Env Ctx) (s : L0System Ctx) (now : ℚ) (subscribed : Bool)
    (fd : ℤ) (rd : KsnCorePacketData) (small : Bool) (buf : List UInt8) :
    Offline (trudpDeliver env now subscribed s.kl fd rd small buf).2.1 ∨
      ∃ name, ForwardsAs env fd name s (.trudpPacket now subscribed fd rd small buf) := by
  unfold trudpDeliver
  cases hget : s.kl.map.get fd with
  | some kld =>
    rcases processPacket_offline env now subscribed s.kl fd kld buf with
      hoff | ⟨plain, name, hplain, hcmd, hname⟩
    · exact Or.inl hoff
    · exact Or.inr ⟨name, .trudp hget hplain hcmd hname⟩
  | none =>
    refine Or.inl ?_
    dsimp only
    split_ifs with hsmall
    · exact ksnLNullClientDisconnect_offline env s.kl fd 1
    · -- a new record has no name
      have hnew : (ksnLNullClientRegister now s.kl fd (some rd.addr) rd.port).map.get fd =
          some { tAddr := some rd.addr, tPort := rd.port, lastTime := now } :=
        FinMap.get_add_self _ _ _
      rw [hnew]
      rcases processPacket_offline env now subscribed
        (ksnLNullClientRegister now s.kl fd (some rd.addr) rd.port) fd
        { tAddr := some rd.addr, tPort := rd.port, lastTime := now } buf with
        hoff | ⟨plain, name, -, -, hname⟩
      · exact hoff
      · cases hname

theorem checkConnected_offline (env : L0Env Ctx) (now : ℚ) (kl : KsnLNullClass Ctx) (fd : ℤ)
    (echo : List UInt8) : Offline (checkConnected env now kl fd echo).2 := by
  unfold checkConnected
  cases kl.map.get fd with
  | none => exact offline_nil
  | some kld =>
    dsimp only
    split_ifs
    · exact ksnLNullClientDisconnect_offline env kl fd 1
    · exact ksnLNullPacketSend_offline env kl fd _
    · exact offline_nil

theorem cmdL0KickClient_offline (env : L0Env Ctx) (kl : KsnLNullClass Ctx)
    (userId : Option CString) : Offline (cmdL0KickClient env kl userId).2 := by
  unfold cmdL0KickClient
  cases userId with
  | none => exact offline_nil
  | some name =>
    dsimp only
    split_ifs
    · exact (ksnLNullPacketSend_offline env kl _ _).append
        (ksnLNullClientDisconnect_offline env _ _ 2)
    · exact offline_nil

theorem cmdL0ToCb_offline (env : L0Env Ctx) (kl : KsnLNullClass Ctx) (rd : KsnCorePacketData) :
    Offline (cmdL0ToCb env kl rd).2 := by
  unfold cmdL0ToCb
  dsimp only
  split_ifs
  · exact ksnLNullPacketSend_offline env _ _ _
  · exact offline_nil

theorem l0Handle_offline (env : L0Env Ctx) (s : L0System Ctx) (e : L0Event) :
    Offline (l0Handle env s.kl e).2 ∨ ∃ fd name, ForwardsAs env fd name s e := by
  cases e with
  | tcpPacket now subscribed fd buf =>
    exact (tcpDeliver_offline env s now subscribed fd buf).imp_right fun h => ⟨fd, h⟩
  | trudpPacket now subscribed fd rd small buf =>
    exact (trudpDeliver_offline env s now subscribed fd rd small buf).imp_right fun h => ⟨fd, h⟩
  | tcpClosed fd => exact Or.inl (ksnLNullClientDisconnect_offline env s.kl fd 1)
  | channelDisconnected fd => exact Or.inl (ksnLNullClientDisconnect_offline env s.kl fd 1)
  | timeout now fd echo => exact Or.inl (checkConnected_offline env now s.kl fd echo)
  | kick userId => exact Or.inl (cmdL0KickClient_offline env s.kl userId)
  | dataTo rd => exact Or.inl (cmdL0ToCb_offline env s.kl rd)
  | stop => exact Or.inl (disconnectAll_offline env s.kl _)
  | accept now fd addr port => exact Or.inl offline_nil
  | fakeFd => exact Or.inl offline_nil
  | otherOpens fd => exact Or.inl offline_nil
  | otherCloses fd => exact Or.inl offline_nil

/-- **Nothing else sends to the mesh**: a callback does so exactly when it calls
`ksnLNullSendFromL0`. -/
theorem toMesh_iff_forwardsAs (env : L0Env Ctx) (s : L0System Ctx) (e : L0Event) :
    (∃ f ∈ (l0Handle env s.kl e).2, f.toMesh = true) ↔ ∃ fd name, ForwardsAs env fd name s e := by
  constructor
  · rintro ⟨f, hmem, hf⟩
    rcases l0Handle_offline env s e with hoff | h
    · rw [hoff f hmem] at hf
      cases hf
    · exact h
  · rintro ⟨fd, name, hcall⟩
    cases hcall with
    | @tcp now subscribed kld buf plain hget hsums hplain hother hname =>
      have heffects : (l0Handle env s.kl (.tcpPacket now subscribed fd buf)).2 =
          (ksnLNullSendFromL0 env (s.kl.updateCrypt fd (decryptedContext env.cli buf)) plain
            name).2 := by
        simp only [l0Handle, tcpDeliver, tcpProcessPacket, hget, hsums, hplain, hother, hname,
          if_true, Bool.false_eq_true, if_false]
      rw [heffects]
      exact ksnLNullSendFromL0_toMesh env _ plain name
    | @trudp now subscribed rd small kld buf plain hget hplain hcmd hname =>
      have heffects : ∃ kl', (l0Handle env s.kl (.trudpPacket now subscribed fd rd small buf)).2 =
          (ksnLNullSendFromL0 env kl' plain name).2 := by
        simp only [l0Handle, trudpDeliver, processPacket, hget, hplain, hcmd, hname, if_false]
        exact ⟨_, rfl⟩
      obtain ⟨kl', heffects⟩ := heffects
      rw [heffects]
      exact ksnLNullSendFromL0_toMesh env kl' plain name

/-! ### Runs -/

/-- The connection of a packet that is forwarded has a record with the name. -/
theorem ForwardsAs.named {env : L0Env Ctx} {fd : ℤ} {name : CString} {s : L0System Ctx}
    {e : L0Event} (h : ForwardsAs env fd name s e) : Named fd name s := by
  cases h with
  | tcp hget _ _ _ hname => exact (KsnLNullClass.directory_member hget).trans (by rw [hname])
  | trudp hget _ _ hname => exact (KsnLNullClass.directory_member hget).trans (by rw [hname])

/-- **Who a packet is sent from**: whenever `ksnLNullSendFromL0` is called for a connection with a
name, a login on the connection has been accepted under this name, and since then the connection
has not been registered again. -/
theorem forwardsAs_loggedIn (env : L0Env Ctx) {s s' : L0System Ctx} {es : List L0Event}
    (hstart : L0Start s) (hrun : Run (L0Step env) s es s') {e : L0Event} {fd : ℤ} {name : CString}
    (hcall : ForwardsAs env fd name s' e) :
    Since (L0Step env) (LogsInAs env fd name) (fun t e => ¬ Registers fd t e) s es s' := by
  have hsteps : ∀ s e t, L0Step env s e t → Named fd name t →
      LogsInAs env fd name s e ∨ (Named fd name s ∧ ¬ Registers fd s e) :=
    fun s e t => named_step
  refine hrun.since hsteps ?_ hcall.named
  intro hnamed
  have habsent : s.kl.directory.member fd = none :=
    KsnLNullClass.directory_absent (by rw [hstart.noMap]; exact FinMap.get_empty fd)
  exact absurd (hnamed.symm.trans habsent) (by simp)

/-- An echo request of a client to the peer `p`. -/
def echoToPeer : List UInt8 := plainPacket cmdEcho (CString.ofBuf [112]) [1]

/-- After its login the client `a` sends to a peer. -/
theorem forwardsAs_loggedIn_loginRun :
    Since (L0Step secretEnv) (LogsInAs secretEnv 5 (clientName [97]))
      (fun t e => ¬ Registers 5 t e) emptyServer loginRun
      (loginRun.foldl (l0After secretEnv) emptyServer) := by
  have hmember : (loginRun.foldl (l0After secretEnv) emptyServer).kl.directory.member 5 =
      some (some (clientName [97])) := by decide +kernel
  obtain ⟨kld, hget, hname⟩ := Named.record hmember
  exact forwardsAs_loggedIn secretEnv emptyServer_start run_loginRun.of_guarded
    (@ForwardsAs.tcp _ _ _ _ _ 6 false kld echoToPeer echoToPeer hget (by decide +kernel) rfl
      (by decide +kernel) hname)

end Teonet
