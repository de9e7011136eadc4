import Teonet.L0Names

/-! # Reading from a TCP client

`cmd_l0_read_cb` appends what it has read to the buffer in the client's record and processes the
packets in the buffer, one after the other.  A packet can make the server remove the record: a key
exchange that fails, after which the callback returns, or a login that is rejected, after which
the loop goes on.

The callback's trace holds the accesses to the record and its buffer, the packets it processes and
the calls it makes, in order; a trace ends with the first access to a record that has been freed,
since nobody knows what is found there.  `cmdL0ReadCb_clean_iff` says that a trace has nothing
behind the removal exactly when the loop comes to no login that is rejected. -/

namespace Teonet

open Runs

variable {Ctx : Type}

/-! ### The callback -/

/-- What the callback does. -/
inductive ReadTrace
  /-- the record of the connection or its read buffer is read or written -/
  | access
  /-- a packet of the stream is processed -/
  | packet (bytes : List UInt8)
  | call (e : L0Effect)

/-- What `read` returns. -/
inductive L0TcpRead
  | closed
  | error
  | data (bytes : List UInt8)

/-- The loop of `cmd_l0_read_cb` over the bytes that are left in the buffer, and what is done with
the end of it.  The test for another packet reads the record. -/
def cmdL0ReadLoop (env : L0Env Ctx) (now : ℚ) (subscribed : Bool) (fd : ℤ)
    (kl : KsnLNullClass Ctx) (rest : List UInt8) : KsnLNullClass Ctx × List ReadTrace :=
  match kl.map.get fd with
  | none => (kl, [.access])
  | some kld =>
    if env.cli.packetLength rest ≤ rest.length then
      let done := tcpProcessPacket env now subscribed kl fd kld rest
      let trace := ReadTrace.access :: .packet (rest.take (env.cli.packetLength rest)) ::
        done.2.1.map .call
      if done.2.2 then (done.1, trace)
      else
        let next := cmdL0ReadLoop env now subscribed fd done.1
          (rest.drop (env.cli.packetLength rest))
        (next.1, trace ++ next.2)
    else (kl.update fd fun d => { d with readBuffer := rest }, [.access])
termination_by rest.length
decreasing_by
  have hsize := env.cli.l0HeaderSize_le_packetLength rest
  rw [List.length_drop]
  unfold l0HeaderSize at hsize
  omega

/-- The record after the read bytes have been put into its buffer, which grows by
`KSN_BUFFER_DB_SIZE` when they do not fit. -/
def storeRead (now : ℚ) (kl : KsnLNullClass Ctx) (fd : ℤ) (bytes : List UInt8) :
    KsnLNullClass Ctx :=
  kl.update fd fun d => { d with
    lastTime := now
    readBuffer := d.readBuffer ++ bytes
    readBufferSize :=
      if bytes.length > d.readBufferSize - d.readBuffer.length then d.readBufferSize + 2048
      else d.readBufferSize }

/-- `cmd_l0_read_cb`. -/
def cmdL0ReadCb (env : L0Env Ctx) (now : ℚ) (subscribed : Bool) (kl : KsnLNullClass Ctx) (fd : ℤ) :
    L0TcpRead → KsnLNullClass Ctx × List ReadTrace
  | .closed =>
    let gone := ksnLNullClientDisconnect env kl fd 1
    (gone.1, gone.2.map .call)
  | .error => (kl, [])
  | .data bytes =>
    match kl.map.get fd with
    | none => (kl, [])
    | some kld =>
      let run := cmdL0ReadLoop env now subscribed fd (storeRead now kl fd bytes)
        (kld.readBuffer ++ bytes)
      (run.1, .access :: run.2)

/-! ### Traces -/

/-- Behind the removal of the record there are calls only: no further packet is processed, and
neither the record nor its buffer is read or written. -/
def Clean (fd : ℤ) (trace : List ReadTrace) : Prop :=
  ∀ before after, trace = before ++ .call (.removed fd) :: after → ∀ t ∈ after, ∃ e, t = .call e

theorem clean_append_of_not_mem {fd : ℤ} {l m : List ReadTrace}
    (h : .call (.removed fd) ∉ l) : Clean fd (l ++ m) ↔ Clean fd m := by
  constructor
  · intro hc before after heq
    apply hc (l ++ before) after
    rw [heq, List.append_assoc]
  · intro hc before after heq
    rw [List.append_eq_append_iff] at heq
    rcases heq with ⟨mid, hbefore, hm⟩ | ⟨mid, hl, hmid⟩
    · exact hc mid after hm
    · cases mid with
      | nil => exact hc [] after hmid.symm
      | cons t mid =>
        -- the removal would be in `l`
        obtain ⟨rfl, -⟩ := List.cons.inj hmid
        exact absurd (hl ▸ List.mem_append_right _ List.mem_cons_self) h

theorem clean_calls (fd : ℤ) (es : List L0Effect) : Clean fd (es.map .call) := by
  intro before after heq t ht
  have hmem : t ∈ es.map ReadTrace.call := by
    rw [heq]
    exact List.mem_append_right _ (List.mem_cons_of_mem _ ht)
  obtain ⟨e, -, rfl⟩ := List.mem_map.mp hmem
  exact ⟨e, rfl⟩

/-- An access behind the removal. -/
theorem not_clean_append {fd : ℤ} {l m : List ReadTrace} (hl : .call (.removed fd) ∈ l)
    (hm : .access ∈ m) : ¬ Clean fd (l ++ m) := by
  intro hc
  obtain ⟨before, after, rfl⟩ := List.append_of_mem hl
  rw [List.append_assoc, List.cons_append] at hc
  obtain ⟨e, he⟩ := hc before (after ++ m) rfl .access (List.mem_append_right _ hm)
  cases he

/-! ### The loop -/

/-- The loop, from one state and the bytes left in the buffer, comes to another. -/
inductive ReadReaches (env : L0Env Ctx) (now : ℚ) (subscribed : Bool) (fd : ℤ) :
    KsnLNullClass Ctx → List UInt8 → KsnLNullClass Ctx → List UInt8 → Prop
  | here (kl : KsnLNullClass Ctx) (rest : List UInt8) :
      ReadReaches env now subscribed fd kl rest kl rest
  | next {kl kl' : KsnLNullClass Ctx} {rest rest' : List UInt8} {kld : KsnLNullData Ctx}
      (hget : kl.map.get fd = some kld) (hlen : env.cli.packetLength rest ≤ rest.length)
      (hstays : (tcpProcessPacket env now subscribed kl fd kld rest).2.2 = false)
      (h : ReadReaches env now subscribed fd
        (tcpProcessPacket env now subscribed kl fd kld rest).1
        (rest.drop (env.cli.packetLength rest)) kl' rest') :
      ReadReaches env now subscribed fd kl rest kl' rest'

/-- The loop comes to a login that is rejected. -/
def ComesToRejectedLogin (env : L0Env Ctx) (now : ℚ) (subscribed : Bool) (fd : ℤ)
    (kl : KsnLNullClass Ctx) (rest : List UInt8) : Prop :=
  ∃ kl' rest' kld, ReadReaches env now subscribed fd kl rest kl' rest' ∧
    kl'.map.get fd = some kld ∧ env.cli.packetLength rest' ≤ rest'.length ∧
    tcpLoginOutcome env now kld.serverCrypt rest' = some none

theorem comesToRejectedLogin_iff (env : L0Env Ctx) (now : ℚ) (subscribed : Bool) (fd : ℤ)
    (kl : KsnLNullClass Ctx) (rest : List UInt8) :
    ComesToRejectedLogin env now subscribed fd kl rest ↔
      ∃ kld, kl.map.get fd = some kld ∧ env.cli.packetLength rest ≤ rest.length ∧
        (tcpLoginOutcome env now kld.serverCrypt rest = some none ∨
          ((tcpProcessPacket env now subscribed kl fd kld rest).2.2 = false ∧
            ComesToRejectedLogin env now subscribed fd
              (tcpProcessPacket env now subscribed kl fd kld rest).1
              (rest.drop (env.cli.packetLength rest)))) := by
  constructor
  · rintro ⟨kl', rest', kld', hreach, hget', hlen', hlogin⟩
    cases hreach with
    | here => exact ⟨kld', hget', hlen', Or.inl hlogin⟩
    | next hget hlen hstays h =>
      exact ⟨_, hget, hlen, Or.inr ⟨hstays, kl', rest', kld', h, hget', hlen', hlogin⟩⟩
  · rintro ⟨kld, hget, hlen, hlogin | ⟨hstays, kl', rest', kld', h, hget', hlen', hlogin⟩⟩
    · exact ⟨kl, rest, kld, .here kl rest, hget, hlen, hlogin⟩
    · exact ⟨kl', rest', kld', .next hget hlen hstays h, hget', hlen', hlogin⟩

/-- The same when the loop is at a packet of the connection. -/
theorem comesToRejectedLogin_of_packet (env : L0Env Ctx) (now : ℚ) (subscribed : Bool) {fd : ℤ}
    {kl : KsnLNullClass Ctx} {kld : KsnLNullData Ctx} (hget : kl.map.get fd = some kld)
    {rest : List UInt8} (hlen : env.cli.packetLength rest ≤ rest.length) :
    ComesToRejectedLogin env now subscribed fd kl rest ↔
      tcpLoginOutcome env now kld.serverCrypt rest = some none ∨
        ((tcpProcessPacket env now subscribed kl fd kld rest).2.2 = false ∧
          ComesToRejectedLogin env now subscribed fd
            (tcpProcessPacket env now subscribed kl fd kld rest).1
            (rest.drop (env.cli.packetLength rest))) := by
  rw [comesToRejectedLogin_iff]
  constructor
  · rintro ⟨kld', hget', -, h⟩
    obtain rfl := Option.some.inj (hget.symm.trans hget')
    exact h
  · intro h
    exact ⟨kld, hget, hlen, h⟩

theorem removed_mem_map {fd : ℤ} {es : List L0Effect} (bytes : List UInt8) :
    .call (.removed fd) ∈ ReadTrace.access :: .packet bytes :: es.map ReadTrace.call ↔
      .removed fd ∈ es := by
  simp

/-- After a failed key exchange the packet was no login. -/
theorem PacketOutcome.login_of_stops {kl : KsnLNullClass Ctx} {fd : ℤ}
    {login : Option (Option CString)} {r : KsnLNullClass Ctx × List L0Effect}
    (h : PacketOutcome kl fd login true r) : login = none := by
  cases h with
  | gone _ hlogin => exact hlogin

/-- The callback goes on after a rejected login, which has removed the record, and after the
packets that keep it. -/
theorem PacketOutcome.of_goesOn {kl : KsnLNullClass Ctx} {fd : ℤ}
    {login : Option (Option CString)} {r : KsnLNullClass Ctx × List L0Effect}
    (hmember : kl.directory.member fd ≠ none) (h : PacketOutcome kl fd login false r) :
    (login = some none ∧ .removed fd ∈ r.2) ∨
      (login ≠ some none ∧ .removed fd ∉ r.2) := by
  cases h with
  | quiet h hlogin =>
    refine Or.inr ⟨by rw [hlogin]; simp, fun hmem => ?_⟩
    have hended := mem_endedFds_of_removed hmem
    rw [h.2] at hended
    cases hended
  | rejected h hlogin => exact Or.inl ⟨hlogin, h.removed hmember⟩
  | accepted name h hlogin =>
    refine Or.inr ⟨by rw [hlogin]; simp, fun hmem => ?_⟩
    exact (h.ended fd (mem_endedFds_of_removed hmem)).1 rfl

/-- The record is gone: the test of the loop reads it. -/
theorem cmdL0ReadLoop_of_absent (env : L0Env Ctx) (now : ℚ) (subscribed : Bool) {fd : ℤ}
    {kl : KsnLNullClass Ctx} (h : kl.map.get fd = none) (rest : List UInt8) :
    cmdL0ReadLoop env now subscribed fd kl rest = (kl, [.access]) := by
  unfold cmdL0ReadLoop
  rw [h]

/-- The test of the loop is the first thing that it does. -/
theorem access_mem_cmdL0ReadLoop (env : L0Env Ctx) (now : ℚ) (subscribed : Bool) (fd : ℤ)
    (kl : KsnLNullClass Ctx) (rest : List UInt8) :
    .access ∈ (cmdL0ReadLoop env now subscribed fd kl rest).2 := by
  unfold cmdL0ReadLoop
  split
  · exact List.mem_singleton_self _
  · split
    · dsimp only
      split
      · exact List.mem_cons_self
      · exact List.mem_append_left _ List.mem_cons_self
    · exact List.mem_singleton_self _

theorem clean_access (fd : ℤ) : Clean fd [.access] := by
  have hnot : ReadTrace.call (.removed fd) ∉ [ReadTrace.access] := by simp
  have h := (clean_append_of_not_mem (m := []) hnot).mpr (clean_calls fd [])
  exact h

/-- A packet at the start of the buffer is processed, and the callback returns or goes on with the
rest. -/
theorem cmdL0ReadLoop_of_packet (env : L0Env Ctx) (now : ℚ) (subscribed : Bool) {fd : ℤ}
    {kl : KsnLNullClass Ctx} {kld : KsnLNullData Ctx} (hget : kl.map.get fd = some kld)
    {rest : List UInt8} (hlen : env.cli.packetLength rest ≤ rest.length) :
    (cmdL0ReadLoop env now subscribed fd kl rest).2 =
      (.access :: .packet (rest.take (env.cli.packetLength rest)) ::
          (tcpProcessPacket env now subscribed kl fd kld rest).2.1.map .call) ++
        if (tcpProcessPacket env now subscribed kl fd kld rest).2.2 then []
        else (cmdL0ReadLoop env now subscribed fd
          (tcpProcessPacket env now subscribed kl fd kld rest).1
          (rest.drop (env.cli.packetLength rest))).2 := by
  conv_lhs => unfold cmdL0ReadLoop
  rw [hget]
  dsimp only
  rw [if_pos hlen]
  split
  · rw [List.append_nil]
  · rfl

/-- A failed key exchange is the last packet. -/
theorem clean_packet_calls (fd : ℤ) (bytes : List UInt8) (es : List L0Effect) :
    Clean fd (.access :: .packet bytes :: es.map .call) := by
  have hnot : ReadTrace.call (.removed fd) ∉ [ReadTrace.access, .packet bytes] := by simp
  exact (clean_append_of_not_mem hnot).mpr (clean_calls fd es)

/-- **The loop** has nothing behind the removal exactly when it comes to no rejected login. -/
theorem cmdL0ReadLoop_clean_iff (env : L0Env Ctx) (now : ℚ) (subscribed : Bool) (fd : ℤ)
    (kl : KsnLNullClass Ctx) (rest : List UInt8) :
    Clean fd (cmdL0ReadLoop env now subscribed fd kl rest).2 ↔
      ¬ ComesToRejectedLogin env now subscribed fd kl rest := by
  induction kl, rest using cmdL0ReadLoop.induct env now subscribed fd with
  | case1 kl rest hget =>
    rw [cmdL0ReadLoop_of_absent env now subscribed hget, comesToRejectedLogin_iff]
    simp [hget, clean_access]
  | case2 kl rest kld hget hlen done hstops =>
    have hout := tcpProcessPacket_outcome env now subscribed kl kld rest
      (KsnLNullClass.directory_member_ne_none hget)
    rw [hstops] at hout
    rw [cmdL0ReadLoop_of_packet env now subscribed hget hlen, if_pos hstops, List.append_nil,
      comesToRejectedLogin_of_packet env now subscribed hget hlen, hout.login_of_stops]
    refine iff_of_true (clean_packet_calls fd _ _) ?_
    rintro (hrejected | ⟨hgoesOn, -⟩)
    · cases hrejected
    · exact absurd (hgoesOn.symm.trans hstops) (by decide)
  | case3 kl rest kld hget hlen done hgoesOn ih =>
    have hmember := KsnLNullClass.directory_member_ne_none hget
    have hout := tcpProcessPacket_outcome env now subscribed kl kld rest hmember
    rw [Bool.not_eq_true] at hgoesOn
    rw [hgoesOn] at hout
    rw [cmdL0ReadLoop_of_packet env now subscribed hget hlen, if_neg (by rw [hgoesOn]; decide),
      comesToRejectedLogin_of_packet env now subscribed hget hlen]
    rcases hout.of_goesOn hmember with ⟨hlogin, hremoved⟩ | ⟨hlogin, hremoved⟩
    · -- the record is gone, and the test of the loop comes behind
      refine iff_of_false ?_ (not_not_intro (Or.inl hlogin))
      exact not_clean_append ((removed_mem_map _).mpr hremoved)
        (access_mem_cmdL0ReadLoop env now subscribed fd _ _)
    · rw [clean_append_of_not_mem (mt (removed_mem_map _).mp hremoved)]
      refine ih.trans (not_congr ⟨fun h => Or.inr ⟨hgoesOn, h⟩, ?_⟩)
      rintro (hrejected | ⟨-, h⟩)
      · exact absurd hrejected hlogin
      · exact h
  | case4 kl rest kld hget hlen =>
    unfold cmdL0ReadLoop
    rw [comesToRejectedLogin_iff]
    simp [hget, hlen, clean_access]

/-! ### The callback's trace -/

/-- The read brings the loop to a login that is rejected. -/
def ReadsRejectedLogin (env : L0Env Ctx) (now : ℚ) (subscribed : Bool) (kl : KsnLNullClass Ctx)
    (fd : ℤ) (r : L0TcpRead) : Prop :=
  ∃ bytes kld, r = .data bytes ∧ kl.map.get fd = some kld ∧
    ComesToRejectedLogin env now subscribed fd (storeRead now kl fd bytes)
      (kld.readBuffer ++ bytes)

/-- **After the removal of the record** the callback processes no further packet and leaves the
record and its buffer alone exactly when the read brings it to no login that is rejected. -/
theorem cmdL0ReadCb_clean_iff (env : L0Env Ctx) (now : ℚ) (subscribed : Bool)
    (kl : KsnLNullClass Ctx) (fd : ℤ) (r : L0TcpRead) :
    Clean fd (cmdL0ReadCb env now subscribed kl fd r).2 ↔
      ¬ ReadsRejectedLogin env now subscribed kl fd r := by
  cases r with
  | closed =>
    refine iff_of_true (clean_calls fd _) ?_
    rintro ⟨bytes, kld, h, -⟩
    cases h
  | error =>
    refine iff_of_true (clean_calls fd []) ?_
    rintro ⟨bytes, kld, h, -⟩
    cases h
  | data bytes =>
    unfold cmdL0ReadCb
    dsimp only
    cases hget : kl.map.get fd with
    | none =>
      refine iff_of_true (clean_calls fd []) ?_
      rintro ⟨bytes', kld, -, hget', -⟩
      rw [hget] at hget'
      cases hget'
    | some kld =>
      have hnot : ReadTrace.call (.removed fd) ∉ [ReadTrace.access] := by simp
      have hloop := cmdL0ReadLoop_clean_iff env now subscribed fd (storeRead now kl fd bytes)
        (kld.readBuffer ++ bytes)
      refine ((clean_append_of_not_mem hnot).trans hloop).trans (not_congr ⟨?_, ?_⟩)
      · intro h
        exact ⟨bytes, kld, rfl, hget, h⟩
      · rintro ⟨bytes', kld', hbytes, hget', h⟩
        cases hbytes
        obtain rfl := Option.some.inj (hget.symm.trans hget')
        exact h

/-! ### A server without a secret -/

def noSecretEnv : L0Env Unit := { secretEnv with authSecret := CString.empty }

/-- The state with one connection, on descriptor 5. -/
def oneConnection : L0System Unit := l0After noSecretEnv emptyServer (.accept 5 5 none 7000)

/-- A login packet with the data `ab`. -/
def loginAb : List UInt8 := plainPacket 0 CString.empty [97, 98, 0]

theorem loginAb_rejected : ComesToRejectedLogin noSecretEnv 5 false 5
    (storeRead 5 oneConnection.kl 5 loginAb) loginAb := by
  rw [comesToRejectedLogin_iff]
  exact ⟨_, rfl, by decide, Or.inl (by decide)⟩

/-- The login is rejected, and the loop reads the record that is gone. -/
theorem not_cmdL0ReadCb_clean :
    ¬ ∀ (env : L0Env Unit) (s s' : L0System Unit) (es : List L0Event), 0 < env.maxFdNumber →
      L0Start s → Run (L0Step env) s es s' → ∀ (now : ℚ) (subscribed : Bool) (fd : ℤ)
        (r : L0TcpRead), Clean fd (cmdL0ReadCb env now subscribed s'.kl fd r).2 := by
  intro h
  have hrun : Run (L0Step noSecretEnv) emptyServer [.accept 5 5 none 7000] oneConnection :=
    .single ⟨⟨by decide, by decide⟩, rfl⟩
  have hclean := h noSecretEnv _ _ _ (by decide) emptyServer_start hrun 5 false 5 (.data loginAb)
  have hnot : ReadTrace.call (.removed 5) ∉ [ReadTrace.access] := by simp
  have hloop := (clean_append_of_not_mem hnot).mp hclean
  exact (cmdL0ReadLoop_clean_iff _ _ _ _ _ _).mp hloop loginAb_rejected

end Teonet
