import Teonet.L0Server
import Teonet.Lib.FailFast

/-! # Idle clients of the L0 server

`_check_connected` of `l0-server.c` runs every ten seconds.  It walks over the map of the clients,
disconnects those that have sent nothing for a minute and pings those that have sent nothing for half
a minute.  To disconnect a client removes it from the map that the loop walks over, and the iterator
is fail-fast, so the loop ends there.

`checksClients_iff` says for which orders of the clients the function does all that it is for. -/

namespace Teonet

open FailFast

/-- `SEND_PING_TIMEOUT`. -/
def sendPingTimeout : ℚ := 30

/-- `DISCONNECT_TIMEOUT`. -/
def disconnectTimeout : ℚ := 60

/-- The calls of `_check_connected`. -/
inductive CheckCall
  | disconnect (fd : ℤ)
  | ping (fd : ℤ)
  /-- `ksnCQueAdd` of `_check_connected` -/
  | queueAdd
deriving DecidableEq

variable {Ctx : Type}

section Code

variable (env : L0Env Ctx) (now : ℚ)

/-- The packet of a ping; `time` are the bytes of the time as a `double`. -/
def pingPacket (time : List UInt8) : List UInt8 :=
  env.cli.packetCreate cmdEcho env.hostName ([112, 105, 110, 103, 0] ++ time)

/-- The body of the loop: what is called, with its effects, and whether the map has changed. -/
def checkClient (time : List UInt8) (kl : KsnLNullClass Ctx) (fd : ℤ) :
    KsnLNullClass Ctx × List (CheckCall × List L0Effect) × Bool :=
  match kl.map.get fd with
  | none => (kl, [], false)
  | some l0Data =>
    if now - l0Data.lastTime ≥ disconnectTimeout then
      let r := ksnLNullClientDisconnect env kl fd 1
      (r.1, [(.disconnect fd, r.2)], true)
    else if l0Data.name ≠ none ∧ now - l0Data.lastTime ≥ sendPingTimeout then
      let r := ksnLNullPacketSend env kl fd (pingPacket env time)
      (r.1, [(.ping fd, r.2)], false)
    else (kl, [], false)

/-- `_check_connected`; `entries` are the descriptors in the order of the iterator. -/
def l0CheckConnected (time : List UInt8) (kl : KsnLNullClass Ctx) (entries : List ℤ) :
    KsnLNullClass Ctx × List (CheckCall × List L0Effect) :=
  let r := iterate (checkClient env now time) entries kl
  (r.1, r.2 ++ [(.queueAdd, [])])

end Code

/-! ### What is to be done -/

/-- The client has sent nothing for a minute. -/
def Expired (now : ℚ) (kl : KsnLNullClass Ctx) (fd : ℤ) : Prop :=
  ∃ d, kl.map.get fd = some d ∧ disconnectTimeout ≤ now - d.lastTime

/-- The client is to be disconnected or pinged. -/
def Due (now : ℚ) (kl : KsnLNullClass Ctx) (fd : ℤ) : Prop :=
  ∃ d, kl.map.get fd = some d ∧ (disconnectTimeout ≤ now - d.lastTime ∨
    d.name ≠ none ∧ sendPingTimeout ≤ now - d.lastTime)

/-- Every client that has sent nothing for a minute is disconnected, every other one that is logged
in and has sent nothing for half a minute is pinged, the rest is left alone, and the function is
queued again. -/
structure ChecksClients (now : ℚ) (kl : KsnLNullClass Ctx)
    (r : KsnLNullClass Ctx × List (CheckCall × List L0Effect)) : Prop where
  expired : ∀ fd d, kl.map.get fd = some d → disconnectTimeout ≤ now - d.lastTime →
    r.1.map.get fd = none ∧ (r.2.map Prod.fst).count (.disconnect fd) = 1 ∧
      (r.2.map Prod.fst).count (.ping fd) = 0
  idle : ∀ fd d, kl.map.get fd = some d → now - d.lastTime < disconnectTimeout → d.name ≠ none →
    sendPingTimeout ≤ now - d.lastTime →
    (∃ ctx, r.1.map.get fd = some { d with serverCrypt := ctx }) ∧
      (r.2.map Prod.fst).count (.disconnect fd) = 0 ∧ (r.2.map Prod.fst).count (.ping fd) = 1
  others : ∀ fd d, kl.map.get fd = some d → now - d.lastTime < disconnectTimeout →
    (d.name = none ∨ now - d.lastTime < sendPingTimeout) →
    r.1.map.get fd = some d ∧ (r.2.map Prod.fst).count (.disconnect fd) = 0 ∧
      (r.2.map Prod.fst).count (.ping fd) = 0
  rearmed : (r.2.map Prod.fst).count .queueAdd = 1

/-! ### One client -/

variable {env : L0Env Ctx} {now : ℚ} {time : List UInt8} {kl s : KsnLNullClass Ctx} {fd fd' : ℤ}
  {d : KsnLNullData Ctx}

/-- A packet changes at most the encryption context of the client that it is sent to. -/
theorem ksnLNullPacketSend_get (env : L0Env Ctx) (kl : KsnLNullClass Ctx) (fd : ℤ)
    (pkg : List UInt8) :
    (∀ fd', fd' ≠ fd → (ksnLNullPacketSend env kl fd pkg).1.map.get fd' = kl.map.get fd') ∧
      ∀ d, kl.map.get fd = some d →
        ∃ ctx, (ksnLNullPacketSend env kl fd pkg).1.map.get fd = some { d with serverCrypt := ctx } := by
  have hmap : ∀ (c : Prop) [Decidable c] (kl : KsnLNullClass Ctx) (stat : KsnLNullSStat),
      (if c then { kl with stat := stat } else kl).map = kl.map := by
    intro c _ kl stat
    split_ifs <;> rfl
  unfold ksnLNullPacketSend
  dsimp only
  rw [hmap]
  split_ifs
  · refine ⟨fun fd' hne => FinMap.get_modify_of_ne _ hne _, fun d hd => ?_⟩
    refine ⟨d.serverCrypt.map (env.cli.sealContext · pkg), ?_⟩
    rw [KsnLNullClass.updateCrypt, KsnLNullClass.update, FinMap.get_modify, if_pos rfl, hd]
    rfl
  · exact ⟨fun _ _ => rfl, fun d hd => ⟨d.serverCrypt, hd⟩⟩

/-- `remove_f` 1 takes the client out of the map. -/
theorem ksnLNullClientDisconnect_get (env : L0Env Ctx) (kl : KsnLNullClass Ctx) (fd fd' : ℤ) :
    (ksnLNullClientDisconnect env kl fd 1).1.map.get fd' =
      if fd' = fd then none else kl.map.get fd' := by
  unfold ksnLNullClientDisconnect
  cases hget : kl.map.get fd with
  | none =>
    by_cases he : fd' = fd
    · rw [if_pos he, he]
      exact hget
    · rw [if_neg he]
  | some kld => exact FinMap.get_remove _ _ _

/-- One round is `checkConnected` of its client. -/
theorem checkClient_eq (env : L0Env Ctx) (now : ℚ) (time : List UInt8) (kl : KsnLNullClass Ctx)
    (fd : ℤ) :
    (checkClient env now time kl fd).1 =
        (checkConnected env now kl fd ([112, 105, 110, 103, 0] ++ time)).1 ∧
      (checkClient env now time kl fd).2.1.flatMap Prod.snd =
        (checkConnected env now kl fd ([112, 105, 110, 103, 0] ++ time)).2 := by
  unfold checkClient checkConnected
  cases kl.map.get fd with
  | none => exact ⟨rfl, rfl⟩
  | some d =>
    dsimp only [disconnectTimeout, sendPingTimeout]
    by_cases hexpired : now - d.lastTime ≥ 60
    · simp only [hexpired, if_true]
      exact ⟨trivial, List.flatMap_singleton _ _⟩
    · by_cases hidle : d.name ≠ none ∧ now - d.lastTime ≥ 30
      · obtain ⟨hname, htime⟩ := hidle
        simp only [hexpired, hname, htime, if_false, ne_eq, not_false_eq_true, and_self, if_true]
        exact ⟨rfl, List.flatMap_singleton _ _⟩
      · simp only [hexpired, hidle, if_false]
        exact ⟨trivial, rfl⟩

theorem checkClient_get_of_ne (hne : fd' ≠ fd) :
    (checkClient env now time kl fd).1.map.get fd' = kl.map.get fd' := by
  unfold checkClient
  cases kl.map.get fd with
  | none => rfl
  | some d =>
    dsimp only
    split_ifs
    · exact (ksnLNullClientDisconnect_get env kl fd fd').trans (if_neg hne)
    · exact (ksnLNullPacketSend_get env kl fd _).1 fd' hne
    · rfl

/-- A client that is not to be disconnected stays, with its encryption context changed at most. -/
theorem checkClient_get_self (hget : kl.map.get fd = some d)
    (hnot : now - d.lastTime < disconnectTimeout) :
    ∃ ctx, (checkClient env now time kl fd).1.map.get fd = some { d with serverCrypt := ctx } := by
  unfold checkClient
  rw [hget]
  dsimp only
  rw [if_neg (not_le.mpr hnot)]
  split_ifs
  · exact (ksnLNullPacketSend_get env kl fd _).2 d hget
  · exact ⟨d.serverCrypt, hget⟩

/-- The calls for a client. -/
def clientCalls (now : ℚ) (kl : KsnLNullClass Ctx) (fd : ℤ) : List CheckCall :=
  match kl.map.get fd with
  | none => []
  | some d =>
    if now - d.lastTime ≥ disconnectTimeout then [.disconnect fd]
    else if d.name ≠ none ∧ now - d.lastTime ≥ sendPingTimeout then [.ping fd]
    else []

/-- Whether the map changes at a client. -/
def expired (now : ℚ) (kl : KsnLNullClass Ctx) (fd : ℤ) : Bool :=
  (kl.map.get fd).any fun d => now - d.lastTime ≥ disconnectTimeout

theorem expired_iff : expired now kl fd = true ↔ Expired now kl fd := by
  unfold expired Expired
  cases kl.map.get fd with
  | none => simp
  | some d => simp

/-- The clients are those of `kl`, with the same names and times. -/
def SameClients (kl s : KsnLNullClass Ctx) : Prop :=
  ∀ fd, (s.map.get fd).map (fun d => (d.name, d.lastTime)) =
    (kl.map.get fd).map fun d => (d.name, d.lastTime)

theorem SameClients.get (h : SameClients kl s) (hget : kl.map.get fd = some d) :
    ∃ d', s.map.get fd = some d' ∧ d'.name = d.name ∧ d'.lastTime = d.lastTime := by
  have hfd := h fd
  rw [hget, Option.map_some] at hfd
  obtain ⟨d', hd', he⟩ := Option.map_eq_some_iff.mp hfd
  exact ⟨d', hd', congrArg Prod.fst he, congrArg Prod.snd he⟩

theorem SameClients.get_none (h : SameClients kl s) (hget : kl.map.get fd = none) :
    s.map.get fd = none := by
  have hfd := h fd
  rw [hget, Option.map_none] at hfd
  exact Option.map_eq_none_iff.mp hfd

/-- **One round** does what the client's record in `kl` asks for. -/
theorem checkClient_spec (env : L0Env Ctx) (now : ℚ) (time : List UInt8) (hs : SameClients kl s)
    (fd : ℤ) :
    (checkClient env now time s fd).2.1.map Prod.fst = clientCalls now kl fd ∧
      (checkClient env now time s fd).2.2 = expired now kl fd ∧
      (expired now kl fd = false → SameClients kl (checkClient env now time s fd).1) := by
  have hsame : ∀ r : KsnLNullClass Ctx, (∀ fd', fd' ≠ fd → r.map.get fd' = s.map.get fd') →
      (∀ d, s.map.get fd = some d → ∃ ctx, r.map.get fd = some { d with serverCrypt := ctx }) →
      ∀ d, s.map.get fd = some d → SameClients kl r := by
    intro r hother hself d hd fd'
    rw [← hs fd']
    by_cases he : fd' = fd
    · obtain ⟨ctx, hctx⟩ := hself d hd
      rw [he, hctx, hd]
      rfl
    · rw [hother fd' he]
  unfold checkClient clientCalls expired
  cases hget : kl.map.get fd with
  | none =>
    rw [hs.get_none hget]
    exact ⟨rfl, rfl, fun _ => hs⟩
  | some d =>
    obtain ⟨d', hd', hname, htime⟩ := hs.get hget
    rw [hd', Option.any_some]
    dsimp only
    rw [htime, hname]
    split_ifs with hexpired hidle
    · exact ⟨rfl, (decide_eq_true hexpired).symm, fun h => absurd hexpired (of_decide_eq_false h)⟩
    · have hsend := ksnLNullPacketSend_get env s fd (pingPacket env time)
      exact ⟨rfl, (decide_eq_false hexpired).symm, fun _ => hsame _ hsend.1 hsend.2 d' hd'⟩
    · exact ⟨rfl, (decide_eq_false hexpired).symm, fun _ => hs⟩

/-! ### The loop -/

/-- The calls are those for the clients that the loop comes to. -/
theorem l0CheckConnected_calls (env : L0Env Ctx) (now : ℚ) (time : List UInt8)
    (kl : KsnLNullClass Ctx) (entries : List ℤ) :
    (l0CheckConnected env now time kl entries).2.map Prod.fst =
      (visited (expired now kl) entries).flatMap (clientCalls now kl) ++ [.queueAdd] := by
  unfold l0CheckConnected
  rw [List.map_append, map_iterate (I := SameClients kl) (fun s hs => checkClient_spec env now time hs)
    entries kl fun _ => rfl]
  rfl

theorem mem_clientCalls {c : CheckCall} (h : c ∈ clientCalls now kl fd) :
    c = .disconnect fd ∨ c = .ping fd := by
  unfold clientCalls at h
  split at h
  · cases h
  · split_ifs at h
    · exact .inl (List.mem_singleton.mp h)
    · exact .inr (List.mem_singleton.mp h)
    · cases h

/-- The calls for one client. -/
theorem count_l0CheckConnected (env : L0Env Ctx) (now : ℚ) (time : List UInt8)
    (kl : KsnLNullClass Ctx) {entries : List ℤ} (hnodup : entries.Nodup) {c : CheckCall}
    (hc : c = .disconnect fd ∨ c = .ping fd) :
    ((l0CheckConnected env now time kl entries).2.map Prod.fst).count c =
      if fd ∈ visited (expired now kl) entries then (clientCalls now kl fd).count c else 0 := by
  have hout : ∀ b, b ≠ fd → c ∉ clientCalls now kl b := by
    intro b hb hmem
    rcases mem_clientCalls hmem with h | h <;> rcases hc with rfl | rfl <;> cases h <;>
      exact hb rfl
  have hqueue : [CheckCall.queueAdd].count c = 0 := by
    rcases hc with rfl | rfl <;> rfl
  rw [l0CheckConnected_calls, List.count_append, hqueue, Nat.add_zero,
    count_flatMap hout (hnodup.sublist (visited_sublist _ _))]

/-- A client that the loop does not come to is not called for. -/
theorem mem_visited_of_checks {entries : List ℤ} (hnodup : entries.Nodup)
    (h : ChecksClients now kl (l0CheckConnected env now time kl entries)) (hdue : Due now kl fd) :
    fd ∈ visited (expired now kl) entries := by
  by_contra hnot
  have hcount : ∀ c : CheckCall, c = .disconnect fd ∨ c = .ping fd →
      ((l0CheckConnected env now time kl entries).2.map Prod.fst).count c = 0 := by
    intro c hc
    rw [count_l0CheckConnected env now time kl hnodup hc, if_neg hnot]
  obtain ⟨d, hget, hdue⟩ := hdue
  by_cases hexpired : disconnectTimeout ≤ now - d.lastTime
  · have hone := (h.expired fd d hget hexpired).2.1
    rw [hcount _ (.inl rfl)] at hone
    cases hone
  · obtain ⟨hname, htime⟩ := hdue.resolve_left hexpired
    have hone := (h.idle fd d hget (not_le.mp hexpired) hname htime).2.2
    rw [hcount _ (.inr rfl)] at hone
    cases hone

theorem clientCalls_of_get (hget : kl.map.get fd = some d) :
    clientCalls now kl fd =
      if now - d.lastTime ≥ disconnectTimeout then [.disconnect fd]
      else if d.name ≠ none ∧ now - d.lastTime ≥ sendPingTimeout then [.ping fd] else [] := by
  rw [clientCalls, hget]

/-- A client that is expired is out of the map once the loop has come to it. -/
theorem get_of_expired {entries : List ℤ} (hget : kl.map.get fd = some d)
    (hexp : disconnectTimeout ≤ now - d.lastTime)
    (hmem : fd ∈ visited (expired now kl) entries) :
    (l0CheckConnected env now time kl entries).1.map.get fd = none := by
  obtain ⟨s, hs, hlast⟩ := iterate_of_changes (I := SameClients kl)
    (fun s hs a => (checkClient_spec env now time hs a).2) (expired_iff.mpr ⟨d, hget, hexp⟩)
    entries kl (fun _ => rfl) hmem
  obtain ⟨d', hd', -, hlastTime⟩ := hs.get hget
  have hround : (checkClient env now time s fd).1 = (ksnLNullClientDisconnect env s fd 1).1 := by
    unfold checkClient
    rw [hd']
    dsimp only
    rw [hlastTime, if_pos hexp]
  change (iterate (checkClient env now time) entries kl).1.map.get fd = none
  rw [hlast, hround, ksnLNullClientDisconnect_get, if_pos rfl]

/-- A client that is not expired stays, with its encryption context changed at most. -/
theorem get_of_not_expired (env : L0Env Ctx) (time : List UInt8) (entries : List ℤ)
    (hget : kl.map.get fd = some d) (hnot : now - d.lastTime < disconnectTimeout) :
    ∃ ctx, (l0CheckConnected env now time kl entries).1.map.get fd =
      some { d with serverCrypt := ctx } := by
  refine iterate_induction (P := fun s => ∃ ctx,
    s.map.get fd = some { d with serverCrypt := ctx }) (fun s a hs => ?_) entries kl
    ⟨d.serverCrypt, hget⟩
  obtain ⟨ctx, hctx⟩ := hs
  by_cases he : fd = a
  · subst he
    exact checkClient_get_self (d := { d with serverCrypt := ctx }) hctx hnot
  · exact ⟨ctx, (checkClient_get_of_ne he).trans hctx⟩

/-- A client that is neither expired nor idle stays as it is. -/
theorem get_of_not_idle (env : L0Env Ctx) (time : List UInt8) (entries : List ℤ)
    (hget : kl.map.get fd = some d) (hnot : now - d.lastTime < disconnectTimeout)
    (hidle : ¬ (d.name ≠ none ∧ now - d.lastTime ≥ sendPingTimeout)) :
    (l0CheckConnected env now time kl entries).1.map.get fd = some d := by
  refine iterate_induction (P := fun s => s.map.get fd = some d) (fun s a hs => ?_) entries kl hget
  by_cases he : fd = a
  · subst he
    unfold checkClient
    rw [hs]
    dsimp only
    rw [if_neg (not_le.mpr hnot), if_neg hidle]
    exact hs
  · exact (checkClient_get_of_ne he).trans hs

/-- The function is queued again once. -/
theorem count_queueAdd (env : L0Env Ctx) (now : ℚ) (time : List UInt8) (kl : KsnLNullClass Ctx)
    (entries : List ℤ) :
    ((l0CheckConnected env now time kl entries).2.map Prod.fst).count .queueAdd = 1 := by
  have hnone : CheckCall.queueAdd ∉
      (visited (expired now kl) entries).flatMap (clientCalls now kl) := by
    intro hmem
    obtain ⟨fd, -, hfd⟩ := List.mem_flatMap.mp hmem
    rcases mem_clientCalls hfd with he | he <;> cases he
  rw [l0CheckConnected_calls, List.count_append, List.count_eq_zero_of_not_mem hnone]
  rfl

/-- What the function does where the loop comes to every client that is due. -/
theorem checksClients_of_visited {entries : List ℤ} (hnodup : entries.Nodup)
    (h : ∀ fd, Due now kl fd → fd ∈ visited (expired now kl) entries) :
    ChecksClients now kl (l0CheckConnected env now time kl entries) := by
  have hcount := fun fd (c : CheckCall) (hc : c = .disconnect fd ∨ c = .ping fd) =>
    count_l0CheckConnected env now time kl hnodup hc
  refine ⟨fun fd d hget hexp => ?_, fun fd d hget hnot hname htime => ?_,
    fun fd d hget hnot hrest => ?_, count_queueAdd env now time kl entries⟩
  · have hmem := h fd ⟨d, hget, .inl hexp⟩
    refine ⟨get_of_expired hget hexp hmem, ?_, ?_⟩
    · rw [hcount fd _ (.inl rfl), if_pos hmem, clientCalls_of_get hget, if_pos hexp]
      simp
    · rw [hcount fd _ (.inr rfl), if_pos hmem, clientCalls_of_get hget, if_pos hexp]
      simp
  · have hmem := h fd ⟨d, hget, .inr ⟨hname, htime⟩⟩
    refine ⟨get_of_not_expired env time entries hget hnot, ?_, ?_⟩
    · rw [hcount fd _ (.inl rfl), if_pos hmem, clientCalls_of_get hget, if_neg (not_le.mpr hnot),
        if_pos ⟨hname, htime⟩]
      simp
    · rw [hcount fd _ (.inr rfl), if_pos hmem, clientCalls_of_get hget, if_neg (not_le.mpr hnot),
        if_pos ⟨hname, htime⟩]
      simp
  · have hidle : ¬ (d.name ≠ none ∧ now - d.lastTime ≥ sendPingTimeout) := by
      rintro ⟨hname, htime⟩
      rcases hrest with hnone | hlt
      · exact hname hnone
      · exact absurd htime (not_le.mpr hlt)
    refine ⟨get_of_not_idle env time entries hget hnot hidle, ?_, ?_⟩
    · rw [hcount fd _ (.inl rfl), clientCalls_of_get hget, if_neg (not_le.mpr hnot), if_neg hidle]
      simp
    · rw [hcount fd _ (.inr rfl), clientCalls_of_get hget, if_neg (not_le.mpr hnot), if_neg hidle]
      simp

/-- **One run of `_check_connected`** does what it is for exactly if in the order of the iterator no
client that is due follows one that is disconnected. -/
theorem checksClients_iff (env : L0Env Ctx) (now : ℚ) (time : List UInt8) (kl : KsnLNullClass Ctx)
    {entries : List ℤ} (hnodup : entries.Nodup)
    (hentries : ∀ fd, fd ∈ entries ↔ (kl.map.get fd).isSome) :
    ChecksClients now kl (l0CheckConnected env now time kl entries) ↔
      entries.Pairwise fun fd fd' => Expired now kl fd → ¬ Due now kl fd' := by
  have hpairwise := forall_mem_visited_iff (expired now kl) (Due now kl) hnodup
  simp only [expired_iff] at hpairwise
  rw [← hpairwise]
  constructor
  · exact fun h fd _ hdue => mem_visited_of_checks hnodup h hdue
  · refine fun h => checksClients_of_visited hnodup fun fd hdue => h fd ?_ hdue
    obtain ⟨d, hget, -⟩ := hdue
    rw [hentries, hget]
    rfl

/-- A server whose library encrypts nothing. -/
def idleEnv : L0Env Unit where
  jsmnParse _ := none
  staleTok := ⟨.other, 0, 0⟩
  md5 _ := []
  authSecret := CString.empty
  cli := plainCli
  hostName := CString.ofBuf [104]
  maxFdNumber := 1024
  staleByte := 0

/-- Two clients that have sent nothing since the time 0. -/
def twoClients : KsnLNullClass Unit where
  map := (FinMap.empty.add 5 {}).add 6 {}
  fdTrudp := 1024

theorem twoClients_get (fd : ℤ) :
    twoClients.map.get fd = if fd = 6 then some {} else if fd = 5 then some {} else none := by
  rw [twoClients, FinMap.get_add, FinMap.get_add, FinMap.get_empty]

theorem mem_twoClients (fd : ℤ) : fd ∈ [5, 6] ↔ (twoClients.map.get fd).isSome := by
  rw [twoClients_get]
  split_ifs with h6 h5
  · simp [h6]
  · simp [h5]
  · simp [h6, h5]

/-- A client that is logged in and has sent something at the time 30, and one that has sent nothing
since the time 0. -/
def idleAndExpired : KsnLNullClass Unit where
  map := (FinMap.empty.add 5 { name := some (CString.ofBuf [99]), lastTime := 30 }).add 6 {}
  fdTrudp := 1024

theorem mem_idleAndExpired (fd : ℤ) : fd ∈ [5, 6] ↔ (idleAndExpired.map.get fd).isSome := by
  rw [idleAndExpired, FinMap.get_add, FinMap.get_add, FinMap.get_empty]
  split_ifs with h6 h5
  · simp [h6]
  · simp [h5]
  · simp [h6, h5]

/-- At the time 60 the first one is pinged, and then the second one is disconnected. -/
theorem checksClients_iff_idleAndExpired :
    ChecksClients 60 idleAndExpired (l0CheckConnected idleEnv 60 [] idleAndExpired [5, 6]) := by
  refine (checksClients_iff idleEnv 60 [] idleAndExpired (by decide) mem_idleAndExpired).mpr
    (List.pairwise_pair.mpr fun hexpired => ?_)
  obtain ⟨d, hget, hexpired⟩ := hexpired
  rw [idleAndExpired, FinMap.get_add_of_ne _ (by decide), FinMap.get_add_self] at hget
  obtain rfl := Option.some.inj hget
  exact absurd hexpired (by decide +kernel)

/-- After 60 seconds the first client is disconnected, and the second is not. -/
theorem not_checksClients :
    ¬ ∀ (env : L0Env Unit) (now : ℚ) (time : List UInt8) (kl : KsnLNullClass Unit)
      (entries : List ℤ), entries.Nodup → (∀ fd, fd ∈ entries ↔ (kl.map.get fd).isSome) →
      ChecksClients now kl (l0CheckConnected env now time kl entries) := by
  intro h
  have hchecks := h idleEnv 60 [] twoClients [5, 6] (by decide) mem_twoClients
  have hgone := (hchecks.expired 6 {} ((twoClients_get 6).trans (if_pos rfl)) (by decide +kernel)).1
  have hstays : ((l0CheckConnected idleEnv 60 [] twoClients [5, 6]).1.map.get 6).isSome = true := by
    decide +kernel
  rw [hgone] at hstays
  cases hstays

end Teonet
