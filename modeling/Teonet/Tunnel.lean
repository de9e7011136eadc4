import Teonet.Lib.Bytes
import Teonet.Lib.FinMap
import Teonet.Lib.Runs
import Teonet.Packet

/-! # The tunnel module

`net_tun.c`.  A host that accepts a tunnel connection on descriptor `fd` asks the peer with
`TUN_CREATE` to connect to the endpoint; the peer answers `TUN_CREATED` with its own descriptor,
or `TUN_NOT_CREATED`.  Each side keeps for its descriptor the peer and the peer's descriptor, and
sends what it reads there as `TUN_DATA`.  When a read ends a connection, `TUN_NOT_CREATED` with
the peer's descriptor makes the peer shut its end down.

The callbacks are functions from the module's state to the new state and the calls they make, in
order.  `cmdTunCb_packetFd` says that a packet touches no descriptor but the one it names, and
`tunMap_eq_owner` that in every run the map holds the last registration of each descriptor. -/

namespace Teonet

open Bytes Runs

/-! ### Messages -/

def tunCreate : UInt8 := 0
def tunCreated : UInt8 := 1
def tunNotCreated : UInt8 := 2
def tunDisconnected : UInt8 := 3
def tunData : UInt8 := 4

/-- The data of `TUN_CREATE`: this host's descriptor, the endpoint's port and its address. -/
def tunCreateData (fd toPort : ℕ) (toIp : Option CString) : List UInt8 :=
  tunCreate :: (le16 fd ++ (le16 toPort ++ (toIp.getD CString.empty).toBuf))

/-- The data of `TUN_CREATED`: this host's descriptor and the peer's. -/
def tunCreatedData (fd fromFd : ℕ) : List UInt8 := tunCreated :: (le16 fd ++ le16 fromFd)

/-- The data of `TUN_NOT_CREATED`: the peer's descriptor. -/
def tunNotCreatedData (fd : ℕ) : List UInt8 := tunNotCreated :: le16 fd

/-- The data of `TUN_DATA`: the peer's descriptor and the bytes. -/
def tunDataData (fd : ℕ) (bytes : List UInt8) : List UInt8 := tunData :: (le16 fd ++ bytes)

/-- `*tun_cmd`. -/
def tunCmd (buf : List UInt8) : UInt8 := buf.getD 0 0

/-- `*from_fd`, the first descriptor of a message. -/
def tunFromFd (buf : List UInt8) : ℕ := getLe16 (buf.drop 1)

/-- The field behind `*from_fd`. -/
def tunSecond (buf : List UInt8) : ℕ := getLe16 (buf.drop 3)

/-! ### State and effects -/

/-- `ksnTunClass`: for each descriptor of this host the peer and the peer's descriptor; and the
descriptors with a running watcher on `cmd_tun_read_cb`, once for each watcher. -/
structure KsnTunClass where
  map : FinMap ℕ (CString × ℕ) := FinMap.empty
  watchers : List ℕ := []

/-- The calls the module makes. -/
inductive TunEffect
  /-- `ksnTcpClientCreate`; no address stands for `localhost` -/
  | connect (port : ℕ) (ip : Option CString)
  /-- `ksnCoreSendCmdto` with `CMD_TUN` -/
  | send (toName : CString) (data : List UInt8)
  /-- `ksnCoreSendCmdto` with `NULL` for the peer's name -/
  | sendNull
  /-- `write` of `len` bytes at `data` -/
  | write (fd : ℕ) (data : List UInt8) (len : ℕ)
  | shutdown (fd : ℕ)
  | close (fd : ℕ)
deriving DecidableEq

/-- The descriptor that a call changes. -/
def TunEffect.fd : TunEffect → Option ℕ
  | .write fd _ _ => some fd
  | .shutdown fd => some fd
  | .close fd => some fd
  | _ => none

/-- What `read` returns in `cmd_tun_read_cb`. -/
inductive TunRead
  | eof
  | error
  | data (bytes : List UInt8)
deriving DecidableEq

/-! ### The callbacks -/

/-- `ksn_tun_accept_cb`; `known` says that `ksnCoreSendCmdto` found the peer. -/
def ksnTunAcceptCb (toName : CString) (toPort : ℕ) (toIp : Option CString) (fd : ℕ) (known : Bool) :
    List TunEffect :=
  .send toName (tunCreateData fd toPort toIp) ::
    if known then [] else [.shutdown fd, .close fd]

/-- `cmd_tun_created_cb`: the descriptor is put into the map and watched. -/
def cmdTunCreatedCb (ktun : KsnTunClass) (fromName : CString) (fd fromFd : ℕ) : KsnTunClass where
  map := ktun.map.add fd (fromName, fromFd)
  watchers := fd :: ktun.watchers

/-- `cmd_tun_create_cb`; `connected` is what `ksnTcpClientCreate` returns.  The descriptor goes
through a `uint16_t` into the answer and into the map. -/
def cmdTunCreateCb (ktun : KsnTunClass) (connected : ℤ) (fromName : CString) (fromFd port : ℕ)
    (ip : CString) : KsnTunClass × List TunEffect :=
  let call := TunEffect.connect port (if ip = CString.empty then none else some ip)
  if connected > 0 then
    (cmdTunCreatedCb ktun fromName (connected.toNat % 65536) fromFd,
      [call, .send fromName (tunCreatedData connected.toNat fromFd)])
  else (ktun, [call, .send fromName (tunNotCreatedData fromFd)])

/-- `cmd_tun_cb`.  The fields are read at `rd->data` whatever `rd->data_len` is, and the length
of the data to write is a `size_t`. -/
def cmdTunCb (ktun : KsnTunClass) (connected : ℤ) (rd : KsnCorePacketData) :
    KsnTunClass × List TunEffect :=
  let buf := rd.data ++ rd.after
  let fromFd := tunFromFd buf
  if tunCmd buf = tunCreate then
    cmdTunCreateCb ktun connected rd.fromName fromFd (tunSecond buf) (CString.ofBuf (buf.drop 5))
  else if tunCmd buf = tunCreated then
    (cmdTunCreatedCb ktun rd.fromName (tunSecond buf) fromFd, [])
  else if tunCmd buf = tunData then
    (ktun, [.write fromFd (buf.drop 3) ((rd.data.length + 2 ^ 64 - 3) % 2 ^ 64)])
  else if tunCmd buf = tunDisconnected ∨ tunCmd buf = tunNotCreated then
    (ktun, [.shutdown fromFd])
  else (ktun, [])

/-- `cmd_tun_disconnected_send`. -/
def cmdTunDisconnectedSend (ktun : KsnTunClass) (fd : ℕ) : TunEffect :=
  match ktun.map.get fd with
  | some (toName, toFd) => .send toName (tunNotCreatedData toFd)
  | none => .sendNull

/-- The end of a connection: its watcher is stopped and it is taken out of the map
(`ksnTunMapRemove`). -/
def tunForget (ktun : KsnTunClass) (fd : ℕ) : KsnTunClass where
  map := ktun.map.remove fd
  watchers := ktun.watchers.erase fd

/-- `cmd_tun_read_cb`. -/
def cmdTunReadCb (ktun : KsnTunClass) (fd : ℕ) : TunRead → KsnTunClass × List TunEffect
  | .eof => (tunForget ktun fd, [.close fd, cmdTunDisconnectedSend ktun fd])
  | .error => (ktun, [])
  | .data bytes =>
    match ktun.map.get fd with
    | some (toName, toFd) => (ktun, [.send toName (tunDataData toFd bytes)])
    | none => (ktun, [])

/-! ### Runs of the module -/

/-- What happens to the module. -/
inductive TunEvent
  | accept (toName : CString) (toPort : ℕ) (toIp : Option CString) (fd : ℕ) (known : Bool)
  | packet (connected : ℤ) (rd : KsnCorePacketData)
  | read (fd : ℕ) (r : TunRead)

/-- The callback of an event. -/
def tunHandle (ktun : KsnTunClass) : TunEvent → KsnTunClass × List TunEffect
  | .accept toName toPort toIp fd known => (ktun, ksnTunAcceptCb toName toPort toIp fd known)
  | .packet connected rd => cmdTunCb ktun connected rd
  | .read fd r => cmdTunReadCb ktun fd r

/-- One step: a descriptor is read only while it is watched. -/
def TunStep (ktun : KsnTunClass) (e : TunEvent) (ktun' : KsnTunClass) : Prop :=
  (∀ fd r, e = .read fd r → fd ∈ ktun.watchers) ∧ ktun' = (tunHandle ktun e).1

/-! ### What a packet acts on -/

/-- The descriptor a packet names: the new one for a `TUN_CREATE` that is connected, the second
field of `TUN_CREATED`, and the first field of the other commands. -/
def packetFd (connected : ℤ) (rd : KsnCorePacketData) : Option ℕ :=
  let buf := rd.data ++ rd.after
  if tunCmd buf = tunCreate then
    if connected > 0 then some (connected.toNat % 65536) else none
  else if tunCmd buf = tunCreated then some (tunSecond buf)
  else if tunCmd buf = tunData ∨ tunCmd buf = tunDisconnected ∨ tunCmd buf = tunNotCreated then
    some (tunFromFd buf)
  else none

/-- The descriptor a packet registers under its sender. -/
def registeredFd (connected : ℤ) (rd : KsnCorePacketData) : Option ℕ :=
  if tunCmd (rd.data ++ rd.after) = tunCreate ∨ tunCmd (rd.data ++ rd.after) = tunCreated then
    packetFd connected rd
  else none

/-- What a packet can do: register the descriptor it names under its sender and touch no
descriptor, or leave the map alone and touch at most the descriptor it names. -/
theorem cmdTunCb_cases (ktun : KsnTunClass) (connected : ℤ) (rd : KsnCorePacketData) :
    (∃ fd, registeredFd connected rd = some fd ∧ packetFd connected rd = some fd ∧
      (cmdTunCb ktun connected rd).1 =
        cmdTunCreatedCb ktun rd.fromName fd (tunFromFd (rd.data ++ rd.after)) ∧
      ∀ e ∈ (cmdTunCb ktun connected rd).2, e.fd = none) ∨
    (registeredFd connected rd = none ∧ (cmdTunCb ktun connected rd).1 = ktun ∧
      ∀ e ∈ (cmdTunCb ktun connected rd).2, ∀ fd, e.fd = some fd →
        packetFd connected rd = some fd) := by
  have hne : tunCreated ≠ tunCreate ∧ tunData ≠ tunCreate ∧ tunData ≠ tunCreated := by decide
  unfold registeredFd packetFd cmdTunCb cmdTunCreateCb
  dsimp only
  by_cases hcreate : tunCmd (rd.data ++ rd.after) = tunCreate
  · simp only [hcreate, if_true, true_or]
    by_cases hconn : connected > 0
    · simp only [if_pos hconn]
      refine Or.inl ⟨_, rfl, rfl, rfl, ?_⟩
      simp [TunEffect.fd]
    · simp only [if_neg hconn]
      refine Or.inr ⟨trivial, trivial, ?_⟩
      simp [TunEffect.fd]
  · by_cases hcreated : tunCmd (rd.data ++ rd.after) = tunCreated
    · simp only [hcreated, if_neg hne.1, if_true, or_true]
      refine Or.inl ⟨_, rfl, rfl, rfl, ?_⟩
      simp
    · simp only [hcreate, hcreated, or_false, if_false]
      by_cases hdata : tunCmd (rd.data ++ rd.after) = tunData
      · simp [hdata, TunEffect.fd]
      · simp only [hdata, if_false, false_or]
        split_ifs
        · simp [TunEffect.fd]
        · simp

/-- **A packet acts only on the descriptor it names**: every descriptor it writes to, shuts down
or closes, and every descriptor whose map entry or watchers it changes. -/
theorem cmdTunCb_packetFd (ktun : KsnTunClass) (connected : ℤ) (rd : KsnCorePacketData) (fd : ℕ)
    (hfd : packetFd connected rd ≠ some fd) :
    (∀ e ∈ (cmdTunCb ktun connected rd).2, e.fd ≠ some fd) ∧
    (cmdTunCb ktun connected rd).1.map.get fd = ktun.map.get fd ∧
    (cmdTunCb ktun connected rd).1.watchers.count fd = ktun.watchers.count fd := by
  rcases cmdTunCb_cases ktun connected rd with ⟨fd', -, hpacket, hst, heff⟩ | ⟨-, hst, heff⟩
  · have hne : fd ≠ fd' := by
      rintro rfl
      exact hfd hpacket
    refine ⟨fun e he h => ?_, ?_, ?_⟩
    · rw [heff e he] at h
      cases h
    · rw [hst]
      exact FinMap.get_add_of_ne _ hne _
    · rw [hst]
      exact List.count_cons_of_ne hne.symm
  · refine ⟨fun e he h => hfd (heff e he fd h), ?_, ?_⟩ <;> rw [hst]

/-- Commands other than `TUN_CREATE` and `TUN_CREATED` leave the module as it is and send
nothing. -/
theorem cmdTunCb_other (ktun : KsnTunClass) (connected : ℤ) (rd : KsnCorePacketData)
    (hcreate : tunCmd (rd.data ++ rd.after) ≠ tunCreate)
    (hcreated : tunCmd (rd.data ++ rd.after) ≠ tunCreated) :
    (cmdTunCb ktun connected rd).1 = ktun ∧
    ((cmdTunCb ktun connected rd).2 = [] ∨
      (∃ fd data len, (cmdTunCb ktun connected rd).2 = [.write fd data len]) ∨
      (tunCmd (rd.data ++ rd.after) = tunNotCreated ∨
        tunCmd (rd.data ++ rd.after) = tunDisconnected) ∧
        (cmdTunCb ktun connected rd).2 = [.shutdown (tunFromFd (rd.data ++ rd.after))]) := by
  rw [cmdTunCb, if_neg hcreate, if_neg hcreated]
  by_cases hdata : tunCmd (rd.data ++ rd.after) = tunData
  · rw [if_pos hdata]
    exact ⟨rfl, Or.inr (Or.inl ⟨_, _, _, rfl⟩)⟩
  · rw [if_neg hdata]
    by_cases hgone : tunCmd (rd.data ++ rd.after) = tunDisconnected ∨
        tunCmd (rd.data ++ rd.after) = tunNotCreated
    · rw [if_pos hgone]
      exact ⟨rfl, Or.inr (Or.inr ⟨hgone.symm, rfl⟩)⟩
    · rw [if_neg hgone]
      exact ⟨rfl, Or.inl rfl⟩

/-- A message that says a connection is gone shuts its descriptor down. -/
theorem cmdTunCb_gone (ktun : KsnTunClass) (connected : ℤ) (rd : KsnCorePacketData)
    (hcmd : tunCmd (rd.data ++ rd.after) = tunDisconnected ∨
      tunCmd (rd.data ++ rd.after) = tunNotCreated) :
    cmdTunCb ktun connected rd = (ktun, [.shutdown (tunFromFd (rd.data ++ rd.after))]) := by
  have hcreate : tunCmd (rd.data ++ rd.after) ≠ tunCreate := by
    rcases hcmd with h | h <;> rw [h] <;> decide
  have hcreated : tunCmd (rd.data ++ rd.after) ≠ tunCreated := by
    rcases hcmd with h | h <;> rw [h] <;> decide
  have hdata : tunCmd (rd.data ++ rd.after) ≠ tunData := by
    rcases hcmd with h | h <;> rw [h] <;> decide
  rw [cmdTunCb, if_neg hcreate, if_neg hcreated, if_neg hdata, if_pos hcmd]

/-- Only the messages that say a connection is gone shut a descriptor down. -/
theorem cmdTunCb_shutdown {ktun : KsnTunClass} {connected : ℤ} {rd : KsnCorePacketData} {fd : ℕ}
    (h : .shutdown fd ∈ (cmdTunCb ktun connected rd).2) :
    (tunCmd (rd.data ++ rd.after) = tunNotCreated ∨
      tunCmd (rd.data ++ rd.after) = tunDisconnected) ∧ tunFromFd (rd.data ++ rd.after) = fd := by
  by_cases hcreate : tunCmd (rd.data ++ rd.after) = tunCreate
  · rw [cmdTunCb, if_pos hcreate, cmdTunCreateCb] at h
    split_ifs at h <;> simp at h
  · by_cases hcreated : tunCmd (rd.data ++ rd.after) = tunCreated
    · rw [cmdTunCb, if_neg hcreate, if_pos hcreated] at h
      cases h
    · rcases (cmdTunCb_other ktun connected rd hcreate hcreated).2 with
        heff | ⟨fd', data, len, heff⟩ | ⟨hcmd, heff⟩
      · rw [heff] at h
        cases h
      · rw [heff, List.mem_singleton] at h
        cases h
      · rw [heff, List.mem_singleton] at h
        cases h
        exact ⟨hcmd, rfl⟩

/-! ### The fields of a message -/

theorem tunFromFd_tunCreateData {fd : ℕ} (h : fd < 65536) (toPort : ℕ) (toIp : Option CString) :
    tunFromFd (tunCreateData fd toPort toIp) = fd := getLe16_le16_append_of_lt h _

theorem tunFromFd_tunCreatedData {fd : ℕ} (h : fd < 65536) (fromFd : ℕ) :
    tunFromFd (tunCreatedData fd fromFd) = fd := getLe16_le16_append_of_lt h _

theorem tunSecond_tunCreatedData (fd : ℕ) {fromFd : ℕ} (h : fromFd < 65536) :
    tunSecond (tunCreatedData fd fromFd) = fromFd := by
  show getLe16 ((le16 fd ++ le16 fromFd).drop 2) = fromFd
  rw [drop_le16_append, ← List.append_nil (le16 fromFd), getLe16_le16_append_of_lt h]

theorem tunFromFd_tunNotCreatedData {fd : ℕ} (h : fd < 65536) :
    tunFromFd (tunNotCreatedData fd) = fd := by
  show getLe16 (le16 fd) = fd
  rw [← List.append_nil (le16 fd), getLe16_le16_append_of_lt h]

theorem tunFromFd_lt (buf : List UInt8) : tunFromFd buf < 65536 := getLe16_lt _

/-! ### Who owns a descriptor -/

/-- The last registration of a descriptor after one more event: the sender of a packet that
registers it and the peer's descriptor, nothing after the end of the connection. -/
def ownerStep (fd : ℕ) (owner : Option (CString × ℕ)) : TunEvent → Option (CString × ℕ)
  | .packet connected rd =>
    if registeredFd connected rd = some fd then
      some (rd.fromName, tunFromFd (rd.data ++ rd.after))
    else owner
  | .read fd' .eof => if fd' = fd then none else owner
  | _ => owner

/-- The last registration of a descriptor in a run. -/
def owner (es : List TunEvent) (fd : ℕ) : Option (CString × ℕ) := es.foldl (ownerStep fd) none

theorem cmdTunReadCb_data (ktun : KsnTunClass) (fd : ℕ) (bytes : List UInt8) :
    (cmdTunReadCb ktun fd (.data bytes)).1 = ktun := by
  rw [cmdTunReadCb]
  cases ktun.map.get fd <;> rfl

theorem tunHandle_get (ktun : KsnTunClass) (e : TunEvent) (fd : ℕ) :
    (tunHandle ktun e).1.map.get fd = ownerStep fd (ktun.map.get fd) e := by
  cases e with
  | accept toName toPort toIp fd' known => rfl
  | packet connected rd =>
    show (cmdTunCb ktun connected rd).1.map.get fd = _
    rcases cmdTunCb_cases ktun connected rd with ⟨fd', hreg, -, hst, -⟩ | ⟨hreg, hst, -⟩
    · rw [hst, ownerStep, hreg]
      show (ktun.map.add fd' _).get fd = _
      rw [FinMap.get_add]
      by_cases h : fd = fd'
      · rw [if_pos h, if_pos (by rw [h])]
      · rw [if_neg h, if_neg (fun h' => h (Option.some.inj h').symm)]
    · rw [hst, ownerStep, hreg, if_neg (by simp)]
  | read fd' r =>
    cases r with
    | eof =>
      show (ktun.map.remove fd').get fd = ownerStep fd _ (.read fd' .eof)
      rw [FinMap.get_remove, ownerStep]
      by_cases h : fd = fd'
      · rw [if_pos h, if_pos h.symm]
      · rw [if_neg h, if_neg (Ne.symm h)]
    | error => rfl
    | data bytes =>
      show (cmdTunReadCb ktun fd' (.data bytes)).1.map.get fd = ktun.map.get fd
      rw [cmdTunReadCb_data]

/-- **The map is the record of the registrations**: in every run it holds for each descriptor
its last registration, and so the peer that sent it. -/
theorem tunMap_eq_owner {ktun : KsnTunClass} {es : List TunEvent}
    (h : Run TunStep {} es ktun) (fd : ℕ) : ktun.map.get fd = owner es fd := by
  have hhist := Run.history (fun past st => st.map.get fd = owner past fd)
    (fun past s e t hinv hstep => by
      rw [hstep.2, tunHandle_get, hinv, owner, owner, List.foldl_append]
      rfl) h [] (FinMap.get_empty fd)
  rwa [List.nil_append] at hhist

/-- **What a received packet can do in any run**: whatever the map says, the packet acts on the
one descriptor it names and on no other; `TUN_DATA` writes to it, `TUN_DISCONNECTED` and
`TUN_NOT_CREATED` shut it down, and `TUN_CREATED` registers it under the sender.  The map names
for each descriptor the peer that registered it last. -/
theorem cmdTunCb_any_run {ktun : KsnTunClass} {es : List TunEvent} (h : Run TunStep {} es ktun)
    (connected : ℤ) (rd : KsnCorePacketData) :
    (tunCmd (rd.data ++ rd.after) = tunData →
      cmdTunCb ktun connected rd = (ktun, [.write (tunFromFd (rd.data ++ rd.after))
        ((rd.data ++ rd.after).drop 3) ((rd.data.length + 2 ^ 64 - 3) % 2 ^ 64)])) ∧
    (tunCmd (rd.data ++ rd.after) = tunDisconnected ∨
        tunCmd (rd.data ++ rd.after) = tunNotCreated →
      cmdTunCb ktun connected rd = (ktun, [.shutdown (tunFromFd (rd.data ++ rd.after))])) ∧
    (tunCmd (rd.data ++ rd.after) = tunCreated →
      owner (es ++ [.packet connected rd]) (tunSecond (rd.data ++ rd.after)) =
        some (rd.fromName, tunFromFd (rd.data ++ rd.after)) ∧
      (cmdTunCb ktun connected rd).2 = []) ∧
    (∀ fd, packetFd connected rd ≠ some fd →
      (∀ e ∈ (cmdTunCb ktun connected rd).2, e.fd ≠ some fd) ∧
      (cmdTunCb ktun connected rd).1.map.get fd = ktun.map.get fd ∧
      (cmdTunCb ktun connected rd).1.watchers.count fd = ktun.watchers.count fd) ∧
    ∀ fd, ktun.map.get fd = owner es fd := by
  refine ⟨?_, cmdTunCb_gone ktun connected rd, ?_, cmdTunCb_packetFd ktun connected rd,
    tunMap_eq_owner h⟩
  · intro hcmd
    rw [cmdTunCb, hcmd, if_neg (by decide), if_neg (by decide), if_pos rfl]
  · intro hcmd
    have hreg : registeredFd connected rd = some (tunSecond (rd.data ++ rd.after)) := by
      rw [registeredFd, if_pos (Or.inr hcmd), packetFd, hcmd, if_neg (by decide), if_pos rfl]
    refine ⟨?_, ?_⟩
    · rw [owner, List.foldl_append, List.foldl_cons, List.foldl_nil, ownerStep, if_pos hreg]
    · rw [cmdTunCb, hcmd, if_neg (by decide), if_pos rfl]

/-- A host that accepted a connection on descriptor 7, and the packet that says its tunnel was
not created, from a peer `q`. -/
def acceptSeven : List TunEvent := [.accept (CString.ofBuf [112]) 80 none 7 true]

/-- See `acceptSeven`. -/
def notCreatedSeven : KsnCorePacketData where
  addr := CString.empty
  port := 9000
  fromName := ⟨[113], by decide⟩
  fromLen := 2
  cmd := cmdTun
  data := tunNotCreatedData 7

theorem run_acceptSeven : Run TunStep {} acceptSeven {} :=
  Run.single ⟨(fun _ _ h => by cases h), rfl⟩

theorem cmdTunCb_any_run_acceptSeven :
    cmdTunCb {} (-1) notCreatedSeven = ({}, [.shutdown 7]) :=
  (cmdTunCb_any_run run_acceptSeven (-1) notCreatedSeven).2.1 (Or.inr rfl)

/-- The packet shuts down a descriptor that the map gives to nobody. -/
theorem not_cmdTunCb_owned :
    ¬ ∀ (es : List TunEvent) (ktun : KsnTunClass), Run TunStep {} es ktun →
      ∀ (connected : ℤ) (rd : KsnCorePacketData) (fd : ℕ),
      (∃ e ∈ (cmdTunCb ktun connected rd).2, e.fd = some fd) →
      ∃ toFd, ktun.map.get fd = some (rd.fromName, toFd) := by
  intro h
  obtain ⟨toFd, hget⟩ := h acceptSeven {} run_acceptSeven (-1) notCreatedSeven 7
    ⟨.shutdown 7, by decide, rfl⟩
  cases hget

end Teonet
