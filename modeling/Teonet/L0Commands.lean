import Teonet.CommandData
import Teonet.Core
import Teonet.Lib.Runs
import Teonet.SplitNested

/-! # Client commands

`cmd_l0_cb` executes a command of an L0 client that arrives in a `CMD_L0` packet: it puts the
client's name and data in place of the packet's and calls `ksnCommandCheck`.  A `CMD_L0` packet
comes from a datagram, from sub-packets that are joined, or from `ksnLNullSendFromL0` on the same
host, which passes its packet to `ksnCoreProcessPacket` as it is, without encryption.

For that loopback the core lets `CMD_L0` through unencrypted, whoever sent it.
`clientCommands_sources` says what a host with `crypt_f` executes commands for, and that no other
datagram has a part in any command. -/

namespace Teonet

open Block Bytes Runs

/-! ### Execution -/

/-- The part of `cmd_l0_cb` that executes: the received data that it gives to `ksnCommandCheck`, or
`none` where the command is skipped.  A short envelope is read on in the bytes behind it. -/
def cmdL0Cb (rd : KsnCorePacketData) : Option KsnCorePacketData :=
  let block := rd.data ++ rd.after
  let cmd := block.getD 0 0
  if clientCommand cmd then
    let payload := block.drop 4
    let fromLen := block.getD 1 0
    let data := payload.drop fromLen.toNat
    let dataLength := getLe16 (block.drop 2)
    some { rd with
      cmd := cmd
      fromName := CString.ofBuf payload
      fromLen := fromLen
      data := data.take dataLength
      after := data.drop dataLength
      l0F := true }
  else none

/-- What `cmd_l0_cb` executes where it stays inside its data. -/
theorem cmdL0Cb_eq {rd : KsnCorePacketData} {rest : List UInt8} {out : CommandData}
    (hafter : rd.after = 0 :: rest) (h : cmdL0Data rd.data = some out) :
    (cmdL0Cb rd).map (fun r => CommandData.client r.cmd r.fromName r.fromLen r.data) =
      if clientCommand (rd.data.getD 0 0) then some out else none := by
  have hlen : 4 ≤ rd.data.length := ((cmdL0Data_isSome_iff _).mp (by rw [h]; rfl)).1
  obtain ⟨hcmd, hnameLength, hdataLength⟩ := l0Header_append hlen (0 :: rest)
  rw [cmdL0Data, l0SPacketFields_eq hlen] at h
  simp only [Option.bind_eq_bind, Option.bind_some, byteAt_nameLength hlen] at h
  unfold cmdL0Cb
  simp only [hafter, hcmd, hnameLength, hdataLength, l0Name_append hlen]
  split_ifs at h ⊢
  · obtain ⟨-, -, h⟩ := Option.bind_eq_some_iff.mp h
    obtain ⟨slice, hslice, hout⟩ := Option.bind_eq_some_iff.mp h
    rw [Option.map_some, List.drop_drop, take_drop_of_bytesAt hslice]
    exact hout
  · rfl

/-- The packets with which `ksnCommandCheck` calls `cmd_l0_cb`, in order. -/
def cmdL0Calls (command : KsnCorePacketData → ℤ) (now : ℚ) (mem : SplitMem)
    (rd : KsnCorePacketData) : SplitMem × List KsnCorePacketData :=
  if rd.cmd = cmdL0 then (mem, [rd])
  else if rd.cmd = cmdSplit then
    let r := cmdSplitCb command now mem rd
    (r.mem, r.events.filterMap fun
      | .command rds => if rds.cmd = cmdL0 then some rds else none
      | _ => none)
  else (mem, [])

/-- A call of `ksnCoreProcessPacket`; `loopback` is the call in `ksnLNullSendFromL0`. -/
structure PacketCall where
  now : ℚ
  stopped : Bool := false
  loopback : Bool := false
  addr : CString
  port : ℕ
  buf : List UInt8
  after : List UInt8 := []
deriving DecidableEq

/-- The client commands that `ksnCoreProcessPacket` executes in one call. -/
def clientCommandsOf (kc : KsnCoreClass) (command : KsnCorePacketData → ℤ) (mem : SplitMem)
    (c : PacketCall) : SplitMem × List KsnCorePacketData :=
  match ksnCoreProcessPacket kc c.stopped c.addr c.port c.buf c.after with
  | .command rd =>
    let (mem, calls) := cmdL0Calls command c.now mem rd
    (mem, calls.filterMap cmdL0Cb)
  | _ => (mem, [])

/-- The client commands that a host executes in a run. -/
def clientCommands (kc : KsnCoreClass) (command : KsnCorePacketData → ℤ) :
    SplitMem → List PacketCall → List KsnCorePacketData :=
  outputs (clientCommandsOf kc command)

/-! ### Where a command can come from -/

/-- The datagram is an encrypted `CMD_L0` packet, or an encrypted sub-packet. -/
def DecryptedL0 (kc : KsnCoreClass) (buf : List UInt8) : Prop :=
  ksnCheckEncrypted buf = true ∧ ∃ plain fromName cmd data,
    kc.decrypt (buf.drop 2) = some plain ∧ Frame plain fromName cmd data ∧
      (cmd = cmdL0 ∨ cmd = cmdSplit)

/-- The datagram passes for an encrypted one and does not decrypt. -/
def PassesUndecrypted (kc : KsnCoreClass) (buf : List UInt8) : Prop :=
  ksnCheckEncrypted buf = true ∧
    (kc.decrypt (buf.drop 2) = none ∨ kc.decrypt (buf.drop 2) = some [])

/-- The datagram is itself a `CMD_L0` packet. -/
def plainL0 (buf : List UInt8) : Bool :=
  let r := ksnCoreParsePacket buf { addr := CString.empty, port := 0 }
  r.2 && r.1.cmd = cmdL0

theorem plainL0_iff (buf : List UInt8) :
    plainL0 buf = true ↔ ∃ fromName data, Frame buf fromName cmdL0 data := by
  constructor
  · intro h
    obtain ⟨hvalid, hcmd⟩ := (Bool.and_eq_true ..).mp h
    have hframe := frame_of_ksnCoreParsePacket (Prod.ext rfl hvalid)
    rw [of_decide_eq_true hcmd] at hframe
    exact ⟨_, _, hframe⟩
  · rintro ⟨fromName, data, hframe⟩
    rw [plainL0, ksnCoreParsePacket_frame hframe]
    rfl

/-- The packet of the loopback is one. -/
theorem plainL0_ksnCoreCreatePacket {name : CString} (h : name.length ≤ 254)
    (spacket : List UInt8) : plainL0 (ksnCoreCreatePacket name cmdL0 spacket) = true :=
  (plainL0_iff _).mpr ⟨name, spacket, frame_create h cmdL0 spacket⟩

/-- The datagrams that can have a part in a client command. -/
def mayCommand (c : PacketCall) : Bool := ksnCheckEncrypted c.buf || plainL0 c.buf

variable {kc : KsnCoreClass} {command : KsnCorePacketData → ℤ} {mem : SplitMem} {c : PacketCall}

/-- A datagram that is not decrypted is dispatched only if it is a `CMD_L0` packet. -/
theorem plainL0_of_command {rd : KsnCorePacketData} (hplain : ksnCheckEncrypted c.buf = false)
    (h : ksnCoreProcessPacket kc c.stopped c.addr c.port c.buf c.after = .command rd) :
    plainL0 c.buf = true := by
  obtain ⟨-, -, hparse, hgate⟩ := (ksnCoreProcessPacket_command_iff ..).mp h
  have htaken : takenForEncrypted kc c.buf = false := by rw [takenForEncrypted, hplain, Bool.and_false]
  have hdata : packetData kc c.buf c.after = (c.buf, c.after) := by
    rw [packetData, htaken]
    rfl
  rw [hdata] at hparse
  have hcmd : rd.cmd = cmdL0 := hgate.resolve_left (by simp [htaken])
  have hframe := frame_of_ksnCoreParsePacket hparse
  rw [hcmd] at hframe
  exact (plainL0_iff _).mpr ⟨_, _, hframe⟩

/-- Only `CMD_L0` packets and sub-packets lead to `cmd_l0_cb`. -/
theorem cmdL0Calls_other {now : ℚ} {rd : KsnCorePacketData} (hl0 : rd.cmd ≠ cmdL0)
    (hsplit : rd.cmd ≠ cmdSplit) : cmdL0Calls command now mem rd = (mem, []) := by
  rw [cmdL0Calls, if_neg hl0, if_neg hsplit]

/-- The other datagrams leave the sub-packets alone, and no command is executed. -/
theorem clientCommandsOf_silent (h : mayCommand c = false) :
    clientCommandsOf kc command mem c = (mem, []) := by
  obtain ⟨hcheck, hplain⟩ := (Bool.or_eq_false_iff ..).mp h
  unfold clientCommandsOf
  cases hrun : ksnCoreProcessPacket kc c.stopped c.addr c.port c.buf c.after with
  | nothing => rfl
  | client rd => rfl
  | command rd =>
    rw [plainL0_of_command hcheck hrun] at hplain
    cases hplain

/-- What a datagram is for which commands are executed. -/
theorem source_of_clientCommandsOf (hcrypt : kc.cryptF = true)
    (hundecrypted : ¬ PassesUndecrypted kc c.buf)
    (h : (clientCommandsOf kc command mem c).2 ≠ []) :
    DecryptedL0 kc c.buf ∨ plainL0 c.buf = true := by
  unfold clientCommandsOf at h
  cases hrun : ksnCoreProcessPacket kc c.stopped c.addr c.port c.buf c.after with
  | nothing => rw [hrun] at h; exact absurd rfl h
  | client rd => rw [hrun] at h; exact absurd rfl h
  | command rd =>
    rw [hrun] at h
    have hcmd : rd.cmd = cmdL0 ∨ rd.cmd = cmdSplit := by
      by_contra hother
      obtain ⟨hl0, hsplit⟩ := not_or.mp hother
      simp only [cmdL0Calls_other hl0 hsplit] at h
      exact h rfl
    cases hcheck : ksnCheckEncrypted c.buf with
    | false => exact Or.inr (plainL0_of_command hcheck hrun)
    | true =>
      obtain ⟨hraw, hframe⟩ :=
        rawData_of_taken hrun ((takenForEncrypted_iff hcrypt c.buf).mpr hcheck)
      rcases ksnDecryptPackage_fst kc.decrypt c.buf c.after with
        ⟨b, plain, hdec, hfst⟩ | ⟨hfail, -⟩
      · rw [hraw, hfst] at hframe
        exact Or.inl ⟨hcheck, _, _, _, _, hdec, hframe, hcmd⟩
      · exact absurd ⟨hcheck, hfail⟩ hundecrypted

/-- **What client commands are executed for**, with `crypt_f` set.  A datagram for which a command
is executed is an encrypted `CMD_L0` packet or sub-packet, or it is itself a `CMD_L0` packet, as
that of the loopback is.  And runs that agree on the datagrams that pass for encrypted ones and on
those that are `CMD_L0` packets execute the same commands.  Nothing is said of what a datagram
does by itself that passes for an encrypted one and does not decrypt. -/
theorem clientCommands_sources (kc : KsnCoreClass) (hcrypt : kc.cryptF = true)
    (command : KsnCorePacketData → ℤ) :
    (∀ mem c, ¬ PassesUndecrypted kc c.buf → (clientCommandsOf kc command mem c).2 ≠ [] →
      DecryptedL0 kc c.buf ∨ plainL0 c.buf = true) ∧
    ∀ mem cs ds, cs.filter mayCommand = ds.filter mayCommand →
      clientCommands kc command mem cs = clientCommands kc command mem ds :=
  ⟨fun _ _ => source_of_clientCommandsOf hcrypt,
    fun mem _ _ => outputs_eq_of_filter_eq (fun _ _ => clientCommandsOf_silent) mem⟩

/-- A host that encrypts. -/
def cryptHost : KsnCoreClass :=
  coreOf (PaddedCipher.mask (by decide) (by decide) 90) (CString.ofBuf [104]) true

theorem clientCommands_sources_cryptHost :
    (∀ mem c, ¬ PassesUndecrypted cryptHost c.buf →
      (clientCommandsOf cryptHost (fun _ => 1) mem c).2 ≠ [] →
      DecryptedL0 cryptHost c.buf ∨ plainL0 c.buf = true) ∧
    ∀ mem cs ds, cs.filter mayCommand = ds.filter mayCommand →
      clientCommands cryptHost (fun _ => 1) mem cs = clientCommands cryptHost (fun _ => 1) mem ds :=
  clientCommands_sources cryptHost rfl (fun _ => 1)

/-- A datagram of somebody without the key, who calls himself `p`: an echo request of the client
`x`. -/
def strangersEcho : PacketCall where
  now := 0
  addr := CString.empty
  port := 9000
  buf := [2, 112, 0, cmdL0, cmdEcho, 2, 0, 0, 120, 0]

/-- The request is executed as the client's. -/
theorem not_clientCommands_decrypted :
    ¬ ∀ (kc : KsnCoreClass) (command : KsnCorePacketData → ℤ) (mem : SplitMem) (c : PacketCall),
      kc.cryptF = true → c.loopback = false → (clientCommandsOf kc command mem c).2 ≠ [] →
      DecryptedL0 kc c.buf := by
  intro h
  have hexecuted : (clientCommandsOf cryptHost (fun _ => 1) {} strangersEcho).2 ≠ [] := by
    decide +kernel
  obtain ⟨hcheck, -⟩ := h cryptHost (fun _ => 1) {} strangersEcho rfl rfl hexecuted
  exact absurd hcheck (by decide)

end Teonet
