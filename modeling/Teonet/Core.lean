import Teonet.Crypt
import Teonet.Packet
import Teonet.Split

/-! # The core: sending and receiving datagrams

`ksnCoreSendto` and `ksnCoreProcessPacket` of `net_core.c`.  The sender packs the data (in
sub-packets when it is large), encrypts each packet when `crypt_f` is set and hands it to the
transport.  The receiver decrypts what looks encrypted, parses it, and dispatches a valid packet
to the commands when it was taken for encrypted or is `CMD_L0`; everything else goes to the
client server.

`ksnCoreProcessPacket_command_iff` says exactly which datagrams are dispatched.  From it follow
when the dispatched packets are decrypted ones (`ksnCoreProcessPacket_decrypted_iff`) and when a
packet that was sent is dispatched by its receiver (`ksnCoreSendto_delivered_iff`). -/

namespace Teonet

/-- What the core uses of its host: the name, `crypt_f`, and `_encrypt` and `_decrypt` under the
network key. -/
structure KsnCoreClass where
  name : CString
  cryptF : Bool
  encrypt : List UInt8 → List UInt8
  decrypt : List UInt8 → Option (List UInt8)

/-! ### Sending -/

/-- The datagram of `sendto_encrypt`. -/
def sendtoEncrypt (kc : KsnCoreClass) (packet : List UInt8) : List UInt8 :=
  if kc.cryptF then ksnEncryptPackage kc.encrypt packet else packet

/-- `ksnCoreSendto`: the datagrams handed to `ksn_sendto` with the command of each; `none` when
the data is too large. -/
def ksnCoreSendto (kc : KsnCoreClass) (ks : KsnSplitClass) (cmd : UInt8) (data : List UInt8) :
    Option (KsnSplitClass × List (UInt8 × List UInt8)) :=
  if data.length ≤ maxPacketLen - maxDataLen then
    let (ks, packets) := if cmd ≠ cmdVpn then ksnSplitPacket ks cmd data else (ks, [])
    if packets ≠ [] then
      some (ks, packets.map fun p =>
        (cmdSplit, sendtoEncrypt kc (ksnCoreCreatePacket kc.name cmdSplit (splitPayload p))))
    else
      some (ks, [(cmd, sendtoEncrypt kc (ksnCoreCreatePacket kc.name cmd data))])
  else none

/-! ### Receiving -/

/-- Where a datagram goes. -/
inductive Processed
  /-- the event manager is stopped, or nothing was received -/
  | nothing
  /-- to `ksnCoreCheckNewPeer` and `ksnCommandCheck` -/
  | command (rd : KsnCorePacketData)
  /-- to `ksnLNulltrudpCheckPaket`, if there is a client server -/
  | client (rd : KsnCorePacketData)
deriving DecidableEq

/-- The datagram is decrypted, and `encrypted` is set. -/
def takenForEncrypted (kc : KsnCoreClass) (buf : List UInt8) : Bool :=
  kc.cryptF && ksnCheckEncrypted buf

/-- The data that is parsed, with the bytes behind it. -/
def packetData (kc : KsnCoreClass) (buf after : List UInt8) : List UInt8 × List UInt8 :=
  if takenForEncrypted kc buf then ksnDecryptPackage kc.decrypt buf after else (buf, after)

/-- `ksnCoreProcessPacket`; `after` are the bytes of the receive buffer behind the datagram. -/
def ksnCoreProcessPacket (kc : KsnCoreClass) (stopped : Bool) (addr : CString) (port : ℕ)
    (buf after : List UInt8) : Processed :=
  if stopped then .nothing
  else if buf.length > 0 then
    let (data, after) := packetData kc buf after
    let (rd, valid) := ksnCoreParsePacket data { addr := addr, port := port, after := after }
    if valid = true ∧ (takenForEncrypted kc buf = true ∨ rd.cmd = cmdL0) then .command rd
    else .client { rd with fromName := CString.empty, fromLen := 1, data := data }
  else .nothing

/-- **Which datagrams are dispatched**. -/
theorem ksnCoreProcessPacket_command_iff (kc : KsnCoreClass) (stopped : Bool) (addr : CString)
    (port : ℕ) (buf after : List UInt8) (rd : KsnCorePacketData) :
    ksnCoreProcessPacket kc stopped addr port buf after = .command rd ↔
      stopped = false ∧ buf ≠ [] ∧
      ksnCoreParsePacket (packetData kc buf after).1
        { addr := addr, port := port, after := (packetData kc buf after).2 } = (rd, true) ∧
      (takenForEncrypted kc buf = true ∨ rd.cmd = cmdL0) := by
  unfold ksnCoreProcessPacket
  cases stopped with
  | true => simp
  | false =>
    cases buf with
    | nil => simp
    | cons b l =>
      cases hparse : ksnCoreParsePacket (packetData kc (b :: l) after).1
        { addr := addr, port := port, after := (packetData kc (b :: l) after).2 } with
      | mk rd' valid =>
        simp only [Bool.false_eq_true, if_false, List.length_cons, gt_iff_lt, Nat.zero_lt_succ,
          if_true, hparse, Prod.mk.injEq, ne_eq, reduceCtorEq, not_false_eq_true, true_and]
        split_ifs with h
        · obtain ⟨rfl, henc⟩ := h
          constructor
          · intro hrd
            cases hrd
            exact ⟨⟨rfl, rfl⟩, henc⟩
          · rintro ⟨⟨rfl, -⟩, -⟩
            rfl
        · constructor
          · intro hrd
            cases hrd
          · rintro ⟨⟨rfl, rfl⟩, henc⟩
            exact absurd ⟨rfl, henc⟩ h

/-! ### The encryption gate -/

theorem takenForEncrypted_iff {kc : KsnCoreClass} (h : kc.cryptF = true) (buf : List UInt8) :
    takenForEncrypted kc buf = true ↔ ksnCheckEncrypted buf = true := by
  rw [takenForEncrypted, h, Bool.true_and]

/-- A packet that was dispatched from a datagram taken for encrypted was parsed from what
`ksnDecryptPackage` returned. -/
theorem rawData_of_taken {kc : KsnCoreClass} {stopped : Bool} {addr : CString} {port : ℕ}
    {buf after : List UInt8} {rd : KsnCorePacketData}
    (h : ksnCoreProcessPacket kc stopped addr port buf after = .command rd)
    (henc : takenForEncrypted kc buf = true) :
    rd.rawData = (ksnDecryptPackage kc.decrypt buf after).1 ∧
      Frame rd.rawData rd.fromName rd.cmd rd.data := by
  obtain ⟨-, -, hparse, -⟩ := (ksnCoreProcessPacket_command_iff ..).mp h
  have hframe := frame_of_ksnCoreParsePacket hparse
  rw [ksnCoreParsePacket_frame hframe] at hparse
  have hraw : (packetData kc buf after).1 = rd.rawData :=
    congrArg (fun q => KsnCorePacketData.rawData q.1) hparse
  rw [hraw] at hframe
  rw [packetData, if_pos henc] at hraw
  exact ⟨hraw.symm, hframe⟩

/-- A dispatched packet that is not `CMD_L0` came from a datagram taken for encrypted. -/
theorem rawData_of_command {kc : KsnCoreClass} {stopped : Bool} {addr : CString} {port : ℕ}
    {buf after : List UInt8} {rd : KsnCorePacketData}
    (h : ksnCoreProcessPacket kc stopped addr port buf after = .command rd)
    (hcmd : rd.cmd ≠ cmdL0) :
    takenForEncrypted kc buf = true ∧
      rd.rawData = (ksnDecryptPackage kc.decrypt buf after).1 ∧
      Frame rd.rawData rd.fromName rd.cmd rd.data := by
  obtain ⟨-, -, -, hgate⟩ := (ksnCoreProcessPacket_command_iff ..).mp h
  have henc : takenForEncrypted kc buf = true := hgate.resolve_right hcmd
  exact ⟨henc, rawData_of_taken h henc⟩

/-- **When only decrypted packets are dispatched**: with `crypt_f` set, a dispatched packet that
is not `CMD_L0` is what the datagram decrypts to, unless the datagram passes for an encrypted one,
does not decrypt, and is itself a well-formed packet with another command. -/
theorem ksnCoreProcessPacket_decrypted_iff (kc : KsnCoreClass) (hcrypt : kc.cryptF = true)
    (stopped : Bool) (addr : CString) (port : ℕ) (buf after : List UInt8) :
    (∀ rd, ksnCoreProcessPacket kc stopped addr port buf after = .command rd → rd.cmd ≠ cmdL0 →
      ∃ plain, kc.decrypt (buf.drop 2) = some plain ∧ rd.rawData = plain) ↔
    ¬ (stopped = false ∧ ksnCheckEncrypted buf = true ∧
      (kc.decrypt (buf.drop 2) = none ∨ kc.decrypt (buf.drop 2) = some []) ∧
      ∃ fromName cmd data, Frame buf fromName cmd data ∧ cmd ≠ cmdL0) := by
  constructor
  · rintro hsafe ⟨rfl, hcheck, hfail, fromName, cmd, data, hframe, hcmd⟩
    have henc := (takenForEncrypted_iff hcrypt buf).mpr hcheck
    have hdata : packetData kc buf after = (buf, after) := by
      rw [packetData, if_pos henc, ksnDecryptPackage]
      rcases hfail with hnone | hnil
      · rw [hnone]
      · rw [hnil]
    have hne : buf ≠ [] := by
      rintro rfl
      have hlen := congrArg List.length hframe.2
      rw [ksnCoreCreatePacketFrom_length, packetHeaderAddSize, List.length_nil] at hlen
      omega
    have hrun := (ksnCoreProcessPacket_command_iff kc false addr port buf after _).mpr
      ⟨rfl, hne, by rw [hdata]; exact ksnCoreParsePacket_frame hframe _, Or.inl henc⟩
    obtain ⟨plain, hplain, hraw⟩ := hsafe _ hrun hcmd
    rcases hfail with hnone | hnil
    · rw [hnone] at hplain
      cases hplain
    · rw [hnil] at hplain
      cases hplain
      exact hne hraw
  · intro hcond rd hrun hcmd
    obtain ⟨henc, hraw, hframe⟩ := rawData_of_command hrun hcmd
    rcases ksnDecryptPackage_fst kc.decrypt buf after with ⟨b, plain, hdec, hfst⟩ | ⟨hfail, hfst⟩
    · exact ⟨b :: plain, hdec, hraw.trans hfst⟩
    · have hstopped := ((ksnCoreProcessPacket_command_iff ..).mp hrun).1
      rw [hraw, hfst] at hframe
      exact absurd ⟨hstopped, (takenForEncrypted_iff hcrypt buf).mp henc, hfail, _, _, _, hframe,
        hcmd⟩ hcond

/-- An echo request of eighteen bytes that nobody encrypted. -/
def plainEcho : List UInt8 := [1, 0, 65] ++ List.replicate 15 0

theorem ksnCoreProcessPacket_decrypted_iff_plainEcho :
    ¬ ∀ rd, ksnCoreProcessPacket ⟨CString.empty, true, id, fun _ => none⟩ false CString.empty 9000
        plainEcho [] = .command rd → rd.cmd ≠ cmdL0 →
      ∃ plain, (fun _ => none : List UInt8 → Option (List UInt8)) (plainEcho.drop 2) = some plain ∧
        rd.rawData = plain := by
  intro h
  refine (ksnCoreProcessPacket_decrypted_iff ⟨CString.empty, true, id, fun _ => none⟩ rfl false
    CString.empty 9000 plainEcho []).mp h ⟨rfl, by decide, Or.inl rfl, CString.empty, 65,
    List.replicate 15 0, by decide, by decide⟩

/-- The unencrypted echo request is dispatched. -/
theorem not_ksnCoreProcessPacket_decrypted :
    ¬ ∀ (kc : KsnCoreClass) (addr : CString) (port : ℕ) (buf after : List UInt8)
      (rd : KsnCorePacketData), kc.cryptF = true → 2 ≤ buf.length →
      ksnCoreProcessPacket kc false addr port buf after = .command rd → rd.cmd ≠ cmdL0 →
      ∃ plain, kc.decrypt (buf.drop 2) = some plain ∧ rd.rawData = plain := by
  intro h
  have hrun : ksnCoreProcessPacket ⟨CString.empty, true, id, fun _ => none⟩ false CString.empty
      9000 plainEcho [] = .command {
        addr := CString.empty
        port := 9000
        fromLen := 1
        cmd := cmdEcho
        data := List.replicate 15 0
        rawData := plainEcho } := by
    decide
  obtain ⟨plain, hplain, -⟩ := h _ _ _ _ _ _ rfl (by decide) hrun (by decide)
  cases hplain

/-! ### From sender to receiver -/

/-- The host with this cipher and this setting of `crypt_f`. -/
def coreOf (c : PaddedCipher blockSize) (name : CString) (cryptF : Bool) : KsnCoreClass :=
  ⟨name, cryptF, c.encrypt, c.decrypt⟩

/-- The packet that `sender` makes is one datagram, and `receiver` dispatches it with the same
name, command and data. -/
def Delivered (sender receiver : KsnCoreClass) (ks : KsnSplitClass) (addr : CString) (port : ℕ)
    (after : List UInt8) (cmd : UInt8) (data : List UInt8) : Prop :=
  ∃ ks' datagram rd, ksnCoreSendto sender ks cmd data = some (ks', [(cmd, datagram)]) ∧
    ksnCoreProcessPacket receiver false addr port datagram after = .command rd ∧
    rd.fromName = sender.name ∧ rd.cmd = cmd ∧ rd.data = data

/-- Small data is sent in one packet. -/
theorem ksnCoreSendto_small (kc : KsnCoreClass) (ks : KsnSplitClass) (cmd : UInt8)
    {data : List UInt8} (h : data.length ≤ maxDataLen) :
    ksnCoreSendto kc ks cmd data =
      some (ks, [(cmd, sendtoEncrypt kc (ksnCoreCreatePacket kc.name cmd data))]) := by
  have hsplit : ksnSplitPacket ks cmd data = (ks, []) := by
    rw [ksnSplitPacket, if_neg (not_lt.mpr h)]
  have hfit : data.length ≤ maxPacketLen - maxDataLen := le_trans h (by decide)
  rw [ksnCoreSendto, if_pos hfit, hsplit, ite_self]
  rfl

/-- What the receiver parses is the packet that was made. -/
theorem packetData_sendtoEncrypt (c : PaddedCipher blockSize) (name name' : CString)
    (cryptF : Bool) {packet : List UInt8} (hne : packet ≠ []) (hlt : packet.length < 65536)
    (after : List UInt8) :
    (packetData (coreOf c name' cryptF) (sendtoEncrypt (coreOf c name cryptF) packet) after).1 =
      packet := by
  cases cryptF with
  | false => rfl
  | true =>
    have hcheck := ksnCheckEncrypted_encrypt c hne hlt
    have henc : takenForEncrypted (coreOf c name' true) (ksnEncryptPackage c.encrypt packet) =
        true := hcheck
    show (packetData (coreOf c name' true) (ksnEncryptPackage c.encrypt packet) after).1 = packet
    rw [packetData, if_pos henc]
    exact ksnDecryptPackage_encrypt c hne after

/-- The receiver takes a datagram for encrypted exactly when `crypt_f` is set. -/
theorem takenForEncrypted_sendtoEncrypt (c : PaddedCipher blockSize) (name name' : CString)
    (cryptF : Bool) {packet : List UInt8} (hne : packet ≠ []) (hlt : packet.length < 65536) :
    takenForEncrypted (coreOf c name' cryptF) (sendtoEncrypt (coreOf c name cryptF) packet) =
      cryptF := by
  cases cryptF with
  | false => rfl
  | true => exact ksnCheckEncrypted_encrypt c hne hlt

/-- **When a packet is delivered**: a receiver with the same key and the same `crypt_f` dispatches
what was sent exactly when `crypt_f` is set or the command is `CMD_L0`. -/
theorem ksnCoreSendto_delivered_iff (c : PaddedCipher blockSize) (cryptF : Bool)
    (name name' : CString) (hname : name.length ≤ 254) (ks : KsnSplitClass) (addr : CString)
    (port : ℕ) (after : List UInt8) (cmd : UInt8) (data : List UInt8)
    (hdata : data.length ≤ maxDataLen) :
    Delivered (coreOf c name cryptF) (coreOf c name' cryptF) ks addr port after cmd data ↔
      cryptF = true ∨ cmd = cmdL0 := by
  have hframe : Frame (ksnCoreCreatePacket name cmd data) name cmd data :=
    frame_create hname cmd data
  have hlen : (ksnCoreCreatePacket name cmd data).length = name.length + 1 + data.length + 2 := by
    rw [hframe.2, ksnCoreCreatePacketFrom_length, CString.toBuf_length, packetHeaderAddSize]
  have hlt : (ksnCoreCreatePacket name cmd data).length < 65536 := by
    simp only [maxDataLen] at hdata
    omega
  have hne : ksnCoreCreatePacket name cmd data ≠ [] := by
    intro h
    rw [h, List.length_nil] at hlen
    omega
  have hparsed := packetData_sendtoEncrypt c name name' cryptF hne hlt after
  have htaken := takenForEncrypted_sendtoEncrypt c name name' cryptF hne hlt
  have hdatagram : sendtoEncrypt (coreOf c name cryptF) (ksnCoreCreatePacket name cmd data) ≠
      [] := by
    intro h
    rw [h] at hparsed
    cases cryptF with
    | false => exact hne hparsed.symm
    | true =>
      rw [h] at htaken
      have hnot : takenForEncrypted (coreOf c name' true) [] = false := rfl
      exact absurd (hnot.symm.trans htaken) (by decide)
  constructor
  · rintro ⟨ks', datagram, rd, hsend, hrun, -, hcmd, -⟩
    rw [ksnCoreSendto_small _ ks cmd hdata] at hsend
    cases hsend
    obtain ⟨-, -, -, hgate⟩ := (ksnCoreProcessPacket_command_iff ..).mp hrun
    rw [hcmd] at hgate
    exact hgate.imp_left fun h => htaken.symm.trans h
  · intro hcond
    rw [← hparsed] at hframe
    have hrun := (ksnCoreProcessPacket_command_iff (coreOf c name' cryptF) false addr port
      (sendtoEncrypt (coreOf c name cryptF) (ksnCoreCreatePacket name cmd data)) after _).mpr
      ⟨rfl, hdatagram, ksnCoreParsePacket_frame hframe _, hcond.imp_left htaken.trans⟩
    exact ⟨ks, _, _, ksnCoreSendto_small _ ks cmd hdata, hrun, rfl, rfl, rfl⟩

/-- With encryption an echo request arrives. -/
theorem ksnCoreSendto_delivered_iff_echo :
    Delivered (coreOf (PaddedCipher.mask (by decide) (by decide) 90) ⟨[97], by decide⟩ true)
        (coreOf (PaddedCipher.mask (by decide) (by decide) 90) ⟨[98], by decide⟩ true) {}
        CString.empty 9000 [] cmdEcho [1, 2, 3] ↔
      true = true ∨ cmdEcho = cmdL0 :=
  ksnCoreSendto_delivered_iff _ true ⟨[97], by decide⟩ ⟨[98], by decide⟩ (by decide) {}
    CString.empty 9000 [] cmdEcho [1, 2, 3] (by decide)

/-- Without encryption an echo request from `a` is sent and not dispatched. -/
theorem not_ksnCoreSendto_delivered :
    ¬ ∀ (c : PaddedCipher blockSize) (cryptF : Bool) (name name' : CString) (ks : KsnSplitClass)
      (addr : CString) (port : ℕ) (after : List UInt8) (cmd : UInt8) (data : List UInt8),
      1 ≤ name.length → name.length ≤ 254 → cmd ≠ cmdSplit → data.length ≤ maxDataLen →
      Delivered (coreOf c name cryptF) (coreOf c name' cryptF) ks addr port after cmd data := by
  intro h
  obtain ⟨ks', datagram, rd, hsend, hrun, -⟩ :=
    h (PaddedCipher.mask (by decide) (by decide) 90) false ⟨[97], by decide⟩ ⟨[98], by decide⟩ {}
      CString.empty 9000 [] cmdEcho [1, 2, 3] (by decide) (by decide) (by decide) (by decide)
  rw [ksnCoreSendto_small _ _ _ (by decide)] at hsend
  cases hsend
  have hclient : ∀ rd, ksnCoreProcessPacket
      (coreOf (PaddedCipher.mask (by decide) (by decide) 90) ⟨[98], by decide⟩ false) false
      CString.empty 9000 (ksnCoreCreatePacket ⟨[97], by decide⟩ cmdEcho [1, 2, 3]) [] ≠
      .command rd := by
    intro rd hrd
    obtain ⟨-, -, hparse, hgate⟩ := (ksnCoreProcessPacket_command_iff ..).mp hrd
    cases hparse
    exact absurd hgate (by decide)
  exact hclient rd hrun

end Teonet
