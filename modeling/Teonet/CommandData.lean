import Mathlib.Data.List.GetD
import Teonet.Lib.Block
import Teonet.Lib.Bytes
import Teonet.Packet

/-! # The data of the commands

A handler of `ksnCommandCheck` reads its parameters from `rd->data`: strings one behind the other,
fixed fields, and data up to `data_len`.  This file translates the part of `cmd_resend_cb`,
`cmd_connect_cb`, `cmd_echo_answer_cb`, `cmd_l0_cb`, `cmd_l0_to_cb` and `cmd_subscribe_cb` that
does so, over the bytes `rd->data[0 .. rd->data_len]`: the data and the zero byte that decryption
leaves behind them.  The result is what the handler works with.  It is `none` when a byte outside
of that range is read, when a string or data outside of it are passed on, or when a length that is
computed as a difference underflows.

None of the handlers tests the length of its data first.  `commandData_isSome_iff` says, for each
of them, which data it can work with. -/

namespace Teonet

open Block Bytes

/-! ### Commands -/

def cmdPeers : UInt8 := 72
def cmdResend : UInt8 := 74
def cmdL0Clients : UInt8 := 79
def cmdSubscribe : UInt8 := 81
def cmdUnsubscribe : UInt8 := 82
def cmdL0ClientsN : UInt8 := 84
def cmdGetNumPeers : UInt8 := 86
def cmdL0Stat : UInt8 := 88
def cmdTrudpInfo : UInt8 := 94
def cmdSubscribeRnd : UInt8 := 100
def cmdUser : UInt8 := 129
def cmd192Reserved : UInt8 := 192
def cmdUserNr : UInt8 := 193
def cmdEchoUnreliable : UInt8 := 195
def cmdEchoUnreliableAnswer : UInt8 := 196
def cmdLast : UInt8 := 255

/-- The commands that `cmd_l0_cb` executes for a client. -/
def clientCommand (cmd : UInt8) : Bool :=
  cmd = cmdEcho ∨ cmd = cmdEchoAnswer ∨
    cmd = cmdEchoUnreliable ∨ cmd = cmdEchoUnreliableAnswer ∨
    cmd = cmdPeers ∨ cmd = cmdL0Clients ∨
    cmd = cmdReset ∨ cmd = cmdSubscribe ∨ cmd = cmdSubscribeRnd ∨ cmd = cmdUnsubscribe ∨
    cmd = cmdL0ClientsN ∨ cmd = cmdL0Stat ∨
    cmd = cmdHostInfo ∨ cmd = cmdGetNumPeers ∨
    cmd = cmdTrudpInfo ∨
    (cmdUser ≤ cmd ∧ cmd < cmd192Reserved) ∨
    (cmdUserNr ≤ cmd ∧ cmd < cmdLast)

/-! ### Decoders -/

/-- What a handler takes from its data. -/
inductive CommandData
  /-- `cmd_resend_cb`: to `ksnCoreSendCmdto` -/
  | resend (toName : CString) (cmd : UInt8) (data : List UInt8)
  /-- `cmd_connect_cb`: the `ksnCmdPeerData` -/
  | connect (name addr fullType : CString) (port : ℕ)
  /-- `cmd_echo_answer_cb`: the bytes of `time_send`, and the text -/
  | echoAnswer (timeSend : List UInt8) (text : CString)
  /-- `cmd_l0_cb`: the received data of the client's command, for `ksnCommandCheck` -/
  | client (cmd : UInt8) (fromName : CString) (fromLen : UInt8) (data : List UInt8)
  /-- `cmd_l0_cb`: the message in the log about a command that is skipped -/
  | clientSkipped (cmd : UInt8) (name : CString) (dataLength : ℕ)
  /-- `cmd_l0_to_cb`: the packet for a client -/
  | toClient (cmd : UInt8) (name : CString) (data : List UInt8)
  /-- `cmd_l0_to_cb`: the client is not connected -/
  | toAbsent (name : CString)
  /-- `cmd_subscribe_cb` with `CMD_SUBSCRIBE`: the event -/
  | subscribe (ev : ℕ)
  /-- the other commands -/
  | other
deriving DecidableEq

/-- The bytes that a handler may read. -/
def dataBlock (data : List UInt8) : List UInt8 := data ++ [0]

/-- A length that is computed as a difference. -/
def lengthFrom (len ptr : ℕ) : Option ℕ := if ptr ≤ len then some (len - ptr) else none

/-- `cmd_resend_cb`. -/
def cmdResendData (data : List UInt8) : Option CommandData := do
  let toName ← strAt (dataBlock data) 0
  let ptr := toName.length + 1
  let cmd ← byteAt (dataBlock data) ptr
  let ptr := ptr + 1
  let dataLen ← lengthFrom data.length ptr
  let rest ← bytesAt (dataBlock data) ptr dataLen
  some (.resend toName cmd rest)

/-- `cmd_connect_cb`. -/
def cmdConnectData (data : List UInt8) : Option CommandData := do
  let name ← strAt (dataBlock data) 0
  let ptr := name.length + 1
  let addr ← strAt (dataBlock data) ptr
  let ptr := ptr + addr.length + 1
  let fullType ← strAt (dataBlock data) ptr
  let ptr := ptr + fullType.length + 1
  let port ← bytesAt (dataBlock data) ptr 4
  some (.connect name addr fullType (getLe 4 port))

/-- `cmd_echo_answer_cb`; a `double` has 8 bytes, and the text is compared as a string. -/
def cmdEchoAnswerData (data : List UInt8) : Option CommandData := do
  let timeSend ← bytesBefore (dataBlock data) data.length 8
  let text ← strAt (dataBlock data) 0
  some (.echoAnswer timeSend text)

/-- The fields of a `ksnLNullSPacket` that both handlers read: the command, the data length and
the client's name at the start of the payload. -/
def l0SPacketFields (data : List UInt8) : Option (UInt8 × ℕ × CString) := do
  let cmd ← byteAt (dataBlock data) 0
  let dataLength ← bytesAt (dataBlock data) 2 2
  let name ← strAt (dataBlock data) 4
  some (cmd, getLe16 dataLength, name)

/-- `cmd_l0_cb`. -/
def cmdL0Data (data : List UInt8) : Option CommandData := do
  let (cmd, dataLength, name) ← l0SPacketFields data
  if clientCommand cmd then
    let nameLength ← byteAt (dataBlock data) 1
    -- `rds->from` has `rds->from_len` bytes
    let _ ← bytesAt (dataBlock data) 4 nameLength.toNat
    let rest ← bytesAt (dataBlock data) (4 + nameLength.toNat) dataLength
    some (.client cmd name nameLength rest)
  else some (.clientSkipped cmd name dataLength)

/-- `cmd_l0_to_cb`; `connected` is `ksnLNullClientIsConnected`. -/
def cmdL0ToData (connected : CString → Bool) (data : List UInt8) : Option CommandData := do
  let (cmd, dataLength, name) ← l0SPacketFields data
  if connected name then
    let nameLength ← byteAt (dataBlock data) 1
    let rest ← bytesAt (dataBlock data) (4 + nameLength.toNat) dataLength
    some (.toClient cmd name rest)
  else some (.toAbsent name)

/-- The number in a text of digits. -/
def digitsValue (l : List UInt8) : ℤ :=
  (l.takeWhile fun b => 48 ≤ b ∧ b ≤ 57).foldl (fun n b => 10 * n + (b.toNat - 48 : ℤ)) 0

/-- The number that a text begins with. -/
def decimalValue (s : CString) : ℤ :=
  match s.bytes.dropWhile fun b => b = 32 ∨ (9 ≤ b ∧ b ≤ 13) with
  | 45 :: l => -digitsValue l
  | 43 :: l => digitsValue l
  | l => digitsValue l

/-- `(int)` of a number that the machine holds. -/
def toInt (n : ℤ) : ℤ := Int.bmod n (2 ^ 32)

/-- `atoi`: `strtol` stops at the ends of a `long`. -/
def atoi (s : CString) : ℤ := toInt (max (-2 ^ 63) (min (2 ^ 63 - 1) (decimalValue s)))

/-- `TEXT:`. -/
def textPrefix : List UInt8 := [84, 69, 88, 84, 58]

/-- `cmd_subscribe_cb` with `CMD_SUBSCRIBE`; the event is a `uint16_t`. -/
def cmdSubscribeData (data : List UInt8) : Option CommandData := do
  let ev ← bytesAt (dataBlock data) 0 2
  if 6 ≤ data.length then
    let head ← bytesAt (dataBlock data) 0 5
    if head = textPrefix then
      let text ← strAt (dataBlock data) 5
      some (.subscribe (atoi text % 65536).toNat)
    else some (.subscribe (getLe16 ev))
  else some (.subscribe (getLe16 ev))

/-- The data of the six commands as `ksnCommandCheck` dispatches them. -/
def commandData (connected : CString → Bool) (cmd : UInt8) (data : List UInt8) :
    Option CommandData :=
  if cmd = cmdEchoAnswer then cmdEchoAnswerData data
  else if cmd = cmdConnect then cmdConnectData data
  else if cmd = cmdL0 then cmdL0Data data
  else if cmd = cmdL0To then cmdL0ToData connected data
  else if cmd = cmdResend then cmdResendData data
  else if cmd = cmdSubscribe then cmdSubscribeData data
  else some .other

/-! ### Reading the block -/

@[simp] theorem dataBlock_length (data : List UInt8) :
    (dataBlock data).length = data.length + 1 := by
  rw [dataBlock, List.length_append, List.length_singleton]

theorem strAt_dataBlock {data : List UInt8} {i : ℕ} (h : i ≤ data.length) :
    strAt (dataBlock data) i = some (CString.ofBuf (data.drop i)) := strAt_append_nul h

/-- Bytes at the start of the block that are not longer than the data are bytes of the data. -/
theorem data_eq_of_dataBlock {data pre rest : List UInt8} (h : dataBlock data = pre ++ rest)
    (hlen : pre.length ≤ data.length) : data = pre ++ data.drop pre.length := by
  have hpre : pre <+: data :=
    List.prefix_of_prefix_length_le ⟨rest, h.symm⟩ ⟨[0], rfl⟩ hlen
  obtain ⟨t, rfl⟩ := hpre
  rw [List.drop_left]

/-! ### Which data a handler can work with -/

/-- A string, a command, and the data for it. -/
theorem cmdResendData_isSome_iff (data : List UInt8) :
    (cmdResendData data).isSome ↔
      ∃ (toName : CString) (cmd : UInt8) (rest : List UInt8),
        data = toName.toBuf ++ cmd :: rest := by
  constructor
  · intro h
    rw [Option.isSome_iff_exists] at h
    obtain ⟨out, h⟩ := h
    simp only [cmdResendData, Option.bind_eq_bind, Option.bind_eq_some_iff] at h
    obtain ⟨toName, hto, -, -, dataLen, hlen, -⟩ := h
    have hle : toName.length + 1 + 1 ≤ data.length := by
      unfold lengthFrom at hlen
      split_ifs at hlen with hle
      exact hle
    have hblock := drop_eq_of_strAt hto
    rw [List.drop_zero] at hblock
    have hdata := data_eq_of_dataBlock hblock (by rw [CString.toBuf_length]; omega)
    have hlt : toName.toBuf.length < data.length := by
      rw [CString.toBuf_length]
      omega
    rw [List.drop_eq_getElem_cons hlt] at hdata
    exact ⟨toName, _, _, hdata⟩
  · rintro ⟨toName, cmd, rest, hdata⟩
    have hlen : data.length = toName.length + 1 + 1 + rest.length := by
      simp only [hdata, List.length_append, List.length_cons, CString.toBuf_length]
      omega
    have hblock : (dataBlock data).drop 0 = toName.toBuf ++ (cmd :: rest ++ [0]) := by
      rw [List.drop_zero, dataBlock, hdata, List.append_assoc]
    have hto : strAt (dataBlock data) 0 = some toName := strAt_of_drop_eq hblock
    have hcmd := byteAt_eq (m := dataBlock data) (i := toName.length + 1)
      (by rw [dataBlock_length]; omega)
    have hsub : lengthFrom data.length (toName.length + 1 + 1) = some rest.length := by
      rw [lengthFrom, if_pos (by omega), hlen, Nat.add_sub_cancel_left]
    have hrest := bytesAt_eq (m := dataBlock data) (i := toName.length + 1 + 1) (n := rest.length)
      (by rw [dataBlock_length]; omega)
    simp [cmdResendData, hto, hcmd, hsub, hrest]

/-- Three strings and the port, whose last byte may be the zero byte behind the data. -/
theorem cmdConnectData_isSome_iff (data : List UInt8) :
    (cmdConnectData data).isSome ↔
      ∃ (name addr fullType : CString) (rest : List UInt8),
        data = name.toBuf ++ (addr.toBuf ++ (fullType.toBuf ++ rest)) ∧ 3 ≤ rest.length := by
  constructor
  · intro h
    rw [Option.isSome_iff_exists] at h
    obtain ⟨out, h⟩ := h
    simp only [cmdConnectData, Option.bind_eq_bind, Option.bind_eq_some_iff] at h
    obtain ⟨name, hname, addr, haddr, fullType, htype, port, hport, -⟩ := h
    have hlen : name.length + 1 + addr.length + 1 + fullType.length + 1 + 4 ≤ data.length + 1 := by
      have hsome := (bytesAt_isSome_iff (dataBlock data)
        (name.length + 1 + addr.length + 1 + fullType.length + 1) 4).mp (by rw [hport]; rfl)
      rwa [dataBlock_length] at hsome
    have hblock : dataBlock data = name.toBuf ++ addr.toBuf ++ fullType.toBuf ++
        (dataBlock data).drop (name.length + 1 + addr.length + 1 + fullType.length + 1) := by
      have h1 := drop_eq_of_strAt hname
      rw [List.drop_zero, Nat.zero_add] at h1
      rw [List.append_assoc, ← drop_eq_of_strAt htype, List.append_assoc,
        ← drop_eq_of_strAt haddr, ← h1]
    have hpre : (name.toBuf ++ addr.toBuf ++ fullType.toBuf).length ≤ data.length := by
      simp only [List.length_append, CString.toBuf_length]
      omega
    have hdata := data_eq_of_dataBlock hblock hpre
    rw [List.append_assoc, List.append_assoc] at hdata
    refine ⟨name, addr, fullType, _, hdata, ?_⟩
    simp only [List.length_drop, List.length_append, CString.toBuf_length]
    omega
  · rintro ⟨name, addr, fullType, rest, hdata, hrest⟩
    have hblock : dataBlock data =
        name.toBuf ++ (addr.toBuf ++ (fullType.toBuf ++ (rest ++ [0]))) := by
      simp only [dataBlock, hdata, List.append_assoc]
    have hname : strAt (dataBlock data) 0 = some name := strAt_of_drop_eq hblock
    have hdrop1 : (dataBlock data).drop (name.length + 1) =
        addr.toBuf ++ (fullType.toBuf ++ (rest ++ [0])) := by
      rw [hblock, List.drop_left' (CString.toBuf_length name)]
    have hdrop2 : (dataBlock data).drop (name.length + 1 + addr.length + 1) =
        fullType.toBuf ++ (rest ++ [0]) := by
      rw [Nat.add_assoc (name.length + 1), ← List.drop_drop, hdrop1,
        List.drop_left' (CString.toBuf_length addr)]
    have hport := bytesAt_eq (m := dataBlock data) (n := 4)
      (i := name.length + 1 + addr.length + 1 + fullType.length + 1) (by
        simp only [hblock, List.length_append, List.length_singleton, CString.toBuf_length]
        omega)
    simp [cmdConnectData, hname, strAt_of_drop_eq hdrop1, strAt_of_drop_eq hdrop2, hport]

/-- The time is the last eight bytes. -/
theorem cmdEchoAnswerData_isSome_iff (data : List UInt8) :
    (cmdEchoAnswerData data).isSome ↔ 8 ≤ data.length := by
  have htime := bytesBefore_isSome_iff (m := dataBlock data) (e := data.length)
    (by rw [dataBlock_length]; omega) 8
  rw [cmdEchoAnswerData, strAt_dataBlock (Nat.zero_le _), ← htime]
  cases bytesBefore (dataBlock data) data.length 8 <;> rfl

/-- The data of an envelope lie inside it; the last of them may be the zero byte behind it. -/
def EnvelopeFits (data : List UInt8) : Prop :=
  4 + (data.getD 1 0).toNat + getLe16 (data.drop 2) ≤ data.length + 1

theorem l0SPacketFields_eq {data : List UInt8} (h : 4 ≤ data.length) :
    l0SPacketFields data =
      some (data.getD 0 0, getLe16 (data.drop 2), CString.ofBuf (data.drop 4)) := by
  have hcmd : byteAt (dataBlock data) 0 = some (data.getD 0 0) := by
    rw [byteAt, dataBlock, List.getElem?_append_left (by omega), ← byteAt, byteAt_eq (by omega)]
  have hfield : bytesAt (dataBlock data) 2 2 = some ((data.drop 2).take 2) := by
    rw [bytesAt_eq (by rw [dataBlock_length]; omega), dataBlock,
      List.drop_append_of_le_length (by omega),
      List.take_append_of_le_length (by rw [List.length_drop]; omega)]
  have hlength : getLe16 ((data.drop 2).take 2) = getLe16 (data.drop 2) :=
    getLe_take (by rw [List.length_drop]; omega)
  unfold l0SPacketFields
  rw [hcmd, hfield, strAt_dataBlock h]
  simp only [Option.bind_eq_bind, Option.bind_some, hlength]

theorem l0SPacketFields_eq_none {data : List UInt8} (h : data.length < 4) :
    l0SPacketFields data = none := by
  have hname : strAt (dataBlock data) 4 = none := by
    rw [strAt, List.drop_eq_nil_of_le (by rw [dataBlock_length]; omega), if_neg List.not_mem_nil]
  unfold l0SPacketFields
  cases byteAt (dataBlock data) 0 with
  | none => rfl
  | some cmd => cases bytesAt (dataBlock data) 2 2 <;> simp [hname]

/-- The length of the name, where there is a header. -/
theorem byteAt_nameLength {data : List UInt8} (h : 4 ≤ data.length) :
    byteAt (dataBlock data) 1 = some (data.getD 1 0) := by
  rw [byteAt, dataBlock, List.getElem?_append_left (by omega), ← byteAt, byteAt_eq (by omega)]

/-- The fields of the header, in a buffer with more behind the data. -/
theorem l0Header_append {data : List UInt8} (h : 4 ≤ data.length) (after : List UInt8) :
    (data ++ after).getD 0 0 = data.getD 0 0 ∧ (data ++ after).getD 1 0 = data.getD 1 0 ∧
      getLe16 ((data ++ after).drop 2) = getLe16 (data.drop 2) := by
  refine ⟨List.getD_append _ _ _ _ (by omega), List.getD_append _ _ _ _ (by omega), ?_⟩
  rw [List.drop_append_of_le_length (by omega)]
  exact getLe_append 2 _ _ (by rw [List.length_drop]; omega)

/-- The name behind the header, which ends with the data at the latest. -/
theorem l0Name_append {data : List UInt8} (h : 4 ≤ data.length) (rest : List UInt8) :
    CString.ofBuf ((data ++ 0 :: rest).drop 4) = CString.ofBuf (data.drop 4) := by
  rw [List.drop_append_of_le_length h, CString.ofBuf_append_nul]

/-- Bytes read from the block, in a buffer with more behind it. -/
theorem take_drop_of_bytesAt {data slice : List UInt8} {i n : ℕ}
    (h : bytesAt (dataBlock data) i n = some slice) (rest : List UInt8) :
    ((data ++ 0 :: rest).drop i).take n = slice := by
  have hroom := (bytesAt_isSome_iff _ _ _).mp (by rw [h]; rfl)
  rw [bytesAt_eq hroom] at h
  have hbuf : data ++ 0 :: rest = dataBlock data ++ rest := by
    rw [dataBlock, List.append_assoc, List.singleton_append]
  rw [← Option.some.inj h, hbuf, List.drop_append_of_le_length (by omega),
    List.take_append_of_le_length (by rw [List.length_drop]; omega)]

/-- A whole header, and for a command that is executed the data behind the name. -/
theorem cmdL0Data_isSome_iff (data : List UInt8) :
    (cmdL0Data data).isSome ↔
      4 ≤ data.length ∧ (clientCommand (data.getD 0 0) = true → EnvelopeFits data) := by
  by_cases h : 4 ≤ data.length
  · have hrest := bytesAt_isSome_iff (dataBlock data) (4 + (data.getD 1 0).toNat)
      (getLe16 (data.drop 2))
    rw [dataBlock_length] at hrest
    rw [cmdL0Data, l0SPacketFields_eq h, EnvelopeFits, ← hrest]
    simp only [Option.bind_eq_bind, Option.bind_some, byteAt_nameLength h]
    rw [and_iff_right h]
    by_cases hcmd : clientCommand (data.getD 0 0) = true
    · rw [if_pos hcmd, imp_iff_right hcmd]
      by_cases hname : 4 + (data.getD 1 0).toNat ≤ (dataBlock data).length
      · rw [bytesAt_eq hname, Option.bind_some]
        cases bytesAt (dataBlock data) (4 + (data.getD 1 0).toNat) (getLe16 (data.drop 2)) <;> rfl
      · -- without room for the name there is none for what follows it
        have hnone : bytesAt (dataBlock data) 4 (data.getD 1 0).toNat = none := if_neg hname
        have hnone' : bytesAt (dataBlock data) (4 + (data.getD 1 0).toNat)
            (getLe16 (data.drop 2)) = none := if_neg (by omega)
        rw [hnone, hnone']
        rfl
    · rw [if_neg hcmd]
      exact iff_of_true rfl fun hc => absurd hc hcmd
  · rw [cmdL0Data, l0SPacketFields_eq_none (by omega)]
    simp [h]

/-- A whole header, and for a connected client the data behind the name. -/
theorem cmdL0ToData_isSome_iff (connected : CString → Bool) (data : List UInt8) :
    (cmdL0ToData connected data).isSome ↔
      4 ≤ data.length ∧ (connected (CString.ofBuf (data.drop 4)) = true → EnvelopeFits data) := by
  by_cases h : 4 ≤ data.length
  · have hrest := bytesAt_isSome_iff (dataBlock data) (4 + (data.getD 1 0).toNat)
      (getLe16 (data.drop 2))
    rw [dataBlock_length] at hrest
    rw [cmdL0ToData, l0SPacketFields_eq h, EnvelopeFits, ← hrest]
    simp only [Option.bind_eq_bind, Option.bind_some, byteAt_nameLength h]
    rw [and_iff_right h]
    by_cases hfd : connected (CString.ofBuf (data.drop 4)) = true
    · rw [if_pos hfd, imp_iff_right hfd]
      cases bytesAt (dataBlock data) (4 + (data.getD 1 0).toNat) (getLe16 (data.drop 2)) <;> rfl
    · rw [if_neg hfd]
      exact iff_of_true rfl fun hc => absurd hc hfd
  · rw [cmdL0ToData, l0SPacketFields_eq_none (by omega)]
    simp [h]

/-- The event, of which the second byte may be the zero byte behind the data. -/
theorem cmdSubscribeData_isSome_iff (data : List UInt8) :
    (cmdSubscribeData data).isSome ↔ 1 ≤ data.length := by
  have hev := bytesAt_isSome_iff (dataBlock data) 0 2
  rw [dataBlock_length] at hev
  unfold cmdSubscribeData
  by_cases h : 1 ≤ data.length
  · rw [bytesAt_eq (by rw [dataBlock_length]; omega), Option.bind_eq_bind, Option.bind_some]
    by_cases hlong : 6 ≤ data.length
    · rw [if_pos hlong, bytesAt_eq (by rw [dataBlock_length]; omega),
        strAt_dataBlock (by omega)]
      simp only [Option.bind_some, h, iff_true]
      split_ifs <;> rfl
    · rw [if_neg hlong]
      simp [h]
  · have hnone : bytesAt (dataBlock data) 0 2 = none :=
      if_neg (by rw [dataBlock_length]; omega)
    simp [hnone, h]

/-- What the data of a command have to be for its handler to stay inside them. -/
def DataInside (connected : CString → Bool) (cmd : UInt8) (data : List UInt8) : Prop :=
  (cmd = cmdResend → ∃ (toName : CString) (c : UInt8) (rest : List UInt8),
    data = toName.toBuf ++ c :: rest) ∧
  (cmd = cmdConnect → ∃ (name addr fullType : CString) (rest : List UInt8),
    data = name.toBuf ++ (addr.toBuf ++ (fullType.toBuf ++ rest)) ∧ 3 ≤ rest.length) ∧
  (cmd = cmdL0 → 4 ≤ data.length ∧ (clientCommand (data.getD 0 0) = true → EnvelopeFits data)) ∧
  (cmd = cmdL0To →
    4 ≤ data.length ∧ (connected (CString.ofBuf (data.drop 4)) = true → EnvelopeFits data)) ∧
  (cmd = cmdEchoAnswer → 8 ≤ data.length) ∧
  (cmd = cmdSubscribe → 1 ≤ data.length)

/-- **When a handler stays inside its data**: exactly when they have the layout that it expects. -/
theorem commandData_isSome_iff (connected : CString → Bool) (cmd : UInt8) (data : List UInt8) :
    (commandData connected cmd data).isSome ↔ DataInside connected cmd data := by
  unfold commandData DataInside
  split_ifs with h1 h2 h3 h4 h5 h6
  · subst h1
    simp [cmdEchoAnswerData_isSome_iff, cmdResend, cmdConnect, cmdL0, cmdL0To, cmdEchoAnswer,
      cmdSubscribe]
  · subst h2
    simp [cmdConnectData_isSome_iff, cmdResend, cmdConnect, cmdL0, cmdL0To, cmdEchoAnswer,
      cmdSubscribe]
  · subst h3
    simp [cmdL0Data_isSome_iff, cmdResend, cmdConnect, cmdL0, cmdL0To, cmdEchoAnswer,
      cmdSubscribe]
  · subst h4
    simp [cmdL0ToData_isSome_iff, cmdResend, cmdConnect, cmdL0, cmdL0To, cmdEchoAnswer,
      cmdSubscribe]
  · subst h5
    simp [cmdResendData_isSome_iff, cmdResend, cmdConnect, cmdL0, cmdL0To, cmdEchoAnswer,
      cmdSubscribe]
  · subst h6
    simp [cmdSubscribeData_isSome_iff, cmdResend, cmdConnect, cmdL0, cmdL0To, cmdEchoAnswer,
      cmdSubscribe]
  · simp [h1, h2, h3, h4, h5, h6]

/-- A `CMD_RESEND` of two letters has no terminator and no command. -/
theorem not_commandData_inside :
    ¬ ∀ (connected : CString → Bool) (cmd : UInt8) (data : List UInt8),
      (commandData connected cmd data).isSome := by
  intro h
  exact absurd (h (fun _ => false) cmdResend [97, 98]) (by decide)

end Teonet
