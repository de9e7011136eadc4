import Mathlib.Data.List.Infix
import Teonet.CommandData
import Teonet.Core
import Teonet.L0Server

/-! # The L0 envelope

A client's packet goes to a peer, and a peer's data go to a client, in a `ksnLNullSPacket`: the
command, the length of the client's name in 8 bits, the length of the data in 16 bits, the name
and the data.  `ksnLNullSendFromL0` and `ksnLNullSendToL0` build it, `cmd_l0_cb` and
`cmd_l0_to_cb` read it (`l0SPacketDecode`).

The senders work with wider lengths than the fields have.  `l0SPacketDecode_l0SPacket` says what
is read from any envelope that is built, and `l0Envelope_roundTrip_iff` when that is what was
sent. -/

namespace Teonet

open Block Bytes

/-! ### Reading an envelope -/

/-- What the handlers take from an envelope: the command, the client's name, its length, and the
data. -/
def l0SPacketDecode (spacket : List UInt8) : Option (UInt8 × CString × UInt8 × List UInt8) := do
  let (cmd, dataLength, name) ← l0SPacketFields spacket
  let nameLength ← byteAt (dataBlock spacket) 1
  let data ← bytesAt (dataBlock spacket) (4 + nameLength.toNat) dataLength
  some (cmd, name, nameLength, data)

/-- The parts of an envelope that is read. -/
theorem l0SPacketDecode_eq_some {spacket data : List UInt8} {cmd nameLength : UInt8}
    {name : CString} (h : l0SPacketDecode spacket = some (cmd, name, nameLength, data)) :
    l0SPacketFields spacket = some (cmd, data.length, name) ∧
      byteAt (dataBlock spacket) 1 = some nameLength ∧
      bytesAt (dataBlock spacket) (4 + nameLength.toNat) data.length = some data := by
  simp only [l0SPacketDecode, Option.bind_eq_bind, Option.bind_eq_some_iff] at h
  obtain ⟨⟨c, dataLength, n⟩, hfields, len, hlen, rest, hrest, hout⟩ := h
  obtain ⟨rfl, rfl, rfl, rfl⟩ : c = cmd ∧ n = name ∧ len = nameLength ∧ rest = data := by
    simpa using hout
  rw [bytesAt_length hrest]
  exact ⟨hfields, hlen, hrest⟩

/-- `cmd_l0_cb` works with what is read, for the commands that it executes. -/
theorem cmdL0Data_of_decode {spacket data : List UInt8} {cmd nameLength : UInt8} {name : CString}
    (h : l0SPacketDecode spacket = some (cmd, name, nameLength, data)) :
    cmdL0Data spacket =
      some (if clientCommand cmd then .client cmd name nameLength data
        else .clientSkipped cmd name data.length) := by
  obtain ⟨hfields, hlen, hrest⟩ := l0SPacketDecode_eq_some h
  have hroom := (bytesAt_isSome_iff (dataBlock spacket) (4 + nameLength.toNat) data.length).mp
    (by rw [hrest]; rfl)
  have hname := bytesAt_eq (show 4 + nameLength.toNat ≤ (dataBlock spacket).length by omega)
  simp only [cmdL0Data, hfields, Option.bind_eq_bind, Option.bind_some, hlen, hname, hrest]
  split_ifs <;> rfl

/-- `cmd_l0_to_cb` works with what is read. -/
theorem cmdL0ToData_of_decode {spacket data : List UInt8} {cmd nameLength : UInt8}
    {name : CString} (h : l0SPacketDecode spacket = some (cmd, name, nameLength, data))
    (connected : CString → Bool) :
    cmdL0ToData connected spacket =
      some (if connected name then .toClient cmd name data else .toAbsent name) := by
  obtain ⟨hfields, hlen, hrest⟩ := l0SPacketDecode_eq_some h
  simp only [cmdL0ToData, hfields, Option.bind_eq_bind, Option.bind_some, hlen, hrest]
  split_ifs <;> rfl

/-- The packet that `cmd_l0_to_cb` sends, where it stays inside its data: what lies behind them in
memory does not matter. -/
theorem cmdL0ToCb_eq {Ctx : Type} (env : L0Env Ctx) (kl : KsnLNullClass Ctx)
    {rd : KsnCorePacketData} {cmd : UInt8} {name : CString} {data rest : List UInt8}
    (hafter : rd.after = 0 :: rest)
    (h : cmdL0ToData (fun n => decide (ksnLNullClientIsConnected kl n ≠ 0)) rd.data =
      some (.toClient cmd name data)) :
    cmdL0ToCb env kl rd =
      ksnLNullPacketSend env
        { kl with stat := { kl.stat with packetsFromPeer := kl.stat.packetsFromPeer + 1 } }
        (ksnLNullClientIsConnected kl name) (env.cli.packetCreate cmd rd.fromName data) := by
  have hlen : 4 ≤ rd.data.length := ((cmdL0ToData_isSome_iff _ _).mp (by rw [h]; rfl)).1
  obtain ⟨hcmd, hnameLength, hdataLength⟩ := l0Header_append hlen (0 :: rest)
  rw [cmdL0ToData, l0SPacketFields_eq hlen] at h
  simp only [Option.bind_eq_bind, Option.bind_some, byteAt_nameLength hlen] at h
  have hname : l0ToName rd = CString.ofBuf (rd.data.drop 4) := by
    rw [l0ToName, hafter, l0Name_append hlen]
  split_ifs at h with hfd
  · obtain ⟨slice, hslice, hout⟩ := Option.bind_eq_some_iff.mp h
    obtain ⟨rfl, rfl, rfl⟩ : rd.data.getD 0 0 = cmd ∧ CString.ofBuf (rd.data.drop 4) = name ∧
      slice = data := by simpa using hout
    have hconn : ksnLNullClientIsConnected { kl with
        stat := { kl.stat with packetsFromPeer := kl.stat.packetsFromPeer + 1 } }
        (CString.ofBuf (rd.data.drop 4)) ≠ 0 := of_decide_eq_true hfd
    unfold cmdL0ToCb
    simp only [hname, hafter]
    rw [if_pos hconn, hcmd, hnameLength, hdataLength, take_drop_of_bytesAt hslice]
    rfl
  · cases h

/-! ### What is read from an envelope that was built -/

/-- The payload of an envelope: the name, and the data where the length byte says that the name
ends. -/
def l0SPayload (name : CString) (data : List UInt8) : List UInt8 :=
  let payload := name.toBuf ++ List.replicate data.length 0
  let offset := (name.length + 1) % 256
  payload.take offset ++ (data ++ payload.drop (offset + data.length))

theorem l0SPacket_eq (cmd : UInt8) (name : CString) (data : List UInt8) :
    l0SPacket cmd name data =
      cmd :: UInt8.ofNat (name.length + 1) :: (le16 data.length ++ l0SPayload name data) := rfl

theorem nameOffset_le (name : CString) : (name.length + 1) % 256 ≤ name.toBuf.length := by
  rw [CString.toBuf_length]
  exact Nat.mod_le _ _

theorem l0SPayload_take_length (name : CString) (data : List UInt8) :
    ((name.toBuf ++ List.replicate data.length 0).take ((name.length + 1) % 256)).length =
      (name.length + 1) % 256 := by
  have hle := nameOffset_le name
  rw [List.length_take, List.length_append]
  omega

theorem l0SPayload_length (name : CString) (data : List UInt8) :
    (l0SPayload name data).length = name.length + 1 + data.length := by
  have hle := nameOffset_le name
  rw [CString.toBuf_length] at hle
  simp only [l0SPayload, List.length_append, l0SPayload_take_length, List.length_drop,
    CString.toBuf_length, List.length_replicate]
  omega

theorem l0SPacket_length (cmd : UInt8) (name : CString) (data : List UInt8) :
    (l0SPacket cmd name data).length = 4 + (name.length + 1 + data.length) := by
  rw [l0SPacket_eq, List.length_cons, List.length_cons, List.length_append, le_length,
    l0SPayload_length]
  omega

/-- **What is read from an envelope**: the name up to the first zero of the payload, its length
modulo `256`, and the data up to their length modulo `65536`. -/
theorem l0SPacketDecode_l0SPacket (cmd : UInt8) (name : CString) (data : List UInt8) :
    l0SPacketDecode (l0SPacket cmd name data) =
      some (cmd, CString.ofBuf (l0SPayload name data), UInt8.ofNat (name.length + 1),
        data.take (data.length % 65536)) := by
  have hlen := l0SPacket_length cmd name data
  have hoff : (UInt8.ofNat (name.length + 1)).toNat = (name.length + 1) % 256 := toNat_ofNat _
  have hle := nameOffset_le name
  have hmod : data.length % 65536 ≤ data.length := Nat.mod_le _ _
  rw [CString.toBuf_length] at hle
  have hfour : (l0SPacket cmd name data).drop 4 = l0SPayload name data := by
    rw [l0SPacket_eq, List.drop_succ_cons, List.drop_succ_cons]
    exact drop_le16_append _ _
  have hfields : l0SPacketFields (l0SPacket cmd name data) =
      some (cmd, data.length % 65536, CString.ofBuf (l0SPayload name data)) := by
    rw [l0SPacketFields_eq (by omega), hfour, l0SPacket_eq, List.drop_succ_cons,
      List.drop_succ_cons, List.drop_zero, getLe16_le16_append, List.getD_cons_zero]
  have hnameLength := @byteAt_nameLength (l0SPacket cmd name data) (by omega)
  rw [l0SPacket_eq, List.getD_cons_succ, List.getD_cons_zero, ← l0SPacket_eq] at hnameLength
  have hdrop : (dataBlock (l0SPacket cmd name data)).drop (4 + (name.length + 1) % 256) =
      data ++ ((name.toBuf ++ List.replicate data.length 0).drop
        ((name.length + 1) % 256 + data.length) ++ [0]) := by
    rw [dataBlock, List.drop_append_of_le_length (by omega), ← List.drop_drop, hfour]
    show ((name.toBuf ++ List.replicate data.length 0).take ((name.length + 1) % 256) ++ _).drop
      ((name.length + 1) % 256) ++ [0] = _
    rw [List.drop_left' (l0SPayload_take_length name data), List.append_assoc]
  have hdata : bytesAt (dataBlock (l0SPacket cmd name data)) (4 + (name.length + 1) % 256)
      (data.length % 65536) = some (data.take (data.length % 65536)) := by
    rw [bytesAt_eq (by rw [dataBlock_length]; omega), hdrop,
      List.take_append_of_le_length hmod]
  rw [l0SPacketDecode, hfields]
  simp only [Option.bind_eq_bind, Option.bind_some, hnameLength, hoff, hdata]

/-! ### The round trip -/

/-- Bytes that are read as a string with its terminator are at the start of the buffer. -/
theorem ofBuf_eq_iff {b : List UInt8} {s : CString} (h : s.length + 1 ≤ b.length) :
    CString.ofBuf b = s ↔ s.toBuf <+: b := by
  constructor
  · rintro rfl
    have hmem : 0 ∈ b := by
      by_contra hnot
      rw [CString.length, CString.bytes_ofBuf hnot] at h
      omega
    exact ⟨_, CString.toBuf_ofBuf_append hmem⟩
  · rintro ⟨t, rfl⟩
    exact CString.ofBuf_toBuf_append s t

/-- The data agree with the bytes of the name that they are written over. -/
def OverwritesAlike (name : CString) (data : List UInt8) : Prop :=
  data.take (name.length + 1 - (name.length + 1) % 256) <+:
    name.toBuf.drop ((name.length + 1) % 256)

/-- A prefix that is written over by data which agree with it. -/
theorem take_overwrite_eq_iff {x data rest : List UInt8} :
    (data ++ (x.drop data.length ++ rest)).take x.length = x ↔ data.take x.length <+: x := by
  rcases Nat.le_total x.length data.length with hle | hle
  · rw [List.take_append_of_le_length hle]
    constructor
    · intro h
      rw [h]
    · intro h
      exact h.eq_of_length (by rw [List.length_take]; omega)
  · have hdrop : (x.drop data.length).length = x.length - data.length := List.length_drop
    rw [List.take_append, List.take_of_length_le hle, ← hdrop, List.take_left]
    constructor
    · intro h
      exact ⟨_, h⟩
    · rintro ⟨t, rfl⟩
      rw [List.drop_left]

/-- **When the name survives**: it fits in the length byte, or the data that are written over it
agree with it. -/
theorem ofBuf_l0SPayload_eq_iff (name : CString) (data : List UInt8) :
    CString.ofBuf (l0SPayload name data) = name ↔ name.length + 1 ≤ 255 ∨ OverwritesAlike name data := by
  have hle := nameOffset_le name
  have hcut := l0SPayload_take_length name data
  rw [CString.toBuf_length] at hle
  rw [ofBuf_eq_iff (by rw [l0SPayload_length]; omega), List.prefix_iff_eq_take,
    CString.toBuf_length]
  have hhead : (name.toBuf ++ List.replicate data.length 0).take ((name.length + 1) % 256) =
      name.toBuf.take ((name.length + 1) % 256) :=
    List.take_append_of_le_length (by rw [CString.toBuf_length]; exact hle)
  have htail : (name.toBuf ++ List.replicate data.length 0).drop
      ((name.length + 1) % 256 + data.length) =
      (name.toBuf.drop ((name.length + 1) % 256)).drop data.length ++
        (List.replicate data.length 0).drop
          ((name.length + 1) % 256 + data.length - name.toBuf.length) := by
    rw [List.drop_append, List.drop_drop]
  have hx : (name.toBuf.drop ((name.length + 1) % 256)).length =
      name.length + 1 - (name.length + 1) % 256 := by
    rw [List.length_drop, CString.toBuf_length]
  -- behind the offset the payload is the data over the rest of the name
  have hpayload : (l0SPayload name data).take (name.length + 1) =
      name.toBuf.take ((name.length + 1) % 256) ++
        (data ++ ((name.toBuf.drop ((name.length + 1) % 256)).drop data.length ++
          (List.replicate data.length 0).drop
            ((name.length + 1) % 256 + data.length - name.toBuf.length))).take
          (name.toBuf.drop ((name.length + 1) % 256)).length := by
    rw [l0SPayload, htail, List.take_append, hcut, hhead, hx,
      List.take_of_length_le (by rw [List.length_take, CString.toBuf_length]; omega)]
  have hsplit : name.toBuf = name.toBuf.take ((name.length + 1) % 256) ++
      name.toBuf.drop ((name.length + 1) % 256) := (List.take_append_drop _ _).symm
  have hname : name.toBuf = (l0SPayload name data).take (name.length + 1) ↔
      OverwritesAlike name data := by
    rw [hpayload, OverwritesAlike, ← hx, ← take_overwrite_eq_iff]
    conv_lhs => lhs; rw [hsplit]
    rw [List.append_cancel_left_eq]
    exact eq_comm
  rw [hname]
  constructor
  · exact Or.inr
  · rintro (hfit | hkeeps)
    · have hmod : (name.length + 1) % 256 = name.length + 1 := Nat.mod_eq_of_lt (by omega)
      rw [OverwritesAlike, hmod, Nat.sub_self, List.take_zero]
      exact List.nil_prefix
    · exact hkeeps

/-- `ksnLNullSendToL0`: the envelope, and what `ksnCoreSendto` does with it; `none` is the error of
data that are too large. -/
def ksnLNullSendToL0 (kc : KsnCoreClass) (ks : KsnSplitClass) (cname : CString) (cmd : UInt8)
    (data : List UInt8) : List UInt8 × Option (KsnSplitClass × List (UInt8 × List UInt8)) :=
  let spacket := l0SPacket cmd cname data
  (spacket, ksnCoreSendto kc ks cmdL0To spacket)

/-- What `cmd_l0_cb` takes from the envelope is what was sent: `rds->from` with `rds->from_len`,
the command and the data. -/
def L0RoundTrip (spacket : List UInt8) (cmd : UInt8) (name : CString) (data : List UInt8) : Prop :=
  ∃ nameLength, l0SPacketDecode spacket = some (cmd, name, nameLength, data) ∧
    nameLength.toNat = name.length + 1

/-- The same for `cmd_l0_to_cb`, which takes the name as a string. -/
def L0ToRoundTrip (spacket : List UInt8) (cmd : UInt8) (name : CString) (data : List UInt8) :
    Prop :=
  ∃ nameLength, l0SPacketDecode spacket = some (cmd, name, nameLength, data)

theorem l0RoundTrip_iff (cmd : UInt8) (name : CString) {data : List UInt8}
    (h : data.length ≤ 65535) :
    L0RoundTrip (l0SPacket cmd name data) cmd name data ↔ name.length + 1 ≤ 255 := by
  rw [L0RoundTrip, l0SPacketDecode_l0SPacket, Nat.mod_eq_of_lt (by omega), List.take_length]
  constructor
  · rintro ⟨nameLength, -, hlen⟩
    have hlt := nameLength.toNat_lt
    omega
  · intro hname
    rw [(ofBuf_l0SPayload_eq_iff name data).mpr (Or.inl hname)]
    refine ⟨_, rfl, ?_⟩
    rw [toNat_ofNat, Nat.mod_eq_of_lt (by omega)]

theorem l0ToRoundTrip_iff (cmd : UInt8) (name : CString) (data : List UInt8) :
    L0ToRoundTrip (l0SPacket cmd name data) cmd name data ↔
      data.length ≤ 65535 ∧ (name.length + 1 ≤ 255 ∨ OverwritesAlike name data) := by
  rw [L0ToRoundTrip, l0SPacketDecode_l0SPacket, ← ofBuf_l0SPayload_eq_iff]
  constructor
  · rintro ⟨nameLength, h⟩
    obtain ⟨-, hname, -, hdata⟩ : cmd = cmd ∧ CString.ofBuf (l0SPayload name data) = name ∧
        UInt8.ofNat (name.length + 1) = nameLength ∧
        data.take (data.length % 65536) = data := by simpa using h
    have hlen := congrArg List.length hdata
    rw [List.length_take] at hlen
    have hmod := Nat.mod_lt data.length (show 0 < 65536 by decide)
    exact ⟨by omega, hname⟩
  · rintro ⟨hlen, hname⟩
    refine ⟨UInt8.ofNat (name.length + 1), ?_⟩
    rw [hname, Nat.mod_eq_of_lt (by omega), List.take_length]

variable {Ctx : Type}

/-- **When an envelope is read as it was sent.**  A client's packet: exactly when the name with its
terminator has at most 255 bytes.  Data for a client: exactly when they have at most 65535 bytes
and the name is that short, or the data agree with the bytes of the name that they overwrite. -/
theorem l0Envelope_roundTrip_iff (env : L0Env Ctx) (kl : KsnLNullClass Ctx) (buf : List UInt8)
    (name : CString) (kc : KsnCoreClass) (ks : KsnSplitClass) (cmd : UInt8) (data : List UInt8) :
    (∃ spacket e, (ksnLNullSendFromL0 env kl buf name).2 = [e] ∧
      (e = .toPeer (TeoCli.packetPeerName buf) spacket ∨
        e = .toThisHost (ksnCoreCreatePacket env.hostName cmdL0 spacket)) ∧
      (L0RoundTrip spacket (env.cli.packetHeader buf).cmd name
          ((env.cli.packetPayload buf).take (env.cli.packetHeader buf).dataLength.toNat) ↔
        name.length + 1 ≤ 255)) ∧
    ((ksnLNullSendToL0 kc ks name cmd data).2.isSome →
      (L0ToRoundTrip (ksnLNullSendToL0 kc ks name cmd data).1 cmd name data ↔
        data.length ≤ 65535 ∧ (name.length + 1 ≤ 255 ∨ OverwritesAlike name data))) := by
  constructor
  · have hlen : ((env.cli.packetPayload buf).take
        (env.cli.packetHeader buf).dataLength.toNat).length ≤ 65535 := by
      have hlt := (env.cli.packetHeader buf).dataLength.toNat_lt
      rw [List.length_take]
      omega
    refine ⟨_, _, rfl, ?_, l0RoundTrip_iff _ name hlen⟩
    split_ifs
    · exact Or.inl rfl
    · exact Or.inr rfl
  · intro _
    exact l0ToRoundTrip_iff cmd name data

/-- A login with a user id of 251 letters. -/
def longLogin : List UInt8 :=
  [123, 34] ++ userIdKey ++ [34, 58, 34] ++ List.replicate 251 97 ++ [34, 44, 34] ++ signKey ++
    [34, 58, 34] ++ List.replicate 32 48 ++ [34, 44, 34] ++ timestampKey ++ [34, 58, 34, 49, 34,
    125, 0]

/-- The checks that accept it: its tokens, and a digest of zeros. -/
def longLoginEnv : L0AuthEnv where
  jsmnParse _ := some [⟨.object, 0, 322⟩, ⟨.string, 2, 8⟩, ⟨.string, 11, 262⟩, ⟨.string, 265, 269⟩,
    ⟨.string, 272, 304⟩, ⟨.string, 307, 316⟩, ⟨.string, 319, 320⟩]
  staleTok := ⟨.other, 0, 0⟩
  md5 _ := List.replicate 16 0
  authSecret := CString.ofBuf [115]

/-- A short answer to a client arrives as it was sent. -/
theorem l0Envelope_roundTrip_iff_echo :
    L0ToRoundTrip (ksnLNullSendToL0 ⟨CString.empty, false, id, some⟩ {} ⟨[97], by decide⟩ cmdEcho
        [1, 2]).1 cmdEcho ⟨[97], by decide⟩ [1, 2] ↔
      [1, 2].length ≤ 65535 ∧ (1 + 1 ≤ 255 ∨ OverwritesAlike ⟨[97], by decide⟩ [1, 2]) :=
  (l0Envelope_roundTrip_iff { longLoginEnv with
      cli := plainCli, hostName := CString.empty, maxFdNumber := 1024, staleByte := 0 }
    { fdTrudp := 1024 } [] ⟨[97], by decide⟩ ⟨CString.empty, false, id, some⟩ {} cmdEcho [1, 2]).2
    (by decide)

theorem loginName_longLogin :
    loginName longLoginEnv 0 longLogin = some (clientName (List.replicate 251 97)) := by
  decide +kernel

/-- The name of that client is 258 bytes long, and the length byte says 2. -/
theorem not_l0Envelope_roundTrip :
    ¬ ∀ (env : L0AuthEnv) (now : ℚ) (payload : List UInt8) (name : CString) (cmd : UInt8)
      (data : List UInt8), loginName env now payload = some name → data.length ≤ 65535 →
      L0RoundTrip (l0SPacket cmd name data) cmd name data := by
  intro h
  have htrip := h longLoginEnv 0 longLogin _ cmdEcho [] loginName_longLogin (by decide)
  exact absurd ((l0RoundTrip_iff _ _ (by decide)).mp htrip) (by decide +kernel)

end Teonet
