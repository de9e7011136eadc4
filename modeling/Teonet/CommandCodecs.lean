import Teonet.CommandData
import Teonet.Peers

/-! # The data of CMD_CONNECT and CMD_RESEND

`commands_creator.c` writes the data of the two commands into a block of memory that it has
allocated, at offsets that it adds up, and `cmd_connect_cb` and `cmd_resend_cb` take them apart
again.  Both ends are translated over the block: a write or a read outside of it is `none`.

`createCmdConnectPacketIn_eq` and `createCmdResendPacketIn_eq` say what lies in the block, and
`peerCommands_roundTrip` that the handlers read what was written, without the zero byte that
decryption leaves behind the data. -/

namespace Teonet

open Block Bytes

/-! ### Writing -/

/-- `createCmdConnectPacket`, into the block that `memset` has cleared. -/
def createCmdConnectPacketIn (name addr fullType : CString) (port : UInt32) :
    Option (List UInt8) := do
  let sizeOut := name.length + 1 + fullType.length + 1 + addr.length + 1 + 4
  let packet ← store (List.replicate sizeOut 0) 0 name.bytes
  let ptr := name.length + 1
  let packet ← store packet ptr addr.bytes
  let ptr := ptr + (addr.length + 1)
  let packet ← store packet ptr fullType.bytes
  let ptr := ptr + (fullType.length + 1)
  store packet ptr (le 4 port.toNat)

/-- `createCmdResendPacket`. -/
def createCmdResendPacketIn (toName : CString) (cmd : UInt8) (data : List UInt8) :
    Option (List UInt8) := do
  let toLen := toName.length + 1
  let sizeOut := toLen + 1 + data.length
  let packet ← store (List.replicate sizeOut 0) 0 toName.toBuf
  let packet ← store packet toLen [cmd]
  store packet (toLen + 1) data

/-- A text written without its terminator, where the block was cleared. -/
theorem store_text {a : List UInt8} {i k n : ℕ} (s : CString) (hi : a.length = i)
    (hk : k = s.length + 1 + n) :
    store (a ++ List.replicate k 0) i s.bytes = some (a ++ s.toBuf ++ List.replicate n 0) := by
  have hlen : s.bytes.length ≤ (List.replicate k (0 : UInt8)).length := by
    rw [List.length_replicate, hk, CString.length]
    omega
  have hrest : (List.replicate k (0 : UInt8)).drop s.bytes.length = 0 :: List.replicate n 0 := by
    rw [List.drop_replicate, ← List.replicate_succ, hk, CString.length]
    congr 1
    omega
  rw [store_append hi hlen, hrest, CString.toBuf]
  simp only [List.append_assoc, List.singleton_append]

/-- Bytes that fill the rest of the block. -/
theorem store_rest {a b : List UInt8} {i k : ℕ} (hi : a.length = i) (hk : k = b.length) :
    store (a ++ List.replicate k 0) i b = some (a ++ b) := by
  have hlen : b.length ≤ (List.replicate k (0 : UInt8)).length := by
    rw [List.length_replicate, hk]
  have hrest : (List.replicate k (0 : UInt8)).drop b.length = [] :=
    List.drop_eq_nil_of_le (by rw [List.length_replicate, hk])
  rw [store_append hi hlen, hrest, List.append_nil]

/-- **The data of `CMD_CONNECT`**: three strings and the port fill the block. -/
theorem createCmdConnectPacketIn_eq (name addr fullType : CString) (port : UInt32) :
    createCmdConnectPacketIn name addr fullType port =
      some (name.toBuf ++ addr.toBuf ++ fullType.toBuf ++ le 4 port.toNat) := by
  have hname := store_text (a := []) (i := 0)
    (k := name.length + 1 + fullType.length + 1 + addr.length + 1 + 4)
    (n := addr.length + 1 + (fullType.length + 1 + 4)) name rfl (by omega)
  have haddr := store_text (a := name.toBuf) (i := name.length + 1)
    (n := fullType.length + 1 + 4) addr (CString.toBuf_length name) rfl
  have htype := store_text (a := name.toBuf ++ addr.toBuf)
    (i := name.length + 1 + (addr.length + 1)) (n := 4) fullType (by simp) rfl
  have hport := store_rest (a := name.toBuf ++ addr.toBuf ++ fullType.toBuf)
    (b := le 4 port.toNat) (i := name.length + 1 + (addr.length + 1) + (fullType.length + 1))
    (by simp; omega) (le_length 4 port.toNat).symm
  simp only [List.nil_append] at hname
  simp only [createCmdConnectPacketIn, hname, haddr, htype, hport, Option.bind_eq_bind,
    Option.bind_some]

/-- It is the packet that the peers send. -/
theorem createCmdConnectPacketIn_peers (env : PeersEnv) (name addr : CString) (port : UInt32) :
    createCmdConnectPacketIn name addr env.fullType port =
      some (createCmdConnectPacket env name addr port.toNat) := by
  rw [createCmdConnectPacketIn_eq, createCmdConnectPacket]
  simp only [List.append_assoc]

/-- **The data of `CMD_RESEND`**: the name, the command and the data fill the block. -/
theorem createCmdResendPacketIn_eq (toName : CString) (cmd : UInt8) (data : List UInt8) :
    createCmdResendPacketIn toName cmd data = some (toName.toBuf ++ cmd :: data) := by
  have hlen : toName.toBuf.length ≤
      (List.replicate (toName.length + 1 + 1 + data.length) (0 : UInt8)).length := by
    rw [List.length_replicate, CString.toBuf_length]
    omega
  have hto : store (List.replicate (toName.length + 1 + 1 + data.length) 0) 0 toName.toBuf =
      some (toName.toBuf ++ List.replicate (1 + data.length) 0) := by
    rw [store_zero hlen, List.drop_replicate, CString.toBuf_length]
    congr 3
    omega
  have hcmd : store (toName.toBuf ++ List.replicate (1 + data.length) 0) (toName.length + 1)
      [cmd] = some (toName.toBuf ++ [cmd] ++ List.replicate data.length 0) := by
    rw [store_append (CString.toBuf_length toName) (by simp), List.drop_replicate,
      List.append_assoc]
    congr 4
    simp
  have hdata := store_rest (a := toName.toBuf ++ [cmd]) (b := data)
    (i := toName.length + 1 + 1) (by simp) rfl
  simp only [createCmdResendPacketIn, hto, hcmd, hdata, Option.bind_eq_bind, Option.bind_some]
  rw [List.append_assoc, List.singleton_append]

/-! ### Reading -/

/-- `cmd_connect_cb`, over the block at `rd->data`. -/
def cmdConnectIn (mem : List UInt8) : Option CommandData := do
  let name ← strAt mem 0
  let ptr := name.length + 1
  let addr ← strAt mem ptr
  let ptr := ptr + addr.length + 1
  let fullType ← strAt mem ptr
  let ptr := ptr + fullType.length + 1
  let port ← bytesAt mem ptr 4
  some (.connect name addr fullType (getLe 4 port))

/-- `cmd_resend_cb`, over the block at `rd->data`, of which `dataLen` bytes are data. -/
def cmdResendIn (mem : List UInt8) (dataLen : ℕ) : Option CommandData := do
  let toName ← strAt mem 0
  let ptr := toName.length + 1
  let cmd ← byteAt mem ptr
  let ptr := ptr + 1
  let restLen ← lengthFrom dataLen ptr
  let rest ← bytesAt mem ptr restLen
  some (.resend toName cmd rest)

/-- With the zero byte behind the data these are the handlers of a received packet. -/
theorem cmdConnectIn_dataBlock (data : List UInt8) :
    cmdConnectIn (dataBlock data) = cmdConnectData data := rfl

theorem cmdResendIn_dataBlock (data : List UInt8) :
    cmdResendIn (dataBlock data) data.length = cmdResendData data := rfl

theorem cmdConnectIn_eq (name addr fullType : CString) (port : UInt32) :
    cmdConnectIn (name.toBuf ++ addr.toBuf ++ fullType.toBuf ++ le 4 port.toNat) =
      some (.connect name addr fullType port.toNat) := by
  have hport : port.toNat < 256 ^ 4 := port.toNat_lt
  have hdrop1 : (name.toBuf ++ addr.toBuf ++ fullType.toBuf ++ le 4 port.toNat).drop
      (name.length + 1) = addr.toBuf ++ (fullType.toBuf ++ le 4 port.toNat) := by
    simp only [List.append_assoc]
    exact List.drop_left' (CString.toBuf_length name)
  have hdrop2 : (name.toBuf ++ addr.toBuf ++ fullType.toBuf ++ le 4 port.toNat).drop
      (name.length + 1 + addr.length + 1) = fullType.toBuf ++ le 4 port.toNat := by
    rw [Nat.add_assoc (name.length + 1), ← List.drop_drop, hdrop1,
      List.drop_left' (CString.toBuf_length addr)]
  have hdrop3 : (name.toBuf ++ addr.toBuf ++ fullType.toBuf ++ le 4 port.toNat).drop
      (name.length + 1 + addr.length + 1 + fullType.length + 1) = le 4 port.toNat := by
    rw [Nat.add_assoc (name.length + 1 + addr.length + 1), ← List.drop_drop, hdrop2,
      List.drop_left' (CString.toBuf_length fullType)]
  have hname : strAt (name.toBuf ++ addr.toBuf ++ fullType.toBuf ++ le 4 port.toNat) 0 =
      some name :=
    strAt_of_drop_eq (by rw [List.drop_zero, List.append_assoc, List.append_assoc])
  have hbytes : bytesAt (name.toBuf ++ addr.toBuf ++ fullType.toBuf ++ le 4 port.toNat)
      (name.length + 1 + addr.length + 1 + fullType.length + 1) 4 = some (le 4 port.toNat) := by
    rw [bytesAt_eq (by simp; omega), hdrop3, List.take_of_length_le (le_length 4 _).le]
  simp only [cmdConnectIn, hname, strAt_of_drop_eq hdrop1, strAt_of_drop_eq hdrop2, hbytes,
    Option.bind_eq_bind, Option.bind_some]
  rw [← List.append_nil (le 4 port.toNat), getLe_le_append, Nat.mod_eq_of_lt hport]

theorem cmdResendIn_eq (toName : CString) (cmd : UInt8) (data : List UInt8) :
    cmdResendIn (toName.toBuf ++ cmd :: data) (toName.toBuf ++ cmd :: data).length =
      some (.resend toName cmd data) := by
  have hlen : (toName.toBuf ++ cmd :: data).length = toName.length + 1 + 1 + data.length := by
    simp only [List.length_append, List.length_cons, CString.toBuf_length]
    omega
  have hto : strAt (toName.toBuf ++ cmd :: data) 0 = some toName :=
    strAt_of_drop_eq (List.drop_zero)
  have hcmd : byteAt (toName.toBuf ++ cmd :: data) (toName.length + 1) = some cmd := by
    rw [byteAt, List.getElem?_append_right (CString.toBuf_length toName).le,
      CString.toBuf_length, Nat.sub_self]
    rfl
  have hsub : lengthFrom (toName.length + 1 + 1 + data.length) (toName.length + 1 + 1) =
      some data.length := by
    rw [lengthFrom, if_pos (Nat.le_add_right _ _), Nat.add_sub_cancel_left]
  have hdrop : (toName.toBuf ++ cmd :: data).drop (toName.length + 1 + 1) = data := by
    rw [← List.drop_drop, List.drop_left' (CString.toBuf_length toName)]
    rfl
  have hrest : bytesAt (toName.toBuf ++ cmd :: data) (toName.length + 1 + 1) data.length =
      some data := by
    rw [bytesAt_eq hlen.ge, hdrop, List.take_length]
  simp only [cmdResendIn, hto, hcmd, hlen, hsub, hrest, Option.bind_eq_bind, Option.bind_some]

/-! ### The round trips -/

/-- **The handlers read what was written**: `cmd_connect_cb` the name, the address, the type and
the port, `cmd_resend_cb` the name, the command and the data with their length.  The creators write
and the handlers read only inside the packet. -/
theorem peerCommands_roundTrip :
    (∀ (name addr fullType : CString) (port : UInt32), ∃ packet,
      createCmdConnectPacketIn name addr fullType port = some packet ∧
        cmdConnectIn packet = some (.connect name addr fullType port.toNat)) ∧
    ∀ (toName : CString) (cmd : UInt8) (data : List UInt8), ∃ packet,
      createCmdResendPacketIn toName cmd data = some packet ∧
        cmdResendIn packet packet.length = some (.resend toName cmd data) :=
  ⟨fun name addr fullType port =>
      ⟨_, createCmdConnectPacketIn_eq name addr fullType port,
        cmdConnectIn_eq name addr fullType port⟩,
    fun toName cmd data =>
      ⟨_, createCmdResendPacketIn_eq toName cmd data, cmdResendIn_eq toName cmd data⟩⟩

end Teonet
