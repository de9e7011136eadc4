import Teonet.Lib.CString
import Teonet.Packet

/-! # L0 packets

An L0 client talks to its server in packets `[header][peer name …][data …]` with a header of eight
bytes.  The layout of the header, the checksum and the session encryption belong to the L0 client
library, which the server is linked with; they are the fields of `TeoCli`.  This file has what
the server itself does with a packet: it cuts packets by the lengths in the header, compares the
checksums, and sends a packet over TR-UDP in chunks of at most 512 bytes. -/

namespace Teonet

/-- The fields of `teoLNullCPacket`. -/
structure L0Header where
  cmd : UInt8
  peerNameLength : UInt8
  dataLength : UInt16
  checksum : UInt8
  headerChecksum : UInt8
deriving DecidableEq

/-- `sizeof(teoLNullCPacket)`. -/
def l0HeaderSize : ℕ := 8

/-- The L0 client library.  `Ctx` is `teoLNullEncryptionContext`; a function that writes into the
context or into the packet returns what it leaves there. -/
structure TeoCli (Ctx : Type) where
  /-- the fields in the eight bytes of a header -/
  header : List UInt8 → L0Header
  /-- `get_byte_checksum` -/
  byteChecksum : List UInt8 → UInt8
  /-- `teoLNullPacketCreate` from a command, a peer name and data -/
  packetCreate : UInt8 → CString → List UInt8 → List UInt8
  /-- `teoLNullPacketSeal`: the packet, and the context after it -/
  packetSeal : Option Ctx → Bool → List UInt8 → List UInt8
  sealContext : Ctx → List UInt8 → Ctx
  /-- `teoLNullPacketDecrypt`: the packet when it succeeds, and the context after it -/
  packetDecrypt : Option Ctx → List UInt8 → Option (List UInt8)
  decryptContext : Ctx → List UInt8 → Ctx
  /-- `teoLNullKEXGetFromPayload`: the protocol of a key exchange payload -/
  kexGetFromPayload : List UInt8 → Option ℕ
  /-- `teoLNullEncryptionContextSize` and `teoLNullEncryptionContextCreate` -/
  contextCreate : ℕ → Option Ctx
  /-- `teoLNullKEXValidate` -/
  kexValidate : Ctx → List UInt8 → Bool
  /-- `teoLNullEncryptionContextApplyKEX` -/
  applyKex : Ctx → List UInt8 → Ctx × Bool
  /-- `teoLNullKEXCreate` -/
  kexCreate : Ctx → Option (List UInt8)
  /-- `state`: established, or pending -/
  setEstablished : Bool → Ctx → Ctx

namespace TeoCli

variable {Ctx : Type} (cli : TeoCli Ctx)

/-! ### Reading a packet -/

/-- The header at the start of a buffer. -/
def packetHeader (buf : List UInt8) : L0Header := cli.header (buf.take l0HeaderSize)

/-- The length of the packet at the start of a buffer. -/
def packetLength (buf : List UInt8) : ℕ :=
  l0HeaderSize + (cli.packetHeader buf).peerNameLength.toNat + (cli.packetHeader buf).dataLength.toNat

/-- What `checksum` is about: the bytes of the peer name and of the data. -/
def packetBody (buf : List UInt8) : List UInt8 :=
  (buf.drop l0HeaderSize).take
    ((cli.packetHeader buf).peerNameLength.toNat + (cli.packetHeader buf).dataLength.toNat)

/-- The bytes from `teoLNullPacketGetPayload` on. -/
def packetPayload (buf : List UInt8) : List UInt8 :=
  buf.drop (l0HeaderSize + (cli.packetHeader buf).peerNameLength.toNat)

/-- Both checksums of the packet at the start of a buffer match. -/
def checksumsMatch (buf : List UInt8) : Bool :=
  (cli.packetHeader buf).headerChecksum = cli.byteChecksum (buf.take (l0HeaderSize - 1)) ∧
    (cli.packetHeader buf).checksum = cli.byteChecksum (cli.packetBody buf)

/-- A whole packet with the right checksums, and nothing else. -/
structure WellFormed (packet : List UInt8) : Prop where
  length : cli.packetLength packet = packet.length
  checksums : cli.checksumsMatch packet = true

/-- The peer name that a packet is for. -/
def packetPeerName (buf : List UInt8) : CString := CString.ofBuf (buf.drop l0HeaderSize)

theorem l0HeaderSize_le_packetLength (buf : List UInt8) : l0HeaderSize ≤ cli.packetLength buf := by
  unfold packetLength
  omega

/-- What stands behind the bytes of a header does not change it, … -/
theorem packetHeader_append {packet : List UInt8} (h : l0HeaderSize ≤ packet.length)
    (rest : List UInt8) : cli.packetHeader (packet ++ rest) = cli.packetHeader packet := by
  unfold packetHeader
  rw [List.take_append_of_le_length h]

/-- … nor its length. -/
theorem packetLength_append {packet : List UInt8} (h : l0HeaderSize ≤ packet.length)
    (rest : List UInt8) : cli.packetLength (packet ++ rest) = cli.packetLength packet := by
  unfold packetLength
  rw [packetHeader_append cli h]

theorem packetLength_take {buf : List UInt8} {n : ℕ} (h : l0HeaderSize ≤ n) :
    cli.packetLength (buf.take n) = cli.packetLength buf := by
  unfold packetLength packetHeader
  rw [List.take_take, Nat.min_eq_left h]

end TeoCli

/-! ### Chunks -/

/-- The largest chunk that `ksnLNullPacketSend` sends over TR-UDP. -/
def l0ChunkSize : ℕ := 512

/-- The loop of `ksnLNullPacketSend` over a packet: chunks of 512 bytes, and a shorter last one. -/
def packetChunks (pkg : List UInt8) : List (List UInt8) :=
  if pkg.length ≤ l0ChunkSize then [pkg]
  else pkg.take l0ChunkSize :: packetChunks (pkg.drop l0ChunkSize)
termination_by pkg.length
decreasing_by
  rw [List.length_drop]
  unfold l0ChunkSize at *
  omega

theorem packetChunks_of_le {pkg : List UInt8} (h : pkg.length ≤ l0ChunkSize) :
    packetChunks pkg = [pkg] := by
  rw [packetChunks, if_pos h]

theorem packetChunks_of_lt {pkg : List UInt8} (h : l0ChunkSize < pkg.length) :
    packetChunks pkg = pkg.take l0ChunkSize :: packetChunks (pkg.drop l0ChunkSize) := by
  rw [packetChunks, if_neg (not_le.mpr h)]

/-- The chunks give back the packet. -/
theorem flatten_packetChunks (pkg : List UInt8) : (packetChunks pkg).flatten = pkg := by
  induction pkg using packetChunks.induct with
  | case1 pkg h => rw [packetChunks_of_le h, List.flatten_singleton]
  | case2 pkg h ih =>
    rw [packetChunks_of_lt (not_le.mp h), List.flatten_cons, ih, List.take_append_drop]

/-- No chunk is longer than 512 bytes, and only the chunk of an empty packet is empty. -/
theorem length_of_mem_packetChunks (pkg : List UInt8) (h : pkg ≠ []) :
    ∀ c ∈ packetChunks pkg, c ≠ [] ∧ c.length ≤ l0ChunkSize := by
  induction pkg using packetChunks.induct with
  | case1 pkg hle =>
    intro c hc
    rw [packetChunks_of_le hle, List.mem_singleton] at hc
    rw [hc]
    exact ⟨h, hle⟩
  | case2 pkg hle ih =>
    intro c hc
    have hlt := not_le.mp hle
    rw [packetChunks_of_lt hlt, List.mem_cons] at hc
    rcases hc with rfl | hc
    · refine ⟨fun hnil => ?_, List.length_take_le _ _⟩
      rw [List.take_eq_nil_iff] at hnil
      rcases hnil with h0 | hnil
      · exact absurd h0 (by decide)
      · exact h hnil
    · apply ih _ c hc
      intro hnil
      rw [List.drop_eq_nil_iff] at hnil
      omega

/-! ### A library without encryption -/

/-- The sum of the bytes. -/
def byteSum (l : List UInt8) : UInt8 := l.foldl (· + ·) 0

/-- A packet with its checksums; both are sums of bytes. -/
def plainPacket (cmd : UInt8) (peer : CString) (data : List UInt8) : List UInt8 :=
  let body := peer.toBuf ++ data
  let head := [cmd, UInt8.ofNat (peer.length + 1), UInt8.ofNat data.length,
    UInt8.ofNat (data.length / 256), 0, 0, byteSum body]
  head ++ byteSum head :: body

/-- A library that encrypts nothing and knows no key exchange. -/
def plainCli : TeoCli Unit where
  header h :=
    { cmd := h.getD 0 0
      peerNameLength := h.getD 1 0
      dataLength := (h.getD 2 0).toUInt16 + 256 * (h.getD 3 0).toUInt16
      checksum := h.getD 6 0
      headerChecksum := h.getD 7 0 }
  byteChecksum := byteSum
  packetCreate := plainPacket
  packetSeal _ _ pkg := pkg
  sealContext _ _ := ()
  packetDecrypt _ pkg := some pkg
  decryptContext _ _ := ()
  kexGetFromPayload _ := none
  contextCreate _ := none
  kexValidate _ _ := false
  applyKex _ _ := ((), false)
  kexCreate _ := none
  setEstablished _ _ := ()

end Teonet
