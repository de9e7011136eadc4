import Mathlib.Tactic.Common
import Teonet.Lib.CString

/-! # The core packet

A packet of the mesh is `[from_len][from …][cmd][data …]`, where `from_len` counts the
terminator of `from`.  This file translates `ksnCoreCreatePacketFrom` and `ksnCoreParsePacket`
of `net_core.c` and the received data structure of `net_com.h`.

The two functions are inverse to each other on the packets that have the form of `Frame`:
`ksnCoreParsePacket_eq_true_iff` says that the parser accepts exactly those, and
`ksnCoreParsePacket_frame` what it reads from one. -/

namespace Teonet

/-- The bytes of a text. -/
def ascii (s : String) : List UInt8 := s.toList.map fun c => UInt8.ofNat c.toNat

/-! ### Commands -/

def cmdNone : UInt8 := 0
def cmdConnectR : UInt8 := 4
def cmdConnect : UInt8 := 5
def cmdDisconnected : UInt8 := 6
def cmdVpn : UInt8 := 7
def cmdReset : UInt8 := 8
def cmdEcho : UInt8 := 65
def cmdEchoAnswer : UInt8 := 66
def cmdTun : UInt8 := 67
def cmdSplit : UInt8 := 68
def cmdL0 : UInt8 := 70
def cmdL0To : UInt8 := 71
def cmdHostInfo : UInt8 := 90
def cmdHostInfoAnswer : UInt8 := 91

/-- `PACKET_HEADER_ADD_SIZE`: the length byte and the command byte. -/
def packetHeaderAddSize : ℕ := 2

/-! ### The received data structure -/

/-- `ksnCorePacketData`.  A pointer with its length is a list; `after` are the bytes that the
receive buffer holds behind `data`, which a reader of a C string in `data` can run into. -/
structure KsnCorePacketData where
  addr : CString
  port : ℕ
  fromName : CString := CString.empty
  fromLen : UInt8 := 0
  cmd : UInt8 := 0
  data : List UInt8 := []
  after : List UInt8 := []
  rawData : List UInt8 := []
  l0F : Bool := false
deriving DecidableEq

/-! ### Creating and parsing -/

/-- `ksnCoreCreatePacketFrom`: `fromBuf` are the `from_len` bytes at `from`. -/
def ksnCoreCreatePacketFrom (cmd : UInt8) (fromBuf data : List UInt8) : List UInt8 :=
  UInt8.ofNat fromBuf.length :: (fromBuf ++ cmd :: data)

/-- `kc->name_len`: a `uint8_t`, so a name of 255 characters and more is counted short. -/
def nameLen (name : CString) : UInt8 := UInt8.ofNat (name.length + 1)

/-- `ksnCoreCreatePacket`: a packet from this host. -/
def ksnCoreCreatePacket (name : CString) (cmd : UInt8) (data : List UInt8) : List UInt8 :=
  ksnCoreCreatePacketFrom cmd (name.toBuf.take (nameLen name).toNat) data

/-- `ksnCoreParsePacket`: fills `rd` and says whether the packet is valid.  The fields read
before a failed test keep what was read. -/
def ksnCoreParsePacket (packet : List UInt8) (rd : KsnCorePacketData) :
    KsnCorePacketData × Bool :=
  let rd := { rd with rawData := packet, fromLen := packet.getD 0 0 }
  if rd.fromLen ≠ 0 ∧ rd.fromLen.toNat + packetHeaderAddSize ≤ packet.length ∧
      packet.getD rd.fromLen.toNat 0 = 0 then
    let rd := { rd with fromName := CString.ofBuf (packet.drop 1) }
    if rd.fromName.length + 1 = rd.fromLen.toNat then
      ({ rd with
          cmd := packet.getD (1 + rd.fromLen.toNat) 0
          data := packet.drop (2 + rd.fromLen.toNat) }, true)
    else (rd, false)
  else (rd, false)

@[simp] theorem ksnCoreCreatePacketFrom_length (cmd : UInt8) (fromBuf data : List UInt8) :
    (ksnCoreCreatePacketFrom cmd fromBuf data).length =
      fromBuf.length + data.length + packetHeaderAddSize := by
  simp only [ksnCoreCreatePacketFrom, packetHeaderAddSize, List.length_cons, List.length_append]
  omega

theorem nameLen_toNat {name : CString} (h : name.length ≤ 254) :
    (nameLen name).toNat = name.length + 1 := by
  rw [nameLen, UInt8.toNat_ofNat', Nat.mod_eq_of_lt (by omega)]

/-- A host with a name that fits sends its whole name. -/
theorem ksnCoreCreatePacket_eq {name : CString} (h : name.length ≤ 254) (cmd : UInt8)
    (data : List UInt8) :
    ksnCoreCreatePacket name cmd data = ksnCoreCreatePacketFrom cmd name.toBuf data := by
  rw [ksnCoreCreatePacket, nameLen_toNat h, List.take_of_length_le (by simp)]

/-! ### Well-formed packets -/

/-- `packet` is the packet with this sender, command and data. -/
def Frame (packet : List UInt8) (fromName : CString) (cmd : UInt8) (data : List UInt8) : Prop :=
  fromName.length ≤ 254 ∧ packet = ksnCoreCreatePacketFrom cmd fromName.toBuf data

instance (packet : List UInt8) (fromName : CString) (cmd : UInt8) (data : List UInt8) :
    Decidable (Frame packet fromName cmd data) :=
  inferInstanceAs (Decidable (_ ∧ _))

theorem frame_create {name : CString} (h : name.length ≤ 254) (cmd : UInt8)
    (data : List UInt8) : Frame (ksnCoreCreatePacket name cmd data) name cmd data :=
  ⟨h, ksnCoreCreatePacket_eq h cmd data⟩

/-- **The parser reads back what was packed**, and touches no other field. -/
theorem ksnCoreParsePacket_frame {packet : List UInt8} {fromName : CString} {cmd : UInt8}
    {data : List UInt8} (h : Frame packet fromName cmd data) (rd : KsnCorePacketData) :
    ksnCoreParsePacket packet rd =
      ({ rd with
          rawData := packet
          fromLen := nameLen fromName
          fromName := fromName
          cmd := cmd
          data := data }, true) := by
  obtain ⟨hlen, rfl⟩ := h
  have hto : (UInt8.ofNat (fromName.length + 1)).toNat = fromName.length + 1 :=
    nameLen_toNat hlen
  have hne : UInt8.ofNat (fromName.length + 1) ≠ 0 := by
    intro h0
    rw [h0] at hto
    simp at hto
  have hend : (ksnCoreCreatePacketFrom cmd fromName.toBuf data).getD (fromName.length + 1) 0 =
      0 := by
    simp [ksnCoreCreatePacketFrom, CString.toBuf, CString.length]
  have hcmd : (ksnCoreCreatePacketFrom cmd fromName.toBuf data).getD
      (1 + (fromName.length + 1)) 0 = cmd := by
    simp [ksnCoreCreatePacketFrom, CString.toBuf, CString.length, Nat.add_comm 1]
  have hdata : (ksnCoreCreatePacketFrom cmd fromName.toBuf data).drop
      (2 + (fromName.length + 1)) = data := by
    simp [ksnCoreCreatePacketFrom, CString.toBuf, CString.length, Nat.add_comm 2]
  have hfrom : CString.ofBuf ((ksnCoreCreatePacketFrom cmd fromName.toBuf data).drop 1) =
      fromName := by
    rw [ksnCoreCreatePacketFrom, List.drop_one, List.tail_cons]
    exact CString.ofBuf_toBuf_append fromName (cmd :: data)
  have hhead : (ksnCoreCreatePacketFrom cmd fromName.toBuf data).getD 0 0 =
      UInt8.ofNat (fromName.length + 1) := by
    simp [ksnCoreCreatePacketFrom]
  have hfit : fromName.length + 1 + packetHeaderAddSize ≤
      (ksnCoreCreatePacketFrom cmd fromName.toBuf data).length := by
    rw [ksnCoreCreatePacketFrom_length, CString.toBuf_length]
    omega
  unfold ksnCoreParsePacket
  simp only [hhead, hto, hfrom]
  rw [if_pos ⟨hne, hfit, hend⟩, if_pos trivial, hcmd, hdata]
  rfl

/-- What the three tests of the parser establish about the packet. -/
theorem frame_of_tests {len : UInt8} {rest : List UInt8}
    (hfit : len.toNat + packetHeaderAddSize ≤ (len :: rest).length)
    (hend : (len :: rest).getD len.toNat 0 = 0)
    (hname : (CString.ofBuf rest).length + 1 = len.toNat) :
    Frame (len :: rest) (CString.ofBuf rest) ((len :: rest).getD (1 + len.toNat) 0)
      ((len :: rest).drop (2 + len.toNat)) := by
  have hlt : len.toNat < 256 := len.toNat_lt
  simp only [packetHeaderAddSize, List.length_cons] at hfit
  refine ⟨by omega, ?_⟩
  rw [← hname] at hend hfit ⊢
  have hpre : (CString.ofBuf rest).bytes = rest.take (CString.ofBuf rest).length :=
    List.prefix_iff_eq_take.mp (List.takeWhile_prefix _)
  have hn : (CString.ofBuf rest).length + 1 < rest.length := by omega
  have hpos : (CString.ofBuf rest).length < rest.length := by omega
  have hzero : rest[(CString.ofBuf rest).length] = 0 := by
    rw [List.getD_cons_succ, ← List.getElem_eq_getD] at hend
    exact hend
  have hcmd : (len :: rest).getD (1 + ((CString.ofBuf rest).length + 1)) 0 =
      rest[(CString.ofBuf rest).length + 1] := by
    rw [Nat.add_comm 1, List.getD_cons_succ, ← List.getElem_eq_getD]
  have hdrop : (len :: rest).drop (2 + ((CString.ofBuf rest).length + 1)) =
      rest.drop ((CString.ofBuf rest).length + 1 + 1) := by
    rw [Nat.add_comm 2, List.drop_succ_cons]
  -- the packet is cut after the name, after its terminator and after the command
  have hrest : rest = (CString.ofBuf rest).toBuf ++ rest[(CString.ofBuf rest).length + 1] ::
      rest.drop ((CString.ofBuf rest).length + 1 + 1) := by
    rw [List.getElem_cons_drop, CString.toBuf, hpre, ← hzero, List.take_append_getElem,
      List.take_append_drop]
  rw [hcmd, hdrop, ksnCoreCreatePacketFrom, ← hrest, CString.toBuf_length, hname,
    UInt8.ofNat_toNat]

/-- **The parser accepts only well-formed packets**. -/
theorem frame_of_ksnCoreParsePacket {packet : List UInt8} {rd rd' : KsnCorePacketData}
    (h : ksnCoreParsePacket packet rd = (rd', true)) :
    Frame packet rd'.fromName rd'.cmd rd'.data := by
  unfold ksnCoreParsePacket at h
  dsimp only at h
  split_ifs at h with htests hname
  · obtain ⟨hne, hfit, hend⟩ := htests
    obtain ⟨rfl, -⟩ := Prod.mk.inj h
    cases packet with
    | nil => exact absurd rfl hne
    | cons len rest => exact frame_of_tests hfit hend hname
  · exact absurd (Prod.mk.inj h).2 (by simp)
  · exact absurd (Prod.mk.inj h).2 (by simp)

theorem ksnCoreParsePacket_eq_true_iff (packet : List UInt8) (rd : KsnCorePacketData) :
    (ksnCoreParsePacket packet rd).2 = true ↔
      ∃ fromName cmd data, Frame packet fromName cmd data := by
  constructor
  · intro h
    exact ⟨_, _, _, frame_of_ksnCoreParsePacket (Prod.ext rfl h)⟩
  · rintro ⟨fromName, cmd, data, hframe⟩
    rw [ksnCoreParsePacket_frame hframe]

end Teonet
