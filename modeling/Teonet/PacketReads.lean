import Teonet.Lib.Block
import Teonet.Packet

/-! # The reads of the packet parser

`ksnCoreParsePacket` takes a pointer and a length and trusts neither the length byte nor the name.
Here it is translated once more over the block of memory that the packet occupies, with every read
checked against the block: `ksnCoreParsePacketIn` returns `none` as soon as a byte outside the
packet is read.

`ksnCoreParsePacketIn_eq` says that the parser of a packet that is not empty stays inside it and
is the `ksnCoreParsePacket` of `Packet.lean`; with the round trip of that file it gives
`ksnCoreParsePacket_format`.  On the empty packet the length byte is read outside
(`not_ksnCoreParsePacketIn_inside`); `ksnCoreProcessPacket` does not parse one. -/

namespace Teonet

open Block

/-- `ksnCoreParsePacket` over the block that `packet` points to. -/
def ksnCoreParsePacketIn (packet : List UInt8) (rd : KsnCorePacketData) :
    Option (KsnCorePacketData × Bool) := do
  let fromLen ← byteAt packet 0
  let rd := { rd with rawData := packet, fromLen := fromLen }
  if rd.fromLen ≠ 0 ∧ rd.fromLen.toNat + packetHeaderAddSize ≤ packet.length then
    -- ptr is 1 here
    let last ← byteAt packet (1 + rd.fromLen.toNat - 1)
    if last = 0 then
      let fromName ← strAt packet 1
      let rd := { rd with fromName := fromName }
      if rd.fromName.length + 1 = rd.fromLen.toNat then
        let cmd ← byteAt packet (1 + rd.fromLen.toNat)
        some ({ rd with cmd := cmd, data := packet.drop (2 + rd.fromLen.toNat) }, true)
      else some (rd, false)
    else some (rd, false)
  else some (rd, false)

/-- **The parser stays inside a packet that is not empty**, and computes what
`ksnCoreParsePacket` says. -/
theorem ksnCoreParsePacketIn_eq {packet : List UInt8} (hne : packet ≠ [])
    (rd : KsnCorePacketData) :
    ksnCoreParsePacketIn packet rd = some (ksnCoreParsePacket packet rd) := by
  have hpos : 0 < packet.length := List.length_pos_iff.mpr hne
  unfold ksnCoreParsePacketIn ksnCoreParsePacket
  simp only [byteAt_eq hpos, Option.bind_eq_bind, Option.bind_some, Nat.add_sub_cancel_left]
  by_cases hfit : packet.getD 0 0 ≠ 0 ∧
      (packet.getD 0 0).toNat + packetHeaderAddSize ≤ packet.length
  · have hlast : (packet.getD 0 0).toNat < packet.length := by
      have := hfit.2
      simp only [packetHeaderAddSize] at this
      omega
    have hcmd : 1 + (packet.getD 0 0).toNat < packet.length := by
      have := hfit.2
      simp only [packetHeaderAddSize] at this
      omega
    have hone : 1 ≤ (packet.getD 0 0).toNat := by
      have hne0 : (packet.getD 0 0).toNat ≠ 0 := fun h => hfit.1 (UInt8.toNat_inj.mp h)
      omega
    rw [if_pos hfit, byteAt_eq hlast, Option.bind_some]
    by_cases hend : packet.getD (packet.getD 0 0).toNat 0 = 0
    · -- the terminator that was just tested stops `strlen`
      have hstr := strAt_eq (mem_drop_of_getD hone hlast hend)
      rw [if_pos hend, if_pos ⟨hfit.1, hfit.2, hend⟩, hstr, Option.bind_some, byteAt_eq hcmd,
        Option.bind_some]
      split_ifs <;> rfl
    · rw [if_neg hend, if_neg (fun h => hend h.2.2)]
  · rw [if_neg hfit, if_neg (fun h => hfit ⟨h.1, h.2.1⟩)]

/-- **The packet format**: what is packed is read back, what is accepted was packed from what was
read, and the parser of a packet that is not empty stays inside it. -/
theorem ksnCoreParsePacket_format :
    (∀ (name : CString) (cmd : UInt8) (data : List UInt8) (rd : KsnCorePacketData),
      name.length + 1 ≤ 255 →
      ∃ rd', ksnCoreParsePacketIn (ksnCoreCreatePacketFrom cmd name.toBuf data) rd =
          some (rd', true) ∧
        rd'.fromName = name ∧ rd'.fromLen.toNat = name.length + 1 ∧ rd'.cmd = cmd ∧
        rd'.data = data ∧ rd'.data.length = data.length) ∧
    (∀ packet rd rd', ksnCoreParsePacketIn packet rd = some (rd', true) →
      packet = ksnCoreCreatePacketFrom rd'.cmd rd'.fromName.toBuf rd'.data) ∧
    (∀ packet rd, 1 ≤ packet.length →
      ∃ result, ksnCoreParsePacketIn packet rd = some result) := by
  have hinside : ∀ packet rd, 1 ≤ packet.length →
      ksnCoreParsePacketIn packet rd = some (ksnCoreParsePacket packet rd) := by
    intro packet rd hlen
    exact ksnCoreParsePacketIn_eq (List.length_pos_iff.mp hlen) rd
  refine ⟨?_, ?_, fun packet rd hlen => ⟨_, hinside packet rd hlen⟩⟩
  · intro name cmd data rd hname
    have hname' : name.length ≤ 254 := by omega
    have hframe : Frame (ksnCoreCreatePacketFrom cmd name.toBuf data) name cmd data := ⟨hname', rfl⟩
    have hparse := ksnCoreParsePacket_frame hframe rd
    refine ⟨_, (hinside _ rd ?_).trans (congrArg some hparse), rfl, nameLen_toNat hname', rfl,
      rfl, rfl⟩
    rw [ksnCoreCreatePacketFrom_length, packetHeaderAddSize]
    omega
  · intro packet rd rd' hparse
    cases packet with
    | nil => cases hparse
    | cons b l =>
      rw [hinside _ rd (by simp)] at hparse
      exact (frame_of_ksnCoreParsePacket (Option.some.inj hparse)).2

/-- An echo request of host `a` is read back. -/
theorem ksnCoreParsePacket_format_echo :
    ∃ rd', ksnCoreParsePacketIn (ksnCoreCreatePacketFrom cmdEcho [97, 0] [1, 2, 3])
        { addr := CString.empty, port := 9000 } = some (rd', true) ∧
      rd'.fromName = ⟨[97], by decide⟩ ∧ rd'.fromLen.toNat = 1 + 1 ∧ rd'.cmd = cmdEcho ∧
      rd'.data = [1, 2, 3] ∧ rd'.data.length = [1, 2, 3].length :=
  ksnCoreParsePacket_format.1 ⟨[97], by decide⟩ cmdEcho [1, 2, 3] _ (by decide)

/-- The length byte of the empty packet lies behind it. -/
theorem not_ksnCoreParsePacketIn_inside :
    ¬ ∀ packet rd, ∃ result, ksnCoreParsePacketIn packet rd = some result := by
  intro h
  obtain ⟨result, hresult⟩ := h [] { addr := CString.empty, port := 9000 }
  cases hresult

end Teonet
