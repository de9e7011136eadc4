import Teonet.L0Names

/-! # Receiving L0 packets over TR-UDP

An L0 packet arrives on a TR-UDP channel in chunks of at most 512 bytes.
`ksnLNulltrudpCheckPaket` tries each chunk as a packet of its own, and collects the chunks that
are none in a buffer of the channel (`packetCombineClient`) until they make up a packet.

A chunk in the middle of a large packet can happen to be a packet, and is then taken for one.
`processed_eq_packets_iff` says exactly when the packets of a channel come to `processPacket` one
after the other and nothing else does.  That the condition is enough is an induction over the
chunks of a packet; that it is necessary is a count of bytes: a byte that is dropped is missing in
the end (`processedPackets_length_le`). -/

namespace Teonet

open Runs

variable {Ctx : Type}

/-! ### The buffer of a channel -/

/-- What the server keeps in `trudpChannelData`: the number of the connection, the first
`read_buffer_ptr` bytes of the buffer, `last_packet_ptr`, and the size of the buffer. -/
structure TrudpChannel where
  fd : ℤ := 0
  readBuffer : List UInt8 := []
  lastPacketPtr : ℕ := 0
  readBufferSize : ℕ := 0

/-- `BUFFER_SIZE_CLIENT`. -/
def bufferSizeClient : ℕ := 4096

namespace TrudpChannel

/-- The bytes behind the last packet. -/
def pending (tcd : TrudpChannel) : List UInt8 := tcd.readBuffer.drop tcd.lastPacketPtr

/-- The last packet is removed from the buffer. -/
def compact (tcd : TrudpChannel) : TrudpChannel :=
  { tcd with readBuffer := tcd.pending, lastPacketPtr := 0 }

/-- Room for the received bytes. -/
def reserve (tcd : TrudpChannel) (received : ℕ) : TrudpChannel :=
  if received > tcd.readBufferSize - tcd.readBuffer.length then
    { tcd with readBufferSize := tcd.readBufferSize + bufferSizeClient }
  else tcd

@[simp] theorem reserve_readBuffer (tcd : TrudpChannel) (n : ℕ) :
    (tcd.reserve n).readBuffer = tcd.readBuffer := by
  unfold reserve
  split
  · rfl
  · rfl

@[simp] theorem reserve_lastPacketPtr (tcd : TrudpChannel) (n : ℕ) :
    (tcd.reserve n).lastPacketPtr = tcd.lastPacketPtr := by
  unfold reserve
  split
  · rfl
  · rfl

end TrudpChannel

namespace TeoCli

variable (cli : TeoCli Ctx)

/-- `teoLNullPacketGetFromBuffer` finds a packet in the buffer. -/
def packetGetFromBuffer (buf : List UInt8) : Bool :=
  cli.packetLength buf ≤ buf.length ∧ cli.checksumsMatch buf

/-- The test of the header of a chunk that opens the buffer. -/
def headerMatches (buf : List UInt8) : Bool :=
  (cli.packetHeader buf).headerChecksum = cli.byteChecksum (buf.take (l0HeaderSize - 1))

end TeoCli

/-- `packetCombineClient`, for the received bytes `data`; `after` are the bytes in memory behind
them.  The result is the length of the packet at the start of the buffer, or negative. -/
def packetCombineClient (cli : TeoCli Ctx) (tcd : TrudpChannel) (data after : List UInt8) :
    TrudpChannel × ℤ :=
  let tcd := tcd.compact.reserve data.length
  if data.length > 0 ∧ tcd.readBuffer.length = 0 ∧ cli.headerMatches (data ++ after) = false then
    (tcd, -3)
  else
    let tcd := { tcd with readBuffer := tcd.readBuffer ++ data }
    let len := cli.packetLength tcd.readBuffer
    if tcd.readBuffer.length - tcd.lastPacketPtr > l0HeaderSize ∧
        tcd.readBuffer.length - tcd.lastPacketPtr ≥ len then
      if cli.checksumsMatch tcd.readBuffer then
        ({ tcd with lastPacketPtr := tcd.lastPacketPtr + len }, len)
      else ({ tcd with readBuffer := [], lastPacketPtr := 0 }, -2)
    else (tcd, -1)

/-- `recvCheck`. -/
def recvCheck (cli : TeoCli Ctx) (tcd : TrudpChannel) (data after : List UInt8) :
    TrudpChannel × ℤ :=
  packetCombineClient cli tcd data after

/-- The bytes in the buffer do not reach behind its end. -/
def TrudpChannel.Fits (tcd : TrudpChannel) : Prop := tcd.readBuffer.length ≤ tcd.readBufferSize

/-- **The buffer is not overrun** by datagrams of at most `BUFFER_SIZE_CLIENT` bytes. -/
theorem packetCombineClient_fits (cli : TeoCli Ctx) {tcd : TrudpChannel} {data : List UInt8}
    (after : List UInt8) (h : tcd.Fits) (hdata : data.length ≤ bufferSizeClient) :
    (packetCombineClient cli tcd data after).1.Fits := by
  have hroom : (tcd.compact.reserve data.length).readBuffer.length + data.length ≤
      (tcd.compact.reserve data.length).readBufferSize := by
    have hcompact : tcd.compact.readBuffer.length ≤ tcd.compact.readBufferSize := by
      unfold TrudpChannel.Fits at h
      have hpending : tcd.compact.readBuffer.length =
          tcd.readBuffer.length - tcd.lastPacketPtr := List.length_drop
      have hsize : tcd.compact.readBufferSize = tcd.readBufferSize := rfl
      omega
    unfold TrudpChannel.reserve
    split
    · dsimp only
      omega
    · omega
  unfold packetCombineClient TrudpChannel.Fits
  dsimp only
  split
  · dsimp only
    omega
  · split
    · split
      · rw [List.length_append]
        exact hroom
      · exact Nat.zero_le _
    · rw [List.length_append]
      exact hroom

/-! ### Receiving a chunk -/

/-- What `ksnLNulltrudpCheckPaket` leaves and does; `processed` is the packet that it calls
`processPacket` for. -/
structure TrudpChecked (Ctx : Type) where
  kl : KsnLNullClass Ctx
  tcd : TrudpChannel
  calls : List L0Effect := []
  processed : Option (List UInt8) := none
  result : Bool := true

/-- The number of the channel's connection; a channel without one gets the next. -/
def channelFd (env : L0Env Ctx) (kl : KsnLNullClass Ctx) (tcd : TrudpChannel) :
    ℤ × KsnLNullClass Ctx :=
  if tcd.fd = 0 then ksnLNullGetNextFakeFd env kl else (tcd.fd, kl)

/-- A small packet of this connection comes to `processPacket`. -/
def admitted (kl : KsnLNullClass Ctx) (fd : ℤ) (rd : KsnCorePacketData) : Bool :=
  (kl.map.get fd).isSome ∨ rd.cmd = 0

/-- `ksnLNulltrudpCheckPaket`, for a datagram on the channel `tcd`. -/
def ksnLNulltrudpCheckPaket (env : L0Env Ctx) (now : ℚ) (subscribed : Bool)
    (kl : KsnLNullClass Ctx) (tcd : TrudpChannel) (rd : KsnCorePacketData) : TrudpChecked Ctx :=
  let fd := (channelFd env kl tcd).1
  let kl := (channelFd env kl tcd).2
  let tcd := { tcd with fd := fd }
  if env.cli.packetGetFromBuffer rd.data then
    let done := trudpDeliver env now subscribed kl fd rd true (rd.data ++ rd.after)
    { kl := done.1
      tcd := tcd
      calls := done.2.1
      processed :=
        if admitted kl fd rd then some (rd.data.take (env.cli.packetLength rd.data)) else none
      result := done.2.2 }
  else
    let rc := recvCheck env.cli tcd rd.data rd.after
    if rc.2 ≤ 0 then { kl := kl, tcd := rc.1 }
    else
      let done := trudpDeliver env now subscribed kl fd rd false rc.1.readBuffer
      { kl := done.1
        tcd := rc.1
        calls := done.2.1
        processed := some (rc.1.readBuffer.take rc.2.toNat)
        result := done.2.2 }

/-- A packet that is admitted is given to `processPacket`, … -/
theorem trudpDeliver_of_admitted (env : L0Env Ctx) (now : ℚ) (subscribed : Bool)
    (kl : KsnLNullClass Ctx) (fd : ℤ) (rd : KsnCorePacketData) (small : Bool)
    (buf : List UInt8) (h : small = true → admitted kl fd rd = true) :
    ∃ kl' kld, kl'.map.get fd = some kld ∧
      trudpDeliver env now subscribed kl fd rd small buf =
        processPacket env now subscribed kl' fd kld buf := by
  unfold trudpDeliver
  cases hget : kl.map.get fd with
  | some kld => exact ⟨kl, kld, hget, rfl⟩
  | none =>
    have hnot : ¬ (small = true ∧ rd.cmd ≠ 0) := by
      rintro ⟨hsmall, hcmd⟩
      have hadmitted := h hsmall
      unfold admitted at hadmitted
      rw [hget] at hadmitted
      simp [hcmd] at hadmitted
    have hnew : (ksnLNullClientRegister now kl fd (some rd.addr) rd.port).map.get fd =
        some { tAddr := some rd.addr, tPort := rd.port, lastTime := now } := by
      show (kl.map.add fd _).get fd = _
      rw [FinMap.get_add, if_pos rfl]
    refine ⟨_, _, hnew, ?_⟩
    dsimp only
    rw [if_neg hnot, hnew]

/-- … and for one that is not admitted nothing happens. -/
theorem trudpDeliver_of_not_admitted (env : L0Env Ctx) (now : ℚ) (subscribed : Bool)
    (kl : KsnLNullClass Ctx) (fd : ℤ) (rd : KsnCorePacketData) (buf : List UInt8)
    (h : admitted kl fd rd = false) :
    trudpDeliver env now subscribed kl fd rd true buf = (kl, [], false) := by
  unfold admitted at h
  have hboth := of_decide_eq_false h
  push Not at hboth
  obtain ⟨habsent, hcmd⟩ := hboth
  have hget : kl.map.get fd = none := by
    cases hget : kl.map.get fd with
    | none => rfl
    | some kld =>
      rw [hget] at habsent
      exact absurd rfl habsent
  unfold trudpDeliver
  rw [hget]
  dsimp only
  rw [if_pos ⟨rfl, hcmd⟩]
  unfold ksnLNullClientDisconnect
  rw [hget]

/-! ### Deliveries -/

/-- The class of the server and one channel. -/
structure TrudpSide (Ctx : Type) where
  kl : KsnLNullClass Ctx
  tcd : TrudpChannel

/-- A datagram arrives on the channel; `meanwhile` is what the other callbacks of the server have
done to the class since the last one. -/
structure L0Arrival (Ctx : Type) where
  meanwhile : KsnLNullClass Ctx → KsnLNullClass Ctx
  now : ℚ
  subscribed : Bool
  rd : KsnCorePacketData

/-- `ksnLNulltrudpCheckPaket` for an arrival. -/
def checkArrival (env : L0Env Ctx) (s : TrudpSide Ctx) (a : L0Arrival Ctx) : TrudpChecked Ctx :=
  ksnLNulltrudpCheckPaket env a.now a.subscribed (a.meanwhile s.kl) s.tcd a.rd

/-- The state behind an arrival. -/
def afterArrival (env : L0Env Ctx) (s : TrudpSide Ctx) (a : L0Arrival Ctx) : TrudpSide Ctx :=
  ⟨(checkArrival env s a).kl, (checkArrival env s a).tcd⟩

/-- The state behind a list of arrivals. -/
def afterArrivals (env : L0Env Ctx) (s : TrudpSide Ctx) (as : List (L0Arrival Ctx)) :
    TrudpSide Ctx :=
  as.foldl (afterArrival env) s

/-- The packets that `processPacket` is called for. -/
def processedPackets (env : L0Env Ctx) :
    TrudpSide Ctx → List (L0Arrival Ctx) → List (List UInt8)
  | _, [] => []
  | s, a :: as =>
    (checkArrival env s a).processed.toList ++ processedPackets env (afterArrival env s a) as

/-- The bytes of the arrivals. -/
def arrivedBytes (as : List (L0Arrival Ctx)) : List UInt8 := as.flatMap (·.rd.data)

/-- A packet, and the arrivals of the chunks that `ksnLNullPacketSend` cuts it into. -/
structure L0Delivery (cli : TeoCli Ctx) where
  packet : List UInt8
  arrivals : List (L0Arrival Ctx)
  wellFormed : cli.WellFormed packet
  chunks : arrivals.map (·.rd.data) = packetChunks packet

/-- The arrival is a packet by itself, and it is not admitted. -/
def Refused (env : L0Env Ctx) (s : TrudpSide Ctx) (a : L0Arrival Ctx) : Prop :=
  env.cli.packetGetFromBuffer a.rd.data = true ∧
    admitted (channelFd env (a.meanwhile s.kl) s.tcd).2 (channelFd env (a.meanwhile s.kl) s.tcd).1
      a.rd = false

/-- No chunk of a packet but the first is a packet by itself. -/
def ChunksClear (cli : TeoCli Ctx) (packet : List UInt8) : Prop :=
  ∀ c ∈ (packetChunks packet).tail, cli.packetGetFromBuffer c = false

/-- No packet has a later chunk that is a packet by itself, and no packet that comes in one chunk
is refused. -/
def Clear (env : L0Env Ctx) : TrudpSide Ctx → List (L0Delivery env.cli) → Prop
  | _, [] => True
  | s, d :: ds =>
    ChunksClear env.cli d.packet ∧ (∀ a, d.arrivals = [a] → ¬ Refused env s a) ∧
      Clear env (afterArrivals env s d.arrivals) ds

theorem processedPackets_append (env : L0Env Ctx) (s : TrudpSide Ctx)
    (as bs : List (L0Arrival Ctx)) :
    processedPackets env s (as ++ bs) =
      processedPackets env s as ++ processedPackets env (afterArrivals env s as) bs := by
  induction as generalizing s with
  | nil => rfl
  | cons a as ih =>
    show _ ++ processedPackets env _ (as ++ bs) = _
    rw [ih, ← List.append_assoc]
    rfl

theorem arrivedBytes_append (as bs : List (L0Arrival Ctx)) :
    arrivedBytes (as ++ bs) = arrivedBytes as ++ arrivedBytes bs :=
  List.flatMap_append

/-- The arrivals of a packet bring its bytes. -/
theorem L0Delivery.arrivedBytes_arrivals {cli : TeoCli Ctx} (d : L0Delivery cli) :
    arrivedBytes d.arrivals = d.packet := by
  have h := flatten_packetChunks d.packet
  rw [← d.chunks] at h
  exact h

/-! ### The server behind a channel -/

theorem channelFd_run (env : L0Env Ctx) (kl : KsnLNullClass Ctx) (tcd : TrudpChannel)
    (openFds : List ℤ) : ∃ es openFds', Run (L0Step env) ⟨kl, openFds⟩ es
      ⟨(channelFd env kl tcd).2, openFds'⟩ := by
  unfold channelFd
  split
  · exact ⟨[.fakeFd], _, .single ⟨trivial, rfl⟩⟩
  · exact ⟨[], openFds, .nil _⟩

theorem maxFdNumber_le_channelFd (env : L0Env Ctx) (kl : KsnLNullClass Ctx) {tcd : TrudpChannel}
    (h : tcd.fd ≠ 0 → env.maxFdNumber ≤ tcd.fd) :
    env.maxFdNumber ≤ (channelFd env kl tcd).1 := by
  unfold channelFd
  split
  · unfold ksnLNullGetNextFakeFd
    dsimp only
    split
    · exact le_refl _
    · omega
  · rename_i hfd
    exact h hfd

/-- **What an arrival does to the server is a run of the server**, and so keeps what the runs of
the server keep. -/
theorem checkArrival_run (env : L0Env Ctx) (s : TrudpSide Ctx) (a : L0Arrival Ctx)
    (hfd : s.tcd.fd ≠ 0 → env.maxFdNumber ≤ s.tcd.fd) (openFds : List ℤ) :
    ∃ es openFds', Run (L0Step env) ⟨a.meanwhile s.kl, openFds⟩ es
      ⟨(checkArrival env s a).kl, openFds'⟩ := by
  obtain ⟨es, openFds', hrun⟩ := channelFd_run env (a.meanwhile s.kl) s.tcd openFds
  have hmax := maxFdNumber_le_channelFd env (a.meanwhile s.kl) hfd
  have hdeliver : ∀ small buf, ∃ es' openFds'', Run (L0Step env) ⟨a.meanwhile s.kl, openFds⟩ es'
      ⟨(trudpDeliver env a.now a.subscribed (channelFd env (a.meanwhile s.kl) s.tcd).2
        (channelFd env (a.meanwhile s.kl) s.tcd).1 a.rd small buf).1, openFds''⟩ := by
    intro small buf
    let e : L0Event := .trudpPacket a.now a.subscribed
      (channelFd env (a.meanwhile s.kl) s.tcd).1 a.rd small buf
    have hstep : L0Step env ⟨(channelFd env (a.meanwhile s.kl) s.tcd).2, openFds'⟩ e
        ⟨(l0Handle env (channelFd env (a.meanwhile s.kl) s.tcd).2 e).1, l0OpenFds env _ e⟩ :=
      ⟨hmax, rfl⟩
    exact ⟨es ++ [e], _, hrun.append (.single hstep)⟩
  unfold checkArrival ksnLNulltrudpCheckPaket
  dsimp only
  split
  · exact hdeliver true _
  · split
    · exact ⟨es, openFds', hrun⟩
    · exact hdeliver false _

/-! ### One step of the buffer -/

variable {env : L0Env Ctx} {s : TrudpSide Ctx} {a : L0Arrival Ctx}

theorem TeoCli.WellFormed.getFromBuffer {cli : TeoCli Ctx} {packet : List UInt8}
    (h : cli.WellFormed packet) : cli.packetGetFromBuffer packet = true :=
  decide_eq_true ⟨le_of_eq h.length, h.checksums⟩

/-- A chunk that opens the buffer with a packet's header passes the test of the header. -/
theorem TeoCli.WellFormed.headerMatches {cli : TeoCli Ctx} {packet : List UInt8}
    (h : cli.WellFormed packet) {data : List UInt8} (hdata : data <+: packet)
    (hsize : l0HeaderSize ≤ data.length) (after : List UInt8) :
    cli.headerMatches (data ++ after) = true := by
  obtain ⟨rest, rfl⟩ := hdata
  have hsums := h.checksums
  unfold TeoCli.checksumsMatch at hsums
  have hheader := (of_decide_eq_true hsums).1
  rw [cli.packetHeader_append hsize, List.take_append_of_le_length (by omega)] at hheader
  unfold TeoCli.headerMatches
  rw [cli.packetHeader_append hsize, List.take_append_of_le_length (by omega), hheader]
  exact decide_eq_true rfl

/-- `packetCombineClient` with a chunk that is stored. -/
theorem packetCombineClient_stored (cli : TeoCli Ctx) (tcd : TrudpChannel) {data : List UInt8}
    (after : List UInt8)
    (h : data ≠ [] → tcd.pending = [] → cli.headerMatches (data ++ after) = true) :
    packetCombineClient cli tcd data after =
      let buf := tcd.pending ++ data
      let room := { tcd.compact.reserve data.length with readBuffer := buf }
      if buf.length > l0HeaderSize ∧ buf.length ≥ cli.packetLength buf then
        if cli.checksumsMatch buf then
          ({ room with lastPacketPtr := cli.packetLength buf }, (cli.packetLength buf : ℤ))
        else ({ room with readBuffer := [], lastPacketPtr := 0 }, -2)
      else (room, -1) := by
  have hnot : ¬ (data.length > 0 ∧ (tcd.compact.reserve data.length).readBuffer.length = 0 ∧
      cli.headerMatches (data ++ after) = false) := by
    rintro ⟨hdata, hempty, hwrong⟩
    rw [TrudpChannel.reserve_readBuffer] at hempty
    rw [h (List.length_pos_iff.mp hdata) (List.length_eq_zero_iff.mp hempty)] at hwrong
    cases hwrong
  have hptr : (tcd.compact.reserve data.length).lastPacketPtr = 0 := by
    rw [TrudpChannel.reserve_lastPacketPtr]
    rfl
  have hbuf : (tcd.compact.reserve data.length).readBuffer = tcd.pending := by
    rw [TrudpChannel.reserve_readBuffer]
    rfl
  unfold packetCombineClient
  dsimp only
  rw [if_neg hnot, hptr, hbuf, Nat.sub_zero, Nat.zero_add]

/-- The bytes of a packet but not all of them: the buffer waits. -/
theorem packetCombineClient_part {cli : TeoCli Ctx} {packet : List UInt8}
    (hwf : cli.WellFormed packet) (tcd : TrudpChannel) {data rest : List UInt8}
    (after : List UInt8) (hpacket : tcd.pending ++ data ++ rest = packet) (hrest : rest ≠ [])
    (hsize : l0HeaderSize ≤ (tcd.pending ++ data).length) :
    (packetCombineClient cli tcd data after).2 = -1 ∧
      (packetCombineClient cli tcd data after).1.pending = tcd.pending ++ data := by
  have hheader : data ≠ [] → tcd.pending = [] → cli.headerMatches (data ++ after) = true := by
    intro _ hnil
    rw [hnil, List.nil_append] at hpacket hsize
    exact hwf.headerMatches ⟨rest, hpacket⟩ hsize after
  have hlen : cli.packetLength (tcd.pending ++ data) = packet.length := by
    rw [← hwf.length, ← hpacket, cli.packetLength_append hsize]
  have hshort : ¬ ((tcd.pending ++ data).length > l0HeaderSize ∧
      (tcd.pending ++ data).length ≥ cli.packetLength (tcd.pending ++ data)) := by
    rintro ⟨-, hge⟩
    have hpos := List.length_pos_iff.mpr hrest
    have hsum := congrArg List.length hpacket
    rw [List.length_append] at hsum
    rw [hlen] at hge
    omega
  rw [packetCombineClient_stored cli tcd after hheader]
  dsimp only
  rw [if_neg hshort]
  refine ⟨rfl, ?_⟩
  unfold TrudpChannel.pending
  dsimp only
  rw [TrudpChannel.reserve_lastPacketPtr]
  rfl

/-- The last bytes of a packet: the packet is complete, and nothing is behind it. -/
theorem packetCombineClient_last {cli : TeoCli Ctx} {packet : List UInt8}
    (hwf : cli.WellFormed packet) (tcd : TrudpChannel) {data : List UInt8} (after : List UInt8)
    (hpacket : tcd.pending ++ data = packet) (hsize : l0HeaderSize < packet.length) :
    (packetCombineClient cli tcd data after).2 = packet.length ∧
      (packetCombineClient cli tcd data after).1.readBuffer = packet ∧
      (packetCombineClient cli tcd data after).1.pending = [] := by
  have hheader : data ≠ [] → tcd.pending = [] → cli.headerMatches (data ++ after) = true := by
    intro _ hnil
    rw [hnil, List.nil_append] at hpacket
    rw [hpacket]
    exact hwf.headerMatches (List.prefix_refl packet) hsize.le after
  rw [packetCombineClient_stored cli tcd after hheader]
  dsimp only
  rw [hpacket, hwf.length, if_pos ⟨hsize, le_refl _⟩, if_pos hwf.checksums]
  refine ⟨rfl, rfl, ?_⟩
  unfold TrudpChannel.pending
  exact List.drop_length

/-- No byte is in two places: those of a complete packet and those that wait are among those
that waited and those that have come. -/
theorem packetCombineClient_length_le (cli : TeoCli Ctx) (tcd : TrudpChannel)
    (data after : List UInt8) :
    ((packetCombineClient cli tcd data after).1.readBuffer.take
        (packetCombineClient cli tcd data after).2.toNat).length +
      (packetCombineClient cli tcd data after).1.pending.length ≤
      tcd.pending.length + data.length := by
  by_cases hstored : data ≠ [] → tcd.pending = [] → cli.headerMatches (data ++ after) = true
  · rw [packetCombineClient_stored cli tcd after hstored]
    dsimp only
    split
    · split
      · unfold TrudpChannel.pending
        simp only [Int.toNat_natCast, List.length_take, List.length_drop, List.length_append]
        omega
      · simp [TrudpChannel.pending]
    · simp only [TrudpChannel.pending, TrudpChannel.reserve_lastPacketPtr,
        TrudpChannel.compact, List.drop_zero, List.length_append]
      show (List.take 0 _).length + _ ≤ _
      simp
  · push Not at hstored
    obtain ⟨hdata, hempty, hwrong⟩ := hstored
    have hfirst : (tcd.compact.reserve data.length).readBuffer.length = 0 := by
      rw [TrudpChannel.reserve_readBuffer]
      exact List.length_eq_zero_iff.mpr hempty
    unfold packetCombineClient
    dsimp only
    rw [if_pos ⟨List.length_pos_iff.mpr hdata, hfirst, Bool.eq_false_iff.mpr hwrong⟩]
    have hpending : (tcd.compact.reserve data.length).pending = [] := by
      unfold TrudpChannel.pending
      rw [List.eq_nil_of_length_eq_zero hfirst, List.drop_nil]
    rw [hpending]
    simp

/-! ### One arrival -/

/-- A datagram that is a packet by itself leaves the buffer alone. -/
theorem pending_of_getFromBuffer (h : env.cli.packetGetFromBuffer a.rd.data = true) :
    (afterArrival env s a).tcd.pending = s.tcd.pending := by
  unfold afterArrival checkArrival ksnLNulltrudpCheckPaket
  dsimp only
  rw [if_pos h]
  rfl

theorem processed_of_refused (h : Refused env s a) : (checkArrival env s a).processed = none := by
  unfold checkArrival ksnLNulltrudpCheckPaket
  dsimp only
  rw [if_pos h.1, if_neg (by rw [h.2]; decide)]

theorem processed_of_getFromBuffer (h : env.cli.packetGetFromBuffer a.rd.data = true)
    (hnot : ¬ Refused env s a) :
    (checkArrival env s a).processed =
      some (a.rd.data.take (env.cli.packetLength a.rd.data)) := by
  have hadmitted : admitted (channelFd env (a.meanwhile s.kl) s.tcd).2
      (channelFd env (a.meanwhile s.kl) s.tcd).1 a.rd = true := by
    rw [← Bool.not_eq_false]
    exact fun hrefused => hnot ⟨h, hrefused⟩
  unfold checkArrival ksnLNulltrudpCheckPaket
  dsimp only
  rw [if_pos h, if_pos hadmitted]

/-- The channel as `recvCheck` gets it. -/
def numbered (env : L0Env Ctx) (s : TrudpSide Ctx) (a : L0Arrival Ctx) : TrudpChannel :=
  { s.tcd with fd := (channelFd env (a.meanwhile s.kl) s.tcd).1 }

/-- A datagram that is no packet by itself goes to the buffer. -/
theorem checkArrival_of_not_getFromBuffer (h : env.cli.packetGetFromBuffer a.rd.data = false) :
    (afterArrival env s a).tcd =
        (packetCombineClient env.cli (numbered env s a) a.rd.data a.rd.after).1 ∧
      (checkArrival env s a).processed =
        if (packetCombineClient env.cli (numbered env s a) a.rd.data a.rd.after).2 ≤ 0 then none
        else some ((packetCombineClient env.cli (numbered env s a) a.rd.data
          a.rd.after).1.readBuffer.take
            (packetCombineClient env.cli (numbered env s a) a.rd.data a.rd.after).2.toNat) := by
  unfold afterArrival checkArrival ksnLNulltrudpCheckPaket recvCheck
  dsimp only
  rw [if_neg (by rw [h]; decide)]
  show (if (packetCombineClient env.cli (numbered env s a) a.rd.data a.rd.after).2 ≤ 0 then _
    else _ : TrudpChecked Ctx).tcd = _ ∧ (if (packetCombineClient env.cli (numbered env s a)
      a.rd.data a.rd.after).2 ≤ 0 then _ else _ : TrudpChecked Ctx).processed = _
  split
  · exact ⟨rfl, rfl⟩
  · exact ⟨rfl, rfl⟩

theorem checkArrival_part {packet rest : List UInt8} (hwf : env.cli.WellFormed packet)
    (hget : env.cli.packetGetFromBuffer a.rd.data = false)
    (hpacket : s.tcd.pending ++ a.rd.data ++ rest = packet) (hrest : rest ≠ [])
    (hsize : l0HeaderSize ≤ (s.tcd.pending ++ a.rd.data).length) :
    (checkArrival env s a).processed = none ∧
      (afterArrival env s a).tcd.pending = s.tcd.pending ++ a.rd.data := by
  obtain ⟨hrc, hpending⟩ := packetCombineClient_part hwf (numbered env s a) a.rd.after
    hpacket hrest hsize
  obtain ⟨htcd, hprocessed⟩ := checkArrival_of_not_getFromBuffer (s := s) hget
  rw [htcd, hprocessed, hrc]
  exact ⟨rfl, hpending⟩

theorem checkArrival_last {packet : List UInt8} (hwf : env.cli.WellFormed packet)
    (hget : env.cli.packetGetFromBuffer a.rd.data = false)
    (hpacket : s.tcd.pending ++ a.rd.data = packet) (hsize : l0HeaderSize < packet.length) :
    (checkArrival env s a).processed = some packet ∧
      (afterArrival env s a).tcd.pending = [] := by
  obtain ⟨hrc, hbuf, hpending⟩ := packetCombineClient_last hwf (numbered env s a)
    a.rd.after hpacket hsize
  obtain ⟨htcd, hprocessed⟩ := checkArrival_of_not_getFromBuffer (s := s) hget
  rw [htcd, hprocessed, hrc, hbuf]
  refine ⟨?_, hpending⟩
  rw [if_neg (by omega), Int.toNat_natCast, List.take_length]

/-- A chunk with others behind it: the buffer waits for the rest of the packet. -/
theorem checkArrival_more {packet : List UInt8} (hwf : env.cli.WellFormed packet)
    (hget : env.cli.packetGetFromBuffer a.rd.data = false) (hsize : l0HeaderSize ≤ s.tcd.pending.length)
    {b : L0Arrival Ctx} {bs : List (L0Arrival Ctx)} (hfull : b.rd.data ≠ [])
    (hpacket : s.tcd.pending ++ arrivedBytes (a :: b :: bs) = packet) :
    (checkArrival env s a).processed = none ∧
      (afterArrival env s a).tcd.pending = s.tcd.pending ++ a.rd.data ∧
      l0HeaderSize ≤ (afterArrival env s a).tcd.pending.length ∧
      (afterArrival env s a).tcd.pending ++ arrivedBytes (b :: bs) = packet := by
  have hpart : s.tcd.pending ++ a.rd.data ++ arrivedBytes (b :: bs) = packet := by
    rw [List.append_assoc]
    exact hpacket
  have hrest : arrivedBytes (b :: bs) ≠ [] := by
    intro hnil
    exact hfull (List.append_eq_nil_iff.mp hnil).1
  have hsize' : l0HeaderSize ≤ (s.tcd.pending ++ a.rd.data).length := by
    rw [List.length_append]
    omega
  obtain ⟨hnone, hpending⟩ := checkArrival_part hwf hget hpart hrest hsize'
  refine ⟨hnone, hpending, ?_, ?_⟩
  · rw [hpending]
    exact hsize'
  · rw [hpending]
    exact hpart

/-- No byte is processed twice, and those of a refused datagram are lost. -/
theorem checkArrival_length_le (env : L0Env Ctx) (s : TrudpSide Ctx) (a : L0Arrival Ctx) :
    (checkArrival env s a).processed.toList.flatten.length +
      (afterArrival env s a).tcd.pending.length ≤ s.tcd.pending.length + a.rd.data.length := by
  cases hget : env.cli.packetGetFromBuffer a.rd.data with
  | true =>
    rw [pending_of_getFromBuffer hget]
    by_cases hrefused : Refused env s a
    · rw [processed_of_refused hrefused]
      simp
    · rw [processed_of_getFromBuffer hget hrefused]
      simp only [Option.toList_some, List.flatten_singleton, List.length_take]
      omega
  | false =>
    have hle := packetCombineClient_length_le env.cli (numbered env s a) a.rd.data a.rd.after
    obtain ⟨htcd, hprocessed⟩ := checkArrival_of_not_getFromBuffer (s := s) hget
    have hpending : (numbered env s a).pending = s.tcd.pending := rfl
    rw [hpending] at hle
    rw [htcd, hprocessed]
    split
    · simp only [Option.toList_none, List.flatten_nil, List.length_nil]
      omega
    · simp only [Option.toList_some, List.flatten_singleton]
      exact hle

/-! ### Many arrivals -/

/-- **The count of the bytes**. -/
theorem processedPackets_length_le (env : L0Env Ctx) (s : TrudpSide Ctx)
    (as : List (L0Arrival Ctx)) :
    (processedPackets env s as).flatten.length ≤ s.tcd.pending.length + (arrivedBytes as).length := by
  induction as generalizing s with
  | nil => exact Nat.zero_le _
  | cons a as ih =>
    have hstep := checkArrival_length_le env s a
    have hrest := ih (afterArrival env s a)
    show ((checkArrival env s a).processed.toList ++
      processedPackets env (afterArrival env s a) as).flatten.length ≤
        _ + (a.rd.data ++ arrivedBytes as).length
    rw [List.flatten_append, List.length_append, List.length_append]
    omega

/-- A refused datagram is missing in the end. -/
theorem processedPackets_length_lt_of_refused (h : Refused env s a) (as : List (L0Arrival Ctx)) :
    (processedPackets env s (a :: as)).flatten.length <
      s.tcd.pending.length + (arrivedBytes (a :: as)).length := by
  have hrest := processedPackets_length_le env (afterArrival env s a) as
  rw [pending_of_getFromBuffer h.1] at hrest
  have hsize := env.cli.l0HeaderSize_le_packetLength a.rd.data
  have hfits := (of_decide_eq_true h.1).1
  unfold l0HeaderSize at hsize
  show ((checkArrival env s a).processed.toList ++
    processedPackets env (afterArrival env s a) as).flatten.length <
      _ + (a.rd.data ++ arrivedBytes as).length
  rw [processed_of_refused h, Option.toList_none, List.nil_append, List.length_append]
  omega

/-! ### The chunks of one packet -/

/-- When no further chunk is a packet by itself, the rest of a packet completes it. -/
theorem processedPackets_of_rest {packet : List UInt8} (hwf : env.cli.WellFormed packet)
    {as : List (L0Arrival Ctx)} (hne : as ≠ []) (hsize : l0HeaderSize ≤ s.tcd.pending.length)
    (hpacket : s.tcd.pending ++ arrivedBytes as = packet)
    (hfull : ∀ a ∈ as, a.rd.data ≠ [])
    (hclear : ∀ a ∈ as, env.cli.packetGetFromBuffer a.rd.data = false) :
    processedPackets env s as = [packet] ∧ (afterArrivals env s as).tcd.pending = [] := by
  induction as generalizing s with
  | nil => exact absurd rfl hne
  | cons a as ih =>
    have hget := hclear a List.mem_cons_self
    cases as with
    | nil =>
      have hlast : s.tcd.pending ++ a.rd.data = packet := by
        rw [← hpacket, arrivedBytes, List.flatMap_singleton]
      have hlong : l0HeaderSize < packet.length := by
        have hpos := List.length_pos_iff.mpr (hfull a List.mem_cons_self)
        rw [← hlast, List.length_append]
        omega
      obtain ⟨hprocessed, hpending⟩ := checkArrival_last hwf hget hlast hlong
      refine ⟨?_, hpending⟩
      show (checkArrival env s a).processed.toList ++ [] = [packet]
      rw [hprocessed]
      rfl
    | cons b bs =>
      obtain ⟨hnone, -, hsize', hpacket'⟩ :=
        checkArrival_more hwf hget hsize (hfull b (by simp)) hpacket
      have hnext := ih (List.cons_ne_nil b bs) hsize' hpacket'
        (fun c hc => hfull c (List.mem_cons_of_mem a hc))
        (fun c hc => hclear c (List.mem_cons_of_mem a hc))
      refine ⟨?_, hnext.2⟩
      show (checkArrival env s a).processed.toList ++ _ = [packet]
      rw [hnone]
      exact hnext.1

/-- When the next processed packet is a large one and no byte is lost, no chunk of its rest was
taken for a packet. -/
theorem chunks_clear_of_processed {packet : List UInt8} (hwf : env.cli.WellFormed packet)
    (hlarge : l0ChunkSize < packet.length) {as : List (L0Arrival Ctx)}
    (hsize : l0HeaderSize ≤ s.tcd.pending.length)
    (hpacket : s.tcd.pending ++ arrivedBytes as = packet)
    (hchunks : ∀ a ∈ as, a.rd.data ≠ [] ∧ a.rd.data.length ≤ l0ChunkSize)
    {rest : List (L0Arrival Ctx)} {packets : List (List UInt8)}
    (hprocessed : processedPackets env s (as ++ rest) = packet :: packets)
    (hbytes : s.tcd.pending.length + (arrivedBytes (as ++ rest)).length ≤
      (processedPackets env s (as ++ rest)).flatten.length) :
    ∀ a ∈ as, env.cli.packetGetFromBuffer a.rd.data = false := by
  induction as generalizing s with
  | nil =>
    intro a ha
    cases ha
  | cons a as ih =>
    obtain ⟨hdata, hshort⟩ := hchunks a List.mem_cons_self
    have hcons : processedPackets env s (a :: as ++ rest) =
        (checkArrival env s a).processed.toList ++
          processedPackets env (afterArrival env s a) (as ++ rest) := rfl
    have hget : env.cli.packetGetFromBuffer a.rd.data = false := by
      rw [← Bool.not_eq_true]
      intro hget
      have haccepted : ¬ Refused env s a := fun hrefused =>
        absurd (processedPackets_length_lt_of_refused hrefused (as ++ rest)) (not_lt.mpr hbytes)
      -- the chunk is processed in the place of the packet, and is too short for it
      rw [hcons, processed_of_getFromBuffer hget haccepted] at hprocessed
      obtain ⟨heq, -⟩ := List.cons.inj hprocessed
      have hlen := congrArg List.length heq
      rw [List.length_take] at hlen
      omega
    cases as with
    | nil =>
      intro b hb
      rw [List.mem_singleton.mp hb]
      exact hget
    | cons b bs =>
      obtain ⟨hnone, hpending, hsize', hpacket'⟩ :=
        checkArrival_more hwf hget hsize (hchunks b (by simp)).1 hpacket
      rw [hcons, hnone, Option.toList_none, List.nil_append] at hprocessed hbytes
      have hbytes' : (afterArrival env s a).tcd.pending.length +
          (arrivedBytes (b :: bs ++ rest)).length ≤
            (processedPackets env (afterArrival env s a) (b :: bs ++ rest)).flatten.length := by
        have hsum : (arrivedBytes (a :: (b :: bs) ++ rest)).length =
            a.rd.data.length + (arrivedBytes (b :: bs ++ rest)).length :=
          List.length_append
        rw [hpending, List.length_append]
        omega
      have hnext := ih hsize' hpacket' (fun c hc => hchunks c (List.mem_cons_of_mem a hc))
        hprocessed hbytes'
      intro c hc
      rcases List.mem_cons.mp hc with rfl | hc
      · exact hget
      · exact hnext c hc

/-! ### One delivery -/

namespace L0Delivery

/-- A packet of at most 512 bytes comes in one datagram. -/
theorem arrivals_of_small {cli : TeoCli Ctx} (d : L0Delivery cli)
    (h : d.packet.length ≤ l0ChunkSize) : ∃ a, d.arrivals = [a] ∧ a.rd.data = d.packet := by
  have hchunks := d.chunks
  rw [packetChunks_of_le h] at hchunks
  obtain ⟨a, harrivals, hdata⟩ := List.map_eq_singleton_iff.mp hchunks
  exact ⟨a, harrivals, hdata⟩

/-- A larger one comes in several; the first holds 512 bytes. -/
theorem arrivals_of_large {cli : TeoCli Ctx} (d : L0Delivery cli)
    (h : l0ChunkSize < d.packet.length) : ∃ a as, d.arrivals = a :: as ∧
      a.rd.data = d.packet.take l0ChunkSize ∧
      as.map (·.rd.data) = packetChunks (d.packet.drop l0ChunkSize) := by
  have hchunks := d.chunks
  rw [packetChunks_of_lt h] at hchunks
  obtain ⟨a, as, harrivals, hdata, hrest⟩ := List.map_eq_cons_iff.mp hchunks
  exact ⟨a, as, harrivals, hdata, hrest⟩

/-- The first chunk of a large packet is full, and is not all of it. -/
theorem length_first_chunk {cli : TeoCli Ctx} (d : L0Delivery cli)
    (h : l0ChunkSize < d.packet.length) :
    (d.packet.take l0ChunkSize).length = l0ChunkSize ∧ d.packet.drop l0ChunkSize ≠ [] := by
  refine ⟨by rw [List.length_take, Nat.min_eq_left h.le], fun hnil => ?_⟩
  exact absurd (List.drop_eq_nil_iff.mp hnil) (not_le.mpr h)

/-- The further arrivals of a large packet bring the bytes behind the first 512, and each brings
some. -/
theorem rest_of_large {cli : TeoCli Ctx} (d : L0Delivery cli) (h : l0ChunkSize < d.packet.length)
    {as : List (L0Arrival Ctx)}
    (hrest : as.map (·.rd.data) = packetChunks (d.packet.drop l0ChunkSize)) :
    d.packet.take l0ChunkSize ++ arrivedBytes as = d.packet ∧
      ∀ a ∈ as, a.rd.data ≠ [] ∧ a.rd.data.length ≤ l0ChunkSize := by
  have hne := (d.length_first_chunk h).2
  have hbytes : arrivedBytes as = d.packet.drop l0ChunkSize := by
    rw [← flatten_packetChunks (d.packet.drop l0ChunkSize), ← hrest]
    rfl
  refine ⟨by rw [hbytes, List.take_append_drop], fun a ha => ?_⟩
  apply length_of_mem_packetChunks _ hne
  rw [← hrest]
  exact List.mem_map_of_mem ha

/-- The first chunk of a large packet is no packet by itself. -/
theorem first_chunk_not_getFromBuffer {cli : TeoCli Ctx} (d : L0Delivery cli)
    (h : l0ChunkSize < d.packet.length) :
    cli.packetGetFromBuffer (d.packet.take l0ChunkSize) = false := by
  rw [← Bool.not_eq_true]
  intro hget
  have hfits := (of_decide_eq_true hget).1
  rw [cli.packetLength_take (by decide), d.wellFormed.length, List.length_take] at hfits
  omega

/-- The first chunk of a large packet waits in the buffer. -/
theorem first_chunk {d : L0Delivery env.cli} (h : l0ChunkSize < d.packet.length)
    (hidle : s.tcd.pending = []) (hdata : a.rd.data = d.packet.take l0ChunkSize) :
    (checkArrival env s a).processed = none ∧
      (afterArrival env s a).tcd.pending = d.packet.take l0ChunkSize := by
  obtain ⟨hlen, hrest⟩ := d.length_first_chunk h
  have hpacket : s.tcd.pending ++ a.rd.data ++ d.packet.drop l0ChunkSize = d.packet := by
    rw [hidle, hdata, List.nil_append, List.take_append_drop]
  have hpart := checkArrival_part d.wellFormed
    (by rw [hdata]; exact d.first_chunk_not_getFromBuffer h) hpacket hrest
    (by rw [hidle, hdata, List.nil_append, hlen]; decide)
  rw [hidle, hdata, List.nil_append] at hpart
  exact hpart

/-- A packet is processed, and nothing else, when the condition holds for it. -/
theorem processedPackets_of_clear {d : L0Delivery env.cli} (hidle : s.tcd.pending = [])
    (hclear : ChunksClear env.cli d.packet)
    (hadmitted : ∀ a, d.arrivals = [a] → ¬ Refused env s a) :
    processedPackets env s d.arrivals = [d.packet] ∧
      (afterArrivals env s d.arrivals).tcd.pending = [] := by
  rcases le_or_gt d.packet.length l0ChunkSize with hsmall | hlarge
  · obtain ⟨a, harrivals, hdata⟩ := d.arrivals_of_small hsmall
    have hget : env.cli.packetGetFromBuffer a.rd.data = true := by
      rw [hdata]
      exact d.wellFormed.getFromBuffer
    rw [harrivals]
    refine ⟨?_, (pending_of_getFromBuffer hget).trans hidle⟩
    show (checkArrival env s a).processed.toList ++ [] = [d.packet]
    rw [processed_of_getFromBuffer hget (hadmitted a harrivals), hdata, d.wellFormed.length,
      List.take_length]
    rfl
  · obtain ⟨a, as, harrivals, hdata, hrest⟩ := d.arrivals_of_large hlarge
    obtain ⟨hbytes, hchunks⟩ := d.rest_of_large hlarge hrest
    obtain ⟨hnone, hpending⟩ := first_chunk hlarge hidle hdata
    have hne : as ≠ [] := by
      rintro rfl
      rw [arrivedBytes, List.flatMap_nil, List.append_nil] at hbytes
      have hlen := congrArg List.length hbytes
      rw [List.length_take] at hlen
      omega
    have hlen := (d.length_first_chunk hlarge).1
    have hdone := processedPackets_of_rest (s := afterArrival env s a) d.wellFormed hne
      (by rw [hpending, hlen]; decide) (by rw [hpending]; exact hbytes)
      (fun b hb => (hchunks b hb).1) (fun b hb => by
        apply hclear
        rw [packetChunks_of_lt hlarge, List.tail_cons, ← hrest]
        exact List.mem_map_of_mem hb)
    rw [harrivals]
    refine ⟨?_, hdone.2⟩
    show (checkArrival env s a).processed.toList ++ _ = [d.packet]
    rw [hnone]
    exact hdone.1

/-- The condition holds for a packet that is processed next, when no byte is lost. -/
theorem clear_of_processedPackets {d : L0Delivery env.cli} (hidle : s.tcd.pending = [])
    {rest : List (L0Arrival Ctx)} {packets : List (List UInt8)}
    (hprocessed : processedPackets env s (d.arrivals ++ rest) = d.packet :: packets)
    (hbytes : (arrivedBytes (d.arrivals ++ rest)).length ≤
      (processedPackets env s (d.arrivals ++ rest)).flatten.length) :
    ChunksClear env.cli d.packet ∧ ∀ a, d.arrivals = [a] → ¬ Refused env s a := by
  constructor
  · rcases le_or_gt d.packet.length l0ChunkSize with hsmall | hlarge
    · intro c hc
      rw [packetChunks_of_le hsmall] at hc
      cases hc
    · obtain ⟨a, as, harrivals, hdata, hrest⟩ := d.arrivals_of_large hlarge
      obtain ⟨hpacket, hchunks⟩ := d.rest_of_large hlarge hrest
      obtain ⟨hnone, hpending⟩ := first_chunk hlarge hidle hdata
      have hlen := (d.length_first_chunk hlarge).1
      have hcons : processedPackets env s (a :: as ++ rest) =
          processedPackets env (afterArrival env s a) (as ++ rest) := by
        show (checkArrival env s a).processed.toList ++ _ = _
        rw [hnone]
        rfl
      rw [harrivals, hcons] at hprocessed hbytes
      have hbytes' : (afterArrival env s a).tcd.pending.length +
          (arrivedBytes (as ++ rest)).length ≤
            (processedPackets env (afterArrival env s a) (as ++ rest)).flatten.length := by
        have hsum : (arrivedBytes (a :: as ++ rest)).length =
            a.rd.data.length + (arrivedBytes (as ++ rest)).length := List.length_append
        rw [hpending, ← hdata]
        omega
      have hclear := chunks_clear_of_processed d.wellFormed hlarge
        (by rw [hpending, hlen]; decide) (by rw [hpending]; exact hpacket) hchunks hprocessed
        hbytes'
      intro c hc
      rw [packetChunks_of_lt hlarge, List.tail_cons, ← hrest] at hc
      obtain ⟨b, hb, rfl⟩ := List.mem_map.mp hc
      exact hclear b hb
  · intro a harrivals hrefused
    rw [harrivals] at hbytes
    have hlt := processedPackets_length_lt_of_refused hrefused rest
    rw [hidle, List.length_nil, Nat.zero_add] at hlt
    exact absurd hlt (not_lt.mpr hbytes)

end L0Delivery

/-! ### A channel -/

/-- All arrivals of a list of deliveries. -/
def allArrivals {cli : TeoCli Ctx} (ds : List (L0Delivery cli)) : List (L0Arrival Ctx) :=
  ds.flatMap (·.arrivals)

theorem arrivedBytes_allArrivals {cli : TeoCli Ctx} (ds : List (L0Delivery cli)) :
    arrivedBytes (allArrivals ds) = (ds.map (·.packet)).flatten := by
  induction ds with
  | nil => rfl
  | cons d ds ih =>
    show arrivedBytes (d.arrivals ++ allArrivals ds) = d.packet ++ (ds.map (·.packet)).flatten
    rw [arrivedBytes_append, d.arrivedBytes_arrivals, ih]

/-- **When the packets of a channel are processed**, each once, in their order, and nothing else:
exactly when no later chunk of a packet is a packet by itself and no packet that comes in one
chunk is refused. -/
theorem processed_eq_packets_iff (env : L0Env Ctx) (s : TrudpSide Ctx) (hidle : s.tcd.pending = [])
    (ds : List (L0Delivery env.cli)) :
    processedPackets env s (allArrivals ds) = ds.map (·.packet) ↔ Clear env s ds := by
  induction ds generalizing s with
  | nil => exact iff_of_true rfl trivial
  | cons d ds ih =>
    have hall : allArrivals (d :: ds) = d.arrivals ++ allArrivals ds := rfl
    constructor
    · intro hprocessed
      have hbytes := arrivedBytes_allArrivals (d :: ds)
      rw [← hprocessed] at hbytes
      rw [hall] at hprocessed hbytes
      obtain ⟨hclear, hadmitted⟩ := L0Delivery.clear_of_processedPackets hidle hprocessed
        (le_of_eq (congrArg List.length hbytes))
      obtain ⟨hone, hidle'⟩ := L0Delivery.processedPackets_of_clear hidle hclear hadmitted
      rw [processedPackets_append, hone] at hprocessed
      exact ⟨hclear, hadmitted, (ih _ hidle').mp (List.cons.inj hprocessed).2⟩
    · rintro ⟨hclear, hadmitted, hrest⟩
      obtain ⟨hone, hidle'⟩ := L0Delivery.processedPackets_of_clear hidle hclear hadmitted
      rw [hall, processedPackets_append, hone, (ih _ hidle').mpr hrest]
      rfl

/-! ### A payload of zeros -/

/-- A chunk arrives, and nothing has happened in between. -/
def arrivalOf (chunk : List UInt8) : L0Arrival Unit :=
  ⟨id, 5, false, { addr := CString.empty, port := 9000, fromLen := 1, data := chunk }⟩

/-- A packet arrives in its chunks. -/
def deliveryOf (packet : List UInt8) (h : secretEnv.cli.WellFormed packet) :
    L0Delivery secretEnv.cli where
  packet := packet
  arrivals := (packetChunks packet).map arrivalOf
  wellFormed := h
  chunks := by
    rw [List.map_map]
    exact List.map_id _

/-- A server without clients, and a new channel. -/
def newChannel : TrudpSide Unit := ⟨emptyServer.kl, {}⟩

/-- A packet of 520 bytes whose data are all `b`. -/
def paddedPacket (b : UInt8) : List UInt8 :=
  plainPacket 129 CString.empty (List.replicate 511 b)

/-- Nine bytes stand in front of the data. -/
theorem paddedPacket_eq (b : UInt8) :
    ∃ head, head.length = 9 ∧ paddedPacket b = head ++ List.replicate 511 b := by
  refine ⟨(paddedPacket b).take 9, ?_, ?_⟩
  · rfl
  · exact (List.take_append_drop 9 (paddedPacket b)).symm

theorem packetChunks_paddedPacket (b : UInt8) :
    packetChunks (paddedPacket b) = [(paddedPacket b).take l0ChunkSize, List.replicate 8 b] := by
  obtain ⟨head, hhead, hpacket⟩ := paddedPacket_eq b
  have hlen : (paddedPacket b).length = 520 := by
    rw [hpacket, List.length_append, hhead, List.length_replicate]
  have hdrop : (paddedPacket b).drop l0ChunkSize = List.replicate 8 b := by
    rw [hpacket, List.drop_append, List.drop_eq_nil_of_le (by rw [hhead]; decide), hhead,
      List.nil_append, List.drop_replicate]
    rfl
  have hshort : (List.replicate 8 b).length ≤ l0ChunkSize := by
    rw [List.length_replicate]
    decide
  rw [packetChunks_of_lt (by rw [hlen]; decide), hdrop, packetChunks_of_le hshort]

theorem wellFormed_zeros : secretEnv.cli.WellFormed (paddedPacket 0) :=
  ⟨by decide +kernel, by decide +kernel⟩

theorem wellFormed_ones : secretEnv.cli.WellFormed (paddedPacket 1) :=
  ⟨by decide +kernel, by decide +kernel⟩

/-- The second chunk of the packet of ones is no packet. -/
theorem processed_eq_packets_iff_ones :
    processedPackets secretEnv newChannel
      (allArrivals [deliveryOf (paddedPacket 1) wellFormed_ones]) = [paddedPacket 1] := by
  refine (processed_eq_packets_iff secretEnv newChannel rfl
    [deliveryOf (paddedPacket 1) wellFormed_ones]).mpr ⟨?_, ?_, trivial⟩
  · intro c hc
    have htail : (packetChunks (paddedPacket 1)).tail = [List.replicate 8 1] := by
      rw [packetChunks_paddedPacket]
      rfl
    have hc' : c ∈ (packetChunks (paddedPacket 1)).tail := hc
    rw [htail, List.mem_singleton] at hc'
    rw [hc']
    decide
  · intro a ha
    have hlen := congrArg List.length ha
    change ((packetChunks (paddedPacket 1)).map arrivalOf).length = 1 at hlen
    rw [packetChunks_paddedPacket] at hlen
    cases hlen

/-- The second chunk of the packet of zeros is eight zeros, a packet without name and data. -/
theorem not_processed_eq_packets :
    ¬ ∀ (env : L0Env Unit) (s : TrudpSide Unit) (ds : List (L0Delivery env.cli)),
      s.tcd.pending = [] → processedPackets env s (allArrivals ds) = ds.map (·.packet) := by
  intro h
  have hprocessed := h secretEnv newChannel [deliveryOf (paddedPacket 0) wellFormed_zeros] rfl
  have hbytes := arrivedBytes_allArrivals [deliveryOf (paddedPacket 0) wellFormed_zeros]
  rw [← hprocessed] at hbytes
  obtain ⟨hclear, -⟩ := L0Delivery.clear_of_processedPackets rfl hprocessed
    (le_of_eq (congrArg List.length hbytes))
  have hlast : List.replicate 8 0 ∈ (packetChunks (paddedPacket 0)).tail := by
    rw [packetChunks_paddedPacket]
    exact List.mem_singleton_self _
  exact absurd (hclear _ hlast) (by decide)

end Teonet
