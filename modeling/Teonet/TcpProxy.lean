import Teonet.Lib.Bytes
import Teonet.Lib.CString
import Mathlib.Tactic.Common

/-! # The TCP proxy

`tcp_proxy.c`: UDP datagrams carried over a TCP connection as packages
`[header][address][data]`.  This file translates the making of packages, the receiving buffer with
its three stages, the read callback of both sides, and the way a package takes from the client's
read callback to the core: `host_cb`, `ksnTRUDPrecvfrom`, `trudp_process_receive` and
`teo_recvfrom`.

`hostCb_eq` follows the descriptor along that way, and `tcppLoop_hostCb` lifts it to every package
of a read. -/

namespace Teonet

open Bytes

/-! ### Packages -/

/-- `sizeof(ksnTCPProxyHeader)`. -/
def tcpProxyHeaderSize : ℕ := 8

/-- `TCP_PROXY_VERSION`. -/
def tcpProxyVersion : ℕ := 0

/-- `CMD_TCPP_PROXY`. -/
def cmdTcppProxy : ℕ := 0

/-- `KSN_BUFFER_DB_SIZE`. -/
def ksnBufferDbSize : ℕ := 2048

/-- The bytes `i`, …, `i + n - 1`. -/
def slice (b : List UInt8) (i n : ℕ) : List UInt8 := (b.drop i).take n

def hdrChecksum (b : List UInt8) : UInt8 := b.getD 0 0
def hdrCommand (b : List UInt8) : ℕ := (b.getD 1 0).toNat / 16
def hdrPort (b : List UInt8) : ℕ := getLe16 (b.drop 2)
def hdrPacketLength (b : List UInt8) : ℕ := getLe16 (b.drop 4)
def hdrAddrLength (b : List UInt8) : ℕ := (b.getD 6 0).toNat
def hdrPacketChecksum (b : List UInt8) : UInt8 := b.getD 7 0

/-- The error codes of `ksnTCPProxyPackageCreate`. -/
inductive PackageError
  /-- `-1`: the buffer is smaller than a header -/
  | header
  /-- `-2`: the buffer is smaller than the package -/
  | data
deriving DecidableEq, Repr

/-- `ksnTCPProxyPackageCreate`.  The header is checksummed without its two checksums, the package
without the first byte. -/
def ksnTCPProxyPackageCreate (getByteChecksum : List UInt8 → UInt8) (bufferLength : ℕ)
    (addr : CString) (port cmd : ℕ) (data : List UInt8) : Except PackageError (List UInt8) :=
  if bufferLength < tcpProxyHeaderSize then .error .header else
  let addrLength := UInt8.ofNat (addr.length + 1)
  let fields := UInt8.ofNat (tcpProxyVersion + 16 * (cmd % 16)) ::
    (le16 port ++ (le16 data.length ++ [addrLength]))
  let body := fields ++ getByteChecksum fields :: (addr.toBuf.take addrLength.toNat ++ data)
  if bufferLength < tcpProxyHeaderSize + addrLength.toNat + data.length then .error .data
  else .ok (getByteChecksum body :: body)

/-! ### The receiving buffer -/

/-- `ksnTCPProxyBufferStage`. -/
inductive BufferStage
  | waitForStart
  | waitForEnd
  | processPacket
deriving DecidableEq, Repr

/-- `ksnTCPProxyPacketData`; the header is the start of the buffer. -/
structure KsnTCPProxyPacketData where
  buffer : List UInt8 := []
  length : ℕ := 0
  ptr : ℕ := 0
  stage : BufferStage := .waitForStart
deriving DecidableEq

/-- The length of the package that the header in front of the buffer announces. -/
def packageLength (b : List UInt8) : ℕ :=
  tcpProxyHeaderSize + hdrPacketLength b + hdrAddrLength b

section Checksum

variable (getByteChecksum : List UInt8 → UInt8)

/-- `ksnTCPProxyPackageProcess` in stage `PROCESS_PACKET`. -/
def packageProcessPacket (packet : KsnTCPProxyPacketData) : KsnTCPProxyPacketData × ℤ :=
  let length := packageLength packet.buffer
  let checksum := getByteChecksum (slice packet.buffer 1 (length - 1))
  ({ packet with
      length := length
      stage := .waitForStart
      ptr := if packet.ptr > length then packet.ptr else 0 },
    if hdrChecksum packet.buffer = checksum then (length : ℤ) else -3)

/-- `ksnTCPProxyPackageProcess` in stage `WAIT_FOR_END`. -/
def packageWaitForEnd (packet : KsnTCPProxyPacketData) (data : List UInt8) :
    KsnTCPProxyPacketData × ℤ :=
  let packet := { packet with
    buffer := packet.buffer.take packet.ptr ++ data ++ packet.buffer.drop (packet.ptr + data.length)
    ptr := packet.ptr + data.length }
  if packet.ptr ≥ tcpProxyHeaderSize then
    if ¬ (hdrAddrLength packet.buffer ≠ 0 ∧ hdrPort packet.buffer ≠ 0 ∧
        hdrPacketChecksum packet.buffer =
          getByteChecksum (slice packet.buffer 1 (tcpProxyHeaderSize - 2))) then
      ({ packet with stage := .waitForStart, ptr := 0 }, -2)
    else if packet.ptr ≥ packageLength packet.buffer then
      packageProcessPacket getByteChecksum { packet with stage := .processPacket }
    else (packet, 0)
  else (packet, 0)

/-- `ksnTCPProxyPackageProcess` in stage `WAIT_FOR_START`: the package that was received last is
moved out of the buffer. -/
def packageWaitForStart (packet : KsnTCPProxyPacketData) (data : List UInt8) :
    KsnTCPProxyPacketData × ℤ :=
  let rest := packet.ptr - packet.length
  let packet := if packet.ptr ≠ 0 then { packet with
      buffer := slice packet.buffer packet.length rest ++ packet.buffer.drop rest
      ptr := rest }
    else packet
  packageWaitForEnd getByteChecksum { packet with length := 0, stage := .waitForEnd } data

/-- `ksnTCPProxyPackageProcess`: the length of the package now in front of the buffer, `0` while
it is incomplete, or a negative error. -/
def ksnTCPProxyPackageProcess (packet : KsnTCPProxyPacketData) (data : List UInt8) :
    KsnTCPProxyPacketData × ℤ :=
  match packet.stage with
  | .waitForStart => packageWaitForStart getByteChecksum packet data
  | .waitForEnd => packageWaitForEnd getByteChecksum packet data
  | .processPacket => packageProcessPacket getByteChecksum packet

end Checksum

/-- The data of the package in front of the buffer. -/
def packageData (b : List UInt8) : List UInt8 :=
  slice b (tcpProxyHeaderSize + hdrAddrLength b) (hdrPacketLength b)

/-- Its address string. -/
def packageAddr (b : List UInt8) : CString := CString.ofBuf (b.drop tcpProxyHeaderSize)

/-! ### Receiving a datagram -/

/-- Where the datagram comes from, or why there is none. -/
inductive Received (A : Type)
  /-- the event manager is stopped, or there is no source: `0` -/
  | nothing
  /-- the proxy buffer -/
  | proxy (data : List UInt8) (addr : A)
  /-- `-2`: the buffer is too small -/
  | tooSmall
  /-- `-3`: the address is wrong -/
  | wrongAddress
  /-- `recvfrom` on this descriptor -/
  | udp (fd : ℤ)
deriving DecidableEq

/-- What receiving depends on.  `makeAddr` is `make_addr`, with its error as `none`; `tdFd` and
`kcFd` are `td->fd` and `kc->fd`. -/
structure ProxyEnv (A : Type) where
  stopped : Bool
  rTcpF : Bool
  fdClient : ℤ
  tdFd : ℤ
  kcFd : ℤ
  makeAddr : CString → ℕ → Option A
  getByteChecksum : List UInt8 → UInt8

/-- The TR-UDP events that reach the core. -/
inductive TrudpEvent
  | processReceive
  | other
deriving DecidableEq

/-- `EV_NONE`, or a real event of the watcher. -/
inductive Revents
  | none
  | read
deriving DecidableEq

variable {A : Type}

/-- `teo_recvfrom`; `packet` is `ke->tp->packet`. -/
def teoRecvfrom (env : ProxyEnv A) (packet : KsnTCPProxyPacketData) (fd : ℤ) (bufferLen : ℕ) :
    Received A :=
  if env.stopped then .nothing
  else if fd = 0 ∧ env.rTcpF = true ∧ env.fdClient > 0 then
    if bufferLen ≥ hdrPacketLength packet.buffer then
      match env.makeAddr (packageAddr packet.buffer) (hdrPort packet.buffer) with
      | some addr => .proxy (packageData packet.buffer) addr
      | none => .wrongAddress
    else .tooSmall
  else if fd ≠ 0 then .udp fd
  else .nothing

/-- The receiving step of `trudp_process_receive`. -/
def trudpProcessReceive (env : ProxyEnv A) (packet : KsnTCPProxyPacketData) (dataLength : ℕ) :
    Received A :=
  teoRecvfrom env packet env.tdFd dataLength

/-- `trudp_event_cb`, as far as it receives. -/
def trudpEventCb (env : ProxyEnv A) (packet : KsnTCPProxyPacketData) (event : TrudpEvent)
    (dataLength : ℕ) : Received A :=
  match event with
  | .processReceive => trudpProcessReceive env packet dataLength
  | .other => .nothing

/-- `ksnTRUDPrecvfrom`: sends the event; `_fd` is not passed on. -/
def ksnTRUDPrecvfrom (env : ProxyEnv A) (packet : KsnTCPProxyPacketData) (_fd : ℤ)
    (bufferLen : ℕ) : Received A :=
  trudpEventCb env packet .processReceive bufferLen

/-- The receiving step of `host_cb`. -/
def hostCb (env : ProxyEnv A) (packet : KsnTCPProxyPacketData) (revents : Revents) : Received A :=
  ksnTRUDPrecvfrom env packet (if revents = .none then 0 else env.kcFd) ksnBufferDbSize

/-! ### The read callback -/

/-- `ksnTCPProxyCliSer`. -/
inductive CliSer
  | client
  | server
deriving DecidableEq

/-- What the read callback does with a package or an error. -/
inductive TcppEvent (A : Type)
  /-- the server sends the data to the peer -/
  | sendto (data : List UInt8) (addr : A)
  /-- the client calls `host_cb` while `packet` is in the buffer -/
  | hostCb (packet : KsnTCPProxyPacketData) (r : Received A)
  /-- `ksnTCPProxyServerClientDisconnect` -/
  | disconnect
deriving DecidableEq

/-- What is done with the package in front of the buffer. -/
def tcppPackage (env : ProxyEnv A) (side : CliSer) (packet : KsnTCPProxyPacketData) :
    List (TcppEvent A) :=
  match env.makeAddr (packageAddr packet.buffer) (hdrPort packet.buffer) with
  | none => []
  | some addr =>
    if hdrCommand packet.buffer = cmdTcppProxy then
      match side with
      | .server => [.sendto (packageData packet.buffer) addr]
      | .client => [.hostCb packet (hostCb env packet .none)]
    else []

/-- The loop of `_cmd_tcpp_read_cb` after a successful read of `data`; each round but the first
works on what is left in the buffer. -/
def tcppLoop (env : ProxyEnv A) (side : CliSer) :
    ℕ → KsnTCPProxyPacketData → List UInt8 → KsnTCPProxyPacketData × List (TcppEvent A)
  | 0, packet, _ => (packet, [])
  | fuel + 1, packet, data =>
    let (packet, rv) := ksnTCPProxyPackageProcess env.getByteChecksum packet data
    if rv > 0 then
      let events := tcppPackage env side packet
      if packet.ptr ≠ 0 then
        let (packet', events') := tcppLoop env side fuel packet []
        (packet', events ++ events')
      else (packet, events)
    else if rv < 0 then (packet, [.disconnect])
    else (packet, [])

/-! ### What the client receives -/

/-- The receiving step takes the package: its data, and its address and port. -/
def TakesPackage (env : ProxyEnv A) (packet : KsnTCPProxyPacketData) (r : Received A) : Prop :=
  ∃ addr, env.makeAddr (packageAddr packet.buffer) (hdrPort packet.buffer) = some addr ∧
    r = .proxy (packageData packet.buffer) addr

/-- **The receiving step reads the UDP socket**, whatever event `host_cb` was called with: the
descriptor that says "proxy buffer" does not reach `teo_recvfrom`. -/
theorem hostCb_eq (env : ProxyEnv A) (htd : env.tdFd ≠ 0) (packet : KsnTCPProxyPacketData)
    (revents : Revents) :
    hostCb env packet revents = if env.stopped then .nothing else .udp env.tdFd := by
  have hproxy : ¬ (env.tdFd = 0 ∧ env.rTcpF = true ∧ env.fdClient > 0) := fun h => htd h.1
  unfold hostCb ksnTRUDPrecvfrom trudpEventCb trudpProcessReceive teoRecvfrom
  simp only [if_neg hproxy, if_pos htd]

theorem mem_tcppPackage {env : ProxyEnv A} {packet p : KsnTCPProxyPacketData} {side : CliSer}
    {r : Received A} (h : .hostCb p r ∈ tcppPackage env side packet) :
    r = hostCb env p .none := by
  unfold tcppPackage at h
  split at h
  · cases h
  · split_ifs at h
    · cases side with
      | server =>
        rw [List.mem_singleton] at h
        cases h
      | client =>
        rw [List.mem_singleton] at h
        cases h
        rfl
    · cases h

/-- Every package of a read is received by `host_cb`. -/
theorem tcppLoop_hostCb (env : ProxyEnv A) (side : CliSer) {p : KsnTCPProxyPacketData}
    {r : Received A} : ∀ (fuel : ℕ) (packet : KsnTCPProxyPacketData) (data : List UInt8),
    .hostCb p r ∈ (tcppLoop env side fuel packet data).2 → r = hostCb env p .none
  | 0, _, _, h => by cases h
  | fuel + 1, packet, data, h => by
      rw [tcppLoop] at h
      dsimp only at h
      split_ifs at h
      · rcases List.mem_append.mp h with hnow | hlater
        · exact mem_tcppPackage hnow
        · exact tcppLoop_hostCb env side fuel _ [] hlater
      · exact mem_tcppPackage h
      · rw [List.mem_singleton] at h
        cases h
      · cases h

/-- **No package is taken**: in the client's read callback the receiving step never takes the
package out of the proxy buffer, and unless the event manager is stopped it reads the UDP
socket. -/
theorem tcppLoop_client_not_takesPackage (env : ProxyEnv A) (htd : env.tdFd ≠ 0) (fuel : ℕ)
    (packet : KsnTCPProxyPacketData) (data : List UInt8) {p : KsnTCPProxyPacketData}
    {r : Received A} (h : .hostCb p r ∈ (tcppLoop env .client fuel packet data).2) :
    ¬ TakesPackage env p r ∧ (env.stopped = false → r = .udp env.tdFd) := by
  have hr := (tcppLoop_hostCb env .client fuel packet data h).trans (hostCb_eq env htd p .none)
  constructor
  · rintro ⟨addr, -, hproxy⟩
    rw [hr] at hproxy
    split_ifs at hproxy
  · intro hrun
    rw [hr, hrun]
    rfl

/-- A client with the proxy connection on descriptor 4 and its UDP socket on 3. -/
def sampleEnv : ProxyEnv (CString × ℕ) where
  stopped := false
  rTcpF := true
  fdClient := 4
  tdFd := 3
  kcFd := 3
  makeAddr := fun addr port => some (addr, port)
  getByteChecksum := fun l => l.foldl (· + ·) 0

/-- One byte from port 9000 of `1.2.3.4`. -/
def samplePackage : List UInt8 :=
  [253, 0, 40, 35, 1, 0, 8, 84, 49, 46, 50, 46, 51, 46, 52, 0, 1]

example : ksnTCPProxyPackageCreate sampleEnv.getByteChecksum ksnBufferDbSize
    ⟨[49, 46, 50, 46, 51, 46, 52], by decide⟩ 9000 cmdTcppProxy [1] = .ok samplePackage := by
  decide

/-- The buffer after `samplePackage` was read. -/
def samplePacket : KsnTCPProxyPacketData where
  buffer := samplePackage
  length := 17

theorem sample_hostCb : .hostCb samplePacket (hostCb sampleEnv samplePacket .none) ∈
    (tcppLoop sampleEnv .client 18 {} samplePackage).2 := by
  decide

theorem tcppLoop_client_not_takesPackage_sample :
    ¬ TakesPackage sampleEnv samplePacket (hostCb sampleEnv samplePacket .none) ∧
      (sampleEnv.stopped = false → hostCb sampleEnv samplePacket .none = .udp sampleEnv.tdFd) :=
  tcppLoop_client_not_takesPackage sampleEnv (by decide) 18 {} samplePackage sample_hostCb

/-- The package of one byte is not taken: the UDP socket is read. -/
theorem not_tcppLoop_client_takesPackage :
    ¬ ∀ (env : ProxyEnv (CString × ℕ)) (fuel : ℕ) (packet p : KsnTCPProxyPacketData)
      (data : List UInt8) (r : Received (CString × ℕ)), env.stopped = false →
      env.rTcpF = true → env.fdClient > 0 → env.tdFd ≠ 0 →
      .hostCb p r ∈ (tcppLoop env .client fuel packet data).2 → TakesPackage env p r := by
  intro h
  obtain ⟨addr, -, hr⟩ := h sampleEnv 18 {} samplePacket samplePackage _ rfl rfl (by decide)
    (by decide) sample_hostCb
  have hudp : hostCb sampleEnv samplePacket .none = .udp 3 := by
    decide
  rw [hudp] at hr
  cases hr

end Teonet
