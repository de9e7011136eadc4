import Teonet.Lib.Decimal
import Teonet.TcpProxyServer

/-! # Packages on their way into a TCP connection

`cmd_udpp_read_cb` and `ksnTCPProxySendTo` make a package of a datagram and write it.  The size that
`ksnTCPProxyPackageCreate` returns is unsigned, so its error codes are sizes close to `2^64`, and
both functions hand what it returns to `write` without a test.  The connection of a client does not
block, so `write` takes what it has room for.

`writesWhole_iff` says when what is written is the whole package or nothing. -/

namespace Teonet

/-! ### Addresses -/

/-- `struct sockaddr_in`: the address and the port, in host order. -/
structure SockaddrIn where
  a : UInt8
  b : UInt8
  c : UInt8
  d : UInt8
  port : UInt16

/-- The text of `inet_ntoa`. -/
def dotted (addr : SockaddrIn) : List UInt8 :=
  Decimal.ofNat addr.a.toNat ++ 46 :: (Decimal.ofNat addr.b.toNat ++ 46 ::
    (Decimal.ofNat addr.c.toNat ++ 46 :: Decimal.ofNat addr.d.toNat))

/-- `inet_ntoa`. -/
def inetNtoa (addr : SockaddrIn) : CString where
  bytes := dotted addr
  noNul h := by
    have hdot : (0 : UInt8) ≠ 46 := by decide
    simp only [dotted, List.mem_append, List.mem_cons, Decimal.nul_not_mem_ofNat, hdot,
      or_self] at h

/-- An address has at most 15 characters. -/
theorem length_inetNtoa_le (addr : SockaddrIn) : (inetNtoa addr).length ≤ 15 := by
  have hoctet : ∀ x : UInt8, (Decimal.ofNat x.toNat).length ≤ 3 := fun x =>
    (Decimal.length_ofNat_le_iff (by decide)).mpr (lt_of_lt_of_le x.toNat_lt (by decide))
  have ha := hoctet addr.a
  have hb := hoctet addr.b
  have hc := hoctet addr.c
  have hd := hoctet addr.d
  unfold CString.length inetNtoa dotted
  simp only [List.length_append, List.length_cons]
  omega

/-! ### Writing -/

/-- `SSIZE_MAX`. -/
def ssizeMax : ℕ := 2 ^ 63 - 1

/-- A TCP connection: the number of bytes that it takes before `write` returns, and what it is sent
by a `write` of more than `SSIZE_MAX` bytes, whose result is implementation-defined. -/
structure TcpConn where
  accepts : ℕ
  beyond : List UInt8

/-- What `write` of `count` bytes of `buf` puts into the connection. -/
def tcpWrite (conn : TcpConn) (buf : List UInt8) (count : ℕ) : List UInt8 :=
  if count ≤ ssizeMax then buf.take (min count conn.accepts) else conn.beyond

/-- What `write` returns. -/
def writeResult (sent : List UInt8) : ℤ := if sent = [] then -1 else sent.length

/-- The `size_t` that `ksnTCPProxyPackageCreate` returns. -/
def packageSize : Except PackageError (List UInt8) → ℕ
  | .error .header => 2 ^ 64 - 1
  | .error .data => 2 ^ 64 - 2
  | .ok package => package.length

/-- The package that it leaves at the start of the buffer. -/
def packageBuffer : Except PackageError (List UInt8) → List UInt8
  | .error _ => []
  | .ok package => package

section Code

variable (getByteChecksum : List UInt8 → UInt8)

/-- The package for an address, in a buffer of `KSN_BUFFER_DB_SIZE` bytes. -/
def addressPackage (addr : SockaddrIn) (cmd : ℕ) (data : List UInt8) :
    Except PackageError (List UInt8) :=
  ksnTCPProxyPackageCreate getByteChecksum ksnBufferDbSize (inetNtoa addr) addr.port.toNat cmd data

/-- `ksnTCPProxySendTo`: what is written to the connection of the client, and the result. -/
def ksnTCPProxySendTo (conn : TcpConn) (cmd : ℕ) (buffer : List UInt8) (addr : SockaddrIn) :
    List UInt8 × ℤ :=
  let pl := addressPackage getByteChecksum addr cmd buffer
  let sent := tcpWrite conn (packageBuffer pl) (packageSize pl)
  (sent, writeResult sent)

/-- `cmd_udpp_read_cb` on the UDP socket `wFd`: what is written, with the descriptor. -/
def cmdUdppReadCbOn (conns : ℤ → TcpConn) (tp : KsnTCPProxyClass) (wFd : ℤ) (datagram : List UInt8)
    (remaddr : SockaddrIn) : List (ℤ × List UInt8) :=
  let received := datagram.take ksnBufferDbSize
  if received.length > 0 then
    let pl := addressPackage getByteChecksum remaddr cmdTcppProxy received
    match tp.map.get wFd with
    | some tpd =>
      [(tpd.tcpProxyFd, tcpWrite (conns tpd.tcpProxyFd) (packageBuffer pl) (packageSize pl))]
    | none => []
  else []

end Code

/-! ### Sizes -/

/-- The size of the package for a datagram. -/
def addressPackageLength (addr : SockaddrIn) (data : List UInt8) : ℕ :=
  tcpProxyHeaderSize + ((inetNtoa addr).length + 1) + data.length

variable {getByteChecksum : List UInt8 → UInt8} {conn : TcpConn} {addr : SockaddrIn} {cmd : ℕ}
  {data : List UInt8}

/-- A package that fits its buffer is made; one that does not is the error `-2`. -/
theorem addressPackage_cases (getByteChecksum : List UInt8 → UInt8) (addr : SockaddrIn) (cmd : ℕ)
    (data : List UInt8) :
    (addressPackageLength addr data ≤ ksnBufferDbSize ∧
      ∃ package, addressPackage getByteChecksum addr cmd data = .ok package ∧
        package.length = addressPackageLength addr data) ∨
    (ksnBufferDbSize < addressPackageLength addr data ∧
      addressPackage getByteChecksum addr cmd data = .error .data) := by
  have hlen := length_inetNtoa_le addr
  have haddr : (UInt8.ofNat ((inetNtoa addr).length + 1)).toNat = (inetNtoa addr).length + 1 := by
    rw [Bytes.toNat_ofNat, Nat.mod_eq_of_lt (by omega)]
  unfold addressPackage ksnTCPProxyPackageCreate
  rw [if_neg (by decide)]
  dsimp only
  rw [haddr]
  change _ ∨ (_ ∧ (if ksnBufferDbSize < addressPackageLength addr data then _ else _) = _)
  rcases Nat.lt_or_ge ksnBufferDbSize (addressPackageLength addr data) with hlt | hge
  · exact .inr ⟨hlt, if_pos hlt⟩
  · refine .inl ⟨hge, _, if_neg (Nat.not_lt.mpr hge), ?_⟩
    simp only [addressPackageLength, tcpProxyHeaderSize, List.length_cons, List.length_append,
      List.length_take, CString.toBuf_length, Bytes.le_length, List.length_nil]
    omega

/-- The whole package was written, or nothing. -/
def WholeOrNothing (pl : Except PackageError (List UInt8)) (sent : List UInt8) : Prop :=
  pl = .ok sent ∨ sent = []

/-- A package of `size` bytes that fits its buffer finds room for all of its bytes or for none; for
one that does not fit, the platform writes nothing when it is asked for `2^64 - 2` bytes. -/
def RoomFor (conn : TcpConn) (size : ℕ) : Prop :=
  if size ≤ ksnBufferDbSize then conn.accepts = 0 ∨ size ≤ conn.accepts else conn.beyond = []

instance (conn : TcpConn) (size : ℕ) : Decidable (RoomFor conn size) := by
  unfold RoomFor
  infer_instance

/-- One `write`. -/
theorem tcpWrite_whole_iff (getByteChecksum : List UInt8 → UInt8) (conn : TcpConn)
    (addr : SockaddrIn) (cmd : ℕ) (data : List UInt8) :
    WholeOrNothing (addressPackage getByteChecksum addr cmd data)
        (tcpWrite conn (packageBuffer (addressPackage getByteChecksum addr cmd data))
          (packageSize (addressPackage getByteChecksum addr cmd data))) ↔
      RoomFor conn (addressPackageLength addr data) := by
  unfold WholeOrNothing RoomFor tcpWrite
  rcases addressPackage_cases getByteChecksum addr cmd data with
    ⟨hfits, package, hpl, hlen⟩ | ⟨hlarge, hpl⟩
  · have hpos : 0 < package.length := by
      rw [hlen, addressPackageLength, tcpProxyHeaderSize]
      omega
    have hsize : package.length ≤ ssizeMax := by
      rw [hlen]
      exact hfits.trans (by decide)
    rw [hpl, if_pos hfits, packageBuffer, packageSize, if_pos hsize, ← hlen, Except.ok.injEq,
      eq_comm (a := package), List.take_eq_self_iff, List.take_eq_nil_iff,
      ← List.length_eq_zero_iff (l := package)]
    omega
  · have hcount : ¬ packageSize (.error .data : Except PackageError (List UInt8)) ≤ ssizeMax := by
      decide
    rw [hpl, if_neg (Nat.not_le.mpr hlarge), if_neg hcount]
    exact or_iff_right (fun h => by cases h)

/-- Where the connection takes a whole package at once, and the platform refuses the error codes,
this is `cmdUdppReadCb`. -/
theorem cmdUdppReadCbOn_of_room {conns : ℤ → TcpConn} (tp : KsnTCPProxyClass) (wFd : ℤ)
    (datagram : List UInt8) (addr : SockaddrIn)
    (hroom : ∀ fd, ksnBufferDbSize ≤ (conns fd).accepts ∧ (conns fd).beyond = []) :
    (cmdUdppReadCbOn getByteChecksum conns tp wFd datagram addr).filter (fun w => w.2 ≠ []) =
      cmdUdppReadCb getByteChecksum tp wFd datagram (inetNtoa addr) addr.port.toNat := by
  unfold cmdUdppReadCbOn cmdUdppReadCb
  dsimp only
  split_ifs
  · have hcreate : ∀ received, ksnTCPProxyPackageCreate getByteChecksum ksnBufferDbSize
        (inetNtoa addr) addr.port.toNat cmdTcppProxy received =
          addressPackage getByteChecksum addr cmdTcppProxy received := fun _ => rfl
    rw [hcreate]
    cases tp.map.get wFd with
    | none => rfl
    | some tpd =>
      obtain ⟨haccepts, hbeyond⟩ := hroom tpd.tcpProxyFd
      rcases addressPackage_cases getByteChecksum addr cmdTcppProxy
        (datagram.take ksnBufferDbSize) with ⟨hfits, package, hpl, hlen⟩ | ⟨-, hpl⟩
      · have hsize : package.length ≤ ssizeMax := by
          rw [hlen]
          exact hfits.trans (by decide)
        have hne : package ≠ [] := by
          apply List.ne_nil_of_length_pos
          rw [hlen, addressPackageLength, tcpProxyHeaderSize]
          omega
        have hsent : tcpWrite (conns tpd.tcpProxyFd) package package.length = package := by
          rw [tcpWrite, if_pos hsize]
          exact List.take_of_length_le (by omega)
        rw [hpl]
        simp only [packageBuffer, packageSize, hsent]
        simp [hne]
      · have hcount : ¬ packageSize (.error .data : Except PackageError (List UInt8)) ≤ ssizeMax := by
          decide
        rw [hpl]
        simp [tcpWrite, hcount, hbeyond]
  · rfl

/-- **Whole or nothing**: both functions keep to it exactly where the connection that they write to
has room. -/
theorem writesWhole_iff (getByteChecksum : List UInt8 → UInt8) (datagram : List UInt8)
    (hlen : 1 ≤ datagram.length ∧ datagram.length ≤ ksnBufferDbSize) (addr : SockaddrIn) :
    (∀ conn cmd, WholeOrNothing (addressPackage getByteChecksum addr cmd datagram)
        (ksnTCPProxySendTo getByteChecksum conn cmd datagram addr).1 ↔
      RoomFor conn (addressPackageLength addr datagram)) ∧
    ∀ tp conns wFd,
      (∀ w ∈ cmdUdppReadCbOn getByteChecksum conns tp wFd datagram addr,
        WholeOrNothing (addressPackage getByteChecksum addr cmdTcppProxy datagram) w.2) ↔
      ∀ tpd, tp.map.get wFd = some tpd →
        RoomFor (conns tpd.tcpProxyFd) (addressPackageLength addr datagram) := by
  refine ⟨fun conn cmd => tcpWrite_whole_iff getByteChecksum conn addr cmd datagram,
    fun tp conns wFd => ?_⟩
  unfold cmdUdppReadCbOn
  rw [List.take_of_length_le hlen.2]
  dsimp only
  rw [if_pos (Nat.lt_of_succ_le hlen.1)]
  cases hget : tp.map.get wFd with
  | none => simp
  | some tpd =>
    simp only [List.mem_singleton, forall_eq, Option.some.injEq, forall_eq']
    exact tcpWrite_whole_iff getByteChecksum _ addr cmdTcppProxy datagram

/-- One byte for `1.2.3.4`, on a connection with room for the package of 17 bytes. -/
theorem writesWhole_iff_byte :
    WholeOrNothing (addressPackage sampleEnv.getByteChecksum ⟨1, 2, 3, 4, 9000⟩ cmdTcppProxy [1])
      (ksnTCPProxySendTo sampleEnv.getByteChecksum ⟨17, []⟩ cmdTcppProxy [1]
        ⟨1, 2, 3, 4, 9000⟩).1 :=
  ((writesWhole_iff sampleEnv.getByteChecksum [1] (by decide)
    ⟨1, 2, 3, 4, 9000⟩).1 ⟨17, []⟩ cmdTcppProxy).mpr (by decide)

/-- With room for five bytes, five bytes of the package are written. -/
theorem not_writesWhole :
    ¬ ∀ (getByteChecksum : List UInt8 → UInt8) (datagram : List UInt8) (addr : SockaddrIn)
      (conn : TcpConn) (cmd : ℕ), 1 ≤ datagram.length → datagram.length ≤ ksnBufferDbSize →
      WholeOrNothing (addressPackage getByteChecksum addr cmd datagram)
        (ksnTCPProxySendTo getByteChecksum conn cmd datagram addr).1 := by
  intro h
  have hwhole := h sampleEnv.getByteChecksum [1] ⟨1, 2, 3, 4, 9000⟩ ⟨5, []⟩ cmdTcppProxy
    (by decide) (by decide)
  rcases hwhole with hwhole | hnothing
  · exact absurd hwhole (by decide)
  · exact absurd hnothing (by decide)

end Teonet
